import TemplateLint.Proofs.Builder.Extents
import TemplateLint.Proofs.Validator

/-!
# Rejected properties

A validator asks about values only. A property is passed through to its value
without being asked about, so rejecting the property itself changes nothing:
what is found inside its span is what its value gives with the schema for its
key. Only rejecting the value, or the object around the property, silences it.
-/

namespace TemplateLint

/-- What is not empty and lies in one of two spans that stand side by side does not lie in the
other. -/
theorem Span.encloses_eq_false {a b c : Span} (inside : b.encloses c = true)
    (nonempty : c.start < c.stop) (beside : b.stop ≤ a.start ∨ a.stop ≤ b.start) :
    a.encloses c = false := by
  rw [Bool.eq_false_iff]
  intro within
  have within := encloses_iff.mp within
  have inside := encloses_iff.mp inside
  omega

namespace Node

theorem exists_object {n : Node} {ps : List Property}
    (h : n.self?.bind Value.properties? = some ps) :
    ∃ id span, n = .value (.object id span ps) := by
  rcases n with (⟨id, span, qs⟩ | _ | _) | _
  · cases h
    exact ⟨id, span, rfl⟩
  all_goals cases h

theorem property_mem_steps {id : Nat} {span : Span} {ps : List Property} {p : Property}
    (hp : p ∈ ps) : (Segment.key p.key, property p) ∈ (value (.object id span ps)).steps :=
  List.mem_map_of_mem hp

/-- The numbers of the properties among a node and all that is below it. -/
def propertyIds (n : Node) : List Nat :=
  n.nodes.filterMap fun
    | property p => some p.id
    | value _ => none

theorem mem_propertyIds {n : Node} {i : Nat} :
    i ∈ n.propertyIds ↔ ∃ p, property p ∈ n.nodes ∧ p.id = i := by
  unfold propertyIds
  rw [List.mem_filterMap]
  constructor
  · rintro ⟨v | p, hm, hi⟩
    · cases hi
    · exact ⟨p, hm, Option.some.inj hi⟩
  · rintro ⟨p, hm, hi⟩
    exact ⟨property p, hm, congrArg some hi⟩

end Node

namespace Conformance

variable {included other : Nat → Bool} {s : Schema}

/-- What is answered about anything but values makes no difference. -/
theorem nodeProblems_congr {n : Node} (nodup : n.ids.Nodup)
    (agree : ∀ v ∈ n.values, other v.id = included v.id) :
    nodeProblems other s n = nodeProblems included s n := by
  have cutOff (k : Nat) : n.cutOff other k = n.cutOff included k := by
    rw [Bool.eq_iff_iff, Node.cutOff_iff, Node.cutOff_iff]
    refine exists_congr fun v => and_congr_right fun hv => ?_
    rw [agree v hv]
  have filtered (asked : Nat → Bool) : nodeProblems asked s n =
      (nodeProblems everyNode s n).filter fun p => !n.cutOff asked p.node :=
    nodeProblems_filter nodup
  rw [filtered other, filtered included]
  simp only [cutOff]

/-- The problems that an object gives for one of its properties. -/
def problemsFor (included : Nat → Bool) (s : Schema) (p : Property) : List Problem :=
  ((s.property? p.key).map fun t => nodeProblems included t (.property p)).getD []

theorem propertyProblems_flatMap (ps : List Property) :
    propertyProblems included s ps = ps.flatMap (problemsFor included s) := by
  induction ps with
  | nil => rfl
  | cons p rest ih =>
    obtain ⟨id, span, key, keySpan, _ | v⟩ := p
    · rw [propertyProblems, ih, List.flatMap_cons]
      cases h : s.property? key <;> simp [problemsFor, h, nodeProblems_property]
    · rw [propertyProblems, ih, List.flatMap_cons]
      cases h : s.property? key <;> simp [problemsFor, h, nodeProblems_property]

theorem exists_value_problemsFor {p : Property} {q : Problem}
    (h : q ∈ problemsFor included s p) : ∃ v ∈ (Node.property p).values, q.span = v.span := by
  unfold problemsFor at h
  cases hs : s.property? p.key with
  | none => simp [hs] at h
  | some t =>
    rw [hs] at h
    obtain ⟨v, hv, -, hspan⟩ := exists_value_node h
    exact ⟨v, hv, hspan⟩

end Conformance

namespace Document

open Conformance

section Parsed

variable {source : List Char} {e : Entry} {included : Nat → Bool} {s : Schema}

/-- The values below a node of a text lie inside its span and are not empty. -/
theorem encloses_value (he : e ∈ (parse source).1.entries) {n : Node} (hn : n ∈ e.node.nodes)
    {v : Value} (hv : v ∈ n.values) :
    n.span.encloses v.span = true ∧ v.span.start < v.span.stop := by
  have below := Node.mem_values.mp hv
  refine ⟨((inOrder_of_mem he).of_mem hn).encloses_mem below, ?_⟩
  have hm := (Node.nodes_inside hn).subset below
  obtain ⟨-, c, hc, hcv⟩ := (mem_values_iff he).mp (Node.mem_values.mpr hm)
  have nonempty := start_lt_stop hc
  rw [hcv] at nonempty
  exact nonempty

section Object

variable {id : Nat} {span : Span} {ps : List Property} {p : Property}
  (he : e ∈ (parse source).1.entries) (hnode : e.node = .value (.object id span ps))

include he hnode

/-- What an object gives for a property is shown inside the property. -/
theorem encloses_problem (hp : p ∈ ps) : ∀ x ∈ problemsFor included s p,
    p.span.encloses x.span = true ∧ x.span.start < x.span.stop := by
  intro x hx
  obtain ⟨v, hv, hspan⟩ := exists_value_problemsFor hx
  have step := hnode ▸ Node.property_mem_steps hp
  have below := (Node.nodes_step_inside step).subset (Node.self_mem_nodes _)
  exact hspan ▸ encloses_value he below hv

/-- The problems of an object itself are shown outside its properties, all of which begin later. -/
theorem not_encloses_own (hp : p ∈ ps) :
    ∀ x ∈ ownProblems s (.object id span ps), p.span.encloses x.span = false := by
  intro x hx
  obtain ⟨cause, -, rfl⟩ := List.mem_map.mp hx
  have step := hnode ▸ Node.property_mem_steps hp
  have later := Node.start_lt (before_of_mem he) step
    (Node.start_mem_offsets ((inOrder_of_mem he).step step).first_aligned)
  rw [hnode] at later
  rw [Bool.eq_false_iff]
  exact fun within => Nat.not_le_of_lt later (Span.encloses_iff.mp within).1

/-- Properties that stand on one side of another give nothing that is shown inside it. -/
theorem filter_beside {qs : List Property} (sub : qs ⊆ ps)
    (beside : ∀ q ∈ qs, q.span.stop ≤ p.span.start ∨ p.span.stop ≤ q.span.start) :
    (qs.flatMap (problemsFor included s)).filter (fun x => p.span.encloses x.span) = [] := by
  rw [List.filter_eq_nil_iff]
  intro x hx
  obtain ⟨q, hq, hx⟩ := List.mem_flatMap.mp hx
  obtain ⟨inside, nonempty⟩ := encloses_problem he hnode (sub hq) x hx
  simp [Span.encloses_eq_false inside nonempty (beside q hq)]

/-- What an included object gives inside the span of one of its properties is what it gives for
that property. -/
theorem filter_inside (hp : p ∈ ps) (hid : included id = true) :
    (nodeProblems included s e.node).filter (fun x => p.span.encloses x.span) =
      problemsFor included s p := by
  obtain ⟨before, after, rfl⟩ := List.append_of_mem hp
  have beside := (inOrder_of_mem he).side_by_side
  rw [hnode] at beside
  obtain ⟨-, behind, infront⟩ := List.pairwise_append.mp (List.pairwise_map.mp beside)
  have own : (ownProblems s (.object id span (before ++ p :: after))).filter
      (fun x => p.span.encloses x.span) = [] :=
    List.filter_eq_nil_iff.mpr fun x hx => by simp [not_encloses_own he hnode hp x hx]
  have hbefore : (before.flatMap (problemsFor included s)).filter
      (fun x => p.span.encloses x.span) = [] :=
    filter_beside he hnode (by simp) fun q hq => Or.inl (infront q hq p List.mem_cons_self)
  have hafter : (after.flatMap (problemsFor included s)).filter
      (fun x => p.span.encloses x.span) = [] :=
    filter_beside he hnode (by simp) fun q hq => Or.inr ((List.pairwise_cons.mp behind).1 q hq)
  have all : (problemsFor included s p).filter (fun x => p.span.encloses x.span) =
      problemsFor included s p :=
    List.filter_eq_self.mpr fun x hx => (encloses_problem he hnode hp x hx).1
  have problems : nodeProblems included s e.node =
      ownProblems s (.object id span (before ++ p :: after)) ++
        (before.flatMap (problemsFor included s) ++
          (problemsFor included s p ++ after.flatMap (problemsFor included s))) := by
    rw [hnode]
    change Conformance.problems included s _ = _
    rw [Conformance.problems, if_pos hid, propertyProblems_flatMap, List.flatMap_append,
      List.flatMap_cons]
  simp only [problems, List.filter_append, own, hbefore, hafter, all, List.nil_append,
    List.append_nil]

end Object

end Parsed

/-- Which properties are rejected makes no difference to validation. For an object of any text,
whatever the schema and whichever nodes take part: what is found inside the span of a property is
what the property's value gives with the schema for its key, if the object itself takes part, and
that whether the property is rejected or not. -/
theorem validateNode_rejecting {source : List Char} {e : Entry}
    (he : e ∈ (parse source).1.entries) (included : Nat → Bool) (s : Schema)
    (found : List Diagnostic) :
    let added := nodeProblems included s e.node
    (Validator.validateNode included s e.node).run found =
        ((), found ++ added.map Problem.diagnostic) ∧
      (∀ other : Nat → Bool, (∀ i, other i ≠ included i → i ∈ e.node.propertyIds) →
        (Validator.validateNode other s e.node).run found =
          (Validator.validateNode included s e.node).run found) ∧
      ∀ id span ps, e.node = .value (.object id span ps) → ∀ p ∈ ps,
        added.filter (fun x => p.span.encloses x.span) =
          if included id then
            ((s.property? p.key).map fun t => nodeProblems included t (.property p)).getD []
          else [] := by
  intro added
  have nodup := nodup_ids_parse he
  refine ⟨Validator.adds_validateNode s e.node found, fun other differ => ?_, ?_⟩
  · have agree : ∀ v ∈ e.node.values, other v.id = included v.id := by
      intro v hv
      by_contra different
      obtain ⟨p, hp, hid⟩ := Node.mem_propertyIds.mp (differ v.id different)
      -- numbers are given out once, so the property would be the value
      cases List.inj_on_of_nodup_map nodup hp (Node.mem_values.mp hv) hid
    rw [Validator.adds_validateNode s e.node found, Validator.adds_validateNode s e.node found,
      nodeProblems_congr nodup agree]
  · intro id span ps hnode p hp
    cases hid : included id with
    | true => exact filter_inside he hnode hp hid
    | false =>
      have none : added = [] := by
        have excluded : included (Value.object id span ps).id = false := hid
        simp only [added, hnode]
        exact problems_excluded excluded
      rw [none]
      rfl

/-- Both properties of an object that repeats a key are rejected, and one further down; the object
and what it holds are checked as if they were not. -/
theorem validateNode_rejecting_repeated :
    let source := "\x7b\"a\": \x7b\"b\": 1\x7d, \"a\": \"x\"\x7d".toList
    let booleans : Schema := { Schema.empty with type := some (.single "boolean") }
    let s : Schema := { Schema.empty with
      properties := some [("a", { booleans with properties := some [("b", booleans)] })] }
    let rejecting : Nat → Bool := fun i => !([1, 3, 5] : List Nat).contains i
    ∃ e ∈ (parse source).1.entries, ∃ id span ps, e.node = .value (.object id span ps) ∧
      ps.map (·.id) = [1, 5] ∧
      (Validator.validateNode rejecting s e.node).run [] =
        (Validator.validateNode everyNode s e.node).run [] ∧
      (nodeProblems rejecting s e.node).map (·.node) = [2, 4, 6] ∧
      ∀ p ∈ ps, (nodeProblems rejecting s e.node).filter (fun x => p.span.encloses x.span) =
        ((s.property? p.key).map fun t => nodeProblems rejecting t (.property p)).getD [] := by
  intro source booleans s rejecting
  have shown : (parse source).1.entries.head?.map (fun e =>
      ((e.node.self?.bind Value.properties?).map (·.map (·.id)), e.node.propertyIds,
        rejecting e.node.id, (nodeProblems rejecting s e.node).map (·.node))) =
      some (some [1, 5], [1, 3, 5], true, [2, 4, 6]) := by
    decide +kernel
  obtain ⟨e, hhead, hshown⟩ := Option.map_eq_some_iff.mp shown
  have he := List.mem_of_head? hhead
  simp only [Prod.mk.injEq] at hshown
  obtain ⟨hproperties, hall, htakesPart, hnodes⟩ := hshown
  obtain ⟨ps, hps, hids⟩ := Option.map_eq_some_iff.mp hproperties
  obtain ⟨id, span, hnode⟩ := Node.exists_object hps
  obtain ⟨-, unasked, inside⟩ := validateNode_rejecting he rejecting s []
  refine ⟨e, he, id, span, ps, hnode, hids, (unasked everyNode fun i different => ?_).symm, hnodes,
    fun p hp => ?_⟩
  · rw [hall]
    by_contra outside
    exact different (by simpa [rejecting, everyNode] using outside)
  · have hid : rejecting id = true := by
      rw [hnode] at htakesPart
      exact htakesPart
    rw [inside id span ps hnode p hp, if_pos hid]

/-- A property is rejected, and its value is reported inside its span all the same. -/
theorem rejected_reported :
    let source := "\x7b\"a\":1\x7d".toList
    let strings : Schema := { Schema.empty with type := some (.single "string") }
    let s : Schema := { Schema.empty with properties := some [("a", strings)] }
    let included : Nat → Bool := (· != 1)
    ∃ e ∈ (parse source).1.entries, ∃ id span ps, e.node = .value (.object id span ps) ∧
      ∃ p ∈ ps, included p.id = false ∧
        ∃ x ∈ nodeProblems included s e.node, p.span.encloses x.span = true := by
  intro source strings s included
  have shown : (parse source).1.entries.head?.map (fun e =>
      (e.node.self?.bind Value.properties?).map fun ps => ps.any fun p =>
        !included p.id && (nodeProblems included s e.node).any fun x => p.span.encloses x.span) =
      some (some true) := by
    decide +kernel
  obtain ⟨e, hhead, hshown⟩ := Option.map_eq_some_iff.mp shown
  obtain ⟨ps, hps, hany⟩ := Option.map_eq_some_iff.mp hshown
  obtain ⟨id, span, hnode⟩ := Node.exists_object hps
  obtain ⟨p, hp, hreported⟩ := List.any_eq_true.mp hany
  rw [Bool.and_eq_true, Bool.not_eq_true', List.any_eq_true] at hreported
  exact ⟨e, List.mem_of_head? hhead, id, span, ps, hnode, p, hp, hreported⟩

end Document

end TemplateLint
