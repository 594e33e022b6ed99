import TemplateLint.Proofs.Builder.Numbering
import TemplateLint.Proofs.Conformance
import TemplateLint.Proofs.Tree.Parts

/-!
# Problems without excluded values

A value that is excluded takes its own problems and those of all that is below
it with it, and nothing else: what its ancestors and its neighbours are reported
for does not depend on it. So the problems with some values excluded are those
with all values, save the ones at a value that is cut off.
-/

namespace TemplateLint

/-- Whether the way from a node down to the node with a number leads over an excluded value; both
ends belong to the way. -/
def Node.cutOff (included : Nat → Bool) (n : Node) (number : Nat) : Bool :=
  n.values.any fun v => !included v.id && (Node.value v).ids.contains number

namespace Node

variable {included : Nat → Bool} {n : Node} {k : Nat}

theorem cutOff_iff : n.cutOff included k = true ↔
    ∃ v ∈ n.values, included v.id = false ∧ k ∈ (Node.value v).ids := by
  simp [cutOff]

theorem mem_ids_of_cutOff (h : n.cutOff included k = true) : k ∈ n.ids := by
  obtain ⟨v, hv, -, hk⟩ := cutOff_iff.mp h
  exact ids_value_subset hv hk

theorem cutOff_property (p : Property) : (property p).cutOff included k =
    ((p.value.map fun v => (value v).cutOff included k).getD false) := by
  unfold cutOff
  rw [values_property]
  cases p.value <;> rfl

/-- The way down from a value leads over the value itself, or on into one of its parts. -/
theorem cutOff_value {v : Value} : (value v).cutOff included k = true ↔
    (included v.id = false ∧ k ∈ (value v).ids) ∨
      ∃ x ∈ v.parts, (value x.2).cutOff included k = true := by
  rw [cutOff_iff, values_value]
  simp only [cutOff_iff, List.mem_cons, List.mem_flatMap]
  constructor
  · rintro ⟨w, rfl | ⟨x, hx, hw⟩, hout, hk⟩
    · exact Or.inl ⟨hout, hk⟩
    · exact Or.inr ⟨x, hx, w, hw, hout, hk⟩
  · rintro (⟨hout, hk⟩ | ⟨x, hx, w, hw, hout, hk⟩)
    · exact ⟨v, Or.inl rfl, hout, hk⟩
    · exact ⟨w, Or.inr ⟨x, hx, hw⟩, hout, hk⟩

/-- One more excluded value cuts off what is below it. -/
theorem cutOff_without (nodup : n.ids.Nodup) {w : Value} (hw : w ∈ n.values) :
    n.cutOff (fun i => included i && i != w.id) k =
      (n.cutOff included k || (value w).ids.contains k) := by
  rw [Bool.eq_iff_iff, Bool.or_eq_true, cutOff_iff, cutOff_iff, List.contains_iff_mem]
  constructor
  · rintro ⟨v, hv, hout, hk⟩
    rcases (Bool.and_eq_false_iff).mp hout with hout | hid
    · exact Or.inl ⟨v, hv, hout, hk⟩
    · have same : v.id = w.id := by simpa using hid
      cases value_eq_of_id nodup hv hw same
      exact Or.inr hk
  · rintro (⟨v, hv, hout, hk⟩ | hk)
    · exact ⟨v, hv, by simp [hout], hk⟩
    · exact ⟨w, hw, by simp, hk⟩

end Node

namespace Conformance

variable {included : Nat → Bool} {s : Schema} {v : Value}

/-- With values excluded, the problems of a value are the others, in their order. -/
theorem problems_filter (nodup : (Node.value v).ids.Nodup) :
    problems included s v =
      (problems everyNode s v).filter fun p => !(Node.value v).cutOff included p.node := by
  induction v using Value.parts_induction generalizing s with
  | value v ih =>
    cases hi : included v.id with
    | false =>
      rw [problems_excluded hi, eq_comm, List.filter_eq_nil_iff]
      intro p hp
      have cut := Node.cutOff_value.mpr (Or.inl ⟨hi, node_mem_ids hp⟩)
      simp [cut]
    | true =>
      -- the way to a number in a part leads over the value, which is included, into that part
      have inPart : ∀ x ∈ v.parts, ∀ k ∈ (Node.value x.2).ids,
          (Node.value v).cutOff included k = (Node.value x.2).cutOff included k := by
        intro x hx k hk
        rw [Bool.eq_iff_iff, Node.cutOff_value]
        constructor
        · rintro (⟨hout, -⟩ | ⟨y, hy, cut⟩)
          · simp [hi] at hout
          · cases Value.part_eq_of_id nodup hy hx (Node.mem_ids_of_cutOff cut) hk
            exact cut
        · exact fun cut => Or.inr ⟨x, hx, cut⟩
      have own : (Node.value v).cutOff included (Node.value v).id = false := by
        rw [Bool.eq_false_iff]
        intro cut
        rcases Node.cutOff_value.mp cut with ⟨hout, -⟩ | ⟨x, hx, cut⟩
        · simp [hi] at hout
        · exact Value.id_not_mem_part nodup hx (Node.mem_ids_of_cutOff cut)
      rw [problems_eq hi, problems_eq rfl, List.filter_append, List.filter_flatMap]
      congr 1
      · refine (List.filter_eq_self.mpr fun p hp => ?_).symm
        obtain ⟨cause, -, rfl⟩ := List.mem_map.mp hp
        simpa using own
      · refine List.flatMap_congr fun x hx => ?_
        cases s.below? x.1 with
        | none => rfl
        | some t =>
          refine (ih x.1 x.2 hx (Value.nodup_part nodup hx)).trans ?_
          refine List.filter_congr fun p hp => ?_
          rw [inPart x hx p.node (node_mem_ids hp)]

/-- The problems of a node are those of the value that it is or has. -/
theorem nodeProblems_property (included : Nat → Bool) (p : Property) :
    nodeProblems included s (.property p) = ((p.value.map (problems included s)).getD []) := by
  have value : (Node.property p).value? = p.value := rfl
  unfold nodeProblems
  rw [value]
  cases p.value <;> rfl

theorem exists_value_node {n : Node} {p : Problem} (h : p ∈ nodeProblems included s n) :
    ∃ v ∈ n.values, p.node = v.id ∧ p.span = v.span := by
  rcases n with v | q
  · exact exists_value (v := v) h
  · rw [nodeProblems_property] at h
    rw [Node.values_property]
    cases hv : q.value with
    | none => simp [hv] at h
    | some v =>
      rw [hv] at h
      exact exists_value (v := v) h

theorem nodeProblems_filter {n : Node} (nodup : n.ids.Nodup) :
    nodeProblems included s n =
      (nodeProblems everyNode s n).filter fun p => !n.cutOff included p.node := by
  rcases n with v | p
  · exact problems_filter nodup
  · rw [nodeProblems_property, nodeProblems_property]
    simp only [Node.cutOff_property]
    cases hv : p.value with
    | none => rfl
    | some v =>
      have inner : (Node.value v).ids.Nodup := by
        rw [Value.property_ids, hv] at nodup
        exact (List.nodup_cons.mp nodup).2
      exact problems_filter inner

end Conformance

namespace Document

open Conformance (everyNode nodeProblems)

section Parsed

variable {source : List Char} {e : Entry}

/-- By way of parents, the places below a node of a template are the numbers of what it holds. -/
theorem descends_iff_mem_ids (he : e ∈ (parse source).1.entries) {k : Nat} :
    Descends (parse source).1.entries e.node.id k ↔ k ∈ e.node.ids := by
  obtain ⟨root, -, hn⟩ := exists_root_of_mem he
  have numbered := numbered_of_root hn
  have place := (getElem?_iff hn numbered).mpr ⟨he, rfl⟩
  rw [descends_iff hn numbered place, ← Node.map_id_entries e.parent e.segment, List.mem_map]

theorem nodup_ids_parse (he : e ∈ (parse source).1.entries) : e.node.ids.Nodup := by
  obtain ⟨root, -, hn⟩ := exists_root_of_mem he
  have nodup := nodup_parse source
  rw [hn] at he nodup
  have inside := (Node.entries_inside he).map (·.node.id)
  rw [Node.map_id_entries] at inside
  exact nodup.sublist inside.sublist

theorem entry_eq_of_id (he : e ∈ (parse source).1.entries) {c : Entry}
    (hc : c ∈ (parse source).1.entries) (h : e.node.id = c.node.id) : e = c :=
  List.inj_on_of_nodup_map (nodup_parse source) he hc h

/-- The values that a node holds are those to which parents lead up to it. -/
theorem mem_values_iff (he : e ∈ (parse source).1.entries) {v : Value} : v ∈ e.node.values ↔
    Descends (parse source).1.entries e.node.id v.id ∧
      ∃ c ∈ (parse source).1.entries, c.node = .value v := by
  rw [descends_iff_mem_ids he]
  constructor
  · intro hv
    refine ⟨Node.id_mem_ids hv, ?_⟩
    have hm := Node.mem_values.mp hv
    rw [← Node.map_node_entries e.parent e.segment] at hm
    obtain ⟨c, hc, hcv⟩ := List.mem_map.mp hm
    exact ⟨c, entries_subset_of_mem he hc, hcv⟩
  · rintro ⟨hid, c, hc, hcv⟩
    rw [← Node.map_id_entries e.parent e.segment] at hid
    obtain ⟨b, hb, hbid⟩ := List.mem_map.mp hid
    have same := entry_eq_of_id (entries_subset_of_mem he hb) hc (hbid.trans (by rw [hcv]; rfl))
    have hm := List.mem_map_of_mem (f := Entry.node) hb
    rw [Node.map_node_entries, same, hcv] at hm
    exact Node.mem_values.mpr hm

end Parsed

/-- Excluding values takes away just the problems at values to which the way from the node that is
checked, down from parent to child, leads over an excluded value or ends at one. All others stay as
they are, in their order. So one more excluded value adds no problem and takes away those at what
it holds. -/
theorem nodeProblems_excluding {source : List Char} {e : Entry}
    (he : e ∈ (parse source).1.entries) (included : Nat → Bool) (s : Schema) :
    let nodes := (parse source).1.entries
    nodeProblems included s e.node =
        (nodeProblems everyNode s e.node).filter (fun p => !e.node.cutOff included p.node) ∧
      (∀ k, e.node.cutOff included k = true ↔ ∃ c ∈ nodes, ∃ v, c.node = .value v ∧
        included v.id = false ∧ Descends nodes e.node.id v.id ∧ Descends nodes v.id k) ∧
      (∀ p ∈ nodeProblems everyNode s e.node,
        ∃ v ∈ e.node.values, p.node = v.id ∧ p.span = v.span) ∧
      (∀ v ∈ e.node.values, nodeProblems (fun i => included i && i != v.id) s e.node =
        (nodeProblems included s e.node).filter fun p => !(Node.value v).ids.contains p.node) ∧
      e.node.ids.Nodup := by
  intro nodes
  have nodup := nodup_ids_parse he
  have filtered (included : Nat → Bool) : nodeProblems included s e.node =
      (nodeProblems everyNode s e.node).filter fun p => !e.node.cutOff included p.node :=
    Conformance.nodeProblems_filter nodup
  refine ⟨filtered included, ?_, fun p hp => Conformance.exists_value_node hp, ?_, nodup⟩
  · intro k
    rw [Node.cutOff_iff]
    constructor
    · rintro ⟨v, hv, hout, hk⟩
      obtain ⟨hdown, c, hc, hcv⟩ := (mem_values_iff he).mp hv
      have hid : c.node.id = v.id := by
        rw [hcv]
        rfl
      rw [← hcv, ← descends_iff_mem_ids hc, hid] at hk
      exact ⟨c, hc, v, hcv, hout, hdown, hk⟩
    · rintro ⟨c, hc, v, hcv, hout, hdown, hk⟩
      have hid : c.node.id = v.id := by
        rw [hcv]
        rfl
      rw [← hid, descends_iff_mem_ids hc, hcv] at hk
      exact ⟨v, (mem_values_iff he).mpr ⟨hdown, c, hc, hcv⟩, hout, hk⟩
  · intro v hv
    rw [filtered, filtered included, List.filter_filter]
    refine List.filter_congr fun p _ => ?_
    rw [Node.cutOff_without nodup hv]
    cases e.node.cutOff included p.node <;> simp

/-- An array is excluded, with its items; the object around it is checked as before, and so is the
value beside it. -/
theorem nodeProblems_excluding_array :
    let source := "\x7b\"a\": [1, \"x\"], \"b\": 2\x7d".toList
    let booleans : Schema := { Schema.empty with type := some (.single "boolean") }
    let s : Schema := { Schema.empty with
      properties := some [("a", { Schema.empty with items := some booleans }), ("b", booleans)],
      required := some ["c"] }
    ∃ e ∈ (parse source).1.entries, e.node.id = 0 ∧
      (nodeProblems everyNode s e.node).map (·.node) = [0, 3, 4, 6] ∧
      (nodeProblems (· != 2) s e.node).map (·.node) = [0, 6] ∧
      nodeProblems (· != 2) s e.node =
        (nodeProblems everyNode s e.node).filter (fun p => !e.node.cutOff (· != 2) p.node) := by
  intro source booleans s
  have found : (parse source).1.entries.head?.map (fun e => (e.node.id,
      (nodeProblems everyNode s e.node).map (·.node),
      (nodeProblems (· != 2) s e.node).map (·.node))) = some (0, [0, 3, 4, 6], [0, 6]) := by
    decide +kernel
  obtain ⟨e, hhead, hfound⟩ := Option.map_eq_some_iff.mp found
  have he := List.mem_of_head? hhead
  obtain ⟨filtered, -⟩ := nodeProblems_excluding he (· != 2) s
  simp only [Prod.mk.injEq] at hfound
  obtain ⟨hid, hall, hsome⟩ := hfound
  exact ⟨e, he, hid, hall, hsome, filtered⟩

end Document

end TemplateLint
