import TemplateLint.Conformance.Validator
import TemplateLint.Proofs.Causes
import TemplateLint.Proofs.Exclusion
import TemplateLint.Proofs.Segments

/-!
# What validation adds to a result

A validator leaves the problems that it is handed where they are and adds those
of the node behind them. They come in the order of the nodes they belong to, so
those of a node come before those of what is below it.
-/

namespace TemplateLint

namespace Validator

open Conformance

/-! ## Adding -/

/-- Work that adds the diagnostics of problems to any result, and does nothing else. -/
def Adds (work : Adding) (problems : List Problem) : Prop :=
  ∀ found, work.run found = ((), found ++ problems.map Problem.diagnostic)

theorem adds_pure : Adds (pure ()) [] := by
  intro found
  rw [List.map_nil, List.append_nil]
  rfl

theorem Adds.bind {work more : Adding} {ps qs : List Problem} (h : Adds work ps)
    (h' : Adds more qs) : Adds (do work; more) (ps ++ qs) := by
  intro found
  rw [StateT.run_bind, h found, List.map_append, ← List.append_assoc]
  exact h' _

variable {included : Nat → Bool} {s : Schema}

theorem problemsAt_append (n : Node) (cs ds : List Problem.Cause) :
    problemsAt n (cs ++ ds) = problemsAt n cs ++ problemsAt n ds :=
  List.map_append

theorem adds_demand (n : Node) (met : Bool) (cause : Problem.Cause) :
    Adds (demand n met cause) (problemsAt n (require met cause)) := by
  cases met with
  | true => exact adds_pure
  | false => exact fun _ => rfl

/-- A demand is made where the schema has the keyword for it. -/
theorem adds_demandOf {α : Type} {n : Node} {keyword : Option α} {met : α → Bool}
    {cause : α → Problem.Cause} {causes : List Problem.Cause} (absent : keyword = none → causes = [])
    (present : ∀ a, keyword = some a → causes = require (met a) (cause a)) :
    Adds (demandOf n keyword met cause) (problemsAt n causes) := by
  cases hk : keyword with
  | none =>
    rw [absent hk]
    exact adds_pure
  | some a =>
    rw [present a hk]
    exact adds_demand n (met a) (cause a)

/-! ## One node -/

theorem adds_validateWhole (n : Node) :
    Adds (validateWhole s n) (problemsAt n (valueCauses s n.toJson?)) := by
  unfold validateWhole valueCauses
  cases n.toJson? with
  | none => exact adds_pure
  | some json =>
    rw [problemsAt_append]
    refine Adds.bind (adds_demandOf ?_ ?_) (adds_demandOf ?_ ?_)
    · exact fun h => by rw [h]
    · exact fun a h => by rw [h]
    · exact fun h => by rw [h]
    · exact fun a h => by rw [h]

theorem adds_validateBase (typeName : String) (n : Node) :
    Adds (validateBase s typeName n) (problemsAt n (commonCauses s typeName n)) := by
  unfold validateBase commonCauses typeCauses
  rw [problemsAt_append]
  refine Adds.bind (adds_demandOf ?_ ?_) ?_
  · exact fun h => by rw [h]
  · exact fun a h => by rw [h]
  · split
    · exact adds_pure
    · exact adds_validateWhole n

theorem adds_validateMinimum (x : Double) (n : Node) :
    Adds (validateMinimum s x n) (problemsAt n (minimumCauses s x)) := by
  unfold validateMinimum minimumCauses
  split
  · exact adds_demandOf (fun h => by rw [h]) fun a h => by rw [h]
  · exact adds_demandOf (fun h => by rw [h]) fun a h => by rw [h]

theorem adds_validateMaximum (x : Double) (n : Node) :
    Adds (validateMaximum s x n) (problemsAt n (maximumCauses s x)) := by
  unfold validateMaximum maximumCauses
  split
  · exact adds_demandOf (fun h => by rw [h]) fun a h => by rw [h]
  · exact adds_demandOf (fun h => by rw [h]) fun a h => by rw [h]

theorem adds_validateSize (x : Double) (n : Node) : Adds (validateSize s x n)
    (problemsAt n (divisorCauses s x ++ (minimumCauses s x ++ maximumCauses s x))) := by
  unfold validateSize divisorCauses
  rw [problemsAt_append, problemsAt_append]
  refine Adds.bind (adds_demandOf ?_ ?_)
    ((adds_validateMinimum x n).bind (adds_validateMaximum x n))
  · exact fun h => by rw [h]
  · exact fun a h => by rw [h]

theorem adds_validateNumber (x : Double) (isInteger : Bool) (n : Node) :
    Adds (validateNumber included s x isInteger n) (numberProblems included s x isInteger n) := by
  unfold validateNumber numberProblems
  split
  · rw [numberCauses, problemsAt_append]
    refine (adds_validateBase _ n).bind ?_
    unfold sizeCauses
    split
    · exact adds_pure
    · rw [List.append_assoc]
      exact adds_validateSize x n
  · exact adds_pure

theorem adds_validateRequired (names : List String) (ps : List Property) (n : Node) :
    Adds (validateRequired names ps n) (problemsAt n ((names.filter fun name =>
      !ps.any (·.key = name)).map .missingProperty)) := by
  unfold validateRequired
  induction names with
  | nil => exact adds_pure
  | cons name rest ih =>
    rw [List.forM_cons]
    have both := (adds_demand n (ps.any (·.key = name)) (.missingProperty name)).bind ih
    rw [← problemsAt_append] at both
    cases hmet : ps.any (·.key = name) with
    | true => simpa [require, hmet] using both
    | false => simpa [require, hmet] using both

/-! ## Trees -/

/-- A value that is left out adds nothing. -/
theorem adds_included {id : Nat} {work : Adding} {ps : List Problem} (h : Adds work ps) :
    Adds (if included id then work else pure ()) (if included id then ps else []) := by
  split
  · exact h
  · exact adds_pure

mutual

theorem adds_validateValue (s : Schema) :
    (v : Value) → Adds (validateValue included s v) (problems included s v)
  | .object id span ps => by
    rw [validateValue, problems]
    refine adds_included ?_
    change Adds _ (problemsAt _ (commonCauses s "object" _ ++ missingCauses s ps) ++ _)
    rw [problemsAt_append, List.append_assoc]
    exact (adds_validateBase "object" _).bind
      ((adds_validateRequired _ ps _).bind (adds_validateProperties s ps))
  | .array id span items => by
    rw [validateValue, problems]
    refine adds_included ((adds_validateBase "array" _).bind ?_)
    cases s.items with
    | none => exact adds_pure
    | some t => exact adds_validateItems t items
  | .scalar id span (.number x isInteger) => by
    rw [validateValue, problems]
    exact adds_validateNumber x isInteger _
  | .scalar id span (.string text) => by
    rw [validateValue, problems]
    exact adds_included (adds_validateBase "string" _)
  | .scalar id span (.boolean value) => by
    rw [validateValue, problems]
    exact adds_included (adds_validateBase "boolean" _)
  | .scalar id span .null => by
    rw [validateValue, problems]
    exact adds_included (adds_validateBase "null" _)

theorem adds_validateProperties (s : Schema) : (ps : List (PropertyOf Value)) →
    Adds (validateProperties included s ps) (propertyProblems included s ps)
  | [] => adds_pure
  | ⟨_, _, _, _, none⟩ :: rest => adds_validateProperties s rest
  | ⟨_, _, key, _, some v⟩ :: rest => by
    rw [validateProperties, propertyProblems]
    refine Adds.bind ?_ (adds_validateProperties s rest)
    cases s.property? key with
    | none => exact adds_pure
    | some t => exact adds_validateValue t v

theorem adds_validateItems (s : Schema) :
    (vs : List Value) → Adds (validateItems included s vs) (itemProblems included s vs)
  | [] => adds_pure
  | v :: rest => (adds_validateValue s v).bind (adds_validateItems s rest)

end

/-- Validation adds the problems of a node, and nothing else, whatever has been found before. -/
theorem adds_validateNode (s : Schema) (n : Node) :
    Adds (validateNode included s n) (nodeProblems included s n) := by
  unfold validateNode nodeProblems
  cases n.value? with
  | none => exact adds_pure
  | some v => exact adds_validateValue s v

end Validator

namespace Conformance

variable {included : Nat → Bool} {s : Schema}

/-- The problems of a value come in the order of the nodes that they belong to. -/
theorem problems_nodes_sorted {v : Value} (ordered : (Node.value v).ids.Pairwise (· ≤ ·)) :
    (problems included s v).Pairwise fun p q => p.node ≤ q.node := by
  induction v using Value.parts_induction generalizing s with
  | value v ih =>
    cases hi : included v.id with
    | false =>
      rw [problems_excluded hi]
      exact List.Pairwise.nil
    | true =>
      obtain ⟨first, rest⟩ := List.pairwise_cons.mp (ordered.sublist v.ids_parts_sublist)
      obtain ⟨inside, apart⟩ := List.pairwise_flatMap.mp rest
      have under : ∀ x ∈ v.parts, ∀ p ∈ problemsUnder included (s.below? x.1) x.2,
          p.node ∈ (Node.value x.2).ids := by
        intro x hx p hp
        cases hs : s.below? x.1 with
        | none => simp [problemsUnder, hs] at hp
        | some t =>
          rw [hs] at hp
          exact node_mem_ids hp
      rw [problems_eq hi]
      refine List.pairwise_append.mpr ⟨?_, List.pairwise_flatMap.mpr ⟨?_, ?_⟩, ?_⟩
      · exact List.pairwise_map.mpr (List.pairwise_of_forall fun _ _ => Nat.le_refl _)
      · intro x hx
        cases s.below? x.1 with
        | none => exact List.Pairwise.nil
        | some t => exact ih x.1 x.2 hx (inside x hx)
      · refine apart.imp_of_mem fun {x y} hx hy hxy p hp q hq => ?_
        exact hxy _ (under x hx p hp) _ (under y hy q hq)
      · intro p hp q hq
        obtain ⟨cause, -, rfl⟩ := List.mem_map.mp hp
        obtain ⟨x, hx, hq⟩ := List.mem_flatMap.mp hq
        exact first _ (List.mem_flatMap.mpr ⟨x, hx, under x hx q hq⟩)

theorem severity_of_mem_nodeProblems {n : Node} {p : Problem} (h : p ∈ nodeProblems included s n) :
    p.cause.severity = .error := by
  unfold nodeProblems at h
  split at h
  · exact severity_of_mem_problems h
  · cases h

end Conformance

theorem Node.value?_mem_nodes {n : Node} {v : Value} (h : n.value? = some v) :
    .value v ∈ n.nodes := by
  rcases n with w | p
  · cases h
    exact self_mem_nodes _
  · have hv : p.value = some v := h
    have hm : (Segment.key p.key, Node.value v) ∈ (property p).steps := by simp [steps, hv]
    exact (nodes_step_inside hm).subset (self_mem_nodes _)

namespace Document

open Conformance (nodeProblems)

variable {source : List Char} {e : Entry}

theorem inOrder_of_mem (he : e ∈ (parse source).1.entries) : e.node.InOrder := by
  obtain ⟨root, hroot, hentries⟩ := exists_root_of_mem he
  rw [hentries] at he
  exact (Builder.build_inOrder hroot).1.of_mem (List.mem_map_of_mem he)

/-- The numbers below a node of a text come in order. -/
theorem sorted_ids_of_mem (he : e ∈ (parse source).1.entries) :
    e.node.ids.Pairwise (· ≤ ·) := by
  obtain ⟨root, -, hn⟩ := exists_root_of_mem he
  have sorted : (Node.value root).ids.Pairwise (· ≤ ·) := by
    rw [← Node.map_id_entries none none, ← hn, ids_parse]
    exact List.pairwise_le_range
  rw [hn] at he
  have inside := (Node.entries_inside he).map (·.node.id)
  rw [Node.map_id_entries, Node.map_id_entries] at inside
  exact sorted.sublist inside.sublist

/-- What is below a node of a text has a larger number. -/
theorem le_of_descends {i j : Nat} (he : e ∈ (parse source).1.entries) (hi : e.node.id = i)
    (h : Descends (parse source).1.entries i j) : i ≤ j := by
  subst hi
  have sorted := sorted_ids_of_mem he
  rw [descends_iff_mem_ids he] at h
  rw [Node.ids_eq] at h sorted
  rcases List.mem_cons.mp h with rfl | h
  · exact Nat.le_refl _
  · exact (List.pairwise_cons.mp sorted).1 j h

/-- For any node of any text: validation keeps what has been found before and adds the problems of
the node behind it, whatever the schema and whichever nodes take part. Each of them is an error with
a rule and has one label, the span of a value among the node and what is below it. None starts
before those in front of it, and none belongs to a node above that of one in front of it. -/
theorem validation_appends (he : e ∈ (parse source).1.entries) (included : Nat → Bool) (s : Schema)
    (found : List Diagnostic) :
    let nodes := (parse source).1.entries
    let added := nodeProblems included s e.node
    (Validator.validateNode included s e.node).run found =
        ((), found ++ added.map Problem.diagnostic) ∧
      (∀ p ∈ added, p.diagnostic.severity = .error ∧ p.diagnostic.rule = some p.cause.rule ∧
        ∃ v ∈ e.node.values, p.node = v.id ∧ p.diagnostic.labels = [⟨"", v.span⟩]) ∧
      InDocumentOrder (added.map Problem.diagnostic) ∧
      added.Pairwise fun p q => Descends nodes q.node p.node → q.node = p.node := by
  intro nodes added
  refine ⟨Validator.adds_validateNode s e.node found, fun p hp => ?_, ?_, ?_⟩
  · obtain ⟨v, hv, hnode, hspan⟩ := Conformance.exists_value_node hp
    refine ⟨Conformance.severity_of_mem_nodeProblems hp, rfl, v, hv, hnode, ?_⟩
    rw [← hspan]
    rfl
  · refine Problem.Sorted.inDocumentOrder ?_
    cases hv : e.node.value? with
    | none => simp [added, nodeProblems, hv, Problem.Sorted]
    | some v =>
      have ordered := (inOrder_of_mem he).of_mem (Node.value?_mem_nodes hv)
      simpa [added, nodeProblems, hv] using Conformance.problems_sorted ordered
  · have sorted : added.Pairwise fun p q => p.node ≤ q.node := by
      cases hv : e.node.value? with
      | none => simp [added, nodeProblems, hv]
      | some v =>
        have inside := (Node.nodes_inside (Node.value?_mem_nodes hv)).map Node.id
        have ordered := (sorted_ids_of_mem he).sublist inside.sublist
        simpa [added, nodeProblems, hv] using Conformance.problems_nodes_sorted ordered
    refine sorted.imp_of_mem fun {p q} hp hq hpq below => ?_
    obtain ⟨v, hv, hnode, -⟩ := Conformance.exists_value_node hq
    obtain ⟨-, c, hc, hcv⟩ := (mem_values_iff he).mp hv
    have hid : c.node.id = q.node := by
      rw [hcv, hnode]
      rfl
    exact Nat.le_antisymm (le_of_descends hc hid below) hpq

/-- An object that is not closed, with a key that is repeated and one without a value, behind a
problem that has been found before. -/
theorem validation_appends_unclosed :
    let source := "\x7b\"b\": [\"x\", 1], \"a\": , \"b\": 2".toList
    let booleans : Schema := { Schema.empty with type := some (.single "boolean") }
    let arrays : Schema := { Schema.empty with
      type := some (.single "array"), items := some booleans }
    let s : Schema := { Schema.empty with
      properties := some [("a", booleans), ("b", arrays)], required := some ["c"] }
    let found := [PlacedFault.diagnostic ⟨.trailingContent, ⟨29, 30⟩⟩]
    ∃ e ∈ (parse source).1.entries, e.node.id = 0 ∧
      (nodeProblems (· != 4) s e.node).map (·.node) = [0, 3, 7] ∧
      (Validator.validateNode (· != 4) s e.node).run found =
        ((), found ++ (nodeProblems (· != 4) s e.node).map Problem.diagnostic) ∧
      InDocumentOrder ((nodeProblems (· != 4) s e.node).map Problem.diagnostic) := by
  intro source booleans arrays s found
  have shown : (parse source).1.entries.head?.map (fun e => (e.node.id,
      (nodeProblems (· != 4) s e.node).map (·.node))) = some (0, [0, 3, 7]) := by
    decide +kernel
  obtain ⟨e, hhead, hshown⟩ := Option.map_eq_some_iff.mp shown
  have he := List.mem_of_head? hhead
  simp only [Prod.mk.injEq] at hshown
  obtain ⟨hid, hnodes⟩ := hshown
  obtain ⟨appends, -, ordered, -⟩ := validation_appends he (· != 4) s found
  exact ⟨e, he, hid, hnodes, appends, ordered⟩

end Document

end TemplateLint
