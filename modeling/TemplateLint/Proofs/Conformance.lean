import TemplateLint.Conformance
import TemplateLint.Proofs.Tree.Parts

/-!
# Problems value by value

A value gives its own problems, and then each value one step below gives its
problems with the schema for that step. So what holds of the problems of trees
is shown by induction over values, without a case for objects and arrays.
-/

namespace TemplateLint

namespace Schema

/-- The schema for what is one step below. -/
def below? (s : Schema) : Segment → Option Schema
  | .key name => s.property? name
  | .index _ => s.items

end Schema

namespace Conformance

/-- The problems of a value that may have a schema. -/
def problemsUnder (included : Nat → Bool) (s : Option Schema) (v : Value) : List Problem :=
  match s with
  | some s => problems included s v
  | none => []

theorem propertyProblems_eq (included : Nat → Bool) (s : Schema) (ps : List (PropertyOf Value)) :
    propertyProblems included s ps =
      (ps.filterMap fun p => p.value.map fun v => (Segment.key p.key, v)).flatMap
        fun x => problemsUnder included (s.below? x.1) x.2 := by
  induction ps with
  | nil => rfl
  | cons p rest ih =>
    obtain ⟨id, span, key, keySpan, _ | v⟩ := p
    · simpa [propertyProblems] using ih
    · rw [propertyProblems, ih]
      rfl

theorem itemProblems_eq (included : Nat → Bool) (s : Schema) (vs : List Value) (position : Nat) :
    (match s.items with
      | some t => itemProblems included t vs
      | none => []) =
      ((vs.zipIdx position).map fun x => (Segment.index x.2, x.1)).flatMap
        fun x => problemsUnder included (s.below? x.1) x.2 := by
  simp only [List.flatMap_map, Schema.below?]
  cases s.items with
  | none => simp [problemsUnder]
  | some t =>
    change itemProblems included t vs =
      (vs.zipIdx position).flatMap fun x => problems included t x.1
    induction vs generalizing position with
    | nil => rfl
    | cons v rest ih =>
      rw [itemProblems, ih (position + 1), List.zipIdx_cons]
      rfl

/-- The own problems of a value come first, then those of the values below. -/
theorem problems_eq {included : Nat → Bool} {s : Schema} {v : Value} (h : included v.id = true) :
    problems included s v = ownProblems s v ++
      v.parts.flatMap fun x => problemsUnder included (s.below? x.1) x.2 := by
  rcases v with ⟨id, span, ps⟩ | ⟨id, span, vs⟩ | ⟨id, span, content⟩
  · have hid : included id = true := h
    rw [problems, if_pos hid, propertyProblems_eq]
    rfl
  · have hid : included id = true := h
    rw [problems, if_pos hid]
    exact congrArg (ownProblems s (.array id span vs) ++ ·) (itemProblems_eq included s vs 0)
  · have hid : included id = true := h
    simp [problems, hid, Value.parts]

theorem problems_excluded {included : Nat → Bool} {s : Schema} {v : Value}
    (h : included v.id = false) : problems included s v = [] := by
  rcases v with ⟨id, span, ps⟩ | ⟨id, span, vs⟩ | ⟨id, span, content⟩ <;>
    simp_all [problems, Value.id]

/-- A problem is found at a value, the one that is checked or one below it, and shown at its
span. -/
theorem exists_value {included : Nat → Bool} {s : Schema} {v : Value} {p : Problem}
    (h : p ∈ problems included s v) :
    ∃ w ∈ (Node.value v).values, p.node = w.id ∧ p.span = w.span := by
  induction v using Value.parts_induction generalizing s with
  | value v ih =>
    rw [Node.values_value]
    cases hi : included v.id with
    | false =>
      rw [problems_excluded hi] at h
      cases h
    | true =>
      rw [problems_eq hi] at h
      rcases List.mem_append.mp h with h | h
      · obtain ⟨cause, -, rfl⟩ := List.mem_map.mp h
        exact ⟨v, List.mem_cons_self, rfl, rfl⟩
      · obtain ⟨⟨segment, u⟩, hu, hp⟩ := List.mem_flatMap.mp h
        cases hs : s.below? segment with
        | none => simp [problemsUnder, hs] at hp
        | some t =>
          have hp : p ∈ problems included t u := by simpa [problemsUnder, hs] using hp
          obtain ⟨w, hw, hpw⟩ := ih segment u hu hp
          exact ⟨w, List.mem_cons_of_mem v (List.mem_flatMap.mpr ⟨_, hu, hw⟩), hpw⟩

theorem exists_node {included : Nat → Bool} {s : Schema} {v : Value} {p : Problem}
    (h : p ∈ problems included s v) :
    ∃ m ∈ (Node.value v).nodes, p.node = m.id ∧ p.span = m.span := by
  obtain ⟨w, hw, hpw⟩ := exists_value h
  exact ⟨.value w, Node.mem_values.mp hw, hpw⟩

/-- A problem of a value belongs to one of the value's numbers. -/
theorem node_mem_ids {included : Nat → Bool} {s : Schema} {v : Value} {p : Problem}
    (h : p ∈ problems included s v) : p.node ∈ (Node.value v).ids := by
  obtain ⟨w, hw, hnode, -⟩ := exists_value h
  rw [hnode]
  exact Node.id_mem_ids hw

end Conformance

end TemplateLint
