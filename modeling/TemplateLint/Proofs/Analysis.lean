import TemplateLint.Analysis
import TemplateLint.Proofs.Conformance

/-!
# Resources in the tree

The resources of a template, and what their types are read from, are nodes of
the template's tree. So every problem that an analysis finds belongs to a node
of the tree, save those of the schema itself.
-/

namespace TemplateLint

theorem Value.mem_nodes_member {v w : Value} {key : String} (h : v.member? key = some w) :
    Node.value w ∈ (Node.value v).nodes := by
  unfold member? at h
  obtain ⟨ps, hps, h⟩ := Option.bind_eq_some_iff.mp h
  obtain ⟨p, hp, hw⟩ := Option.bind_eq_some_iff.mp h
  have hmem := List.mem_reverse.mp (List.mem_of_find?_eq_some hp)
  cases v with
  | object id span _ =>
    cases hps
    exact mem_nodes_part (part_of_property _ _ hmem hw)
  | array _ _ _ => cases hps
  | scalar _ _ _ => cases hps

namespace Analysis

theorem mem_nodes_resource {root resource : Value} (h : resource ∈ resources root) :
    Node.value resource ∈ (Node.value root).nodes := by
  obtain ⟨p, hp, hv⟩ := List.mem_filterMap.mp h
  cases hm : root.member? resourcesKey with
  | none => simp [hm] at hp
  | some declared =>
    have inside := (Node.nodes_inside (Value.mem_nodes_member hm)).subset
    rcases declared with ⟨id, span, properties⟩ | ⟨id, span, items⟩ | ⟨id, span, content⟩
    · have hp : p ∈ properties := by simpa [hm, Value.properties?] using hp
      exact inside (Value.mem_nodes_part (Value.part_of_property _ _ hp hv))
    · simp [hm, Value.properties?] at hp
    · simp [hm, Value.properties?] at hp

/-- A problem of a resource is found at one of its nodes. -/
theorem exists_resource_node {s : Schema} {resource : Value} {p : Problem}
    (h : p ∈ resourceProblems s resource) :
    ∃ m ∈ (Node.value resource).nodes, p.node = m.id ∧ p.span = m.span := by
  unfold resourceProblems at h
  split at h
  · cases h
  · rename_i typeValue htype
    split at h
    · cases h
    · split at h
      · exact Conformance.exists_node h
      · split at h
        · cases List.mem_singleton.mp h
          exact ⟨_, Value.mem_nodes_member htype, rfl, rfl⟩
        · cases h

/-- A problem is found at a node of the template, or it is one of the schema and shown at the first
byte of the template's value. -/
theorem exists_node {validateResources : Bool} {s : ResolvedSchema} {root : Value} {p : Problem}
    (h : p ∈ rootProblems validateResources s root) :
    p.span = resolutionSpan root ∨
      ∃ m ∈ (Node.value root).nodes, p.node = m.id ∧ p.span = m.span := by
  unfold rootProblems at h
  rcases List.mem_append.mp h with h | h
  · rcases List.mem_append.mp h with h | h
    · obtain ⟨reason, -, rfl⟩ := List.mem_map.mp h
      exact Or.inl rfl
    · exact Or.inr (Conformance.exists_node h)
  · cases validateResources with
    | false => cases h
    | true =>
      obtain ⟨resource, hr, hp⟩ := List.mem_flatMap.mp h
      obtain ⟨m, hm, hpm⟩ := exists_resource_node hp
      exact Or.inr ⟨m, (Node.nodes_inside (mem_nodes_resource hr)).subset hm, hpm⟩

end Analysis

end TemplateLint
