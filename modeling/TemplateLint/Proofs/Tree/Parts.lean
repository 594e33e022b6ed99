import Mathlib.Data.List.Nodup
import TemplateLint.Proofs.Tree.Events

/-!
# Values below a value

What is below a value can be walked from value to value, with the properties on
the way passed over. The values that stand side by side have no numbers in
common where every node has a number of its own, so a number tells in which of
them it stands.
-/

namespace TemplateLint

namespace Node

/-- The value that a node is. -/
def self? : Node → Option Value
  | value v => some v
  | property _ => none

/-- The values among a node and all that is below it, in the order of the nodes. -/
def values (n : Node) : List Value := n.nodes.filterMap self?

theorem mem_values {n : Node} {v : Value} : v ∈ n.values ↔ value v ∈ n.nodes := by
  unfold values
  rw [List.mem_filterMap]
  constructor
  · rintro ⟨w | p, hm, hv⟩
    · cases hv
      exact hm
    · cases hv
  · intro hm
    exact ⟨_, hm, rfl⟩

/-- The values below a property are those of its value. -/
theorem values_property (p : Property) :
    (property p).values = ((p.value.map fun v => (value v).values).getD []) := by
  have passed : (property p).values = (property p).steps.flatMap fun x => x.2.values := by
    unfold values
    rw [nodes_eq, List.filterMap_cons_none rfl, List.filterMap_flatMap]
  rw [passed]
  cases hv : p.value <;> simp [steps, hv]

/-- A value comes first among its values; those of the values one step below follow. -/
theorem values_value (v : Value) :
    (value v).values = v :: v.parts.flatMap fun x => (value x.2).values := by
  have below : (value v).values = v :: (value v).steps.flatMap fun x => x.2.values := by
    have self : self? (value v) = some v := rfl
    unfold values
    rw [nodes_eq, List.filterMap_cons_some self, List.filterMap_flatMap]
  rw [below]
  clear below
  congr 1
  rcases v with ⟨id, span, ps⟩ | ⟨id, span, vs⟩ | ⟨id, span, content⟩
  · simp only [steps, Value.parts, List.flatMap_map, values_property]
    induction ps with
    | nil => rfl
    | cons p rest ih => cases hv : p.value <;> simp [hv, ih]
  · simp [steps, Value.parts, List.flatMap_map]
  · rfl

/-- The numbers below a value that is below a node are among those of the node. -/
theorem ids_value_subset {n : Node} {v : Value} (h : v ∈ n.values) : (value v).ids ⊆ n.ids :=
  ((nodes_inside (mem_values.mp h)).map id).subset

theorem id_mem_ids {n : Node} {v : Value} (h : v ∈ n.values) : v.id ∈ n.ids :=
  ids_value_subset h (List.mem_map_of_mem (self_mem_nodes _))

/-- Where every node has a number of its own, a number tells which value it belongs to. -/
theorem value_eq_of_id {n : Node} (nodup : n.ids.Nodup) {v w : Value} (hv : v ∈ n.values)
    (hw : w ∈ n.values) (h : v.id = w.id) : v = w := by
  have same := List.inj_on_of_nodup_map nodup (mem_values.mp hv) (mem_values.mp hw) h
  cases same
  rfl

end Node

namespace Value

theorem property_ids (p : Property) : (Node.property p).ids =
    p.id :: ((p.value.map fun v => (Node.value v).ids).getD []) := by
  rw [Node.ids_eq]
  cases hv : p.value <;> simp [Node.steps, hv, Node.id]

/-- The numbers of a value and of the values below it are among its numbers, in their order. -/
theorem ids_parts_sublist (v : Value) :
    (v.id :: v.parts.flatMap fun x => (Node.value x.2).ids).Sublist (Node.value v).ids := by
  rw [Node.ids_eq]
  refine List.Sublist.cons_cons v.id ?_
  rcases v with ⟨id, span, ps⟩ | ⟨id, span, vs⟩ | ⟨id, span, content⟩
  · simp only [parts, Node.steps, List.flatMap_map, property_ids]
    induction ps with
    | nil => exact List.Sublist.refl _
    | cons p rest ih =>
      cases hv : p.value with
      | none => simpa [hv] using ih.cons p.id
      | some v => simpa [hv] using ((List.Sublist.refl (Node.value v).ids).append ih).cons p.id
  · simp [parts, Node.steps, List.flatMap_map]
  · exact List.Sublist.refl _

theorem id_not_mem_part {v w : Value} {s : Segment} (nodup : (Node.value v).ids.Nodup)
    (h : (s, w) ∈ v.parts) : v.id ∉ (Node.value w).ids := by
  intro hm
  have hcons := nodup.sublist v.ids_parts_sublist
  exact (List.nodup_cons.mp hcons).1 (List.mem_flatMap.mpr ⟨(s, w), h, hm⟩)

/-- Numbers that two parts have in common make them the same part. -/
theorem part_eq_of_id {v : Value} (nodup : (Node.value v).ids.Nodup) {x y : Segment × Value}
    (hx : x ∈ v.parts) (hy : y ∈ v.parts) {k : Nat} (hkx : k ∈ (Node.value x.2).ids)
    (hky : k ∈ (Node.value y.2).ids) : x = y := by
  have hcons := nodup.sublist v.ids_parts_sublist
  have hpair := (List.nodup_flatMap.mp (List.nodup_cons.mp hcons).2).2
  refine List.Pairwise.forall_of_forall_of_flip (fun _ _ _ _ _ => rfl) (R := fun a b =>
    ∀ k, k ∈ (Node.value a.2).ids → k ∈ (Node.value b.2).ids → a = b) ?_ ?_ hx hy k hkx hky
  · exact hpair.imp fun hab k hka hkb => False.elim (hab hka hkb)
  · refine hpair.imp fun {a b} hab => ?_
    exact fun k hkb hka => False.elim (hab hka hkb)

theorem nodup_part {v w : Value} {s : Segment} (nodup : (Node.value v).ids.Nodup)
    (h : (s, w) ∈ v.parts) : (Node.value w).ids.Nodup :=
  nodup.sublist ((Node.nodes_inside (mem_nodes_part h)).map Node.id).sublist

end Value

end TemplateLint
