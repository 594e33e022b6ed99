import Mathlib.Data.List.Basic
import TemplateLint.Tree

/-!
# Nodes below a node

Objects, arrays and properties differ in how they hold what is below them. Seen
through `Node.steps` they are alike: a node, and the nodes one step below it.
The list of entries, an induction over trees and the facts about a node's
descendants are stated in this form, without a case for each kind of node.
-/

namespace TemplateLint

mutual

theorem value_induction {P : Value → Prop}
    (object : ∀ id span ps, (∀ p ∈ ps, ∀ v, p.value = some v → P v) → P (.object id span ps))
    (array : ∀ id span vs, (∀ v ∈ vs, P v) → P (.array id span vs))
    (scalar : ∀ id span content, P (.scalar id span content)) : ∀ v, P v
  | .object id span ps => object id span ps (properties_induction object array scalar ps)
  | .array id span vs => array id span vs (items_induction object array scalar vs)
  | .scalar id span content => scalar id span content

theorem properties_induction {P : Value → Prop}
    (object : ∀ id span ps, (∀ p ∈ ps, ∀ v, p.value = some v → P v) → P (.object id span ps))
    (array : ∀ id span vs, (∀ v ∈ vs, P v) → P (.array id span vs))
    (scalar : ∀ id span content, P (.scalar id span content)) :
    ∀ ps : List (PropertyOf Value), ∀ p ∈ ps, ∀ v, p.value = some v → P v
  | [] => by simp
  | ⟨_, _, _, _, none⟩ :: rest => by
    simpa using properties_induction object array scalar rest
  | ⟨_, _, _, _, some v⟩ :: rest => by
    simpa using ⟨value_induction object array scalar v,
      properties_induction object array scalar rest⟩

theorem items_induction {P : Value → Prop}
    (object : ∀ id span ps, (∀ p ∈ ps, ∀ v, p.value = some v → P v) → P (.object id span ps))
    (array : ∀ id span vs, (∀ v ∈ vs, P v) → P (.array id span vs))
    (scalar : ∀ id span content, P (.scalar id span content)) :
    ∀ vs : List Value, ∀ v ∈ vs, P v
  | [] => by simp
  | v :: rest => by
    simpa using ⟨value_induction object array scalar v, items_induction object array scalar rest⟩

end

namespace Node

/-- The nodes one step below a node, each with the step that leads to it. -/
def steps : Node → List (Segment × Node)
  | value (.object _ _ properties) => properties.map fun p => (.key p.key, property p)
  | value (.array _ _ items) => items.zipIdx.map fun (v, position) => (.index position, value v)
  | value (.scalar _ _ _) => []
  | property p => (p.value.map fun v => (.key p.key, value v)).toList

theorem children_eq_steps (n : Node) : n.children = n.steps.map (·.2.id) := by
  rcases n with (⟨_, _, ps⟩ | ⟨_, _, vs⟩ | ⟨_, _, _⟩) | p
  · simp [children, steps, Function.comp_def, Node.id]
  · have h : vs.zipIdx.map Prod.fst = vs := List.zipIdx_map_fst 0 vs
    calc vs.map Value.id = (vs.zipIdx.map Prod.fst).map Value.id := by rw [h]
      _ = (Node.value (.array _ _ vs)).steps.map (·.2.id) := by
        simp only [steps, List.map_map]
        rfl
  · rfl
  · cases h : p.value <;> simp [children, steps, h, Node.id]

/-- The induction over values, with properties between objects and their values. -/
theorem induction {P : Node → Prop}
    (node : ∀ n : Node, (∀ s m, (s, m) ∈ n.steps → P m) → P n) (n : Node) : P n := by
  have values : ∀ v, P (value v) := by
    intro v
    induction v using value_induction with
    | object id span ps ih =>
      refine node _ fun s m hm => ?_
      obtain ⟨p, hp, hpm⟩ := List.mem_map.mp hm
      cases hpm
      refine node _ fun s m hm => ?_
      simp only [steps, Option.mem_toList, Option.map_eq_some_iff] at hm
      obtain ⟨v, hv, he⟩ := hm
      cases he
      exact ih p hp v hv
    | array id span vs ih =>
      refine node _ fun s m hm => ?_
      obtain ⟨⟨v, i⟩, hv, he⟩ := List.mem_map.mp hm
      cases he
      exact ih v (List.fst_mem_of_mem_zipIdx hv)
    | scalar id span content => exact node _ (by simp [steps])
  cases n with
  | value v => exact values v
  | property p =>
    refine node _ fun s m hm => ?_
    simp only [steps, Option.mem_toList, Option.map_eq_some_iff] at hm
    obtain ⟨v, _, he⟩ := hm
    cases he
    exact values v

/-- The entries of a node and of all that is below it. -/
def entries (parent : Option Nat) (segment : Option Segment) : Node → List Entry
  | value v => v.entries parent segment
  | property p => ⟨parent, segment, property p⟩ ::
      ((p.value.map fun v => v.entries (some p.id) (some (.key p.key))).getD [])

theorem propertyEntries_eq (owner : Nat) (ps : List (PropertyOf Value)) :
    propertyEntries owner ps =
      ps.flatMap fun p => (property p).entries (some owner) (some (.key p.key)) := by
  induction ps with
  | nil => rfl
  | cons p rest ih =>
    obtain ⟨id, span, key, keySpan, _ | v⟩ := p <;> simp [propertyEntries, entries, ih]

theorem itemEntries_eq (owner index : Nat) (vs : List Value) :
    itemEntries owner index vs =
      (vs.zipIdx index).flatMap fun (v, i) => v.entries (some owner) (some (.index i)) := by
  induction vs generalizing index with
  | nil => rfl
  | cons v rest ih => simp [itemEntries, List.zipIdx_cons, ih]

/-- A node comes first among its entries; the nodes one step below follow in their order. -/
theorem entries_eq (parent : Option Nat) (segment : Option Segment) (n : Node) :
    n.entries parent segment =
      ⟨parent, segment, n⟩ :: n.steps.flatMap fun (s, m) => m.entries (some n.id) (some s) := by
  rcases n with (⟨id, span, ps⟩ | ⟨id, span, vs⟩ | ⟨id, span, content⟩) | p
  · simp [entries, Value.entries, steps, propertyEntries_eq, List.flatMap_map, Node.id, Value.id]
  · simp [entries, Value.entries, steps, itemEntries_eq, List.flatMap_map, Node.id, Value.id]
  · simp [entries, Value.entries, steps]
  · cases h : p.value <;> simp [entries, steps, h, Node.id]

/-- A node and all that is below it, in the order of its entries. -/
def nodes (n : Node) : List Node := (n.entries none none).map Entry.node

theorem map_node_entries (parent : Option Nat) (segment : Option Segment) (n : Node) :
    (n.entries parent segment).map Entry.node = n.nodes := by
  unfold nodes
  rw [entries_eq, entries_eq none]
  simp

theorem nodes_eq (n : Node) : n.nodes = n :: n.steps.flatMap fun (_, m) => m.nodes := by
  unfold nodes
  rw [entries_eq]
  simp only [List.map_cons, List.map_flatMap]
  congr 1
  exact List.flatMap_congr fun x _ => map_node_entries _ _ x.2

theorem self_mem_nodes (n : Node) : n ∈ n.nodes := by
  rw [nodes_eq]
  exact List.mem_cons_self

/-- What is below a node one step down is below the node. -/
theorem nodes_step_inside {n m : Node} {s : Segment} (h : (s, m) ∈ n.steps) :
    m.nodes <:+: n.nodes := by
  rw [nodes_eq n]
  refine List.IsInfix.trans ?_ (List.suffix_cons n _).isInfix
  obtain ⟨before, after, hs⟩ := List.append_of_mem h
  rw [hs]
  exact ⟨before.flatMap fun x => x.2.nodes, after.flatMap fun x => x.2.nodes, by simp⟩

/-- The steps hold wherever a node stands, so what they preserve holds all the way down. -/
theorem of_mem_nodes {P : Node → Prop} (below : ∀ n s m, (s, m) ∈ n.steps → P n → P m)
    {n m : Node} (hm : m ∈ n.nodes) (hn : P n) : P m := by
  induction n using Node.induction with
  | node n ih =>
    rw [nodes_eq] at hm
    rcases List.mem_cons.mp hm with rfl | hm
    · exact hn
    · obtain ⟨⟨s, k⟩, hk, hmk⟩ := List.mem_flatMap.mp hm
      exact ih s k hk hmk (below n s k hk hn)

theorem nodes_inside {n m : Node} (h : m ∈ n.nodes) : m.nodes <:+: n.nodes :=
  of_mem_nodes (P := fun k => k.nodes <:+: n.nodes)
    (fun _ _ _ hs hk => (nodes_step_inside hs).trans hk) h List.infix_rfl

end Node

namespace Value

/-- The values one step below a value; properties are passed over. -/
def parts : Value → List (Segment × Value)
  | object _ _ properties => properties.filterMap fun p => p.value.map fun v => (.key p.key, v)
  | array _ _ items => items.zipIdx.map fun (v, position) => (.index position, v)
  | scalar _ _ _ => []

theorem part_of_property (id : Nat) (span : Span) {ps : List Property} {p : Property}
    {v : Value} (hp : p ∈ ps) (hv : p.value = some v) :
    (Segment.key p.key, v) ∈ (object id span ps).parts :=
  List.mem_filterMap.mpr ⟨p, hp, by simp [hv]⟩

theorem part_of_item (id : Nat) (span : Span) {vs : List Value} {v : Value} (hv : v ∈ vs) :
    ∃ position, (Segment.index position, v) ∈ (array id span vs).parts := by
  obtain ⟨position, hget⟩ := List.mem_iff_getElem?.mp hv
  have h : (v, position) ∈ vs.zipIdx := List.mk_mem_zipIdx_iff_getElem?.mpr hget
  exact ⟨position, List.mem_map_of_mem (f := fun x : Value × Nat => (Segment.index x.2, x.1)) h⟩

theorem parts_induction {P : Value → Prop}
    (value : ∀ v : Value, (∀ s w, (s, w) ∈ v.parts → P w) → P v) (v : Value) : P v := by
  induction v using value_induction with
  | object id span ps ih =>
    refine value _ fun s w hw => ?_
    obtain ⟨p, hp, he⟩ := List.mem_filterMap.mp hw
    obtain ⟨_, hv, he⟩ := Option.map_eq_some_iff.mp he
    cases he
    exact ih p hp w hv
  | array id span vs ih =>
    refine value _ fun s w hw => ?_
    obtain ⟨⟨v, i⟩, hv, he⟩ := List.mem_map.mp hw
    cases he
    exact ih w (List.fst_mem_of_mem_zipIdx hv)
  | scalar id span content => exact value _ (by simp [parts])

theorem mem_nodes_part {v w : Value} {s : Segment} (h : (s, w) ∈ v.parts) :
    Node.value w ∈ (Node.value v).nodes := by
  rcases v with ⟨id, span, ps⟩ | ⟨id, span, vs⟩ | ⟨id, span, content⟩
  · obtain ⟨p, hp, he⟩ := List.mem_filterMap.mp h
    obtain ⟨_, hv, he⟩ := Option.map_eq_some_iff.mp he
    cases he
    have inner : (Segment.key p.key, Node.value w) ∈ (Node.property p).steps := by
      simp [Node.steps, hv]
    have outer : (Segment.key p.key, Node.property p) ∈ (Node.value (.object id span ps)).steps :=
      List.mem_map_of_mem hp
    exact (Node.nodes_step_inside outer).subset
      ((Node.nodes_step_inside inner).subset (Node.self_mem_nodes _))
  · obtain ⟨⟨v, i⟩, hv, he⟩ := List.mem_map.mp h
    cases he
    have step : (Segment.index i, Node.value w) ∈ (Node.value (.array id span vs)).steps :=
      List.mem_map_of_mem hv
    exact (Node.nodes_step_inside step).subset (Node.self_mem_nodes _)
  · cases h

end Value

end TemplateLint
