import Mathlib.Data.List.Flatten
import Mathlib.Data.List.Nodup
import TemplateLint.Proofs.Tree.Events

/-!
# Well-formed lists of nodes

A tree can be kept as the list of its nodes, in which parents and children are
named by their places in the list. Such a list is well formed when the names
fit together: it is a single tree, in which a node stands before all that is
below it. The entries of a tree form such a list as soon as the nodes are
numbered in their order.
-/

namespace TemplateLint

/-- A place below another one, or the same: parents lead from the one to the other. -/
inductive Descends (nodes : List Entry) (i : Nat) : Nat → Prop where
  | self : Descends nodes i i
  | child {j k : Nat} {e : Entry} : Descends nodes i j → nodes[k]? = some e → e.parent = some j →
      Descends nodes i k

structure WellListed (root : Option Value) (nodes : List Entry) : Prop where
  /-- A node's number is its place. -/
  numbered : ∀ (i : Nat) (e : Entry), nodes[i]? = some e → e.node.id = i
  root_iff : root.isSome = true ↔ nodes ≠ []
  /-- The root stands first, and no step leads to it. -/
  root_first : ∀ v, root = some v → nodes[0]? = some ⟨none, none, .value v⟩
  only_root : ∀ (i : Nat) (e : Entry), nodes[i]? = some e → (e.parent = none ↔ i = 0)
  /-- Every other node stands behind its parent, which lists it once. -/
  parent : ∀ (i : Nat) (e : Entry), nodes[i]? = some e → 0 < i →
    ∃ j p, e.parent = some j ∧ j < i ∧ nodes[j]? = some p ∧ p.node.children.count i = 1
  /-- What a node lists has it for a parent. -/
  child : ∀ (i : Nat) (e : Entry), nodes[i]? = some e → ∀ j ∈ e.node.children,
    ∃ c, nodes[j]? = some c ∧ c.parent = some i
  /-- The children of objects are properties, and no others are. -/
  object_child : ∀ (i j : Nat) (e c : Entry), nodes[i]? = some e → nodes[j]? = some c →
    c.parent = some i →
    ((∃ id span ps, e.node = .value (.object id span ps)) ↔ ∃ p, c.node = .property p)
  property_segment : ∀ (i : Nat) (e : Entry) (p : Property), nodes[i]? = some e →
    e.node = .property p → e.segment = some (.key p.key) ∧
      ∀ (j : Nat) (c : Entry), nodes[j]? = some c → c.parent = some i →
        c.segment = some (.key p.key)
  item_segment : ∀ (i : Nat) (e : Entry) (id : Nat) (span : Span) (items : List Value),
    nodes[i]? = some e → e.node = .value (.array id span items) →
      ∀ (k j : Nat), e.node.children[k]? = some j →
        ∃ c, nodes[j]? = some c ∧ c.segment = some (Segment.index k)
  /-- What is below a node follows it without a gap. -/
  subtree : ∀ i < nodes.length, ∃ stop, i < stop ∧ stop ≤ nodes.length ∧
    ∀ j, Descends nodes i j ↔ i ≤ j ∧ j < stop

namespace Node

/-- A node lists another: it is the parent, and one of its steps leads there. -/
def Lists (e c : Entry) : Prop :=
  c.parent = some e.node.id ∧ ∃ s, c.segment = some s ∧ (s, c.node) ∈ e.node.steps

theorem step_to_property {n : Node} {s : Segment} {p : Property} (h : (s, property p) ∈ n.steps) :
    (∃ id span ps, n = .value (.object id span ps)) ∧ s = .key p.key := by
  rcases n with (⟨id, span, ps⟩ | ⟨id, span, vs⟩ | ⟨id, span, content⟩) | q
  · obtain ⟨q, -, hq⟩ := List.mem_map.mp h
    cases hq
    exact ⟨⟨id, span, ps, rfl⟩, rfl⟩
  · obtain ⟨x, -, hx⟩ := List.mem_map.mp h
    cases hx
  · cases h
  · cases hv : q.value <;> simp [steps, hv] at h

theorem step_of_property {s : Segment} {m : Node} {p : Property} (h : (s, m) ∈ (property p).steps) :
    s = .key p.key := by
  obtain ⟨v, -, hv⟩ := Option.map_eq_some_iff.mp (Option.mem_toList.mp h)
  exact (congrArg Prod.fst hv).symm

theorem step_to_item {id : Nat} {span : Span} {items : List Value} {k j : Nat}
    (h : (value (.array id span items)).children[k]? = some j) :
    ∃ v : Value, (Segment.index k, value v) ∈ (value (.array id span items)).steps ∧ v.id = j := by
  obtain ⟨v, hv, hj⟩ := Option.map_eq_some_iff.mp ((List.getElem?_map ..).symm.trans h)
  have hk : (v, k) ∈ items.zipIdx := List.mk_mem_zipIdx_iff_getElem?.mpr hv
  exact ⟨v, List.mem_map_of_mem (f := fun x : Value × Nat => (Segment.index x.2, value x.1)) hk, hj⟩

theorem mem_entries_self (parent : Option Nat) (segment : Option Segment) (n : Node) :
    ⟨parent, segment, n⟩ ∈ n.entries parent segment := by
  rw [entries_eq]
  exact List.mem_cons_self

theorem entries_inside {parent : Option Nat} {segment : Option Segment} {n : Node} {e : Entry}
    (he : e ∈ n.entries parent segment) :
    e.node.entries e.parent e.segment <:+: n.entries parent segment := by
  induction n using Node.induction generalizing parent segment with
  | node n ih =>
    rw [entries_eq] at he
    rcases List.mem_cons.mp he with rfl | he
    · exact List.infix_rfl
    obtain ⟨⟨s, m⟩, hm, he⟩ := List.mem_flatMap.mp he
    rw [entries_eq parent segment n]
    refine ((ih s m hm he).trans ?_).trans (List.suffix_cons _ _).isInfix
    exact List.infix_of_mem_flatten (List.mem_map_of_mem hm)

/-- What a node steps to is listed with it. -/
theorem mem_entries_step {parent : Option Nat} {segment : Option Segment} {n : Node} {e : Entry}
    (he : e ∈ n.entries parent segment) {s : Segment} {m : Node} (hm : (s, m) ∈ e.node.steps) :
    ⟨some e.node.id, some s, m⟩ ∈ n.entries parent segment := by
  apply (entries_inside he).subset
  rw [entries_eq]
  exact List.mem_cons_of_mem _ (List.mem_flatMap.mpr ⟨(s, m), hm, mem_entries_self ..⟩)

/-- Every entry but the first has a parent that lists it. -/
theorem exists_lists {parent : Option Nat} {segment : Option Segment} {n : Node} {c : Entry}
    (hc : c ∈ n.entries parent segment) :
    c = ⟨parent, segment, n⟩ ∨ ∃ e ∈ n.entries parent segment, Lists e c := by
  induction n using Node.induction generalizing parent segment with
  | node n ih =>
    have hc' := hc
    rw [entries_eq] at hc'
    rcases List.mem_cons.mp hc' with rfl | hc'
    · exact Or.inl rfl
    obtain ⟨⟨s, m⟩, hm, hcm⟩ := List.mem_flatMap.mp hc'
    rcases ih s m hm hcm with rfl | ⟨e, he, hl⟩
    · exact Or.inr ⟨_, mem_entries_self parent segment n, rfl, s, rfl, hm⟩
    · have inside := entries_inside (mem_entries_step (mem_entries_self parent segment n) hm)
      exact Or.inr ⟨e, inside.subset he, hl⟩

theorem map_id_entries (parent : Option Nat) (segment : Option Segment) (n : Node) :
    (n.entries parent segment).map (·.node.id) = n.ids := by
  rw [ids, ← map_node_entries parent segment, List.map_map]
  rfl

end Node

/-! ## Numbered trees -/

section Numbered

variable {parent : Option Nat} {segment : Option Segment} {root : Node} {nodes : List Entry}
  (hn : nodes = root.entries none none) (numbered : root.ids = List.range nodes.length)

include hn

theorem first_entry : nodes[0]? = some ⟨none, none, root⟩ := by
  rw [hn, Node.entries_eq]
  rfl

include numbered

/-- In a numbered tree the entry at a place is the one with that number. -/
theorem getElem?_iff {i : Nat} {e : Entry} :
    nodes[i]? = some e ↔ e ∈ nodes ∧ e.node.id = i := by
  have ids : nodes.map (·.node.id) = List.range nodes.length := by
    rw [← numbered, hn, Node.map_id_entries]
  have place : ∀ (j : Nat) (e : Entry), nodes[j]? = some e → e.node.id = j := by
    intro j e h
    have hj : j < nodes.length := (List.getElem?_eq_some_iff.mp h).1
    have same : (nodes.map (·.node.id))[j]? = (List.range nodes.length)[j]? := by rw [ids]
    rw [List.getElem?_map, h, List.getElem?_range hj] at same
    exact Option.some.inj same
  constructor
  · intro h
    exact ⟨List.mem_of_getElem? h, place i e h⟩
  · rintro ⟨he, rfl⟩
    obtain ⟨j, hj⟩ := List.mem_iff_getElem?.mp he
    rwa [place j e hj]

theorem eq_of_id {e c : Entry} (he : e ∈ nodes) (hc : c ∈ nodes) (h : e.node.id = c.node.id) :
    e = c := by
  have h1 := (getElem?_iff hn numbered).mpr ⟨he, h⟩
  have h2 := (getElem?_iff hn numbered).mpr ⟨hc, rfl⟩
  exact Option.some.inj (h1.symm.trans h2)

/-- The numbers of a node and of all that is below it follow each other without a gap. -/
theorem subtree_ids {e : Entry} (he : e ∈ nodes) :
    e.node.ids = List.range' e.node.id e.node.ids.length ∧ 0 < e.node.ids.length ∧
      e.node.id + e.node.ids.length ≤ nodes.length := by
  have hi := (Node.entries_inside (hn ▸ he)).map (·.node.id)
  rw [Node.map_id_entries, Node.map_id_entries, numbered] at hi
  obtain ⟨before, after, hs⟩ := hi
  rw [List.range_eq_range', eq_comm, List.range'_eq_append_iff] at hs
  obtain ⟨k, hk, hfront, -⟩ := hs
  rw [eq_comm, List.range'_eq_append_iff] at hfront
  obtain ⟨l, hl, -, hids⟩ := hfront
  have hlen : e.node.ids.length = k - l := by simp [hids]
  have hcons : e.node.ids = e.node.id :: _ := Node.ids_eq e.node
  have hpos : 0 < k - l := by
    rw [← hlen, hcons]
    exact Nat.succ_pos _
  have hid : e.node.id = l := by
    have hhead := congrArg List.head? (hcons.symm.trans hids)
    rw [List.head?_range'] at hhead
    simpa [Nat.sub_ne_zero_of_lt (Nat.lt_of_sub_pos hpos)] using hhead
  refine ⟨?_, by omega, by omega⟩
  rw [hlen, hid]
  simpa using hids

theorem lists_lt {e c : Entry} (he : e ∈ nodes) (hl : Node.Lists e c) : e.node.id < c.node.id := by
  obtain ⟨-, s, -, hs⟩ := hl
  have hids := (subtree_ids hn numbered he).1
  have hc : c.node.id ∈ e.node.ids.tail := by
    rw [Node.ids_eq]
    refine List.mem_flatMap.mpr ⟨(s, c.node), hs, ?_⟩
    rw [Node.ids_eq]
    exact List.mem_cons_self
  rw [hids, List.tail_range', List.mem_range'_1] at hc
  omega

/-- A node lists nothing twice. -/
theorem nodup_children {e : Entry} (he : e ∈ nodes) : e.node.children.Nodup := by
  have hids := (subtree_ids hn numbered he).1
  have nodup : e.node.ids.Nodup := hids ▸ List.nodup_range'
  rw [Node.ids_eq] at nodup
  rw [Node.children_eq_steps]
  refine (List.nodup_cons.mp nodup).2.sublist ?_
  rw [List.map_eq_flatMap]
  refine List.Sublist.flatMap_right _ fun x _ => ?_
  rw [Node.ids_eq]
  exact List.singleton_sublist.mpr List.mem_cons_self

/-- The parent of an entry lists it. -/
theorem lists_of_parent {i j : Nat} {e c : Entry} (he : nodes[i]? = some e)
    (hc : nodes[j]? = some c) (hp : c.parent = some i) : Node.Lists e c := by
  obtain ⟨hmem, hi⟩ := (getElem?_iff hn numbered).mp he
  have hcm := ((getElem?_iff hn numbered).mp hc).1
  rcases Node.exists_lists (hn ▸ hcm) with rfl | ⟨q, hq, hl⟩
  · cases hp
  · have hid : q.node.id = e.node.id := by
      have := Option.some.inj (hl.1.symm.trans hp)
      omega
    rwa [← eq_of_id hn numbered (hn ▸ hq) hmem hid]

/-- Below a place stand the entries of its node, and no others. -/
theorem descends_iff {i j : Nat} {e : Entry} (he : nodes[i]? = some e) :
    Descends nodes i j ↔ ∃ c ∈ e.node.entries e.parent e.segment, c.node.id = j := by
  obtain ⟨hmem, hi⟩ := (getElem?_iff hn numbered).mp he
  have inside := (Node.entries_inside (hn ▸ hmem)).subset
  rw [← hn] at inside
  constructor
  · intro h
    induction h with
    | self => exact ⟨e, Node.mem_entries_self .., hi⟩
    | child _ hk hp ih =>
      rename_i k c _
      obtain ⟨p, hpe, hpid⟩ := ih
      obtain ⟨hc, hcid⟩ := (getElem?_iff hn numbered).mp hk
      have hpk := (getElem?_iff hn numbered).mpr ⟨inside hpe, hpid⟩
      obtain ⟨-, s, -, hs⟩ := lists_of_parent hn numbered hpk hk hp
      exact ⟨_, Node.mem_entries_step hpe hs, hcid⟩
  · -- by induction on the number: a parent has a smaller one than what it lists
    rintro ⟨c, hc, rfl⟩
    induction hk : c.node.id using Nat.strongRecOn generalizing c with
    | ind k ih =>
      subst hk
      rcases Node.exists_lists hc with rfl | ⟨p, hp, hpc, s, hs, hsc⟩
      · exact hi ▸ .self
      · have hlt := lists_lt hn numbered (inside hp) ⟨hpc, s, hs, hsc⟩
        exact .child (ih _ hlt p hp rfl) ((getElem?_iff hn numbered).mpr ⟨inside hc, rfl⟩) hpc

/-! ### The parts of a well-formed list -/

theorem exists_lists_of_pos {i : Nat} {e : Entry} (he : nodes[i]? = some e) (hpos : 0 < i) :
    ∃ p ∈ nodes, Node.Lists p e := by
  obtain ⟨hmem, hi⟩ := (getElem?_iff hn numbered).mp he
  rcases Node.exists_lists (hn ▸ hmem) with rfl | ⟨p, hp, hl⟩
  · have hzero := ((getElem?_iff hn numbered).mp (first_entry hn)).2
    omega
  · exact ⟨p, hn ▸ hp, hl⟩

theorem parent_eq_none_iff {i : Nat} {e : Entry} (he : nodes[i]? = some e) :
    e.parent = none ↔ i = 0 := by
  rcases Nat.eq_zero_or_pos i with rfl | hpos
  · rw [first_entry hn] at he
    cases he
    simp
  · obtain ⟨p, -, hl⟩ := exists_lists_of_pos hn numbered he hpos
    simp [hl.1, Nat.ne_of_gt hpos]

theorem exists_parent {i : Nat} {e : Entry} (he : nodes[i]? = some e) (hpos : 0 < i) :
    ∃ j p, e.parent = some j ∧ j < i ∧ nodes[j]? = some p ∧ p.node.children.count i = 1 := by
  obtain ⟨p, hp, hl⟩ := exists_lists_of_pos hn numbered he hpos
  have hi := ((getElem?_iff hn numbered).mp he).2
  have hlt := lists_lt hn numbered hp hl
  obtain ⟨hparent, s, -, hs⟩ := hl
  have once : p.node.children.count i = 1 := by
    refine List.count_eq_one_of_mem (nodup_children hn numbered hp) ?_
    rw [Node.children_eq_steps, ← hi]
    exact List.mem_map_of_mem (f := fun x : Segment × Node => x.2.id) hs
  exact ⟨p.node.id, p, hparent, by omega, (getElem?_iff hn numbered).mpr ⟨hp, rfl⟩, once⟩

theorem exists_child {i j : Nat} {e : Entry} (he : nodes[i]? = some e)
    (hj : j ∈ e.node.children) : ∃ c, nodes[j]? = some c ∧ c.parent = some i := by
  obtain ⟨hmem, hi⟩ := (getElem?_iff hn numbered).mp he
  rw [Node.children_eq_steps] at hj
  obtain ⟨⟨s, m⟩, hs, rfl⟩ := List.mem_map.mp hj
  have listed := Node.mem_entries_step (hn ▸ hmem) hs
  exact ⟨_, (getElem?_iff hn numbered).mpr ⟨hn ▸ listed, rfl⟩, by rw [hi]⟩

theorem is_object_iff_property {i j : Nat} {e c : Entry} (he : nodes[i]? = some e)
    (hc : nodes[j]? = some c) (hp : c.parent = some i) :
    (∃ id span ps, e.node = .value (.object id span ps)) ↔ ∃ p, c.node = .property p := by
  obtain ⟨-, s, -, hs⟩ := lists_of_parent hn numbered he hc hp
  constructor
  · rintro ⟨id, span, ps, ho⟩
    rw [ho] at hs
    obtain ⟨p, -, hpc⟩ := List.mem_map.mp hs
    exact ⟨p, (congrArg Prod.snd hpc).symm⟩
  · rintro ⟨p, hpc⟩
    rw [hpc] at hs
    exact (Node.step_to_property hs).1

theorem segment_of_property {i : Nat} {e : Entry} {p : Property} (he : nodes[i]? = some e)
    (hpos : 0 < i) (hp : e.node = .property p) : e.segment = some (.key p.key) := by
  obtain ⟨q, -, -, s, hs, hsp⟩ := exists_lists_of_pos hn numbered he hpos
  rw [hp] at hsp
  rw [hs, (Node.step_to_property hsp).2]

theorem segment_below_property {i j : Nat} {e c : Entry} {p : Property} (he : nodes[i]? = some e)
    (hp : e.node = .property p) (hc : nodes[j]? = some c) (hparent : c.parent = some i) :
    c.segment = some (.key p.key) := by
  obtain ⟨-, s, hs, hsc⟩ := lists_of_parent hn numbered he hc hparent
  rw [hp] at hsc
  rw [hs, Node.step_of_property hsc]

theorem exists_item {i : Nat} {e : Entry} {id : Nat} {span : Span} {items : List Value}
    (he : nodes[i]? = some e) (ha : e.node = .value (.array id span items)) {k j : Nat}
    (hj : e.node.children[k]? = some j) :
    ∃ c, nodes[j]? = some c ∧ c.segment = some (.index k) := by
  obtain ⟨hmem, -⟩ := (getElem?_iff hn numbered).mp he
  rw [ha] at hj
  obtain ⟨v, hv, rfl⟩ := Node.step_to_item hj
  have listed := Node.mem_entries_step (hn ▸ hmem) (ha ▸ hv)
  exact ⟨_, (getElem?_iff hn numbered).mpr ⟨hn ▸ listed, rfl⟩, rfl⟩

theorem exists_subtree_stop {i : Nat} (hi : i < nodes.length) :
    ∃ stop, i < stop ∧ stop ≤ nodes.length ∧ ∀ j, Descends nodes i j ↔ i ≤ j ∧ j < stop := by
  obtain ⟨e, he⟩ : ∃ e, nodes[i]? = some e := ⟨_, List.getElem?_eq_getElem hi⟩
  obtain ⟨hmem, hid⟩ := (getElem?_iff hn numbered).mp he
  obtain ⟨hids, hpos, hle⟩ := subtree_ids hn numbered hmem
  refine ⟨i + e.node.ids.length, by omega, by omega, fun j => ?_⟩
  have hm : (∃ c ∈ e.node.entries e.parent e.segment, c.node.id = j) ↔ j ∈ e.node.ids := by
    rw [← Node.map_id_entries e.parent e.segment, List.mem_map]
  rw [descends_iff hn numbered he, hm, ← hid]
  conv_lhs => rw [hids]
  exact List.mem_range'_1

end Numbered

/-- Where there is no root there are no nodes. -/
theorem wellListed_none : WellListed none [] := by
  constructor <;> simp

/-- A tree whose nodes are numbered in their order has a well-formed list of nodes. -/
theorem wellListed_of_numbered (root : Value)
    (numbered : (Node.value root).ids = List.range (root.entries none none).length) :
    WellListed (some root) (root.entries none none) := by
  have hn : root.entries none none = (Node.value root).entries none none := rfl
  have first := first_entry hn
  generalize root.entries none none = nodes at hn numbered first ⊢
  have later {i : Nat} {e : Entry} {p : Property} (he : nodes[i]? = some e)
      (hp : e.node = .property p) : 0 < i := by
    rcases Nat.eq_zero_or_pos i with rfl | hpos
    · rw [first] at he
      cases he
      cases hp
    · exact hpos
  exact
    { numbered := fun _ _ he => ((getElem?_iff hn numbered).mp he).2
      root_iff := by simpa using fun h => by simp [h] at first
      root_first := fun v hv => by rw [first, Option.some.inj hv]
      only_root := fun _ _ he => parent_eq_none_iff hn numbered he
      parent := fun _ _ he hpos => exists_parent hn numbered he hpos
      child := fun _ _ he _ hj => exists_child hn numbered he hj
      object_child := fun _ _ _ _ he hc hp => is_object_iff_property hn numbered he hc hp
      property_segment := fun _ _ _ he hp =>
        ⟨segment_of_property hn numbered he (later he hp) hp,
          fun _ _ hc hparent => segment_below_property hn numbered he hp hc hparent⟩
      item_segment := fun _ _ _ _ _ he ha _ _ hj => exists_item hn numbered he ha hj
      subtree := fun _ hi => exists_subtree_stop hn numbered hi }

end TemplateLint
