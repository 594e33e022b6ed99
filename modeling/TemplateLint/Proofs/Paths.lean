import TemplateLint.Proofs.Builder.Numbering
import TemplateLint.Proofs.Tree.Heights

/-!
# Paths and chains of parents

Every node has a path, which is read off the chain of its parents, and a path
that is looked up leads to a node it is the path of. Only the first property
with a key is stepped to, so what is behind another one is not found; all other
properties and items are, also in a tree with repeated keys and missing values.
The parents and steps are those that are stored while a text is read
(`Descent.parse_returns`).
-/

namespace TemplateLint

namespace Value

/-- No property of the value before this one has its key. -/
def IsFirst (v : Value) (p : Property) : Prop :=
  ∃ before after, v.properties? = some (before ++ p :: after) ∧ ∀ q ∈ before, q.key ≠ p.key

/-- A step is taken to whatever the value lists under it, except to a property behind another one
with the same key. -/
theorem step?_eq_some_iff {v : Value} {s : Segment} {n : Node} : v.step? s = some n ↔
    (s, n) ∈ (Node.value v).steps ∧ ∀ p, n = .property p → v.IsFirst p := by
  rcases v with ⟨id, span, ps⟩ | ⟨id, span, vs⟩ | ⟨id, span, content⟩
  · constructor
    · intro h
      cases s with
      | index position => cases h
      | key name =>
        obtain ⟨p, hp, rfl⟩ := Option.map_eq_some_iff.mp h
        obtain ⟨hkey, before, after, rfl, hbefore⟩ := List.find?_eq_some_iff_append.mp hp
        have hkey : p.key = name := by simpa using hkey
        subst hkey
        refine ⟨List.mem_map_of_mem (f := fun p : Property => (Segment.key p.key, Node.property p))
          (List.mem_append_right before List.mem_cons_self), ?_⟩
        rintro _ ⟨⟩
        exact ⟨before, after, rfl, by simpa using hbefore⟩
    · rintro ⟨hs, first⟩
      obtain ⟨p, -, hp⟩ := List.mem_map.mp hs
      cases hp
      obtain ⟨before, after, hps, hbefore⟩ := first p rfl
      have hfind : ps.find? (·.key = p.key) = some p := by
        rw [Option.some.inj hps, List.find?_eq_some_iff_append]
        exact ⟨by simp, before, after, rfl, by simpa using hbefore⟩
      exact congrArg (Option.map Node.property) hfind
  · constructor
    · intro h
      cases s with
      | key name => cases h
      | index position =>
        obtain ⟨v, hv, rfl⟩ := Option.map_eq_some_iff.mp h
        have hmem : (v, position) ∈ vs.zipIdx := List.mk_mem_zipIdx_iff_getElem?.mpr hv
        refine ⟨List.mem_map_of_mem
          (f := fun x : Value × Nat => (Segment.index x.2, Node.value x.1)) hmem, ?_⟩
        rintro _ ⟨⟩
    · rintro ⟨hs, -⟩
      obtain ⟨⟨v, position⟩, hv, he⟩ := List.mem_map.mp hs
      cases he
      exact congrArg (Option.map Node.value) (List.mk_mem_zipIdx_iff_getElem?.mp hv)
  · constructor
    · intro h
      cases s <;> cases h
    · rintro ⟨hs, -⟩
      cases hs

end Value

namespace Node

theorem follow?_snoc (n : Node) (path : List Segment) (s : Segment) :
    n.follow? (path ++ [s]) = ((n.follow? path).bind value?).bind (Value.step? s) := by
  induction path generalizing n with
  | nil =>
    change (n.value?.bind fun v => (v.step? s).bind some) = n.value?.bind (Value.step? s)
    simp
  | cons t rest ih =>
    change (n.value?.bind fun v => (v.step? t).bind fun m => m.follow? (rest ++ [s])) =
      ((n.value?.bind fun v => (v.step? t).bind fun m => m.follow? rest).bind value?).bind _
    simp only [ih, Option.bind_assoc]

end Node

/-- The entry is an item of an array. -/
def Entry.IsItem (nodes : List Entry) (e : Entry) : Prop :=
  ∃ a ∈ nodes, e.parent = some a.node.id ∧ ∃ id span items, a.node = .value (.array id span items)

/-- If the entry is a property, it is the first one of its object with its key. -/
def Entry.FirstOfKey (nodes : List Entry) (e : Entry) : Prop :=
  ∀ p, e.node = .property p → ∀ o ∈ nodes, e.parent = some o.node.id →
    ∀ v, o.node = .value v → v.IsFirst p

/-- The steps from the root to an entry, read off the chain of its parents. A property and its value
count once. -/
def pathAlong : Entry → List Entry → List Segment
  | _, [] => []
  | e, p :: above => pathAlong p above ++ if p.node.isProperty then [] else e.segment.toList

namespace Ancestors

variable {root : Node} {nodes : List Entry} (hn : nodes = root.entries none none)
  (numbered : root.ids = List.range nodes.length)

include hn

/-- Only the entry of the root has no parent. -/
theorem eq_root {e : Entry} (he : e ∈ nodes) (hnone : e.parent = none) : e.node = root := by
  rcases Node.exists_lists (hn ▸ he) with rfl | ⟨p, -, hparent, -⟩
  · rfl
  · rw [hnone] at hparent
    cases hparent

/-- The chain of an entry goes on to what its node lists. -/
theorem step {p : Entry} {above : List Entry} (h : Ancestors nodes p above) {s : Segment}
    {m : Node} (hm : (s, m) ∈ p.node.steps) :
    Ancestors nodes ⟨some p.node.id, some s, m⟩ (p :: above) := by
  refine .child ?_ rfl h
  have hp := h.mem
  rw [hn] at hp ⊢
  exact Node.mem_entries_step hp hm

/-- The value that an entry is or has can be reached by the same path. -/
theorem exists_value {e : Entry} {above : List Entry} (h : Ancestors nodes e above)
    (first : ∀ c ∈ e :: above, c.FirstOfKey nodes) {v : Value} (hv : e.node.value? = some v) :
    ∃ c others, Ancestors nodes c others ∧ c.node = .value v ∧
      pathAlong c others = pathAlong e above ∧ ∀ d ∈ c :: others, d.FirstOfKey nodes := by
  rcases he : e.node with w | q
  · rw [he] at hv
    cases hv
    exact ⟨e, above, h, he, rfl, first⟩
  · have hvalue : q.value = some v := by
      rw [he] at hv
      exact hv
    have hs : (Segment.key q.key, Node.value v) ∈ e.node.steps := by
      rw [he]
      simp [Node.steps, hvalue]
    refine ⟨_, e :: above, h.step hn hs, rfl, ?_, ?_⟩
    · simp [pathAlong, he, Node.isProperty]
    · intro d hd
      rcases List.mem_cons.mp hd with rfl | hd
      · rintro _ ⟨⟩
      · exact first d hd

include numbered

/-- An entry has one chain of parents only. -/
theorem unique {e : Entry} {above other : List Entry} (h : Ancestors nodes e above)
    (ho : Ancestors nodes e other) : above = other := by
  induction h generalizing other with
  | root he hnone =>
    cases ho with
    | root => rfl
    | child _ hparent =>
      rw [hnone] at hparent
      cases hparent
  | child he hparent habove ih =>
    cases ho with
    | root _ hnone =>
      rw [hnone] at hparent
      cases hparent
    | child _ hother hchain =>
      have same := eq_of_id hn numbered habove.mem hchain.mem
        (Option.some.inj (hparent.symm.trans hother))
      subst same
      rw [ih hchain]

/-- The parent that a chain names lists the entry. -/
theorem lists {e p : Entry} {above : List Entry} (h : Ancestors nodes e (p :: above)) :
    Node.Lists p e := by
  cases h with
  | child he hparent habove =>
    exact lists_of_parent hn numbered ((getElem?_iff hn numbered).mpr ⟨habove.mem, rfl⟩)
      ((getElem?_iff hn numbered).mpr ⟨he, rfl⟩) hparent

/-! ### From a path to the chain -/

theorem firstOfKey_step {p : Entry} (hp : p ∈ nodes) {v : Value} (hv : p.node = .value v)
    {s : Segment} {m : Node} (first : ∀ q, m = .property q → v.IsFirst q) :
    Entry.FirstOfKey nodes ⟨some p.node.id, some s, m⟩ := by
  intro q hq o ho hparent w hw
  have same := eq_of_id hn numbered hp ho (Option.some.inj hparent)
  subst same
  cases hv.symm.trans hw
  exact first q hq

/-- What a path leads to has that path, and only properties that are the first with their key are
passed on the way. -/
theorem exists_of_follow? {path : List Segment} {n : Node} (h : root.follow? path = some n) :
    ∃ e above, Ancestors nodes e above ∧ e.node = n ∧ pathAlong e above = path ∧
      (∀ c ∈ e :: above, c.FirstOfKey nodes) ∧
      (path ≠ [] → n.isProperty = true ∨ e.IsItem nodes) := by
  induction path using List.reverseRecOn generalizing n with
  | nil =>
    cases h
    have top : (⟨none, none, root⟩ : Entry) ∈ nodes := by
      rw [hn]
      exact Node.mem_entries_self none none root
    refine ⟨_, [], .root top rfl, rfl, rfl, ?_, fun hne => absurd rfl hne⟩
    intro c hc
    cases List.mem_singleton.mp hc
    intro p hp o ho hparent
    cases hparent
  | append_singleton path s ih =>
    rw [Node.follow?_snoc] at h
    obtain ⟨v, hv, hstep⟩ := Option.bind_eq_some_iff.mp h
    obtain ⟨m, hm, hvalue⟩ := Option.bind_eq_some_iff.mp hv
    obtain ⟨e, above, hchain, rfl, hpath, hfirst, -⟩ := ih hm
    obtain ⟨p, others, hp, hpv, hsame, hall⟩ := hchain.exists_value hn hfirst hvalue
    obtain ⟨hs, first⟩ := Value.step?_eq_some_iff.mp hstep
    refine ⟨⟨some p.node.id, some s, n⟩, p :: others, hp.step hn (hpv ▸ hs), rfl, ?_, ?_,
      fun _ => ?_⟩
    · simp [pathAlong, hsame, hpath, hpv, Node.isProperty]
    · intro c hc
      rcases List.mem_cons.mp hc with rfl | hc
      · exact firstOfKey_step hn numbered hp.mem hpv first
      · exact hall c hc
    · rcases v with ⟨id, span, ps⟩ | ⟨id, span, vs⟩ | ⟨id, span, content⟩
      · obtain ⟨q, -, hq⟩ := List.mem_map.mp hs
        cases hq
        exact Or.inl rfl
      · exact Or.inr ⟨p, hp.mem, rfl, id, span, vs, hpv⟩
      · cases hs

/-! ### From the chain to the node -/

/-- From the value that a chain names the step to the entry is taken, unless another property
stands before it. -/
theorem follow?_child {e p : Entry} {above : List Entry} (h : Ancestors nodes e (p :: above))
    (first : e.FirstOfKey nodes) {v : Value} (hv : p.node = .value v)
    (reached : (root.follow? (pathAlong p above)).bind Node.value? = some v) :
    root.follow? (pathAlong e (p :: above)) = some e.node := by
  obtain ⟨hparent, s, hs, hstep⟩ := h.lists hn numbered
  have hp : p ∈ nodes := by
    cases h with
    | child _ _ habove => exact habove.mem
  have hpath : pathAlong e (p :: above) = pathAlong p above ++ [s] := by
    simp [pathAlong, hv, hs, Node.isProperty]
  rw [hpath, Node.follow?_snoc, reached, Option.bind_some, Value.step?_eq_some_iff]
  exact ⟨hv ▸ hstep, fun q hq => first q hq p hp hparent v hv⟩

/-- Where every property is the first with its key, the path leads to the value of the entry. -/
theorem value?_follow? {e : Entry} {above : List Entry} (h : Ancestors nodes e above)
    (first : ∀ c ∈ e :: above, c.FirstOfKey nodes) :
    (root.follow? (pathAlong e above)).bind Node.value? = e.node.value? := by
  induction h with
  | root he hnone =>
    rw [eq_root hn he hnone]
    rfl
  | @child e p above he hparent habove ih =>
    have reached := ih fun c hc => first c (List.mem_cons_of_mem e hc)
    have chain := Ancestors.child he hparent habove
    rcases hp : p.node with v | q
    · rw [hp] at reached
      rw [chain.follow?_child hn numbered (first e List.mem_cons_self) hp reached]
      rfl
    · -- the entry is the value of a property, and both have the same path
      obtain ⟨-, s, -, hstep⟩ := chain.lists hn numbered
      rw [hp] at reached hstep
      obtain ⟨w, hw, he⟩ := Option.map_eq_some_iff.mp (Option.mem_toList.mp hstep)
      have hnode : e.node = .value w := (congrArg Prod.snd he).symm
      have hpath : pathAlong e (p :: above) = pathAlong p above := by
        simp [pathAlong, hp, Node.isProperty]
      rw [hpath, reached, hnode]
      exact hw

/-- So it leads to the entry itself, if that is a property or an item. -/
theorem follow?_path {e : Entry} {above : List Entry} (h : Ancestors nodes e above)
    (first : ∀ c ∈ e :: above, c.FirstOfKey nodes)
    (addressed : e.node.isProperty = true ∨ e.IsItem nodes) :
    root.follow? (pathAlong e above) = some e.node := by
  cases h with
  | root he hnone =>
    rw [eq_root hn he hnone]
    rfl
  | @child _ p above he hparent habove =>
    have chain := Ancestors.child he hparent habove
    have reached := habove.value?_follow? hn numbered fun c hc =>
      first c (List.mem_cons_of_mem e hc)
    obtain ⟨v, hv⟩ : ∃ v, p.node = .value v := by
      rcases addressed with hproperty | ⟨a, ha, hitem, id, span, items, hnode⟩
      · obtain ⟨-, s, -, hstep⟩ := chain.lists hn numbered
        rcases hq : e.node with w | q
        · rw [hq] at hproperty
          cases hproperty
        · rw [hq] at hstep
          obtain ⟨⟨id, span, ps, ho⟩, -⟩ := Node.step_to_property hstep
          exact ⟨_, ho⟩
      · have same := eq_of_id hn numbered ha habove.mem
          (Option.some.inj (hitem.symm.trans hparent))
        subst same
        exact ⟨_, hnode⟩
    rw [hv] at reached
    exact chain.follow?_child hn numbered (first e List.mem_cons_self) hv reached

end Ancestors

namespace Document

/-- The tree of any text, with faults or without. Every node has one chain of parents. What a path
of one step or more finds is a property or an item, and the path is the one that its parents tell.
In turn every property and every item is found by its path if all properties on its chain are the
first of their objects with their keys, and the value found is that of the property, or the item
itself. -/
theorem find?_inverts_chains (source : List Char) :
    (∀ e ∈ (parse source).1.entries, ∃! above, Ancestors (parse source).1.entries e above) ∧
      (∀ path n, path ≠ [] → (parse source).1.find? path = some n →
        ∃ e above, Ancestors (parse source).1.entries e above ∧ e.node = n ∧
          (n.isProperty = true ∨ e.IsItem (parse source).1.entries) ∧ pathAlong e above = path ∧
            ∀ c ∈ e :: above, c.FirstOfKey (parse source).1.entries) ∧
      ∀ e above, Ancestors (parse source).1.entries e above →
        (e.node.isProperty = true ∨ e.IsItem (parse source).1.entries) →
          (∀ c ∈ e :: above, c.FirstOfKey (parse source).1.entries) →
            (parse source).1.find? (pathAlong e above) = some e.node ∧
              (parse source).1.value? (pathAlong e above) = e.node.value? := by
  refine ⟨fun e he => ?_, fun path n hne hfind => ?_, fun e above chain addressed first => ?_⟩
  · obtain ⟨root, -, hn⟩ := exists_root_of_mem he
    have numbered := numbered_of_root hn
    obtain ⟨above, habove⟩ := Ancestors.exists_of_mem hn numbered he
    exact ⟨above, habove, fun other hother => hother.unique hn numbered habove⟩
  · obtain ⟨root, hroot, hfollow⟩ := Option.bind_eq_some_iff.mp hfind
    have hn := entries_of_root hroot
    obtain ⟨e, above, chain, hnode, hpath, first, addressed⟩ :=
      Ancestors.exists_of_follow? hn (numbered_of_root hn) hfollow
    exact ⟨e, above, chain, hnode, addressed hne, hpath, first⟩
  · obtain ⟨root, hroot, hn⟩ := exists_root_of_mem chain.mem
    have found : (parse source).1.find? (pathAlong e above) = some e.node := by
      rw [find?, hroot]
      exact chain.follow?_path hn (numbered_of_root hn) first addressed
    refine ⟨found, ?_⟩
    rw [value?, found]
    rfl

/-- What is in the second value of a key is not found, so the condition cannot be left out. -/
example : ((parse "\x7b\"a\": 1, \"a\": [2]\x7d".toList).1.find? [.key "a", .index 0]).isNone := by
  decide +kernel

end Document

end TemplateLint
