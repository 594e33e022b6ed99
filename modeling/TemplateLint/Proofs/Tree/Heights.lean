import TemplateLint.Fault
import TemplateLint.Proofs.Tree.Listing

/-!
# Heights of trees

A value is of some levels if no more containers than that stand in one another
in it. In a tree of so many levels no node has more containers around it, and
the chain of parents from a node to the root passes at most one property for
each of them.
-/

namespace TemplateLint

/-- Containers in the value are nested at most as deep as a number says. -/
inductive Value.Within : Nat → Value → Prop where
  | object {n id : Nat} {span : Span} {ps : List Property} :
      (∀ p ∈ ps, ∀ v, p.value = some v → Within n v) → Within (n + 1) (.object id span ps)
  | array {n id : Nat} {span : Span} {vs : List Value} :
      (∀ v ∈ vs, Within n v) → Within (n + 1) (.array id span vs)
  | scalar {n id : Nat} {span : Span} {content : Scalar} : Within n (.scalar id span content)

namespace Node

/-- Whether a node is an object or an array. -/
def isContainer : Node → Bool
  | value (.object _ _ _) => true
  | value (.array _ _ _) => true
  | _ => false

def isProperty : Node → Bool
  | property _ => true
  | value _ => false

def Within (n : Nat) : Node → Prop
  | value v => v.Within n
  | property p => ∀ v, p.value = some v → v.Within n

/-- A container takes a level, and what is below it may be a property; below a property there is
none. -/
theorem Within.step {n : Nat} {m k : Node} {s : Segment} (h : m.Within n) (hk : (s, k) ∈ m.steps) :
    ∃ below, k.Within below ∧ n = below + m.isContainer.toNat ∧
      k.isProperty.toNat + 1 ≤ 2 * m.isContainer.toNat + m.isProperty.toNat := by
  rcases m with v | p
  · cases h with
    | @object n id span ps below =>
      obtain ⟨p, hp, he⟩ := List.mem_map.mp hk
      cases he
      exact ⟨n, below p hp, rfl, Nat.le_refl _⟩
    | @array n id span vs below =>
      obtain ⟨⟨v, i⟩, hv, he⟩ := List.mem_map.mp hk
      cases he
      exact ⟨n, below v (List.fst_mem_of_mem_zipIdx hv), rfl, Nat.le_succ 1⟩
    | scalar => cases hk
  · obtain ⟨v, hv, he⟩ := Option.map_eq_some_iff.mp (Option.mem_toList.mp hk)
    cases he
    exact ⟨n, h v hv, rfl, Nat.le_refl _⟩

theorem Within.pos_of_isContainer {n : Nat} {m : Node} (h : m.Within n)
    (container : m.isContainer = true) : 0 < n := by
  rcases m with v | p
  · cases h with
    | scalar => cases container
    | _ => exact Nat.succ_pos _
  · cases container

end Node

/-! ## Chains of parents -/

/-- The chain of parents of an entry, from its own parent up to the root. -/
inductive Ancestors (nodes : List Entry) : Entry → List Entry → Prop where
  | root {e : Entry} : e ∈ nodes → e.parent = none → Ancestors nodes e []
  | child {e p : Entry} {above : List Entry} : e ∈ nodes → e.parent = some p.node.id →
      Ancestors nodes p above → Ancestors nodes e (p :: above)

/-- How many of some entries are objects and arrays. -/
def containersAmong (above : List Entry) : Nat := above.countP (·.node.isContainer)

theorem containersAmong_cons (e : Entry) (above : List Entry) :
    containersAmong (e :: above) = containersAmong above + e.node.isContainer.toNat := by
  unfold containersAmong
  cases h : e.node.isContainer <;> simp [h]

namespace Ancestors

variable {root : Node} {nodes : List Entry} (hn : nodes = root.entries none none)
  (numbered : root.ids = List.range nodes.length)

theorem mem {e : Entry} {above : List Entry} (h : Ancestors nodes e above) : e ∈ nodes := by
  cases h with
  | root he => exact he
  | child he => exact he

include hn numbered

/-- Every entry has such a chain, since numbers get smaller along it. -/
theorem exists_of_mem {e : Entry} (he : e ∈ nodes) : ∃ above, Ancestors nodes e above := by
  induction hk : e.node.id using Nat.strongRecOn generalizing e with
  | ind k ih =>
    subst hk
    rcases Node.exists_lists (hn ▸ he) with rfl | ⟨p, hp, hl⟩
    · exact ⟨[], .root he rfl⟩
    · rw [← hn] at hp
      obtain ⟨above, habove⟩ := ih _ (lists_lt hn numbered hp hl) hp rfl
      exact ⟨p :: above, .child he hl.1 habove⟩

/-- Levels are used up by the containers of the chain, and between two of them there is at most one
property. -/
theorem within {n : Nat} (hroot : root.Within n) (hvalue : root.isProperty = false) {e : Entry}
    {above : List Entry} (h : Ancestors nodes e above) :
    ∃ k, e.node.Within k ∧ n = k + containersAmong above ∧
      above.length + e.node.isProperty.toNat ≤ 2 * containersAmong above := by
  induction h with
  | @root e he hparent =>
    rcases Node.exists_lists (hn ▸ he) with rfl | ⟨p, -, hl⟩
    · exact ⟨n, hroot, rfl, by simp [hvalue]⟩
    · rw [hl.1] at hparent
      cases hparent
  | @child e p above he hparent habove ih =>
    rcases Node.exists_lists (hn ▸ he) with rfl | ⟨q, hq, hl⟩
    · cases hparent
    · -- the chain names the parent by its number, which no other entry has
      have same : q = p := by
        refine eq_of_id hn numbered (hn ▸ hq) habove.mem ?_
        exact Option.some.inj (hl.1.symm.trans hparent)
      subst same
      obtain ⟨k, hwithin, hlevels, hlength⟩ := ih
      obtain ⟨-, s, -, hs⟩ := hl
      obtain ⟨below, hbelow, hk, hproperty⟩ := hwithin.step hs
      refine ⟨below, hbelow, ?_, ?_⟩
      · rw [containersAmong_cons]
        omega
      · rw [containersAmong_cons, List.length_cons]
        omega

end Ancestors

end TemplateLint
