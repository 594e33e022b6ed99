import TemplateLint.Proofs.Tree.Nodes

/-!
# Outlines

An outline is a tree whose nodes have no numbers. It says what a text holds and
where, so a literal of it may stand for nothing: one that is written as the
grammar has it, but is no text or no finite number. Containers that are enclosed
in too many others can be taken out of an outline; a member is then left without
its value, and the items behind a missing one move up.
-/

namespace TemplateLint

/-- A member of an object that is outlined; its key may stand for nothing. -/
structure MemberOf (V : Type) where
  span : Span
  key : Option String
  keySpan : Span
  value : Option V

inductive Outline where
  | scalar (span : Span) (content : Option Scalar)
  | array (span : Span) (items : List Outline)
  | object (span : Span) (members : List (MemberOf Outline))

namespace Outline

def span : Outline → Span
  | scalar span _ => span
  | array span _ => span
  | object span _ => span

/-- All literals of an outline, keys among them, stand for something. -/
inductive Meaningful : Outline → Prop where
  | scalar {span : Span} {content : Scalar} : Meaningful (.scalar span (some content))
  | array {span : Span} {items : List Outline} : (∀ o ∈ items, Meaningful o) →
      Meaningful (.array span items)
  | object {span : Span} {members : List (MemberOf Outline)} :
      (∀ m ∈ members, m.key.isSome = true) →
      (∀ m ∈ members, ∀ o, m.value = some o → Meaningful o) → Meaningful (.object span members)

/-- What is left of an outline without the containers that are enclosed in as many others as a
number says. -/
def truncate : Nat → Outline → Option Outline
  | _, scalar span content => some (scalar span content)
  | 0, array _ _ => none
  | 0, object _ _ => none
  | n + 1, array span items => some (array span (items.filterMap fun o => truncate n o))
  | n + 1, object span members =>
    some (object span (members.map fun m => { m with value := m.value.bind fun o => truncate n o }))

/-- The spans of the containers that are enclosed in exactly as many others as a number says. -/
def containersAt : Nat → Outline → List Span
  | _, scalar _ _ => []
  | 0, array span _ => [span]
  | 0, object span _ => [span]
  | n + 1, array _ items => items.flatMap fun o => containersAt n o
  | n + 1, object _ members =>
    members.flatMap fun m => (m.value.map fun o => containersAt n o).getD []

end Outline

mutual

/-- A tree without the numbers of its nodes. -/
def Value.outline : Value → Outline
  | .object _ span properties => .object span (propertyOutlines properties)
  | .array _ span items => .array span (itemOutlines items)
  | .scalar _ span content => .scalar span (some content)

def propertyOutlines : List (PropertyOf Value) → List (MemberOf Outline)
  | [] => []
  | ⟨_, span, key, keySpan, none⟩ :: rest =>
    ⟨span, some key, keySpan, none⟩ :: propertyOutlines rest
  | ⟨_, span, key, keySpan, some v⟩ :: rest =>
    ⟨span, some key, keySpan, some v.outline⟩ :: propertyOutlines rest

def itemOutlines : List Value → List Outline
  | [] => []
  | v :: rest => v.outline :: itemOutlines rest

end

def PropertyOf.outline (p : PropertyOf Value) : MemberOf Outline :=
  ⟨p.span, some p.key, p.keySpan, p.value.map Value.outline⟩

theorem propertyOutlines_eq (ps : List (PropertyOf Value)) :
    propertyOutlines ps = ps.map PropertyOf.outline := by
  induction ps with
  | nil => rfl
  | cons p rest ih =>
    obtain ⟨id, span, key, keySpan, _ | v⟩ := p <;>
      simp [propertyOutlines, PropertyOf.outline, ih]

theorem itemOutlines_eq (vs : List Value) : itemOutlines vs = vs.map Value.outline := by
  induction vs with
  | nil => rfl
  | cons v rest ih => simp [itemOutlines, ih]

namespace Value

@[simp] theorem outline_object (id : Nat) (span : Span) (ps : List (PropertyOf Value)) :
    (object id span ps).outline = .object span (ps.map PropertyOf.outline) := by
  rw [outline, propertyOutlines_eq]

@[simp] theorem outline_array (id : Nat) (span : Span) (vs : List Value) :
    (array id span vs).outline = .array span (vs.map outline) := by
  rw [outline, itemOutlines_eq]

@[simp] theorem outline_scalar (id : Nat) (span : Span) (content : Scalar) :
    (scalar id span content).outline = .scalar span (some content) := by
  rw [outline]

theorem span_outline (v : Value) : v.outline.span = v.span := by
  rcases v with ⟨id, span, ps⟩ | ⟨id, span, vs⟩ | ⟨id, span, content⟩ <;>
    simp [Outline.span, Value.span]

/-- All that a tree holds stands for something. -/
theorem meaningful_outline (v : Value) : v.outline.Meaningful := by
  induction v using value_induction with
  | object id span ps ih =>
    rw [outline_object]
    refine .object ?_ ?_
    · intro m hm
      obtain ⟨p, -, rfl⟩ := List.mem_map.mp hm
      rfl
    · intro m hm o ho
      obtain ⟨p, hp, rfl⟩ := List.mem_map.mp hm
      obtain ⟨v, hv, rfl⟩ := Option.map_eq_some_iff.mp ho
      exact ih p hp v hv
  | array id span vs ih =>
    rw [outline_array]
    refine .array fun o ho => ?_
    obtain ⟨v, hv, rfl⟩ := List.mem_map.mp ho
    exact ih v hv
  | scalar id span content =>
    rw [outline_scalar]
    exact .scalar

end Value

/-! ## Lists of one outline -/

section Lists

variable {α β γ δ : Type} {f : α → γ} {g : β → γ} {xs : List α} {ys : List β}

/-- Two lists that agree in one respect agree in what follows from it. -/
theorem map_eq_of_map_eq (h : xs.map f = ys.map g) {F : α → δ} {G : β → δ}
    (hF : ∀ x ∈ xs, ∀ y ∈ ys, f x = g y → F x = G y) : xs.map F = ys.map G := by
  induction xs generalizing ys with
  | nil =>
    cases List.map_eq_nil_iff.mp h.symm
    rfl
  | cons x xs ih =>
    obtain ⟨y, ys, rfl, hy, hys⟩ := List.map_eq_cons_iff.mp h.symm
    rw [List.map_cons, List.map_cons, hF x (by simp) y (by simp) hy.symm,
      ih hys.symm fun x hx y hy => hF x (by simp [hx]) y (by simp [hy])]

theorem flatMap_eq_of_map_eq (h : xs.map f = ys.map g) {F : α → List δ} {G : β → List δ}
    (hF : ∀ x ∈ xs, ∀ y ∈ ys, f x = g y → F x = G y) : xs.flatMap F = ys.flatMap G := by
  rw [List.flatMap_def, List.flatMap_def, map_eq_of_map_eq h hF]

end Lists

namespace Outline

/-- Nothing is left out if no container stands too deep. -/
theorem truncate_eq_self {n : Nat} {o : Outline} (h : o.containersAt n = []) :
    o.truncate n = some o := by
  induction n generalizing o with
  | zero => cases o <;> simp [containersAt, truncate] at h ⊢
  | succ n ih =>
    cases o with
    | scalar span content => simp [truncate]
    | array span items =>
      simp only [containersAt, List.flatMap_eq_nil_iff] at h
      have hitems : items.filterMap (fun o => truncate n o) = items :=
        (List.filterMap_congr fun o ho => ih (h o ho)).trans List.filterMap_some
      rw [truncate, hitems]
    | object span members =>
      simp only [containersAt, List.flatMap_eq_nil_iff] at h
      have hmembers : members.map
          (fun m => { m with value := m.value.bind fun o => truncate n o }) = members := by
        refine (List.map_congr_left fun m hm => ?_).trans (List.map_id members)
        obtain ⟨span, key, keySpan, _ | o⟩ := m
        · rfl
        · simp [ih (h _ hm)]
      rw [truncate, hmembers]

end Outline

end TemplateLint
