import TemplateLint.Proofs.Tree.Moving
import TemplateLint.Proofs.Tree.Outlines

/-!
# Shapes

A shape is an outline without places: the kinds of its nodes, their keys and
contents, and their order. Members of an outline, told by the spans of their
keys, can be taken to be without their values; what is inside such a value is
not in the shape, and its own members do not count.
-/

namespace TemplateLint

/-- What a tree holds, wherever it stands. -/
inductive Shape where
  | scalar (content : Option Scalar)
  | array (items : List Shape)
  | object (members : List (Option String × Option Shape))

mutual

/-- The shape of an outline in which some members are without their values. -/
def Outline.shape (missing : Span → Bool) : Outline → Shape
  | .scalar _ content => .scalar content
  | .array _ items => .array (itemShapes missing items)
  | .object _ members => .object (memberShapes missing members)

def itemShapes (missing : Span → Bool) : List Outline → List Shape
  | [] => []
  | o :: rest => o.shape missing :: itemShapes missing rest

def memberShapes (missing : Span → Bool) :
    List (MemberOf Outline) → List (Option String × Option Shape)
  | [] => []
  | ⟨_, key, _, none⟩ :: rest => (key, none) :: memberShapes missing rest
  | ⟨_, key, keySpan, some o⟩ :: rest =>
    (key, if missing keySpan then none else some (o.shape missing)) :: memberShapes missing rest

end

mutual

/-- The spans of the values that members are without, in their order. -/
def Outline.missingSpans (missing : Span → Bool) : Outline → List Span
  | .scalar _ _ => []
  | .array _ items => itemMissingSpans missing items
  | .object _ members => memberMissingSpans missing members

def itemMissingSpans (missing : Span → Bool) : List Outline → List Span
  | [] => []
  | o :: rest => o.missingSpans missing ++ itemMissingSpans missing rest

def memberMissingSpans (missing : Span → Bool) : List (MemberOf Outline) → List Span
  | [] => []
  | ⟨_, _, _, none⟩ :: rest => memberMissingSpans missing rest
  | ⟨_, _, keySpan, some o⟩ :: rest =>
    (if missing keySpan then [o.span] else o.missingSpans missing) ++
      memberMissingSpans missing rest

end

/-- No member is without its value. -/
def noneMissing : Span → Bool := fun _ => false

namespace MemberOf

variable (missing : Span → Bool) (m : MemberOf Outline)

def shape : Option String × Option Shape :=
  (m.key, m.value.bind fun o => if missing m.keySpan then none else some (o.shape missing))

def missingSpans : List Span :=
  (m.value.map fun o => if missing m.keySpan then [o.span] else o.missingSpans missing).getD []

end MemberOf

theorem itemShapes_eq (missing : Span → Bool) (items : List Outline) :
    itemShapes missing items = items.map (Outline.shape missing) := by
  induction items with
  | nil => rfl
  | cons o rest ih => rw [itemShapes, ih, List.map_cons]

theorem memberShapes_eq (missing : Span → Bool) (members : List (MemberOf Outline)) :
    memberShapes missing members = members.map (MemberOf.shape missing) := by
  induction members with
  | nil => rfl
  | cons m rest ih =>
    obtain ⟨span, key, keySpan, _ | o⟩ := m <;> rw [memberShapes, ih] <;> rfl

theorem itemMissingSpans_eq (missing : Span → Bool) (items : List Outline) :
    itemMissingSpans missing items = items.flatMap (Outline.missingSpans missing) := by
  induction items with
  | nil => rfl
  | cons o rest ih => rw [itemMissingSpans, ih, List.flatMap_cons]

theorem memberMissingSpans_eq (missing : Span → Bool) (members : List (MemberOf Outline)) :
    memberMissingSpans missing members = members.flatMap (MemberOf.missingSpans missing) := by
  induction members with
  | nil => rfl
  | cons m rest ih =>
    obtain ⟨span, key, keySpan, _ | o⟩ := m <;> rw [memberMissingSpans, ih] <;> rfl

/-- The shape of a tree. -/
def Value.shape (v : Value) : Shape := v.outline.shape noneMissing

def PropertyOf.shape (p : PropertyOf Value) : Option String × Option Shape :=
  (some p.key, p.value.map Value.shape)

namespace Value

theorem shape_object (id : Nat) (span : Span) (ps : List Property) :
    (object id span ps).shape = .object (ps.map PropertyOf.shape) := by
  rw [shape, outline_object, Outline.shape, memberShapes_eq, List.map_map]
  congr 2
  funext p
  cases hv : p.value <;> simp [MemberOf.shape, PropertyOf.outline, PropertyOf.shape, noneMissing, hv,
    Value.shape]

theorem shape_array (id : Nat) (span : Span) (vs : List Value) :
    (array id span vs).shape = .array (vs.map shape) := by
  rw [shape, outline_array, Outline.shape, itemShapes_eq, List.map_map]
  rfl

/-- A shape has no places. -/
theorem shape_move (f : Nat → Nat) (v : Value) : (v.move f).shape = v.shape := by
  induction v using value_induction with
  | object id span ps ih =>
    rw [move_object, shape_object, shape_object, List.map_map]
    congr 1
    refine List.map_congr_left fun p hp => ?_
    cases hv : p.value with
    | none => simp [PropertyOf.shape, hv]
    | some v => simp [PropertyOf.shape, hv, ih p hp v hv]
  | array id span vs ih =>
    rw [move_array, shape_array, shape_array, List.map_map]
    exact congrArg Shape.array (List.map_congr_left ih)
  | scalar id span content =>
    rw [move_scalar]
    rfl

end Value

end TemplateLint
