import TemplateLint.Fault

/-!
# Kinds of faults

Most faults say that a token does not fit, or is not complete. The others are about what is no
token at all, and about numbers that are none; their messages tell them apart from all others.
-/

namespace TemplateLint

namespace Fault

/-- Whether a fault says that a token does not fit, or is not complete. -/
def ofStructure : Fault → Bool
  | unknownCharacter => false
  | invalidNumber _ => false
  | _ => true

theorem ne_unknown_of_structure {fault : Fault} (h : fault.ofStructure = true) :
    fault ≠ unknownCharacter := by
  rintro rfl
  cases h

/-- The third letter of a message. Some kinds of faults have the first two in common. -/
def thirdLetter : Fault → Char
  | unknownCharacter => 'k'
  | expectedValue _ => 'p'
  | expected _ _ _ => 'p'
  | invalidNumber _ => 'v'
  | nestingTooDeep => 'x'
  | unterminatedString => 't'
  | invalidString => 'r'
  | trailingContent => 'e'

theorem thirdLetter_eq (fault : Fault) : fault.message.toList[2]? = some fault.thirdLetter := by
  cases fault with
  | expectedValue found =>
    change ("expected a value, but found " ++ describeFound found).toList[2]? = some 'p'
    simp
  | expected what found context =>
    change ("expected " ++ what.describe ++ ", but found " ++ describeFound found).toList[2]? =
      some 'p'
    simp
  | invalidNumber literal =>
    change ("invalid number literal `" ++ String.ofList literal ++ "`").toList[2]? = some 'v'
    simp
  | unknownCharacter => rfl
  | nestingTooDeep => rfl
  | unterminatedString => rfl
  | invalidString => rfl
  | trailingContent => rfl

/-- No other message is that of an unknown character. -/
theorem message_eq_unknown_iff {fault : Fault} :
    fault.message = "unknown character" ↔ fault = unknownCharacter := by
  constructor
  · intro h
    have third := fault.thirdLetter_eq
    rw [h] at third
    cases fault <;> first | rfl | cases third
  · rintro rfl
    rfl

/-- No other message begins as that of a literal that is no number. -/
theorem message_invalid_iff {fault : Fault} :
    "invalid number literal `".toList <+: fault.message.toList ↔
      ∃ literal, fault = invalidNumber literal := by
  constructor
  · rintro ⟨rest, h⟩
    have third := fault.thirdLetter_eq
    rw [← h] at third
    cases fault with
    | invalidNumber literal => exact ⟨literal, rfl⟩
    | _ => cases third
  · rintro ⟨literal, rfl⟩
    refine ⟨literal ++ ['`'], ?_⟩
    change _ = ("invalid number literal `" ++ String.ofList literal ++ "`").toList
    simp

end Fault

namespace PlacedFault

/-- The span of a literal that is reported as no number. -/
def malformed? (f : PlacedFault) : Option Span :=
  match f.fault with
  | .invalidNumber _ => some f.span
  | _ => none

theorem malformed?_of_structure {f : PlacedFault} (h : f.fault.ofStructure = true) :
    f.malformed? = none := by
  obtain ⟨fault, span⟩ := f
  cases fault with
  | invalidNumber literal => cases h
  | _ => rfl

end PlacedFault

end TemplateLint
