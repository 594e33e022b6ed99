import TemplateLint.Proofs.Grammar.Numbers
import TemplateLint.Proofs.Lexemes.Patterns

/-!
# Patterns of numbers

The grammar of number literals as regular expressions: a text belongs to the
pattern of numbers if it writes a literal, and to that of integers if the
literal has neither a fraction nor an exponent.
-/

namespace TemplateLint.Pattern

open Decimal
open Decimal.Literal (Digits Minus Whole Fraction Sign Power Writes)

open scoped Computability

/-- One digit or more. -/
def digits : Language Char := one digit * (one digit)∗

def whole : Language Char := {['0']} + one (Set.Icc '1' '9') * (one digit)∗

def fraction : Language Char := one {'.'} * digits

def power : Language Char := one {'e', 'E'} * ((1 + one {'+', '-'}) * digits)

/-- `-?(0|[1-9][0-9]*)` -/
def integer : Language Char := (1 + one {'-'}) * whole

/-- `-?(0|[1-9][0-9]*)(\.[0-9]+)?([eE][+-]?[0-9]+)?` -/
def number : Language Char := integer * ((1 + fraction) * (1 + power))

variable {cs : List Char}

/-! ## Parts -/

theorem mem_one_add {l : Language Char} : cs ∈ 1 + l ↔ cs = [] ∨ cs ∈ l := Iff.rfl

theorem mem_digits : cs ∈ digits ↔ Digits cs := by
  unfold digits
  rw [mem_one_mul]
  constructor
  · rintro ⟨d, hd, ds, hds, rfl⟩
    refine ⟨List.cons_ne_nil d ds, List.forall_mem_cons.mpr ⟨mem_digit.mp hd, fun c hc => ?_⟩⟩
    exact mem_digit.mp (mem_one_kstar.mp hds c hc)
  · intro h
    obtain ⟨d, ds, rfl⟩ := List.exists_cons_of_ne_nil h.nonempty
    refine ⟨d, mem_digit.mpr h.head, ds, mem_one_kstar.mpr fun c hc => ?_, rfl⟩
    exact mem_digit.mpr (h.all c (List.mem_cons_of_mem d hc))

theorem mem_minus : cs ∈ 1 + one {'-'} ↔ ∃ negative, Minus cs negative := by
  rw [mem_one_add]
  constructor
  · rintro (rfl | ⟨c, rfl, rfl⟩)
    · exact ⟨false, .absent⟩
    · exact ⟨true, .present⟩
  · rintro ⟨negative, h⟩
    cases h with
    | absent => exact Or.inl rfl
    | present => exact Or.inr ⟨'-', rfl, rfl⟩

/-- The digits but the zero. -/
theorem mem_leading {c : Char} : c ∈ Set.Icc '1' '9' ↔ c.isDigit = true ∧ c ≠ '0' := by
  have zero : c = '0' ↔ c.toNat = 48 := Char.toNat_inj.symm
  rw [← mem_digit, digit, Set.mem_Icc, Set.mem_Icc, Ne, zero]
  change (49 ≤ c.toNat ∧ c.toNat ≤ 57) ↔ (48 ≤ c.toNat ∧ c.toNat ≤ 57) ∧ ¬c.toNat = 48
  omega

theorem mem_whole : cs ∈ whole ↔ Whole cs := by
  constructor
  · rintro (rfl | h)
    · exact .zero
    · obtain ⟨d, hd, ds, hds, rfl⟩ := mem_one_mul.mp h
      obtain ⟨hdigit, hne⟩ := mem_leading.mp hd
      exact .digits hne (mem_digits.mp (mem_one_mul.mpr ⟨d, mem_digit.mpr hdigit, ds, hds, rfl⟩))
  · intro h
    cases h with
    | zero => exact Or.inl rfl
    | digits hne digits =>
      obtain ⟨d, hd, ds, hds, heq⟩ := mem_one_mul.mp (mem_digits.mpr digits)
      cases heq
      exact Or.inr (mem_one_mul.mpr ⟨_, mem_leading.mpr ⟨mem_digit.mp hd, hne⟩, _, hds, rfl⟩)

theorem mem_fraction : cs ∈ 1 + fraction ↔ ∃ f, Fraction cs f := by
  rw [mem_one_add, fraction, mem_one_mul]
  constructor
  · rintro (rfl | ⟨c, rfl, ds, hds, rfl⟩)
    · exact ⟨none, .absent⟩
    · exact ⟨some ds, .present (mem_digits.mp hds)⟩
  · rintro ⟨f, h⟩
    cases h with
    | absent => exact Or.inl rfl
    | present digits => exact Or.inr ⟨'.', rfl, _, mem_digits.mpr digits, rfl⟩

theorem mem_sign : cs ∈ 1 + one {'+', '-'} ↔ ∃ negative, Sign cs negative := by
  rw [mem_one_add]
  constructor
  · rintro (rfl | ⟨c, rfl | rfl, rfl⟩)
    · exact ⟨false, .absent⟩
    · exact ⟨false, .plus⟩
    · exact ⟨true, .minus⟩
  · rintro ⟨negative, h⟩
    cases h with
    | absent => exact Or.inl rfl
    | plus => exact Or.inr ⟨'+', Or.inl rfl, rfl⟩
    | minus => exact Or.inr ⟨'-', Or.inr rfl, rfl⟩

theorem mem_power : cs ∈ 1 + power ↔ ∃ e, Power cs e := by
  rw [mem_one_add, power, mem_one_mul]
  constructor
  · rintro (rfl | ⟨e, letter, rest, hrest, rfl⟩)
    · exact ⟨none, .absent⟩
    · obtain ⟨sign, hsign, ds, hds, rfl⟩ := Language.mem_mul.mp hrest
      obtain ⟨negative, hsign⟩ := mem_sign.mp hsign
      exact ⟨_, .present letter hsign (mem_digits.mp hds)⟩
  · rintro ⟨e, h⟩
    cases h with
    | absent => exact Or.inl rfl
    | present letter sign digits =>
      refine Or.inr ⟨_, letter, _, Language.mem_mul.mpr ?_, rfl⟩
      exact ⟨_, mem_sign.mpr ⟨_, sign⟩, _, mem_digits.mpr digits, rfl⟩

/-! ## Literals -/

theorem mem_number : cs ∈ number ↔ ∃ l, Writes cs l := by
  constructor
  · intro h
    obtain ⟨front, hfront, rest, hrest, rfl⟩ := Language.mem_mul.mp h
    obtain ⟨minus, hminus, whole, hwhole, rfl⟩ := Language.mem_mul.mp hfront
    obtain ⟨fraction, hfraction, power, hpower, rfl⟩ := Language.mem_mul.mp hrest
    obtain ⟨negative, hminus⟩ := mem_minus.mp hminus
    obtain ⟨f, hfraction⟩ := mem_fraction.mp hfraction
    obtain ⟨e, hpower⟩ := mem_power.mp hpower
    rw [List.append_assoc]
    exact ⟨⟨negative, whole, f, e⟩, .parts hminus rfl (mem_whole.mp hwhole) hfraction hpower⟩
  · rintro ⟨l, minus, rfl, whole, fraction, power⟩
    rw [← List.append_assoc]
    refine Language.append_mem_mul (Language.append_mem_mul (mem_minus.mpr ⟨_, minus⟩)
      (mem_whole.mpr whole)) ?_
    exact Language.append_mem_mul (mem_fraction.mpr ⟨_, fraction⟩) (mem_power.mpr ⟨_, power⟩)

theorem mem_integer : cs ∈ integer ↔ ∃ l, Writes cs l ∧ l.isInteger = true := by
  constructor
  · intro h
    obtain ⟨minus, hminus, whole, hwhole, rfl⟩ := Language.mem_mul.mp h
    obtain ⟨negative, hminus⟩ := mem_minus.mp hminus
    have writes := Writes.parts (l := ⟨negative, whole, none, none⟩) hminus rfl
      (mem_whole.mp hwhole) .absent .absent
    rw [List.append_nil, List.append_nil] at writes
    exact ⟨_, writes, rfl⟩
  · rintro ⟨l, writes, hinteger⟩
    obtain ⟨negative, whole, fraction, exponent⟩ := l
    simp only [Literal.isInteger, Bool.and_eq_true, Option.isNone_iff_eq_none] at hinteger
    obtain ⟨rfl, rfl⟩ := hinteger
    obtain ⟨minus, rfl, hwhole, noFraction, noPower⟩ := writes
    cases noFraction
    cases noPower
    rw [List.append_nil, List.append_nil]
    exact Language.append_mem_mul (mem_minus.mpr ⟨_, minus⟩) (mem_whole.mpr hwhole)

end TemplateLint.Pattern
