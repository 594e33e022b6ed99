import TemplateLint.Json
import TemplateLint.Proofs.Double
import TemplateLint.Proofs.Grammar.Strings

/-!
# Literals that are printed

A string is printed as a literal that stands for it, with an escape for each
character that a literal must not hold. An integer is printed as a literal whose
number is the integer again, as long as 53 bits hold it.
-/

namespace TemplateLint

/-! ## Strings -/

namespace Json

open Quoted (Piece Named Code Body text?)

theorem hexValue?_hexDigit {n : Nat} (h : n < 16) : Text.hexValue? (hexDigit n) = some n := by
  have all : ∀ n < 16, Text.hexValue? (hexDigit n) = some n := by decide
  exact all n h

theorem text?_control {c : Char} (hc : c.toNat < 0x20) {ps : List Piece} {text : List Char}
    (h : text? ps = some text) : text? (.unit c.toNat :: ps) = some (c :: text) := by
  have hfirst : Quoted.isFirstHalf c.toNat = false := by
    simp [Quoted.isFirstHalf]
    omega
  have hsecond : Quoted.isSecondHalf c.toNat = false := by
    simp [Quoted.isSecondHalf]
    omega
  rw [Quoted.text?_single hfirst hsecond, h]
  simp

/-- How a character is printed: by name, by its code or as it is. -/
theorem body_escapeChar (c : Char) {cs : List Char} {ps : List Piece} {text : List Char}
    (h : Body cs ps) (htext : text? ps = some text) :
    ∃ qs, Body (escapeChar c ++ cs) qs ∧ text? qs = some (c :: text) := by
  have named : ∀ {d : Char}, Named d c →
      ∃ qs, Body ('\\' :: d :: cs) qs ∧ text? qs = some (c :: text) :=
    fun hnamed => ⟨_, .named hnamed h, by simp [text?, htext]⟩
  unfold escapeChar
  split
  · exact named .quote
  · exact named .backslash
  · exact named .backspace
  · exact named .formFeed
  · exact named .lineFeed
  · exact named .carriageReturn
  · exact named .tab
  · rename_i hquote hslash _ _ _ _ _
    split
    · rename_i hcontrol
      have code : Code ['0', '0', hexDigit (c.toNat / 16), hexDigit (c.toNat % 16)]
          (((0 * 16 + 0) * 16 + c.toNat / 16) * 16 + c.toNat % 16) :=
        .digits rfl rfl (hexValue?_hexDigit (by omega)) (hexValue?_hexDigit (by omega))
      have hn : ((0 * 16 + 0) * 16 + c.toNat / 16) * 16 + c.toNat % 16 = c.toNat := by omega
      rw [hn] at code
      exact ⟨_, .unit code h, text?_control hcontrol htext⟩
    · rename_i hplain
      exact ⟨_, .plain (by omega) hquote hslash h, by simp [text?, htext]⟩

theorem exists_body_escape (cs : List Char) :
    ∃ ps, Body (cs.flatMap escapeChar) ps ∧ text? ps = some cs := by
  induction cs with
  | nil => exact ⟨[], .nil, rfl⟩
  | cons c cs ih =>
    obtain ⟨ps, body, htext⟩ := ih
    exact body_escapeChar c body htext

theorem literal_quote (s : String) : Quoted.Literal (quote s) (some s.toList) := by
  obtain ⟨ps, body, htext⟩ := exists_body_escape s.toList
  rw [← htext]
  exact .quoted body

end Json

/-! ## Integers -/

namespace Decimal.Literal

theorem digits_toDigits (n : Nat) : Digits (Nat.toDigits 10 n) :=
  ⟨Nat.toDigits_ne_nil, fun _ hc => Nat.isDigit_of_mem_toDigits (by omega) (by omega) hc⟩

theorem natOfDigits_toDigits (n : Nat) : natOfDigits (Nat.toDigits 10 n) = n :=
  Nat.ofDigitChars_toDigits (by omega) (by omega)

/-- Only zero is printed with a zero in front. -/
theorem head_toDigits {n : Nat} (h : 0 < n) :
    ∃ d ds, Nat.toDigits 10 n = d :: ds ∧ d ≠ '0' := by
  induction n using Nat.strongRecOn with
  | ind n ih =>
    rw [Nat.toDigits_eq_if (by omega)]
    split
    · rename_i hlt
      have nonzero : ∀ n < 10, 0 < n → n.digitChar ≠ '0' := by decide
      exact ⟨_, [], rfl, nonzero n hlt h⟩
    · obtain ⟨d, ds, hds, hd⟩ := ih (n / 10) (by omega) (by omega)
      exact ⟨d, ds ++ [(n % 10).digitChar], by rw [hds, List.cons_append], hd⟩

theorem whole_toDigits (n : Nat) : Whole (Nat.toDigits 10 n) := by
  rcases Nat.eq_zero_or_pos n with rfl | hpos
  · exact .zero
  · have digits := digits_toDigits n
    obtain ⟨d, ds, hds, hd⟩ := head_toDigits hpos
    rw [hds] at digits ⊢
    exact .digits hd digits

/-- The literal of an integer. -/
def ofInt (i : Int) : Literal := ⟨decide (i < 0), Nat.toDigits 10 i.natAbs, none, none⟩

theorem numberText_integer (i : Int) : Json.numberText (.integer i) =
    (if i < 0 then ['-'] else []) ++ Nat.toDigits 10 i.natAbs := by
  change i.repr.toList = _
  rw [Int.repr_eq_if]
  by_cases hneg : i < 0
  · have habs : (-i).toNat = i.natAbs := by omega
    have hminus : "-".toList = ['-'] := rfl
    rw [if_neg (by omega), if_pos hneg, String.toList_append, hminus, Nat.repr_eq_ofList_toDigits,
      String.toList_ofList, habs]
  · have habs : i.toNat = i.natAbs := by omega
    rw [if_pos (by omega), if_neg hneg, Nat.repr_eq_ofList_toDigits, String.toList_ofList, habs]
    rfl

theorem writes_ofInt (i : Int) : Writes (Json.numberText (.integer i)) (ofInt i) := by
  have minus : Minus (if i < 0 then ['-'] else []) (ofInt i).negative := by
    unfold ofInt
    by_cases hneg : i < 0
    · simpa [hneg] using Minus.present
    · simpa [hneg] using Minus.absent
  have parts : Writes (_ ++ (Nat.toDigits 10 i.natAbs ++ ([] ++ []))) (ofInt i) :=
    .parts minus rfl (whole_toDigits i.natAbs) .absent .absent
  rw [numberText_integer]
  simpa using parts

end Decimal.Literal

namespace Double

/-- An integer that 53 bits hold is kept. -/
theorem ofQuotient_exact {n : Nat} (h : n ≤ 2 ^ 53) (negative : Bool) :
    ofQuotient negative n 1 = .finite negative (n * unitsPerOne) := by
  obtain ⟨k, hk⟩ := exists_unitsPerOne
  have hround : roundQuotient (n * unitsPerOne) 1 = n * unitsPerOne := by
    rw [hk]
    exact roundQuotient_of_representable (representable_mul h k)
  have hle : n * unitsPerOne ≤ 2 ^ 53 * unitsPerOne := Nat.mul_le_mul_right _ h
  have hmax : 2 ^ 53 * unitsPerOne ≤ maxUnits := by decide +kernel
  simp only [ofQuotient, hround]
  exact if_neg (by omega)

/-- An integer that 53 bits hold is read off its printed literal. -/
theorem toInt?_literal {i : Int} (h : i.natAbs ≤ 2 ^ 53) :
    (Decimal.Literal.ofInt i).toDouble.isFinite = true ∧
      (Decimal.Literal.ofInt i).toDouble.toInt? (.pow 2 63) = some i := by
  have hx : (Decimal.Literal.ofInt i).toDouble =
      .finite (decide (i < 0)) (i.natAbs * unitsPerOne) := by
    rw [← ofQuotient_exact h, ← ofDecimal_whole]
    simp [Decimal.Literal.toDouble, Decimal.Literal.ofInt, Decimal.Literal.natOfDigits_toDigits]
  have hunits := unitsPerOne_pos
  have hpow : 2 ^ 53 < Nat.pow 2 63 := by decide
  have hsmall : i.natAbs * unitsPerOne < Nat.pow 2 63 * unitsPerOne :=
    Nat.mul_lt_mul_of_pos_right (Nat.lt_of_le_of_lt h hpow) hunits
  have hdiv : i.natAbs * unitsPerOne / unitsPerOne = i.natAbs := Nat.mul_div_cancel _ hunits
  have hmod : i.natAbs * unitsPerOne % unitsPerOne = 0 := Nat.mul_mod_left _ _
  have hsigned : signed (decide (i < 0)) i.natAbs = i := by
    by_cases hneg : i < 0
    · simp only [signed, hneg, decide_true, if_true]
      omega
    · simp only [signed, hneg, decide_false, Bool.false_eq_true, if_false]
      omega
  rw [hx]
  exact ⟨rfl, by rw [toInt?, if_pos ⟨hmod, hsmall⟩, hdiv, hsigned]⟩

end Double

end TemplateLint
