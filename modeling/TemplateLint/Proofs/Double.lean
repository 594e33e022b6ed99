import Mathlib.Tactic.Ring
import TemplateLint.Decimal.Literal

/-!
# Rounding of integers

A number is rounded once: what 53 bits hold is left as it is, so an integer
that is read, written as an integer and read again is the same number. Integers
are rounded to integers. Those below 2^63 - 512 stay below 2^63; the bound is
exact, since 2^63 - 512 is halfway between two numbers and goes to 2^63.
-/

namespace TemplateLint

namespace Double

/-! ## Magnitudes -/

/-- Rounding to the bits that a magnitude keeps. -/
theorem roundQuotient_one (m : Nat) : roundQuotient m 1 =
    (if 2 ^ excessBits m < 2 * (m % 2 ^ excessBits m) ∨
        (2 * (m % 2 ^ excessBits m) = 2 ^ excessBits m ∧ m / 2 ^ excessBits m % 2 = 1) then
      m / 2 ^ excessBits m + 1 else m / 2 ^ excessBits m) * 2 ^ excessBits m := by
  simp [roundQuotient]

/-- A magnitude that 53 bits hold. -/
def Representable (m : Nat) : Prop := 2 ^ excessBits m ∣ m

theorem roundQuotient_of_representable {m : Nat} (h : Representable m) :
    roundQuotient m 1 = m := by
  have hrest : m % 2 ^ excessBits m = 0 := Nat.mod_eq_zero_of_dvd h
  have hpos : 0 < 2 ^ excessBits m := Nat.two_pow_pos _
  rw [roundQuotient_one, hrest, if_neg (by omega)]
  exact Nat.div_mul_cancel h

theorem significand_lt (m : Nat) : m / 2 ^ excessBits m < 2 ^ 53 := by
  rw [Nat.div_lt_iff_lt_mul (Nat.two_pow_pos _), ← Nat.pow_add]
  refine Nat.lt_of_lt_of_le Nat.lt_log2_self (Nat.pow_le_pow_right (by omega) ?_)
  unfold excessBits
  omega

theorem excessBits_le {m e : Nat} (h : m < 2 ^ (53 + e)) : excessBits m ≤ e := by
  unfold excessBits
  rcases Nat.eq_zero_or_pos m with rfl | hpos
  · simp
  · have hlog := (Nat.log2_lt (Nat.ne_of_gt hpos)).mpr h
    omega

theorem representable_mul {a : Nat} (ha : a ≤ 2 ^ 53) (e : Nat) : Representable (a * 2 ^ e) := by
  have hpos : 0 < 2 ^ e := Nat.two_pow_pos e
  rcases Nat.lt_or_eq_of_le ha with hlt | rfl
  · have hm : a * 2 ^ e < 2 ^ (53 + e) := by
      rw [Nat.pow_add]
      exact Nat.mul_lt_mul_of_pos_right hlt hpos
    exact Nat.dvd_mul_left_of_dvd (Nat.pow_dvd_pow 2 (excessBits_le hm)) a
  · have hm : 2 ^ 53 * 2 ^ e < 2 ^ (53 + (e + 1)) := by
      rw [← Nat.pow_add]
      exact Nat.pow_lt_pow_right (by omega) (by omega)
    have hk := excessBits_le hm
    unfold Representable
    rw [← Nat.pow_add] at hk ⊢
    exact Nat.pow_dvd_pow 2 (by omega)

/-- Rounding keeps at most 53 bits, or makes them carry into the next one. -/
theorem exists_rounded (m : Nat) :
    ∃ a ≤ 2 ^ 53, roundQuotient m 1 = a * 2 ^ excessBits m := by
  have hlt := significand_lt m
  rw [roundQuotient_one]
  split
  · exact ⟨_, hlt, rfl⟩
  · exact ⟨_, Nat.le_of_lt hlt, rfl⟩

theorem roundQuotient_idem (m : Nat) :
    roundQuotient (roundQuotient m 1) 1 = roundQuotient m 1 := by
  obtain ⟨a, ha, h⟩ := exists_rounded m
  rw [h]
  exact roundQuotient_of_representable (representable_mul ha _)

theorem exists_unitsPerOne : ∃ k, unitsPerOne = 2 ^ k := ⟨1074, by decide +kernel⟩

theorem unitsPerOne_pos : 0 < unitsPerOne := by
  obtain ⟨k, hk⟩ := exists_unitsPerOne
  rw [hk]
  exact Nat.two_pow_pos k

/-- Integers are rounded to integers. -/
theorem unitsPerOne_dvd_round (n : Nat) : unitsPerOne ∣ roundQuotient (n * unitsPerOne) 1 := by
  obtain ⟨k, hk⟩ := exists_unitsPerOne
  rw [hk]
  rcases Nat.le_total k (excessBits (n * 2 ^ k)) with h | h
  · obtain ⟨a, -, hr⟩ := exists_rounded (n * 2 ^ k)
    rw [hr]
    exact Nat.dvd_mul_left_of_dvd (Nat.pow_dvd_pow 2 h) a
  · have hrep : Representable (n * 2 ^ k) := Nat.dvd_mul_left_of_dvd (Nat.pow_dvd_pow 2 h) n
    rw [roundQuotient_of_representable hrep]
    exact Nat.dvd_mul_left _ n

theorem round_lt {n : Nat} (h : n < 2 ^ 63 - 512) :
    roundQuotient (n * unitsPerOne) 1 < 2 ^ 63 * unitsPerOne := by
  obtain ⟨k, hk⟩ := exists_unitsPerOne
  have hunits : 0 < 2 ^ k := Nat.two_pow_pos k
  have htop : 2 ^ 63 * 2 ^ k = 2 ^ (53 + (10 + k)) := by ring
  have hexcess : excessBits (n * 2 ^ k) ≤ 10 + k := by
    refine excessBits_le ?_
    rw [← htop]
    exact Nat.mul_lt_mul_of_pos_right (by omega) hunits
  rw [hk]
  rcases Nat.lt_or_eq_of_le hexcess with hlt | heq
  · obtain ⟨a, ha, hr⟩ := exists_rounded (n * 2 ^ k)
    have hstep : 2 ^ excessBits (n * 2 ^ k) < 2 ^ (10 + k) := Nat.pow_lt_pow_right (by omega) hlt
    rw [hr, htop, Nat.pow_add 2 53]
    exact Nat.lt_of_le_of_lt (Nat.mul_le_mul_right _ ha)
      (Nat.mul_lt_mul_of_pos_left hstep (Nat.two_pow_pos 53))
  · -- a step of rounding is 1024 ones, and `n` is more than half a step below the top
    have hstep : 2 ^ (10 + k) = 1024 * 2 ^ k := by ring
    rw [roundQuotient_one, heq, hstep, Nat.mul_div_mul_right _ _ hunits, Nat.mul_mod_mul_right,
      ← Nat.mul_assoc, ← Nat.mul_assoc]
    refine Nat.mul_lt_mul_of_pos_right ?_ hunits
    split
    · rename_i hup
      have hhalf : 512 ≤ n % 1024 := by
        rcases hup with hup | ⟨hup, -⟩
        · have := Nat.lt_of_mul_lt_mul_right hup
          omega
        · have := Nat.eq_of_mul_eq_mul_right hunits hup
          omega
      omega
    · omega

/-! ## Integers -/

/-- What is written without a fraction and without an exponent is rounded as an integer. -/
theorem ofDecimal_whole (negative : Bool) (digits : Nat) :
    ofDecimal negative digits 0 = ofQuotient negative digits 1 := by
  unfold ofDecimal
  split
  · rename_i h
    subst h
    cases negative <;> decide +kernel
  · rw [if_neg (by omega), if_neg (by omega)]
    simp

/-- An integer below the bound becomes an integer of less than 63 bits. -/
theorem ofQuotient_whole {n : Nat} (h : n < 2 ^ 63 - 512) (negative : Bool) :
    ∃ k < 2 ^ 63, ofQuotient negative n 1 = .finite negative (k * unitsPerOne) ∧
      roundQuotient (k * unitsPerOne) 1 = k * unitsPerOne := by
  obtain ⟨k, hk⟩ := unitsPerOne_dvd_round n
  rw [Nat.mul_comm unitsPerOne k] at hk
  have hlt := round_lt h
  have hidem := roundQuotient_idem (n * unitsPerOne)
  have hmax : 2 ^ 63 * unitsPerOne ≤ maxUnits := by decide +kernel
  rw [hk] at hlt hidem
  refine ⟨k, Nat.lt_of_mul_lt_mul_right hlt, ?_, hidem⟩
  simp only [ofQuotient, hk]
  exact if_neg (by omega)

theorem natAbs_signed (negative : Bool) (n : Nat) : (signed negative n).natAbs = n := by
  cases negative <;> simp [signed]

/-! ## Zeros -/

/-- Numbers that differ at most in the sign of a zero. -/
def Alike (x y : Double) : Prop := x = y ∨ ∃ a b, x = .finite a 0 ∧ y = .finite b 0

namespace Alike

variable {x y : Double}

theorem symm (h : Alike x y) : Alike y x := by
  rcases h with rfl | ⟨a, b, hx, hy⟩
  · exact Or.inl rfl
  · exact Or.inr ⟨b, a, hy, hx⟩

theorem compare?_left (h : Alike x y) (z : Double) : compare? x z = compare? y z := by
  rcases h with rfl | ⟨a, b, rfl, rfl⟩
  · rfl
  · cases a <;> cases b <;> cases z <;> rfl

theorem compare?_right (h : Alike x y) (z : Double) : compare? z x = compare? z y := by
  rcases h with rfl | ⟨a, b, rfl, rfl⟩
  · rfl
  · cases a <;> cases b <;> cases z <;> rfl

theorem remainder_zero (h : Alike x y) (z : Double) :
    (x.remainder z).sameValue .zero = (y.remainder z).sameValue .zero := by
  rcases h with rfl | ⟨a, b, rfl, rfl⟩
  · rfl
  · cases z with
    | nan => rfl
    | infinite c => cases a <;> cases b <;> rfl
    | finite c m =>
      simp only [remainder, Nat.zero_mod]
      split
      · rfl
      · cases a <;> cases b <;> rfl

end Alike

/-- An integer below the bound is read as the integer nearest to it, which is read as itself. -/
theorem toInt?_ofQuotient {n : Nat} (h : n < 2 ^ 63 - 512) (negative : Bool) :
    ∃ i, (ofQuotient negative n 1).toInt? (2 ^ 63) = some i ∧
      Alike (ofInt i) (ofQuotient negative n 1) := by
  obtain ⟨k, hk, hx, hround⟩ := ofQuotient_whole h negative
  have hunits := unitsPerOne_pos
  refine ⟨signed negative k, ?_, ?_⟩
  · rw [hx]
    have hdiv : k * unitsPerOne / unitsPerOne = k := Nat.mul_div_cancel k hunits
    have hmod : k * unitsPerOne % unitsPerOne = 0 := Nat.mul_mod_left k unitsPerOne
    have hlt : k * unitsPerOne < 2 ^ 63 * unitsPerOne := Nat.mul_lt_mul_of_pos_right hk hunits
    simp only [toInt?, hdiv, hmod, hlt, and_self, if_true]
  · have habs := natAbs_signed negative k
    have hmax : 2 ^ 63 * unitsPerOne ≤ maxUnits := by decide +kernel
    have hlt : k * unitsPerOne < 2 ^ 63 * unitsPerOne := Nat.mul_lt_mul_of_pos_right hk hunits
    have hof : ofInt (signed negative k) =
        .finite (decide (signed negative k < 0)) (k * unitsPerOne) := by
      simp only [ofInt, ofQuotient, habs, hround]
      exact if_neg (by omega)
    rw [hof, hx]
    rcases Nat.eq_zero_or_pos k with rfl | hpos
    · right
      exact ⟨_, _, by rw [Nat.zero_mul], by rw [Nat.zero_mul]⟩
    · left
      have hsign : decide (signed negative k < 0) = negative := by
        cases negative <;> simp [signed, hpos]
      rw [hsign]

end Double

end TemplateLint
