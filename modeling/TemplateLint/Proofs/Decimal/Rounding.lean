import Mathlib.Tactic.Linarith
import TemplateLint.Decimal.Shortest
import TemplateLint.Proofs.Double

/-!
# Which quotients round to a number

A quotient is rounded to a number if it lies in the interval around the number.
The interval reaches halfway to both neighbours, and its ends belong to it where
the significand of the number is even. Below a power of two the neighbours are
twice as dense, so there the interval is half as long, and what lies in it is
rounded with one bit more.
-/

namespace TemplateLint

namespace Double

/-! ## Steps -/

/-- A quotient by a step goes to the multiple that is nearest, and to an even one of two. -/
theorem rounded_eq {numerator step r : Nat} (hstep : 0 < step)
    (low : 2 * (r * step) ≤ 2 * numerator + step) (high : 2 * numerator ≤ 2 * (r * step) + step)
    (tie : r % 2 = 1 → 2 * (r * step) ≠ 2 * numerator + step ∧
      2 * numerator ≠ 2 * (r * step) + step) :
    (if step < 2 * (numerator % step) ∨
        (2 * (numerator % step) = step ∧ numerator / step % 2 = 1) then
      numerator / step + 1 else numerator / step) = r := by
  have split := Nat.div_add_mod numerator step
  have hrest := Nat.mod_lt numerator hstep
  generalize numerator % step = rest at split hrest ⊢
  generalize numerator / step = whole at split ⊢
  rw [Nat.mul_comm] at split
  have upper : whole < r + 1 := by
    apply Nat.lt_of_mul_lt_mul_right (a := step)
    rw [Nat.add_mul]
    omega
  have lower : r < whole + 2 := by
    apply Nat.lt_of_mul_lt_mul_right (a := step)
    rw [Nat.add_mul]
    omega
  obtain rfl | rfl : whole = r ∨ r = whole + 1 := by omega
  · split <;> omega
  · rw [Nat.add_mul] at low high tie
    split <;> omega

theorem excessBits_eq {w e : Nat} (low : e = 0 ∨ 2 ^ (52 + e) ≤ w) (high : w < 2 ^ (53 + e)) :
    excessBits w = e := by
  have hle := excessBits_le high
  rcases low with rfl | low
  · omega
  · have hpos : w ≠ 0 := by
      have := Nat.two_pow_pos (52 + e)
      omega
    have hlog := (Nat.le_log2 hpos).mpr low
    unfold excessBits at hle ⊢
    omega

/-- Rounding with a known number of excess bits. -/
theorem roundQuotient_eq {numerator denominator a e : Nat} (hd : 0 < denominator)
    (excess : excessBits (numerator / denominator) = e)
    (low : 2 * (a * (denominator * 2 ^ e)) ≤ 2 * numerator + denominator * 2 ^ e)
    (high : 2 * numerator ≤ 2 * (a * (denominator * 2 ^ e)) + denominator * 2 ^ e)
    (tie : a % 2 = 1 → 2 * (a * (denominator * 2 ^ e)) ≠ 2 * numerator + denominator * 2 ^ e ∧
      2 * numerator ≠ 2 * (a * (denominator * 2 ^ e)) + denominator * 2 ^ e) :
    roundQuotient numerator denominator = a * 2 ^ e := by
  have hstep : 0 < denominator * 2 ^ e := Nat.mul_pos hd (Nat.two_pow_pos e)
  have rounded := rounded_eq hstep low high tie
  simp only [roundQuotient, excess]
  exact congrArg (· * 2 ^ e) rounded

theorem le_significand {m : Nat} (h : 0 < excessBits m) : 2 ^ 52 ≤ m / 2 ^ excessBits m := by
  have hpos : m ≠ 0 := by
    rintro rfl
    simp [excessBits] at h
  have hlog := Nat.log2_self_le hpos
  have hbits : m.log2 = 52 + excessBits m := by
    unfold excessBits at h ⊢
    omega
  apply (Nat.le_div_iff_mul_le (Nat.two_pow_pos _)).mpr
  rw [← Nat.pow_add, ← hbits]
  exact hlog

end Double

namespace Decimal.Interval

/-! ## Intervals -/

/-- A quotient of quarters lies in an interval. -/
structure Holds (i : Interval) (numerator denominator : Nat) : Prop where
  low : (i.center - i.below) * denominator ≤ numerator
  high : numerator ≤ (i.center + i.above) * denominator
  strict : i.closed = false → (i.center - i.below) * denominator < numerator ∧
    numerator < (i.center + i.above) * denominator

theorem holds_of_contains {i : Interval} {numerator denominator : Nat} (hd : 0 < denominator)
    (hbelow : 0 < i.below) (hcenter : i.below ≤ i.center) (habove : 0 < i.above)
    (h : i.contains numerator denominator = true) : i.Holds numerator denominator := by
  have below := Nat.mul_pos hbelow hd
  have above := Nat.mul_pos habove hd
  have center := Nat.mul_le_mul_right denominator hcenter
  have inside : (i.center * denominator ≤ numerator + i.below * denominator ∧
      numerator ≤ i.center * denominator + i.above * denominator) ∧
      (i.closed = false → i.center * denominator < numerator + i.below * denominator ∧
        numerator < i.center * denominator + i.above * denominator) := by
    unfold contains at h
    cases hc : i.closed <;> simp only [hc] at h ⊢ <;> split at h <;>
      simp only [Bool.false_and, Bool.or_false, Bool.true_and, Bool.or_eq_true,
        decide_eq_true_eq] at h <;> simp <;> omega
  obtain ⟨⟨low, high⟩, strict⟩ := inside
  constructor
  · rw [Nat.sub_mul]
    omega
  · rw [Nat.add_mul]
    exact high
  · intro hc
    have := strict hc
    rw [Nat.sub_mul, Nat.add_mul]
    omega

/-- What counts is the quotient, not how it is written. -/
theorem Holds.congr {i : Interval} {n d n' d' : Nat} (hd : 0 < d) (hd' : 0 < d')
    (cross : n * d' = n' * d) (h : i.Holds n d) : i.Holds n' d' := by
  have low : ∀ r, r * d ≤ n ↔ r * d' ≤ n' := by
    intro r
    calc r * d ≤ n ↔ r * d * d' ≤ n * d' := (Nat.mul_le_mul_right_iff hd').symm
      _ ↔ r * d' * d ≤ n' * d := by rw [cross, Nat.mul_right_comm]
      _ ↔ r * d' ≤ n' := Nat.mul_le_mul_right_iff hd
  have high : ∀ r, n ≤ r * d ↔ n' ≤ r * d' := by
    intro r
    calc n ≤ r * d ↔ n * d' ≤ r * d * d' := (Nat.mul_le_mul_right_iff hd').symm
      _ ↔ n' * d ≤ r * d' * d := by rw [cross, Nat.mul_right_comm]
      _ ↔ n' ≤ r * d' := Nat.mul_le_mul_right_iff hd
  constructor
  · exact (low _).mp h.low
  · exact (high _).mp h.high
  · intro hc
    obtain ⟨hlow, hhigh⟩ := h.strict hc
    constructor
    · apply Nat.lt_of_not_le
      intro hle
      exact Nat.not_le_of_lt hlow ((high _).mpr hle)
    · apply Nat.lt_of_not_le
      intro hle
      exact Nat.not_le_of_lt hhigh ((low _).mpr hle)

end Decimal.Interval

namespace Double

open Decimal (Interval)

/-- The rounding of a quotient that lies within half a step of a multiple of the step. -/
theorem roundQuotient_of_close {n d a e : Nat} (hd : 0 < d)
    (lower : e = 0 ∨ 2 ^ (52 + e) * d ≤ n) (upper : n < 2 ^ (53 + e) * d)
    (low : 2 * (a * (d * 2 ^ e)) ≤ 2 * n + d * 2 ^ e)
    (high : 2 * n ≤ 2 * (a * (d * 2 ^ e)) + d * 2 ^ e)
    (tie : a % 2 = 1 → 2 * (a * (d * 2 ^ e)) ≠ 2 * n + d * 2 ^ e ∧
      2 * n ≠ 2 * (a * (d * 2 ^ e)) + d * 2 ^ e) :
    roundQuotient n d = a * 2 ^ e := by
  apply roundQuotient_eq hd _ low high tie
  apply excessBits_eq
  · exact lower.imp_right (Nat.le_div_iff_mul_le hd).mpr
  · exact (Nat.div_lt_iff_lt_mul hd).mpr upper

/-- A quotient in the interval around a number is rounded to the number. -/
theorem roundQuotient_of_holds {u n d : Nat} (hd : 0 < d) (hu : Representable u)
    (h : (Interval.ofUnits u).Holds (4 * n) d) : roundQuotient n d = u := by
  have hlt := significand_lt u
  have hle := le_significand (m := u)
  have hua : u / 2 ^ excessBits u * 2 ^ excessBits u = u := Nat.div_mul_cancel hu
  obtain ⟨low, high, strict⟩ := h
  simp only [Interval.ofUnits, Nat.pow_eq] at low high strict
  generalize excessBits u = e at *
  generalize u / 2 ^ e = a at *
  subst hua
  have center : 4 * (a * 2 ^ e) * d = 4 * (a * (d * 2 ^ e)) := by ring
  have half : 2 * 2 ^ e * d = 2 * (d * 2 ^ e) := by ring
  have quarter : 2 ^ e * d = d * 2 ^ e := Nat.mul_comm _ _
  have hpos : 0 < d * 2 ^ e := Nat.mul_pos hd (Nat.two_pow_pos e)
  have top : 2 ^ (53 + e) * d = 2 ^ 53 * (d * 2 ^ e) := by ring
  rw [Nat.add_mul, center, half] at high
  have upper : n < 2 ^ (53 + e) * d := by
    have below : (a + 1) * (d * 2 ^ e) ≤ 2 ^ 53 * (d * 2 ^ e) := Nat.mul_le_mul_right _ hlt
    rw [Nat.add_mul] at below
    omega
  by_cases edge : a = 2 ^ 52 ∧ 0 < e
  · -- the quotient may lie below the power of two, where one bit more is kept
    obtain ⟨rfl, he⟩ := edge
    obtain ⟨k, rfl⟩ : ∃ k, e = k + 1 := ⟨e - 1, by omega⟩
    rw [if_pos ⟨rfl, he⟩, Nat.sub_mul, center, quarter] at low
    by_cases above : 2 ^ (52 + (k + 1)) * d ≤ n
    · apply roundQuotient_of_close hd (.inr above) upper
      · omega
      · omega
      · omega
    · rw [show 52 + (k + 1) = 53 + k by omega] at above
      have step : d * 2 ^ (k + 1) = 2 * (d * 2 ^ k) := by ring
      have power : 2 ^ (53 + k) * d = 2 ^ 53 * (d * 2 ^ k) := by ring
      have bottom : 2 ^ (52 + k) * d = 2 ^ 52 * (d * 2 ^ k) := by ring
      have finer : roundQuotient n d = 2 ^ 53 * 2 ^ k := by
        apply roundQuotient_of_close hd (.inr _) (Nat.lt_of_not_le above)
        · omega
        · omega
        · omega
        · omega
      rw [finer]
      ring
  · rw [if_neg edge, Nat.sub_mul, center, half] at low strict
    apply roundQuotient_of_close hd _ upper
    · omega
    · omega
    · intro odd
      have inner := strict (by simp [odd])
      rw [Nat.add_mul, center, half] at inner
      omega
    · by_cases he : e = 0
      · exact .inl he
      · right
        have ha : 2 ^ 52 + 1 ≤ a := by omega
        have above : (2 ^ 52 + 1) * (d * 2 ^ e) ≤ a * (d * 2 ^ e) := Nat.mul_le_mul_right _ ha
        have bottom : 2 ^ (52 + e) * d = 2 ^ 52 * (d * 2 ^ e) := by ring
        rw [Nat.add_mul] at above
        omega

end Double

end TemplateLint
