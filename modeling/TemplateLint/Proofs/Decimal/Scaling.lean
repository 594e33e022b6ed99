import TemplateLint.Decimal.Scaling
import TemplateLint.Proofs.Decimal.Integers
import TemplateLint.Proofs.Decimal.Overflow

/-!
# What scaling comes to

A number that a literal comes to by scaling is rounded and in range, but it is
not always the one nearest to the literal. It is if the digits make at most 2^53
and the power of ten is one of the 22 that 53 bits hold: then neither has to be
rounded, and a single step rounds. No claim is made on how far off other
literals are.
-/

namespace TemplateLint

namespace Double

/-! ## Range -/

/-- Every quotient is rounded to a number that 53 bits hold. -/
theorem representable_roundQuotient (numerator denominator : Nat) :
    Representable (roundQuotient numerator denominator) := by
  have small := significand_lt (numerator / denominator)
  rcases round_cases numerator denominator with down | ⟨up, -⟩
  · rw [down]
    exact representable_mul (Nat.le_of_lt small) _
  · rw [up]
    exact representable_mul small _

/-- A number that 53 bits hold, if it is finite. -/
def Rounded (x : Double) : Prop :=
  ∀ negative units, x = .finite negative units → Representable units ∧ units ≤ maxUnits

theorem rounded_zero (negative : Bool) : (finite negative 0).Rounded := by
  rintro _ _ ⟨⟩
  exact ⟨Nat.dvd_zero _, Nat.zero_le _⟩

theorem rounded_ofQuotient (negative : Bool) (numerator denominator : Nat) :
    (ofQuotient negative numerator denominator).Rounded := by
  intro sign units h
  unfold ofQuotient at h
  dsimp only at h
  split at h
  · cases h
  · cases h
    exact ⟨representable_roundQuotient _ _, by omega⟩

theorem rounded_ofDecimal (negative : Bool) (digits : Nat) (exponent : Int) :
    (ofDecimal negative digits exponent).Rounded := by
  unfold ofDecimal
  split
  · exact rounded_zero negative
  split
  · exact nofun
  split
  · exact rounded_zero negative
  split
  · exact rounded_ofQuotient _ _ _
  · exact rounded_ofQuotient _ _ _

theorem rounded_mul (x y : Double) : (x.mul y).Rounded := by
  unfold mul
  split
  · exact rounded_ofQuotient _ _ _
  · split <;> exact nofun
  · split <;> exact nofun
  · exact nofun
  · exact nofun

theorem rounded_div (x y : Double) : (x.div y).Rounded := by
  unfold div
  split
  · split
    · split <;> exact nofun
    · exact rounded_ofQuotient _ _ _
  · exact rounded_zero _
  · exact nofun
  · exact nofun

theorem rounded_scaleDown {x : Double} (h : x.Rounded) (exponent : Nat) :
    (x.scaleDown exponent).Rounded := by
  fun_induction scaleDown x exponent with
  | case1 x exponent => exact rounded_div _ _
  | case2 x exponent => exact h
  | case3 x exponent _ _ ih => exact ih (rounded_div _ _)

theorem rounded_scaled (negative : Bool) (significand : Nat) (exponent : Int) :
    (scaled negative significand exponent).Rounded := by
  have start := rounded_ofQuotient negative significand 1
  unfold scaled
  cases exponent with
  | ofNat e =>
    dsimp only [scaleUp]
    split
    · exact start
    · exact rounded_mul _ _
  | negSucc e => exact rounded_scaleDown start _

/-! ## Numbers that need no rounding -/

theorem roundQuotient_mul_right {numerator denominator c : Nat} (hc : 0 < c) :
    roundQuotient (numerator * c) (denominator * c) = roundQuotient numerator denominator := by
  have step (e : Nat) : denominator * c * 2 ^ e = denominator * 2 ^ e * c :=
    Nat.mul_right_comm _ _ _
  have twice (rest : Nat) : 2 * (rest * c) = 2 * rest * c := (Nat.mul_assoc _ _ _).symm
  simp only [roundQuotient, Nat.pow_eq, Nat.mul_div_mul_right _ _ hc, step, Nat.mul_mod_mul_right,
    twice, Nat.mul_lt_mul_right hc, Nat.mul_left_inj (Nat.ne_of_gt hc)]

section Whole

variable (a b : Bool) (m : Nat) {n : Nat}

theorem mul_whole : (finite a (m * unitsPerOne)).mul (finite b (n * unitsPerOne)) =
    ofQuotient (a != b) (m * n) 1 := by
  have hpos := Nat.mul_pos unitsPerOne_pos unitsPerOne_pos
  have product : m * unitsPerOne * (n * unitsPerOne) * unitsPerOne =
      m * n * unitsPerOne * (unitsPerOne * unitsPerOne) := by ring
  have cancelled : roundQuotient (m * n * unitsPerOne * (unitsPerOne * unitsPerOne))
      (1 * (unitsPerOne * unitsPerOne)) = roundQuotient (m * n * unitsPerOne) 1 :=
    roundQuotient_mul_right hpos
  rw [← product, Nat.one_mul] at cancelled
  simp only [mul, ofQuotient, cancelled]

theorem div_whole (hn : 0 < n) : (finite a (m * unitsPerOne)).div (finite b (n * unitsPerOne)) =
    ofQuotient (a != b) m n := by
  have divisor : n * unitsPerOne ≠ 0 := Nat.ne_of_gt (Nat.mul_pos hn unitsPerOne_pos)
  rw [div, if_neg divisor]
  simp only [ofQuotient, roundQuotient_mul_right unitsPerOne_pos]

end Whole

theorem ofQuotient_zero (negative : Bool) (denominator : Nat) :
    ofQuotient negative 0 denominator = .finite negative 0 := by
  have nothing : roundQuotient 0 denominator = 0 := by
    have excess : excessBits 0 = 0 := by decide
    simp [roundQuotient, excess]
  simp [ofQuotient, nothing]

/-- A decimal with a small power of ten is a quotient of integers. -/
theorem ofDecimal_near (negative : Bool) {digits : Nat} {exponent : Int}
    (near : exponent.natAbs ≤ 22) : ofDecimal negative digits exponent =
      ofQuotient negative (digits * 10 ^ exponent.toNat) (10 ^ (-exponent).toNat) := by
  unfold ofDecimal
  split
  · rename_i zero
    rw [zero, Nat.zero_mul, ofQuotient_zero]
  · rw [if_neg (by omega), if_neg (by omega)]
    cases exponent with
    | ofNat e => simp
    | negSucc e => simp

/-- The powers of ten that 53 bits hold. -/
theorem powerOfTen_eq {e : Nat} (h : e ≤ 22) :
    powerOfTen e = .finite false (10 ^ e * unitsPerOne) := by
  obtain ⟨k, hk⟩ := exists_unitsPerOne
  have odd : 5 ^ e ≤ 2 ^ 53 :=
    Nat.le_trans (Nat.pow_le_pow_right (by decide) h) (by decide)
  have power : 10 ^ e * 2 ^ k = 5 ^ e * 2 ^ (e + k) := by
    rw [show 10 = 5 * 2 from rfl, Nat.mul_pow, Nat.pow_add, Nat.mul_assoc]
  have kept : roundQuotient (10 ^ e * unitsPerOne) 1 = 10 ^ e * unitsPerOne := by
    rw [hk, power]
    exact roundQuotient_of_representable (representable_mul odd _)
  have small : 10 ^ e * unitsPerOne ≤ maxUnits := by
    have largest : 10 ^ 22 * unitsPerOne ≤ maxUnits := by decide +kernel
    have below : 10 ^ e ≤ 10 ^ 22 := Nat.pow_le_pow_right (by decide) h
    exact Nat.le_trans (Nat.mul_le_mul_right unitsPerOne below) largest
  rw [powerOfTen, ofDecimal_near false (by omega)]
  simpa using ofQuotient_of_rounded kept small false

/-- One step rounds where neither the significand nor the power of ten has to be. -/
theorem scaled_eq_ofDecimal (negative : Bool) {significand : Nat} {exponent : Int}
    (held : significand ≤ 2 ^ 53) (near : exponent.natAbs ≤ 22) :
    scaled negative significand exponent = ofDecimal negative significand exponent := by
  rw [ofDecimal_near negative near]
  unfold scaled
  rw [ofQuotient_exact held]
  cases exponent with
  | ofNat e =>
    simp only [Int.ofNat_eq_natCast, Int.natAbs_natCast] at near
    dsimp only [scaleUp]
    split
    · rename_i isZero
      have zero : significand = 0 := by
        have units := finite_sameValue.mp isZero
        have := congrArg Int.natAbs units
        rw [natAbs_signed, natAbs_signed] at this
        exact (Nat.mul_eq_zero.mp this).resolve_right (Nat.ne_of_gt unitsPerOne_pos)
      simp [zero, ofQuotient_zero]
    · rw [powerOfTen_eq near, mul_whole]
      simp
  | negSucc e =>
    rw [Int.natAbs_negSucc] at near
    dsimp only
    unfold scaleDown
    rw [if_pos (by unfold largestPower; omega), powerOfTen_eq near,
      div_whole _ _ _ (Nat.pow_pos (by decide))]
    simp

end Double

/-! ## Literals -/

namespace Decimal.Literal

theorem rounded_toScaled (l : Literal) : l.toScaled.Rounded := Double.rounded_scaled _ _ _

/-- A number and the digits behind it. -/
def appendDigits (n : Nat) (ds : List Char) : Nat :=
  ds.foldl (fun n d => 10 * n + (d.toNat - '0'.toNat)) n

theorem le_appendDigits (n : Nat) (ds : List Char) : n ≤ appendDigits n ds := by
  induction ds generalizing n with
  | nil => exact Nat.le_refl n
  | cons d ds ih =>
    have next : n ≤ 10 * n + (d.toNat - '0'.toNat) := by omega
    exact Nat.le_trans next (ih _)

/-- Nothing is left out of what 64 bits hold. -/
theorem gather_of_lt {n : Nat} {ds : List Char} (h : appendDigits n ds < 2 ^ 64) :
    gather n ds = (appendDigits n ds, ds.length) := by
  induction ds generalizing n with
  | nil => rfl
  | cons d ds ih =>
    have fits : 10 * n + (d.toNat - '0'.toNat) < Nat.pow 2 64 :=
      Nat.lt_of_le_of_lt (le_appendDigits _ ds) h
    have behind := ih h
    simp only [gather, if_pos fits, behind]
    rfl

/-- A literal of few digits with a small power of ten. -/
structure Short (l : Literal) : Prop where
  digits : natOfDigits (l.whole ++ l.fraction.getD []) ≤ 2 ^ 53
  power : l.scale.natAbs ≤ 22

/-- A short literal comes to the number that is nearest to it. -/
theorem Short.toScaled_eq {l : Literal} (h : l.Short) : l.toScaled = l.toDouble := by
  have all : natOfDigits (l.whole ++ l.fraction.getD []) =
      appendDigits (natOfDigits l.whole) (l.fraction.getD []) := List.foldl_append
  have digits := h.digits
  rw [all] at digits
  have front := le_appendDigits (natOfDigits l.whole) (l.fraction.getD [])
  have whole : gather 0 l.whole = (natOfDigits l.whole, l.whole.length) :=
    gather_of_lt (show natOfDigits l.whole < 2 ^ 64 by omega)
  have behind : gather (natOfDigits l.whole) (l.fraction.getD []) =
      (appendDigits (natOfDigits l.whole) (l.fraction.getD []), (l.fraction.getD []).length) :=
    gather_of_lt (by omega)
  have scaled := Double.scaled_eq_ofDecimal l.negative digits h.power
  simp only [toScaled, whole, behind, Nat.sub_self, toDouble, all]
  simpa [scale] using scaled

-- The power of ten is too large by one, and the number that is met is the one below the nearest.
example : (ofText? "3e23".toList).map toScaled =
    (ofText? "2.9999999999999997e23".toList).map toDouble := by
  decide +kernel

end Decimal.Literal

end TemplateLint
