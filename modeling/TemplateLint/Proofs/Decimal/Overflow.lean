import TemplateLint.Decimal.Literal
import TemplateLint.Proofs.Decimal.Rounding

/-!
# Overflow

A magnitude is rounded to infinity from halfway between the largest binary64
number and 2 ^ 1024, the number that would come next. The halfway point itself
is rounded up, for the significand of the largest number is odd. No literal is
rounded to NaN.
-/

namespace TemplateLint

namespace Double

/-! ## Rounding near a power of two -/

section Rounding

variable {numerator denominator k : Nat}

/-- What is left below the kept bits is dropped, or carries one into them. -/
theorem round_cases (numerator denominator : Nat) :
    let e := excessBits (numerator / denominator)
    let whole := numerator / denominator / 2 ^ e
    roundQuotient numerator denominator = whole * 2 ^ e ∨
      (roundQuotient numerator denominator = (whole + 1) * 2 ^ e ∧
        denominator * 2 ^ e ≤ 2 * (numerator % (denominator * 2 ^ e))) := by
  intro e whole
  have rounded : roundQuotient numerator denominator =
      (if denominator * 2 ^ e < 2 * (numerator % (denominator * 2 ^ e)) ∨
          (2 * (numerator % (denominator * 2 ^ e)) = denominator * 2 ^ e ∧
            numerator / (denominator * 2 ^ e) % 2 = 1) then
        numerator / (denominator * 2 ^ e) + 1 else numerator / (denominator * 2 ^ e)) * 2 ^ e := rfl
  rw [rounded, ← Nat.div_div_eq_div_mul]
  split
  · rename_i up
    exact Or.inr ⟨rfl, by omega⟩
  · exact Or.inl rfl

theorem le_round_of_le (hd : 0 < denominator)
    (h : (2 ^ 54 - 1) * (2 ^ k * denominator) ≤ numerator) :
    2 ^ 53 * 2 ^ (k + 1) ≤ roundQuotient numerator denominator := by
  have hpos : 0 < 2 ^ k * denominator := Nat.mul_pos (Nat.two_pow_pos k) hd
  have place : denominator * 2 ^ (k + 1) = 2 * (2 ^ k * denominator) := by ring
  rcases Nat.lt_or_ge (numerator / denominator) (2 ^ (53 + (k + 1))) with below | above
  · have large : 2 ^ (52 + (k + 1)) ≤ numerator / denominator := by
      refine (Nat.le_div_iff_mul_le hd).mpr ?_
      have : 2 ^ (52 + (k + 1)) * denominator = 2 ^ 53 * (2 ^ k * denominator) := by ring
      omega
    have high : numerator < 2 ^ 54 * (2 ^ k * denominator) := by
      have : 2 ^ (53 + (k + 1)) * denominator = 2 ^ 54 * (2 ^ k * denominator) := by ring
      exact this ▸ (Nat.div_lt_iff_lt_mul hd).mp below
    refine Nat.le_of_eq (roundQuotient_eq hd (excessBits_eq (Or.inr large) below) ?_ ?_ ?_).symm
    · omega
    · omega
    · omega
  · have excess : k + 2 ≤ excessBits (numerator / denominator) := by
      have nonzero : numerator / denominator ≠ 0 := by
        have := Nat.two_pow_pos (53 + (k + 1))
        omega
      have hlog := (Nat.le_log2 nonzero).mpr above
      unfold excessBits
      omega
    have whole := le_significand (Nat.lt_of_lt_of_le (Nat.succ_pos _) excess)
    have kept : numerator / denominator / 2 ^ excessBits (numerator / denominator) *
        2 ^ excessBits (numerator / denominator) ≤ roundQuotient numerator denominator := by
      rcases round_cases numerator denominator with down | ⟨up, -⟩
      · exact Nat.le_of_eq down.symm
      · rw [up]
        exact Nat.mul_le_mul_right _ (Nat.le_succ _)
    calc 2 ^ 53 * 2 ^ (k + 1) = 2 ^ 52 * 2 ^ (k + 2) := by ring
      _ ≤ 2 ^ 52 * 2 ^ excessBits (numerator / denominator) :=
        Nat.mul_le_mul_left _ (Nat.pow_le_pow_right (by omega) excess)
      _ ≤ _ := Nat.mul_le_mul_right _ whole
      _ ≤ _ := kept

theorem round_le_of_lt (hd : 0 < denominator)
    (h : numerator < (2 ^ 54 - 1) * (2 ^ k * denominator)) :
    roundQuotient numerator denominator ≤ (2 ^ 53 - 1) * 2 ^ (k + 1) := by
  have below : numerator / denominator < 2 ^ (53 + (k + 1)) := by
    refine (Nat.div_lt_iff_lt_mul hd).mpr ?_
    have : 2 ^ (53 + (k + 1)) * denominator = 2 ^ 54 * (2 ^ k * denominator) := by ring
    omega
  have excess := excessBits_le below
  have small := significand_lt (numerator / denominator)
  rcases Nat.lt_or_eq_of_le excess with fewer | same
  · have half : 2 ^ 53 * 2 ^ excessBits (numerator / denominator) ≤ 2 ^ 52 * 2 ^ (k + 1) := by
      calc 2 ^ 53 * 2 ^ excessBits (numerator / denominator) ≤ 2 ^ 53 * 2 ^ k :=
            Nat.mul_le_mul_left _ (Nat.pow_le_pow_right (by omega) (by omega))
        _ = 2 ^ 52 * 2 ^ (k + 1) := by ring
    have rounded : roundQuotient numerator denominator ≤
        2 ^ 53 * 2 ^ excessBits (numerator / denominator) := by
      rcases round_cases numerator denominator with down | ⟨up, -⟩
      · rw [down]
        exact Nat.mul_le_mul_right _ (Nat.le_of_lt small)
      · rw [up]
        exact Nat.mul_le_mul_right _ small
    exact Nat.le_trans rounded (Nat.le_trans half (Nat.mul_le_mul_right _ (by omega)))
  · rcases round_cases numerator denominator with down | ⟨up, carried⟩
    · rw [down, same]
      rw [same] at small
      exact Nat.mul_le_mul_right _ (by omega)
    · rw [up, same]
      rw [same] at small carried
      apply Nat.mul_le_mul_right
      have split := Nat.div_add_mod numerator (denominator * 2 ^ (k + 1))
      rw [← Nat.div_div_eq_div_mul] at split
      generalize numerator / denominator / 2 ^ (k + 1) = whole at *
      by_contra full
      obtain rfl : whole = 2 ^ 53 - 1 := by omega
      have : denominator * 2 ^ (k + 1) = 2 * (2 ^ k * denominator) := by ring
      omega
end Rounding

/-! ## The largest number -/

/-- The least magnitude that is rounded to infinity. -/
def overflow : Nat := (2 ^ 54 - 1) * 2 ^ 970

theorem overflow_pos : 0 < overflow := by decide +kernel

theorem overflow_le {e : Nat} (h : 309 < e) : overflow ≤ 10 ^ e := by
  have grows (a : Nat) (hle : a ≤ e) (bound : overflow ≤ 10 ^ a) : overflow ≤ 10 ^ e :=
    Nat.le_trans bound (Nat.pow_le_pow_right (by decide) hle)
  exact grows 310 h (by decide +kernel)

theorem overflow_units : overflow * unitsPerOne = (2 ^ 54 - 1) * 2 ^ 2044 := by decide +kernel

theorem maxUnits_eq : maxUnits = (2 ^ 53 - 1) * 2 ^ (2044 + 1) := by decide +kernel

theorem maxUnits_lt_round_iff {numerator denominator : Nat} (hd : 0 < denominator) :
    maxUnits < roundQuotient (numerator * unitsPerOne) denominator ↔
      overflow * denominator ≤ numerator := by
  have hunits := unitsPerOne_pos
  have threshold : overflow * denominator ≤ numerator ↔
      (2 ^ 54 - 1) * (2 ^ 2044 * denominator) ≤ numerator * unitsPerOne := by
    rw [← Nat.mul_assoc, ← overflow_units, Nat.mul_right_comm, Nat.mul_le_mul_right_iff hunits]
  rw [maxUnits_eq, threshold]
  constructor
  · intro h
    by_contra below
    exact Nat.not_le_of_lt h (round_le_of_lt hd (Nat.lt_of_not_le below))
  · intro h
    have below (k : Nat) : (2 ^ 53 - 1) * 2 ^ k < 2 ^ 53 * 2 ^ k :=
      Nat.mul_lt_mul_of_pos_right (by decide) (Nat.two_pow_pos k)
    exact Nat.lt_of_lt_of_le (below (2044 + 1)) (le_round_of_le hd h)

theorem ofQuotient_eq_infinite_iff {numerator denominator : Nat} (hd : 0 < denominator)
    {negative sign : Bool} : ofQuotient negative numerator denominator = .infinite sign ↔
      negative = sign ∧ overflow * denominator ≤ numerator := by
  rw [← maxUnits_lt_round_iff hd]
  unfold ofQuotient
  dsimp only
  split
  · rename_i above
    simp [above]
  · rename_i below
    simp [below]

/-- A decimal is rounded to infinity by its magnitude alone. -/
theorem ofDecimal_eq_infinite_iff {negative sign : Bool} {digits : Nat} {exponent : Int} :
    ofDecimal negative digits exponent = .infinite sign ↔ negative = sign ∧
      overflow * 10 ^ (-exponent).toNat ≤ digits * 10 ^ exponent.toNat := by
  have hpos := overflow_pos
  unfold ofDecimal
  split
  · rename_i zero
    have small : ¬ overflow * 10 ^ (-exponent).toNat ≤ digits * 10 ^ exponent.toNat := by
      rw [zero, Nat.zero_mul, Nat.not_le]
      exact Nat.mul_pos hpos (Nat.pow_pos (by omega))
    simp [small]
  · rename_i nonzero
    split
    · rename_i above
      have large : overflow * 10 ^ (-exponent).toNat ≤ digits * 10 ^ exponent.toNat := by
        have whole : (-exponent).toNat = 0 := by omega
        rw [whole, Nat.pow_zero, Nat.mul_one]
        calc overflow ≤ 10 ^ exponent.toNat := overflow_le (by omega)
          _ ≤ digits * 10 ^ exponent.toNat := Nat.le_mul_of_pos_left _ (by omega)
      simp [large]
    · split
      · rename_i below
        have small : ¬ overflow * 10 ^ (-exponent).toNat ≤ digits * 10 ^ exponent.toNat := by
          have fraction : exponent.toNat = 0 := by omega
          rw [fraction, Nat.pow_zero, Nat.mul_one, Nat.not_le]
          calc digits < 2 ^ (digits.log2 + 1) := Nat.lt_log2_self
            _ ≤ 10 ^ (digits.log2 + 1) := Nat.pow_le_pow_left (by omega) _
            _ ≤ 10 ^ (-exponent).toNat := Nat.pow_le_pow_right (by omega) (by omega)
            _ ≤ overflow * 10 ^ (-exponent).toNat := Nat.le_mul_of_pos_left _ hpos
        simp [small]
      · cases exponent with
        | ofNat e =>
          have whole : (-Int.ofNat e).toNat = 0 := by
            rw [Int.ofNat_eq_natCast]
            omega
          rw [whole, Nat.pow_zero]
          exact ofQuotient_eq_infinite_iff Nat.one_pos
        | negSucc e =>
          rw [Int.toNat_negSucc, Nat.pow_zero, Nat.mul_one]
          exact ofQuotient_eq_infinite_iff (Nat.pow_pos (by decide))

theorem ofDecimal_ne_nan (negative : Bool) (digits : Nat) (exponent : Int) :
    ofDecimal negative digits exponent ≠ .nan := by
  have quotient (numerator denominator : Nat) :
      ofQuotient negative numerator denominator ≠ .nan := by
    unfold ofQuotient
    dsimp only
    split <;> exact nofun
  unfold ofDecimal
  split
  · exact nofun
  split
  · exact nofun
  split
  · exact nofun
  split <;> exact quotient _ _

end Double

/-! ## Literals -/

namespace Decimal.Literal

variable {l : Literal}

/-- The power of ten that the digits of a literal count by. -/
def scale (l : Literal) : Int :=
  (l.exponent.map Exponent.value).getD 0 - (l.fraction.getD []).length

/-- The magnitude of a literal is one that is rounded to infinity. -/
def Overflows (l : Literal) : Prop :=
  Double.overflow * 10 ^ (-l.scale).toNat ≤
    natOfDigits (l.whole ++ l.fraction.getD []) * 10 ^ l.scale.toNat

theorem toDouble_eq_infinite_iff {sign : Bool} :
    l.toDouble = .infinite sign ↔ l.negative = sign ∧ l.Overflows :=
  Double.ofDecimal_eq_infinite_iff

theorem infinite_iff : (∃ sign, l.toDouble = .infinite sign) ↔ l.Overflows := by
  simp only [toDouble_eq_infinite_iff, exists_and_right, exists_eq', true_and]

theorem toDouble_ne_nan (l : Literal) : l.toDouble ≠ .nan := Double.ofDecimal_ne_nan _ _ _

theorem isFinite_toDouble_iff : l.toDouble.isFinite = true ↔ ¬l.Overflows := by
  have infinite (sign : Bool) : l.toDouble = .infinite sign ↔ l.negative = sign ∧ l.Overflows :=
    toDouble_eq_infinite_iff
  cases h : l.toDouble with
  | nan => exact (l.toDouble_ne_nan h).elim
  | infinite sign => simpa [Double.isFinite] using ((infinite sign).mp h).2
  | finite sign units =>
    have small : ¬l.Overflows := fun overflows => by
      rw [(infinite l.negative).mpr ⟨rfl, overflows⟩] at h
      cases h
    simpa [Double.isFinite] using small

end Decimal.Literal

end TemplateLint
