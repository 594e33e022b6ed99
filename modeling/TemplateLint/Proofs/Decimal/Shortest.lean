import TemplateLint.Proofs.Decimal.Rounding
import TemplateLint.Proofs.Grammar.Printing

/-!
# Shortest decimals are read back

The digits that are chosen for a number write a decimal that lies in the
interval around it. So the number nearest to the decimal is the number, however
many zeros are written behind the digits.
-/

namespace TemplateLint

namespace Decimal

namespace Interval

/-- A decimal lies in an interval. -/
def Near (i : Interval) (digits : Nat) (exponent : Int) : Prop :=
  i.Holds (digits * (quartersPerOne * 10 ^ exponent.toNat)) (10 ^ (-exponent).toNat)

/-- Zeros behind the digits make no difference. -/
theorem near_shift {i : Interval} {digits : Nat} {exponent : Int} (zeros : Nat) :
    i.Near (digits * 10 ^ zeros) (exponent - zeros) ↔ i.Near digits exponent := by
  have powers : 10 ^ zeros * 10 ^ (exponent - zeros).toNat * 10 ^ (-exponent).toNat =
      10 ^ exponent.toNat * 10 ^ (-(exponent - zeros)).toNat := by
    rw [← Nat.pow_add, ← Nat.pow_add, ← Nat.pow_add]
    congr 1
    omega
  have cross : digits * 10 ^ zeros * (quartersPerOne * 10 ^ (exponent - zeros).toNat) *
      10 ^ (-exponent).toNat =
      digits * (quartersPerOne * 10 ^ exponent.toNat) * 10 ^ (-(exponent - zeros)).toNat := by
    calc digits * 10 ^ zeros * (quartersPerOne * 10 ^ (exponent - zeros).toNat) *
          10 ^ (-exponent).toNat
        = digits * quartersPerOne *
          (10 ^ zeros * 10 ^ (exponent - zeros).toNat * 10 ^ (-exponent).toNat) := by ring
      _ = digits * (quartersPerOne * 10 ^ exponent.toNat) *
          10 ^ (-(exponent - zeros)).toNat := by
        rw [powers]
        ring
  have tens : ∀ n, 0 < 10 ^ n := fun n => Nat.pow_pos (by decide)
  constructor
  · exact Holds.congr (tens _) (tens _) cross
  · exact Holds.congr (tens _) (tens _) cross.symm

theorem near_natCast {i : Interval} {digits e : Nat} :
    i.Near digits e ↔ i.Holds (digits * (quartersPerOne * 10 ^ e)) 1 := by
  have whole : (-(e : Int)).toNat = 0 := by omega
  unfold Near
  rw [whole, Int.toNat_natCast, Nat.pow_zero]

theorem near_neg {i : Interval} {digits e : Nat} :
    i.Near digits (-(e : Int)) ↔ i.Holds (digits * quartersPerOne) (10 ^ e) := by
  have whole : (-(e : Int)).toNat = 0 := by omega
  have power : (-(-(e : Int))).toNat = e := by omega
  unfold Near
  generalize quartersPerOne = q
  rw [whole, power, Nat.pow_zero, Nat.mul_one]

/-! ## The interval around a number -/

theorem below_ofUnits (units : Nat) : 0 < (ofUnits units).below ∧
    (ofUnits units).below ≤ 2 * 2 ^ Double.excessBits units := by
  have := Nat.two_pow_pos (Double.excessBits units)
  simp only [ofUnits, Nat.pow_eq]
  split <;> omega

theorem above_ofUnits (units : Nat) :
    (ofUnits units).above = 2 * 2 ^ Double.excessBits units := rfl

theorem center_ofUnits (units : Nat) : (ofUnits units).center = 4 * units := rfl

section Positive

variable {units : Nat} (hu : Double.Representable units) (hpos : 0 < units)

include hu hpos in
theorem step_le : 2 ^ Double.excessBits units ≤ units := Nat.le_of_dvd hpos hu

include hu hpos in
/-- The interval begins above zero and ends below twice the number. -/
theorem ends_ofUnits : 0 < (ofUnits units).center - (ofUnits units).below ∧
    (ofUnits units).center + (ofUnits units).above ≤ 6 * units := by
  have step := step_le hu hpos
  have below := below_ofUnits units
  rw [above_ofUnits, center_ofUnits]
  omega

end Positive

end Interval

end Decimal

namespace Double

open Decimal (Interval)

section Near

variable {units digits : Nat} {exponent : Int} (hu : Representable units) (hpos : 0 < units)
  (near : (Interval.ofUnits units).Near digits exponent)

include hu hpos near

theorem digits_ne_zero_of_near : digits ≠ 0 := by
  obtain ⟨start, -⟩ := Interval.ends_ofUnits hu hpos
  have low := near.low
  have positive := Nat.mul_pos start (Nat.pow_pos (n := (-exponent).toNat) (by decide : 0 < 10))
  rintro rfl
  rw [Nat.zero_mul] at low
  omega

/-- What is near a finite number is not too large for one. -/
theorem exponent_le_of_near (hmax : units ≤ maxUnits) : exponent ≤ 309 := by
  obtain ⟨-, stop⟩ := Interval.ends_ofUnits hu hpos
  have nonzero := digits_ne_zero_of_near hu hpos near
  obtain ⟨k, hk, limit⟩ : ∃ k ≤ 310, 6 * maxUnits < Decimal.quartersPerOne * .pow 10 k :=
    ⟨310, Nat.le_refl 310, by decide +kernel⟩
  apply Int.le_of_not_gt
  intro large
  obtain ⟨e, rfl⟩ : ∃ e : Nat, exponent = e := ⟨exponent.toNat, by omega⟩
  have high := (Interval.near_natCast.mp near).high
  have power : 10 ^ k ≤ 10 ^ e := Nat.pow_le_pow_right (by decide) (by omega)
  have scaled := Nat.mul_le_mul_left Decimal.quartersPerOne power
  rw [Nat.pow_eq] at limit
  generalize Decimal.quartersPerOne = q at limit high scaled
  have once := Nat.le_mul_of_pos_left (q * 10 ^ e) (Nat.pos_of_ne_zero nonzero)
  omega

/-- What is near a positive number is not too small for one. -/
theorem le_exponent_of_near : -325 ≤ exponent + digits.log2 := by
  obtain ⟨start, -⟩ := Interval.ends_ofUnits hu hpos
  obtain ⟨l, hl, limit⟩ : ∃ l ≤ 326, 2 * Decimal.quartersPerOne ≤ .pow 10 l :=
    ⟨326, Nat.le_refl 326, by decide +kernel⟩
  have positive : 0 < Decimal.quartersPerOne := Nat.mul_pos (by decide) unitsPerOne_pos
  apply Int.le_of_not_gt
  intro small
  obtain ⟨k, rfl⟩ : ∃ k : Nat, exponent = -((l + digits.log2 + k : Nat) : Int) :=
    ⟨(-exponent).toNat - (l + digits.log2), by omega⟩
  have low := (Interval.near_neg.mp near).low
  have power : 10 ^ l * 2 ^ digits.log2 ≤ 10 ^ (l + digits.log2 + k) := by
    rw [Nat.pow_add, Nat.pow_add, Nat.mul_assoc]
    apply Nat.mul_le_mul_left
    calc 2 ^ digits.log2 ≤ 10 ^ digits.log2 := Nat.pow_le_pow_left (by decide) _
      _ ≤ 10 ^ digits.log2 * 10 ^ k := Nat.le_mul_of_pos_right _ (Nat.pow_pos (by decide))
  rw [Nat.pow_eq] at limit
  generalize Decimal.quartersPerOne = q at limit low positive
  have upper : digits * q < 2 ^ digits.log2 * (2 * q) := by
    calc digits * q < 2 ^ (digits.log2 + 1) * q :=
          Nat.mul_lt_mul_of_pos_right Nat.lt_log2_self positive
      _ = 2 ^ digits.log2 * (2 * q) := by ring
  have scaled := Nat.mul_le_mul_left (2 ^ digits.log2) limit
  have once := Nat.le_mul_of_pos_left (10 ^ (l + digits.log2 + k)) start
  rw [Nat.mul_comm (10 ^ l)] at power
  omega

/-- A decimal in the interval around a number is rounded to the number. -/
theorem ofDecimal_of_near (hmax : units ≤ maxUnits) (negative : Bool) :
    ofDecimal negative digits exponent = .finite negative units := by
  have quotient : ∀ n d, 0 < d → (Interval.ofUnits units).Holds (4 * (n * unitsPerOne)) d →
      ofQuotient negative n d = .finite negative units := by
    intro n d hd holds
    rw [ofQuotient, roundQuotient_of_holds hd hu holds]
    exact if_neg (Nat.not_lt_of_le hmax)
  have nonzero := digits_ne_zero_of_near hu hpos near
  have notLarge := exponent_le_of_near hu hpos near hmax
  have notSmall := le_exponent_of_near hu hpos near
  unfold ofDecimal
  rw [if_neg nonzero, if_neg (Int.not_lt.mpr notLarge), if_neg (Int.not_lt.mpr notSmall)]
  cases exponent with
  | ofNat e =>
    have same : digits * (Decimal.quartersPerOne * 10 ^ e) =
        4 * (digits * 10 ^ e * unitsPerOne) := by
      rw [Decimal.quartersPerOne]
      ring
    have holds := Interval.near_natCast.mp near
    rw [same] at holds
    exact quotient _ 1 Nat.one_pos holds
  | negSucc e =>
    have same : digits * Decimal.quartersPerOne = 4 * (digits * unitsPerOne) := by
      rw [Decimal.quartersPerOne]
      ring
    have below : (Interval.ofUnits units).Near digits (-((e + 1 : Nat) : Int)) := near
    have holds := Interval.near_neg.mp below
    rw [same] at holds
    exact quotient _ _ (Nat.pow_pos (by decide)) holds

end Near

end Double

namespace Decimal

/-! ## Digits -/

open Literal (natOfDigits Digits)

/-- The digits of a decimal as they are written. -/
def text (d : Decimal) : List Char := d.digits.map fun n => Char.ofNat ('0'.toNat + n)

theorem natOfDigits_zeros (cs : List Char) (zeros : Nat) :
    natOfDigits (cs ++ List.replicate zeros '0') = natOfDigits cs * 10 ^ zeros := by
  induction zeros with
  | zero => simp
  | succ n ih =>
    rw [List.replicate_succ', ← List.append_assoc, natOfDigits, List.foldl_append]
    change 10 * natOfDigits (cs ++ List.replicate n '0') + 0 = _
    rw [ih]
    ring

theorem ofNat_digit {c : Char} (h : c.isDigit = true) :
    Char.ofNat ('0'.toNat + (c.toNat - '0'.toNat)) = c := by
  have range : 48 ≤ c.toNat := by
    simp only [Char.isDigit, Bool.and_eq_true, decide_eq_true_eq] at h
    exact h.1
  have same : '0'.toNat + (c.toNat - '0'.toNat) = c.toNat := Nat.add_sub_cancel' range
  rw [same, Char.ofNat_toNat]

/-- The digits on a grid are those of the count, without the zeros behind. -/
theorem exists_text_ofGrid (count : Nat) (exponent : Int) :
    ∃ zeros, Nat.toDigits 10 count = (ofGrid count exponent).text ++ List.replicate zeros '0' ∧
      (ofGrid count exponent).point - (ofGrid count exponent).digits.length = exponent + zeros := by
  have shown : Nat.toDigits 10 count =
      (digitsOf count).map fun n => Char.ofNat ('0'.toNat + n) := by
    rw [digitsOf, List.map_map, List.map_congr_left (g := id), List.map_id]
    intro c hc
    exact ofNat_digit (Nat.isDigit_of_mem_toDigits (by decide) (by decide) hc)
  obtain ⟨zeros, parts⟩ : ∃ zeros, digitsOf count =
      (ofGrid count exponent).digits ++ List.replicate zeros 0 := by
    have reversed := congrArg List.reverse
      (List.takeWhile_append_dropWhile (p := (· == 0)) (l := (digitsOf count).reverse))
    rw [List.reverse_append, List.reverse_reverse] at reversed
    refine ⟨_, reversed.symm.trans (congrArg _ (List.eq_replicate_iff.mpr ⟨rfl, ?_⟩))⟩
    intro n hn
    simpa using List.mem_takeWhile_imp (List.mem_reverse.mp hn)
  refine ⟨zeros, ?_, ?_⟩
  · rw [shown, parts, List.map_append, List.map_replicate]
    rfl
  · have count := congrArg List.length parts
    rw [List.length_append, List.length_replicate] at count
    change exponent + (digitsOf _).length - _ = _
    omega

/-- A decimal that is fit to be written: its digits begin with one that is not zero. -/
structure Written (d : Decimal) : Prop where
  digits : Digits d.text
  head : d.text.head? ≠ some '0'

theorem written_ofGrid {count : Nat} (h : 0 < count) (exponent : Int) :
    (ofGrid count exponent).Written := by
  obtain ⟨zeros, hdigits, -⟩ := exists_text_ofGrid count exponent
  obtain ⟨c, cs, hcs, hc⟩ := Literal.head_toDigits h
  rw [hcs] at hdigits
  cases htext : (ofGrid count exponent).text with
  | nil =>
    rw [htext, List.nil_append] at hdigits
    have hmem : c ∈ List.replicate zeros '0' := hdigits ▸ List.mem_cons_self
    exact absurd (List.eq_of_mem_replicate hmem) hc
  | cons d ds =>
    constructor
    · constructor
      · simp [htext]
      · intro e he
        have hmem : e ∈ Nat.toDigits 10 count := by
          rw [hcs, hdigits]
          exact List.mem_append_left _ he
        exact Nat.isDigit_of_mem_toDigits (by decide) (by decide) hmem
    · rw [htext] at hdigits ⊢
      obtain ⟨rfl, -⟩ := List.cons.inj hdigits
      simpa using hc

/-- What a decimal writes is near a magnitude. -/
def NearUnits (units : Nat) (d : Decimal) : Prop :=
  (Interval.ofUnits units).Near (natOfDigits d.text) (d.point - d.digits.length)

theorem nearUnits_ofGrid {units count : Nat} {exponent : Int}
    (h : (Interval.ofUnits units).Near count exponent) :
    NearUnits units (ofGrid count exponent) := by
  obtain ⟨zeros, hdigits, hpoint⟩ := exists_text_ofGrid count exponent
  have value : natOfDigits (ofGrid count exponent).text * 10 ^ zeros = count := by
    rw [← natOfDigits_zeros, ← hdigits, Literal.natOfDigits_toDigits]
  unfold NearUnits
  rw [hpoint, ← Interval.near_shift zeros, value]
  simpa using h

/-! ## The shortest decimal -/

/-- What is found on a grid lies in the interval. -/
theorem onGrid?_eq_some {tie : Tie} {i : Interval} {exponent : Int} {d : Decimal}
    (hbelow : 0 < i.below) (hcenter : i.below ≤ i.center) (habove : 0 < i.above)
    (h : onGrid? tie i exponent = some d) :
    ∃ count, 0 < count ∧ d = ofGrid count exponent ∧ i.Near count exponent := by
  have near : ∀ count, i.contains (count * (quartersPerOne * .pow 10 exponent.toNat))
      (.pow 10 (-exponent).toNat) = true → i.Near count exponent := by
    intro count hcontains
    exact Interval.holds_of_contains (Nat.pow_pos (by decide)) hbelow hcenter habove hcontains
  have choice : ∀ {low high preferred : Bool} {x y : Decimal},
      (if low && (preferred || !high) then some x else if high then some y else none) = some d →
        (low = true ∧ d = x) ∨ (high = true ∧ d = y) := by
    intro low high preferred x y h
    cases low <;> cases high <;> cases preferred <;> simp_all
  rcases choice h with ⟨taken, rfl⟩ | ⟨taken, rfl⟩
  · simp only [Bool.and_eq_true, decide_eq_true_eq] at taken
    exact ⟨_, taken.1, rfl, near _ taken.2⟩
  · exact ⟨_, Nat.succ_pos _, rfl, near _ taken⟩

/-- A number itself is a decimal on the grid of the smallest number. -/
theorem near_exact {units k : Nat} {least : Int} (hu : Double.Representable units)
    (hpos : 0 < units) (hk : Double.unitsPerOne = .pow 2 k) (hleast : least = -k) :
    0 < units * .pow 10 k / Double.unitsPerOne ∧
      (Interval.ofUnits units).Near (units * .pow 10 k / Double.unitsPerOne) least := by
  subst hleast
  obtain ⟨below, hbelow⟩ := Interval.below_ofUnits units
  obtain ⟨start, -⟩ := Interval.ends_ofUnits hu hpos
  have above := Interval.above_ofUnits units
  have step := Nat.two_pow_pos (Double.excessBits units)
  have tens : 0 < 10 ^ k := Nat.pow_pos (by decide)
  have whole : units * 10 ^ k / 2 ^ k = units * 5 ^ k := by
    have ten : 10 ^ k = 5 ^ k * 2 ^ k := by rw [← Nat.mul_pow]
    rw [ten, ← Nat.mul_assoc, Nat.mul_div_cancel _ (Nat.two_pow_pos k)]
  have center : units * 5 ^ k * quartersPerOne = (Interval.ofUnits units).center * 10 ^ k := by
    rw [quartersPerOne, hk, Interval.center_ofUnits, Nat.pow_eq, show 10 = 5 * 2 from rfl,
      Nat.mul_pow]
    ring
  rw [hk, Nat.pow_eq, Nat.pow_eq, whole]
  refine ⟨Nat.mul_pos hpos (Nat.pow_pos (by decide)), Interval.near_neg.mpr ?_⟩
  rw [center]
  constructor
  · exact Nat.mul_le_mul_right _ (Nat.sub_le _ _)
  · exact Nat.mul_le_mul_right _ (Nat.le_add_right _ _)
  · intro _
    constructor
    · exact Nat.mul_lt_mul_of_pos_right (by omega) tens
    · exact Nat.mul_lt_mul_of_pos_right (by omega) tens

/-- The shortest decimal of a number is on some grid, and in the interval around the number. -/
theorem shortest_spec (tie : Tie) {units : Nat} (hu : Double.Representable units)
    (hpos : 0 < units) :
    (shortest tie units).Written ∧ NearUnits units (shortest tie units) := by
  have onGrid : ∀ {count : Nat} {exponent : Int}, 0 < count →
      (Interval.ofUnits units).Near count exponent →
      (ofGrid count exponent).Written ∧ NearUnits units (ofGrid count exponent) :=
    fun positive near => ⟨written_ofGrid positive _, nearUnits_ofGrid near⟩
  have choice : ∀ {found : Option Decimal} {exact : Decimal},
      (∀ d, found = some d → d.Written ∧ NearUnits units d) →
      exact.Written ∧ NearUnits units exact →
        (found.getD exact).Written ∧ NearUnits units (found.getD exact) := by
    intro found exact hfound hexact
    cases found with
    | none => exact hexact
    | some d => exact hfound d rfl
  apply choice
  · intro d hd
    obtain ⟨n, -, found⟩ := List.exists_of_findSome?_eq_some hd
    obtain ⟨below, hbelow⟩ := Interval.below_ofUnits units
    have step := Interval.step_le hu hpos
    have above := Interval.above_ofUnits units
    have center := Interval.center_ofUnits units
    obtain ⟨count, positive, rfl, near⟩ :=
      onGrid?_eq_some below (by omega) (by omega) found
    exact onGrid positive near
  · have hk : Double.unitsPerOne = .pow 2 1074 := by decide +kernel
    obtain ⟨positive, near⟩ := near_exact hu hpos hk rfl
    exact onGrid positive near

end Decimal

end TemplateLint
