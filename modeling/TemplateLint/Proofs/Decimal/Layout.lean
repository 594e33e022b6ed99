import TemplateLint.Decimal.Layout
import TemplateLint.Proofs.Decimal.Shortest

/-!
# Numbers are read back from their text

However JSON text lays out the digits of a decimal, the literal denotes the
decimal, and it has a fraction or an exponent. So a number is what its text is
read as, with its sign also where it is zero.
-/

namespace TemplateLint.Decimal

open Literal (natOfDigits Digits Whole Fraction Power Sign Minus Writes)

/-- A literal without its sign, as it is written. -/
structure Literal.Unsigned (cs : List Char) (l : Literal) : Prop where
  whole : Whole l.whole
  parts : ∃ fraction power, cs = l.whole ++ (fraction ++ power) ∧ Fraction fraction l.fraction ∧
    Power power l.exponent

/-- A literal that is no integer and denotes a decimal, with as many zeros as it has behind. -/
structure Literal.Stands (l : Literal) (digits : Nat) (exponent : Int) : Prop where
  notInteger : l.isInteger = false
  value : ∃ zeros : Nat,
    natOfDigits (l.whole ++ l.fraction.getD []) = digits * 10 ^ zeros ∧
      (l.exponent.map Exponent.value).getD 0 - (l.fraction.getD []).length = exponent - zeros

/-- A text without a sign that writes a decimal. -/
def Spells (cs : List Char) (d : Decimal) : Prop :=
  ∃ l : Literal, l.Unsigned cs ∧ l.Stands (natOfDigits d.text) (d.point - d.digits.length)

theorem Literal.Unsigned.writes {cs : List Char} {l : Literal} (h : l.Unsigned cs)
    (negative : Bool) :
    Writes ((Layout.sign negative).toList ++ cs) { l with negative := negative } := by
  obtain ⟨whole, fraction, power, rfl, hfraction, hpower⟩ := h
  have minus : Minus (Layout.sign negative).toList negative := by
    cases negative
    · exact .absent
    · exact .present
  exact .parts minus rfl whole hfraction hpower

theorem natOfDigits_zeros_append (zeros : Nat) (cs : List Char) :
    natOfDigits (List.replicate zeros '0' ++ cs) = natOfDigits cs := by
  have front : natOfDigits (List.replicate zeros '0') = 0 := by
    have := natOfDigits_zeros [] zeros
    rw [List.nil_append] at this
    rw [this]
    exact Nat.zero_mul _
  rw [natOfDigits, List.foldl_append]
  change cs.foldl _ (natOfDigits (List.replicate zeros '0')) = _
  rw [front]
  rfl

theorem digits_replicate (zeros : Nat) : ∀ c ∈ List.replicate zeros '0', c.isDigit = true := by
  intro c hc
  rw [List.eq_of_mem_replicate hc]
  rfl

@[simp] theorem length_text (d : Decimal) : d.text.length = d.digits.length := List.length_map _

theorem digits_of_subset {cs ds : List Char} (h : Digits ds) (nonempty : cs ≠ []) (sub : cs ⊆ ds) :
    Digits cs := ⟨nonempty, fun c hc => h.all c (sub hc)⟩

/-- Digits in front of which no zero is needed. -/
theorem whole_of_head {cs : List Char} (digits : Digits cs) (head : cs.head? ≠ some '0') :
    Whole cs := by
  cases cs with
  | nil => exact absurd rfl digits.nonempty
  | cons c cs => exact .digits (by simpa using head) digits

/-! ## Layouts -/

namespace Layout

theorem digitString_toList (ds : List Nat) :
    (digitString ds).toList = ds.map fun n => Char.ofNat ('0'.toNat + n) := by
  rw [digitString, String.toList_ofList]

theorem zeros_chars (n : Nat) :
    (zeros n).map (fun n => Char.ofNat ('0'.toNat + n)) = List.replicate n '0' := by
  rw [zeros, List.map_replicate]
  rfl

/-- The exponent of a decimal whose point stands behind its first digit. -/
def exponentOf (point : Int) : Exponent :=
  ⟨decide (point - 1 < 0), Nat.toDigits 10 (point - 1).natAbs⟩

theorem exponentOf_value (point : Int) :
    Literal.Exponent.value (exponentOf point) = point - 1 := by
  unfold exponentOf Literal.Exponent.value Double.signed
  rw [Literal.natOfDigits_toDigits]
  by_cases hneg : point - 1 < 0
  · rw [decide_eq_true hneg, if_pos rfl]
    omega
  · rw [decide_eq_false hneg, if_neg (by simp)]
    omega

def powerText (point : Int) : List Char :=
  'e' :: ((if 0 < point then ['+'] else []) ++ (toString (point - 1)).toList)

theorem power_powerText (point : Int) : Power (powerText point) (some (exponentOf point)) := by
  have digits := Literal.digits_toDigits (point - 1).natAbs
  have shown : (toString (point - 1)).toList =
      (if point - 1 < 0 then ['-'] else []) ++ Nat.toDigits 10 (point - 1).natAbs :=
    Literal.numberText_integer (point - 1)
  unfold powerText
  rw [shown]
  by_cases hpoint : 0 < point
  · have sign : Sign ['+'] (exponentOf point).negative := by
      rw [exponentOf, decide_eq_false (by omega)]
      exact .plus
    rw [if_pos hpoint, if_neg (by omega)]
    exact .present (.inl rfl) sign digits
  · have sign : Sign ['-'] (exponentOf point).negative := by
      rw [exponentOf, decide_eq_true (by omega)]
      exact .minus
    rw [if_neg hpoint, if_pos (by omega)]
    exact .present (.inl rfl) sign digits

variable {d : Decimal} (h : d.Written)

include h

/-- Zeros between the point and the digits. -/
theorem spells_below (hpoint : d.point ≤ 0) :
    Spells (json.positionalText d).toList d := by
  have shown : (json.positionalText d).toList =
      ['0'] ++ (('.' :: (List.replicate (-d.point).toNat '0' ++ d.text)) ++ []) := by
    unfold positionalText
    rw [if_pos hpoint, String.toList_append, digitString_toList, List.map_append, zeros_chars,
      List.append_nil]
    rfl
  have digits : Digits (List.replicate (-d.point).toNat '0' ++ d.text) := by
    constructor
    · intro hnil
      exact h.digits.nonempty (List.append_eq_nil_iff.mp hnil).2
    · intro c hc
      exact (List.mem_append.mp hc).elim (digits_replicate _ c) (h.digits.all c)
  refine ⟨⟨false, ['0'], some (List.replicate (-d.point).toNat '0' ++ d.text), none⟩, ?_, ?_⟩
  · exact ⟨.zero, _, _, shown, .present digits, .absent⟩
  · refine ⟨rfl, 0, ?_, ?_⟩
    · have zero : ['0'] ++ (List.replicate (-d.point).toNat '0' ++ d.text) =
          List.replicate ((-d.point).toNat + 1) '0' ++ d.text := rfl
      rw [Option.getD_some, zero, natOfDigits_zeros_append, Nat.pow_zero, Nat.mul_one]
    · simp
      omega

/-- Zeros between the digits and the point. -/
theorem spells_above (hpoint : 0 < d.point) (hcount : (d.digits.length : Int) ≤ d.point) :
    Spells (json.positionalText d).toList d := by
  let zerosBehind := (d.point - d.digits.length).toNat
  have shown : (json.positionalText d).toList =
      (d.text ++ List.replicate zerosBehind '0') ++ (['.', '0'] ++ []) := by
    unfold positionalText
    rw [if_neg (by omega), if_pos hcount, String.toList_append, digitString_toList,
      List.map_append, zeros_chars]
    rfl
  have digits : Digits (d.text ++ List.replicate zerosBehind '0') := by
    constructor
    · intro hnil
      exact h.digits.nonempty (List.append_eq_nil_iff.mp hnil).1
    · intro c hc
      exact (List.mem_append.mp hc).elim (h.digits.all c) (digits_replicate _ c)
  have head : (d.text ++ List.replicate zerosBehind '0').head? ≠ some '0' := by
    rw [List.head?_append_of_ne_nil _ h.digits.nonempty]
    exact h.head
  refine ⟨⟨false, d.text ++ List.replicate zerosBehind '0', some ['0'], none⟩, ?_, ?_⟩
  · exact ⟨whole_of_head digits head, _, _, shown, .present ⟨by simp, by simp⟩, .absent⟩
  · refine ⟨rfl, zerosBehind + 1, ?_, ?_⟩
    · rw [← natOfDigits_zeros, List.replicate_succ', ← List.append_assoc]
      rfl
    · simp [zerosBehind]
      omega

/-- A point among the digits. -/
theorem spells_among (hpoint : 0 < d.point) (hcount : ¬ (d.digits.length : Int) ≤ d.point) :
    Spells (json.positionalText d).toList d := by
  have shown : (json.positionalText d).toList =
      d.text.take d.point.toNat ++ (('.' :: d.text.drop d.point.toNat) ++ []) := by
    unfold positionalText
    rw [if_neg (by omega), if_neg hcount, String.toList_append, String.toList_append,
      digitString_toList, digitString_toList, List.map_take, List.map_drop, List.append_nil,
      List.append_assoc]
    rfl
  have front : Digits (d.text.take d.point.toNat) := by
    apply digits_of_subset h.digits _ (List.take_subset _ _)
    intro hnil
    exact (List.take_eq_nil_iff.mp hnil).elim (by omega) h.digits.nonempty
  have head : (d.text.take d.point.toNat).head? ≠ some '0' := by
    rw [List.head?_take, if_neg (by omega)]
    exact h.head
  have behind : Digits (d.text.drop d.point.toNat) := by
    apply digits_of_subset h.digits _ (List.drop_subset _ _)
    intro hnil
    have short := List.drop_eq_nil_iff.mp hnil
    rw [length_text] at short
    omega
  refine ⟨⟨false, d.text.take d.point.toNat, some (d.text.drop d.point.toNat), none⟩, ?_, ?_⟩
  · exact ⟨whole_of_head front head, _, _, shown, .present behind, .absent⟩
  · refine ⟨rfl, 0, ?_, ?_⟩
    · rw [Option.getD_some, List.take_append_drop, Nat.pow_zero, Nat.mul_one]
    · simp
      omega

/-- An exponent behind the digits. -/
theorem spells_exponent : Spells (exponentText d).toList d := by
  have front : Digits (d.text.take 1) := by
    apply digits_of_subset h.digits _ (List.take_subset _ _)
    intro hnil
    exact (List.take_eq_nil_iff.mp hnil).elim (by omega) h.digits.nonempty
  have whole : Whole (d.text.take 1) := by
    apply whole_of_head front
    rw [List.head?_take, if_neg (by omega)]
    exact h.head
  have power := power_powerText d.point
  have shown : (exponentText d).toList = d.text.take 1 ++
      ((if d.digits.drop 1 = [] then [] else '.' :: d.text.drop 1) ++ powerText d.point) := by
    by_cases hrest : d.digits.tail = [] <;> by_cases hpoint : 0 < d.point <;>
      simp [exponentText, digitString_toList, powerText, text, hrest, hpoint]
  have total : 1 ≤ d.digits.length := by
    rw [← length_text]
    exact List.length_pos_iff.mpr h.digits.nonempty
  by_cases hrest : d.digits.drop 1 = []
  · have single : d.digits.length = 1 := by
      have := List.drop_eq_nil_iff.mp hrest
      omega
    have all : d.text.take 1 = d.text := List.take_of_length_le (by rw [length_text, single])
    rw [if_pos hrest] at shown
    refine ⟨⟨false, d.text.take 1, none, some (exponentOf d.point)⟩, ?_, ?_⟩
    · exact ⟨whole, _, _, shown, .absent, power⟩
    · refine ⟨rfl, 0, ?_, ?_⟩
      · rw [all, Option.getD_none, List.append_nil, Nat.pow_zero, Nat.mul_one]
      · simp [exponentOf_value, single]
  · have behind : Digits (d.text.drop 1) := by
      apply digits_of_subset h.digits _ (List.drop_subset _ _)
      intro hnil
      have short := List.drop_eq_nil_iff.mp hnil
      rw [length_text] at short
      exact hrest (List.drop_eq_nil_iff.mpr short)
    rw [if_neg hrest] at shown
    refine ⟨⟨false, d.text.take 1, some (d.text.drop 1), some (exponentOf d.point)⟩, ?_, ?_⟩
    · exact ⟨whole, _, _, shown, .present behind, power⟩
    · refine ⟨rfl, 0, ?_, ?_⟩
      · rw [Option.getD_some, List.take_append_drop, Nat.pow_zero, Nat.mul_one]
      · simp [exponentOf_value]
        omega

theorem spells : Spells (json.decimalText d).toList d := by
  have positional : Spells (json.positionalText d).toList d := by
    by_cases hpoint : d.point ≤ 0
    · exact spells_below h hpoint
    · by_cases hcount : (d.digits.length : Int) ≤ d.point
      · exact spells_above h (by omega) hcount
      · exact spells_among h (by omega) hcount
  unfold decimalText
  simp only [json]
  split
  · exact positional
  · exact spells_exponent h

end Layout

/-- A literal that stands for a decimal near a number denotes the number. -/
theorem Literal.Stands.toDouble {l : Literal} {d : Decimal} {units : Nat}
    (hu : Double.Representable units) (hpos : 0 < units) (hmax : units ≤ Double.maxUnits)
    (near : NearUnits units d) (h : l.Stands (natOfDigits d.text) (d.point - d.digits.length))
    (negative : Bool) : { l with negative := negative }.toDouble = .finite negative units := by
  obtain ⟨zeros, hdigits, hexponent⟩ := h.value
  have shifted := (Interval.near_shift zeros).mpr near
  rw [← hdigits, ← hexponent] at shifted
  exact Double.ofDecimal_of_near hu hpos shifted hmax negative

/-- The text of a number is a literal that denotes the number, and is no integer. -/
theorem exists_literal_render {units : Nat} (hu : Double.Representable units)
    (hmax : units ≤ Double.maxUnits) (negative : Bool) :
    ∃ l, Writes (Layout.json.render (.finite negative units)).toList l ∧ l.isInteger = false ∧
      l.toDouble = .finite negative units := by
  rcases Nat.eq_zero_or_pos units with rfl | hpos
  · have unsigned : Literal.Unsigned "0.0".toList ⟨false, ['0'], some ['0'], none⟩ :=
      ⟨.zero, ['.', '0'], [], rfl, .present ⟨by simp, by simp⟩, .absent⟩
    refine ⟨⟨negative, ['0'], some ['0'], none⟩, ?_, ?_, ?_⟩
    · rw [Layout.render, String.toList_append]
      exact unsigned.writes negative
    · rfl
    · rfl
  · obtain ⟨written, near⟩ := shortest_spec .even hu hpos
    obtain ⟨l, unsigned, stands⟩ := Layout.spells written
    refine ⟨{ l with negative := negative }, ?_, stands.notInteger, ?_⟩
    · have shown : Layout.json.render (.finite negative units) =
          Layout.sign negative ++ Layout.json.decimalText (shortest .even units) := by
        cases units with
        | zero => exact absurd rfl (Nat.ne_of_gt hpos)
        | succ n => rfl
      rw [shown, String.toList_append]
      exact unsigned.writes negative
    · exact stands.toDouble hu hpos hmax near negative

end TemplateLint.Decimal
