import TemplateLint.Proofs.Literals
import TemplateLint.Proofs.Schema.Constants

/-!
# Divisors and bounds of integers

Integers of 53 bits are binary64 numbers, and so are their remainders. So an
integer literal is divided by an integer divisor and compared with integer
bounds as the integers are.
-/

namespace TemplateLint

namespace Double

/-- Only a zero is the same as zero. -/
theorem finite_sameValue_zero {negative : Bool} {units : Nat} :
    (finite negative units).sameValue zero = true ↔ units = 0 := by
  rw [zero, finite_sameValue]
  constructor
  · intro h
    rw [← natAbs_signed negative units, h, natAbs_signed]
  · rintro rfl
    cases negative <;> rfl

section Integers

variable {a b : Int} (ha : a.natAbs ≤ 2 ^ 53) (hb : b.natAbs ≤ 2 ^ 53)

include ha hb

theorem compare?_ofInt : compare? (ofInt a) (ofInt b) = some (compare a b) := by
  have hunits : (0 : Int) < unitsPerOne := by decide +kernel
  rw [ofInt_exact ha, ofInt_exact hb, compare?, signed_natAbs_mul, signed_natAbs_mul]
  congr 1
  rw [← cmp_eq_compare, ← cmp_eq_compare, cmp_mul_pos_right hunits]

theorem less_ofInt : (ofInt a).less (ofInt b) = decide (a < b) := by
  rw [less, compare?_ofInt ha hb]
  simp [compare_lt_iff_lt]

theorem atMost_ofInt : (ofInt a).atMost (ofInt b) = decide (a ≤ b) := by
  rw [atMost, less_ofInt ha hb, sameValue, compare?_ofInt ha hb]
  simp [Int.le_iff_lt_or_eq]

/-- The remainder is a zero, of either sign, just if the divisor divides the integer. -/
theorem remainder_ofInt (hne : b ≠ 0) :
    ((ofInt a).remainder (ofInt b)).sameValue .zero = decide (b ∣ a) := by
  have hunits := unitsPerOne_pos
  have hpos : b.natAbs * unitsPerOne ≠ 0 :=
    Nat.mul_ne_zero (Int.natAbs_ne_zero.mpr hne) hunits.ne'
  rw [ofInt_exact ha, ofInt_exact hb, remainder, if_neg hpos, Nat.mul_mod_mul_right,
    Bool.eq_iff_iff, finite_sameValue_zero, Nat.mul_eq_zero, or_iff_left hunits.ne',
    decide_eq_true_iff, ← Int.natAbs_dvd_natAbs, Nat.dvd_iff_mod_eq_zero]

end Integers

end Double

namespace Conformance

/-- The rules that an integer breaks, by the order and the divisibility of integers. -/
def brokenRules (v divisor low high : Int) (aboveLow belowHigh : Bool) : List String :=
  (if divisor ∣ v then [] else ["multiple-of"]) ++
    (if aboveLow then if v ≤ low then ["exclusive-minimum"] else []
      else if v < low then ["minimum"] else []) ++
    if belowHigh then if high ≤ v then ["exclusive-maximum"] else []
      else if high < v then ["maximum"] else []

section Exact

variable {s : Schema} {v divisor low high : Int} (hv : v.natAbs ≤ 2 ^ 53)

include hv

theorem rules_divisorCauses (held : divisor.natAbs ≤ 2 ^ 53) (hne : divisor ≠ 0)
    (hs : s.multipleOf = some (.ofInt divisor)) :
    (divisorCauses s (.ofInt v)).map Problem.Cause.rule =
      if divisor ∣ v then [] else ["multiple-of"] := by
  simp only [divisorCauses, hs, Double.remainder_ofInt hv held hne, require, decide_eq_true_iff]
  split <;> rfl

theorem rules_minimumCauses (held : low.natAbs ≤ 2 ^ 53) (hs : s.minimum = some (.ofInt low)) :
    (minimumCauses s (.ofInt v)).map Problem.Cause.rule =
      if s.minimumIsExclusive then if v ≤ low then ["exclusive-minimum"] else []
        else if v < low then ["minimum"] else [] := by
  simp only [minimumCauses, hs, Double.atMost_ofInt hv held, Double.less_ofInt hv held]
  split
  · by_cases h : v ≤ low <;> simp [require, h, Problem.Cause.rule]
  · by_cases h : v < low <;> simp [require, h, Problem.Cause.rule]

theorem rules_maximumCauses (held : high.natAbs ≤ 2 ^ 53) (hs : s.maximum = some (.ofInt high)) :
    (maximumCauses s (.ofInt v)).map Problem.Cause.rule =
      if s.maximumIsExclusive then if high ≤ v then ["exclusive-maximum"] else []
        else if high < v then ["maximum"] else [] := by
  simp only [maximumCauses, hs, Double.atMost_ofInt held hv, Double.less_ofInt held hv]
  split
  · by_cases h : high ≤ v <;> simp [require, h, Problem.Cause.rule]
  · by_cases h : high < v <;> simp [require, h, Problem.Cause.rule]

end Exact

/-- An integer literal is held to the size rules as the integer that it writes. -/
theorem rules_sizeCauses {s : Schema} {v divisor low high : Int} {x : Double}
    (alike : (Double.ofInt v).Alike x) (hv : v.natAbs ≤ 2 ^ 53) (hne : divisor ≠ 0)
    (hdivisor : divisor.natAbs ≤ 2 ^ 53) (hlow : low.natAbs ≤ 2 ^ 53)
    (hhigh : high.natAbs ≤ 2 ^ 53) (multipleOf : s.multipleOf = some (.ofInt divisor))
    (minimum : s.minimum = some (.ofInt low)) (maximum : s.maximum = some (.ofInt high)) :
    (sizeCauses s x).map Problem.Cause.rule =
      brokenRules v divisor low high s.minimumIsExclusive s.maximumIsExclusive := by
  have number : (Double.ofInt v).isNan = false := by
    rw [Double.ofInt_exact hv]
    rfl
  rw [← sizeCauses_alike alike, sizeCauses, number, if_neg Bool.false_ne_true, List.map_append,
    List.map_append,
    rules_divisorCauses hv hdivisor hne multipleOf, rules_minimumCauses hv hlow minimum,
    rules_maximumCauses hv hhigh maximum, brokenRules]

theorem rules_findings_number (s : Schema) (id : Nat) (span : Span) (x : Double)
    (isInteger : Bool) :
    (findings s (.value (.scalar id span (.number x isInteger)))).map Prod.fst =
      (typeCauses s (numberType s isInteger)).map Problem.Cause.rule ++
        ((valueCauses s (numberJson? x isInteger)).map Problem.Cause.rule ++
          (sizeCauses s x).map Problem.Cause.rule) := by
  have first : Prod.fst ∘ Problem.Cause.shown = Problem.Cause.rule := rfl
  rw [findings_number, List.map_map, first, List.map_append, List.map_append]

/-- The size rules are broken by the size of a number only. -/
theorem filter_sizeRules (s : Schema) (id : Nat) (span : Span) (x : Double) (isInteger : Bool) :
    ((findings s (.value (.scalar id span (.number x isInteger)))).map Prod.fst).filter
      (· ∈ sizeRules) = (sizeCauses s x).map Problem.Cause.rule := by
  have type : ((typeCauses s (numberType s isInteger)).map Problem.Cause.rule).filter
      (· ∈ sizeRules) = [] := by
    refine List.filter_eq_nil_iff.mpr fun rule hrule => ?_
    obtain ⟨c, hc, rfl⟩ := List.mem_map.mp hrule
    simp [rule_of_mem_typeCauses hc, sizeRules]
  have value : ((valueCauses s (numberJson? x isInteger)).map Problem.Cause.rule).filter
      (· ∈ sizeRules) = [] := by
    refine List.filter_eq_nil_iff.mpr fun rule hrule => ?_
    obtain ⟨c, hc, rfl⟩ := List.mem_map.mp hrule
    rcases rule_of_mem_valueCauses hc with h | h <;> simp [h, sizeRules]
  have size : ((sizeCauses s x).map Problem.Cause.rule).filter (· ∈ sizeRules) =
      (sizeCauses s x).map Problem.Cause.rule := by
    refine List.filter_eq_self.mpr fun rule hrule => ?_
    obtain ⟨c, hc, rfl⟩ := List.mem_map.mp hrule
    exact decide_eq_true (rule_of_mem_sizeCauses hc)
  rw [rules_findings_number, List.filter_append, List.filter_append, type, value, size]
  rfl

end Conformance

namespace Schema

/-- The schema of an integer divisor and two integer bounds. -/
def ofBounds (divisor low high : Int) (aboveLow belowHigh : Bool) : Schema :=
  { empty with
    multipleOf := some (.ofInt divisor)
    minimum := some (.ofInt low)
    maximum := some (.ofInt high)
    exclusiveMinimum := some (.flag aboveLow)
    exclusiveMaximum := some (.flag belowHigh) }

/-- The JSON value that states an integer divisor and two integer bounds. -/
def boundsJson (divisor low high : Int) (aboveLow belowHigh : Bool) : Json :=
  .object [("multipleOf", .number (.integer divisor)), ("minimum", .number (.integer low)),
    ("maximum", .number (.integer high)), ("exclusiveMinimum", .boolean aboveLow),
    ("exclusiveMaximum", .boolean belowHigh)]

theorem ofJsonText_boundsJson {divisor low high : Int} (hdivisor : divisor.natAbs ≤ 2 ^ 53)
    (hlow : low.natAbs ≤ 2 ^ 53) (hhigh : high.natAbs ≤ 2 ^ 53) (aboveLow belowHigh : Bool) :
    ofJsonText (boundsJson divisor low high aboveLow belowHigh).toText =
      .ok (ofBounds divisor low high aboveLow belowHigh) := by
  have number {i : Int} (h : i.natAbs ≤ 2 ^ 53) (n : Nat) :
      (Json.number (.integer i)).Plain n := .number (.integer (by omega) (by omega))
  have plain : (boundsJson divisor low high aboveLow belowHigh).Plain Json.Reading.maxDepth := by
    refine .object (by simp [Members.names]) ?_
    simp only [List.forall_mem_cons, List.not_mem_nil, IsEmpty.forall_iff, implies_true, and_true]
    exact ⟨number hdivisor _, number hlow _, number hhigh _, .boolean, .boolean⟩
  have integers : (boundsJson divisor low high aboveLow belowHigh).RealsReadBack := by
    intro x hx
    simp [boundsJson, Json.numbers, Json.memberNumbers] at hx
  refine Json.load_toText plain integers ?_
  have keywords : Keyword.ofName? "multipleOf" = some .multipleOf ∧
      Keyword.ofName? "minimum" = some .minimum ∧ Keyword.ofName? "maximum" = some .maximum ∧
      Keyword.ofName? "exclusiveMinimum" = some .exclusiveMinimum ∧
      Keyword.ofName? "exclusiveMaximum" = some .exclusiveMaximum := by
    decide
  simp only [boundsJson, Json.reading, Json.memberReadings, ofReading, ofMembers, keywords]
  rfl

end Schema

namespace Document

open Conformance (brokenRules findings sizeRules)

/-- An integer literal of 53 bits is held to a divisor and to bounds of 53 bits as integers are,
under any schema that states them, whatever else it states. A schema that states nothing else
can be loaded, and nothing else is found. -/
theorem bounds_exact {source : List Char} {l : Decimal.Literal} {n : Node} (hn : Spells source l n)
    (integer : l.isInteger = true) (held : l.toInt.natAbs ≤ 2 ^ 53) {divisor low high : Int}
    (hne : divisor ≠ 0) (hdivisor : divisor.natAbs ≤ 2 ^ 53) (hlow : low.natAbs ≤ 2 ^ 53)
    (hhigh : high.natAbs ≤ 2 ^ 53) (aboveLow belowHigh : Bool) :
    let broken := brokenRules l.toInt divisor low high aboveLow belowHigh
    (∀ s : Schema, s.multipleOf = some (.ofInt divisor) → s.minimum = some (.ofInt low) →
      s.maximum = some (.ofInt high) → s.minimumIsExclusive = aboveLow →
      s.maximumIsExclusive = belowHigh →
        ((findings s n).map Prod.fst).filter (· ∈ sizeRules) = broken) ∧
      ∃ s, Schema.ofJsonText
          (Schema.boundsJson divisor low high aboveLow belowHigh).toText = .ok s ∧
        (findings s n).map Prod.fst = broken := by
  intro broken
  obtain ⟨id, span, rfl⟩ := hn.exists_scalar
  have alike := l.alike_ofInt_toInt integer
  have finite : l.toDouble.isFinite = true := by
    rw [← alike.isFinite_eq, Double.ofInt_exact held]
    rfl
  rw [Decimal.Literal.scalar, if_pos finite]
  have size (s : Schema) := Conformance.rules_sizeCauses (s := s) alike held hne hdivisor hlow hhigh
  refine ⟨fun s multipleOf minimum maximum above below => ?_, _,
    Schema.ofJsonText_boundsJson hdivisor hlow hhigh aboveLow belowHigh, ?_⟩
  · rw [Conformance.filter_sizeRules, size s multipleOf minimum maximum, above, below]
  · have silent (json : Option Json) : Conformance.valueCauses
        (.ofBounds divisor low high aboveLow belowHigh) json = [] := by
      cases json <;> rfl
    rw [Conformance.rules_findings_number, silent, size _ rfl rfl rfl]
    rfl

/-- A negative integer at the edge of 53 bits that a negative divisor leaves a rest of, below its
least and on its greatest value, which is excluded. -/
theorem bounds_exact_edge :
    let l : Decimal.Literal := ⟨true, "9007199254740992".toList, none, none⟩
    ∃ n, Spells "-9007199254740992".toList l n ∧ l.isInteger = true ∧
      l.toInt.natAbs ≤ 2 ^ 53 ∧
      ∃ s, Schema.ofJsonText
          (Schema.boundsJson (-3) 0 (-9007199254740992) false true).toText = .ok s ∧
        (findings s n).map Prod.fst = ["multiple-of", "minimum", "exclusive-maximum"] := by
  intro l
  obtain ⟨root, -, spells⟩ := exists_spells
    (show Decimal.Literal.ofText? "-9007199254740992".toList = some l by decide)
  have held : l.toInt.natAbs ≤ 2 ^ 53 := by decide +kernel
  have divisor : (-3 : Int) ≠ 0 ∧ (-3 : Int).natAbs ≤ 2 ^ 53 := by decide
  have low : (0 : Int).natAbs ≤ 2 ^ 53 := by decide
  have high : (-9007199254740992 : Int).natAbs ≤ 2 ^ 53 := by decide
  obtain ⟨s, loaded, found⟩ :=
    (bounds_exact spells rfl held divisor.1 divisor.2 low high false true).2
  exact ⟨_, spells, rfl, held, s, loaded, found.trans (by decide +kernel)⟩

end Document

end TemplateLint
