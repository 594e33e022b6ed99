import TemplateLint.Proofs.Decimal.Rounding
import TemplateLint.Proofs.Grammar.Printing

/-!
# Integers of 64 bits as binary64 numbers

An integer of 64 bits is rounded to a finite number, and that number read back
as an integer is the number again. Two integers can be rounded to one number
only if 53 bits hold neither of them.
-/

namespace TemplateLint

namespace Double

/-- An integer that a signed word of 64 bits holds. -/
def FitsWord (i : Int) : Prop := -2 ^ 63 ≤ i ∧ i < 2 ^ 63

instance (i : Int) : Decidable (FitsWord i) := inferInstanceAs (Decidable (_ ∧ _))

/-! ## Comparison -/

theorem sameValue_comm (x y : Double) : x.sameValue y = y.sameValue x := by
  rcases x with _ | a | ⟨a, m⟩ <;> rcases y with _ | b | ⟨b, n⟩
  all_goals try rfl
  · cases a <;> cases b <;> rfl
  · cases a <;> rfl
  · cases b <;> rfl
  · simp only [sameValue, compare?, Option.some.injEq, compare_eq_iff_eq, decide_eq_decide]
    exact eq_comm

theorem Alike.sameValue_right {x y : Double} (h : Alike x y) (z : Double) :
    z.sameValue x = z.sameValue y := by
  rw [sameValue, sameValue, h.compare?_right]

theorem Alike.trans {x y z : Double} (hxy : Alike x y) (hyz : Alike y z) : Alike x z := by
  rcases hxy with rfl | ⟨a, b, rfl, rfl⟩
  · exact hyz
  · rcases hyz with rfl | ⟨_, c, -, rfl⟩
    · exact .inr ⟨a, b, rfl, rfl⟩
    · exact .inr ⟨a, c, rfl, rfl⟩

theorem Alike.isFinite_eq {x y : Double} (h : Alike x y) : x.isFinite = y.isFinite := by
  rcases h with rfl | ⟨_, _, rfl, rfl⟩ <;> rfl

theorem Alike.isNan_eq {x y : Double} (h : Alike x y) : x.isNan = y.isNan := by
  rcases h with rfl | ⟨_, _, rfl, rfl⟩ <;> rfl

theorem finite_sameValue_infinite (a : Bool) (m : Nat) (b : Bool) :
    (finite a m).sameValue (infinite b) = false := by
  cases b <;> rfl

theorem finite_sameValue {a b : Bool} {m n : Nat} :
    (finite a m).sameValue (finite b n) = true ↔ signed a m = signed b n := by
  simp [sameValue, compare?]

/-- Numbers with the same value differ at most in the sign of a zero; a NaN has none. -/
theorem sameValue_iff {x y : Double} : x.sameValue y = true ↔ x ≠ .nan ∧ x.Alike y := by
  constructor
  · intro same
    rcases x with _ | a | ⟨a, m⟩ <;> rcases y with _ | b | ⟨b, n⟩
    all_goals try cases same
    · cases a <;> cases b <;> first | exact ⟨nofun, .inl rfl⟩ | cases same
    · cases a <;> cases same
    · rw [finite_sameValue_infinite] at same
      cases same
    · refine ⟨nofun, ?_⟩
      have signs := finite_sameValue.mp same
      obtain rfl : m = n := by
        rw [← natAbs_signed a m, signs, natAbs_signed]
      rcases Nat.eq_zero_or_pos m with rfl | hpos
      · exact .inr ⟨a, b, rfl, rfl⟩
      · cases a <;> cases b <;> simp only [signed] at signs <;> first | exact .inl rfl | grind
  · rintro ⟨number, alike⟩
    have self : y.sameValue y = true := by
      rcases alike with rfl | ⟨a, b, -, rfl⟩
      · rcases x with _ | a | ⟨a, m⟩
        · exact absurd rfl number
        · cases a <;> rfl
        · exact finite_sameValue.mpr rfl
      · exact finite_sameValue.mpr rfl
    rwa [sameValue_comm, alike.sameValue_right]

theorem sameValue_trans {x y z : Double} (hxy : x.sameValue y = true)
    (hyz : y.sameValue z = true) : x.sameValue z = true := by
  obtain ⟨number, first⟩ := sameValue_iff.mp hxy
  exact sameValue_iff.mpr ⟨number, first.trans (sameValue_iff.mp hyz).2⟩

/-! ## Rounding -/

/-- A magnitude that is rounded to itself is kept with either sign. -/
theorem ofQuotient_of_rounded {k : Nat}
    (rounded : roundQuotient (k * unitsPerOne) 1 = k * unitsPerOne)
    (small : k * unitsPerOne ≤ maxUnits) (negative : Bool) :
    ofQuotient negative k 1 = .finite negative (k * unitsPerOne) := by
  simp only [ofQuotient, rounded]
  exact if_neg (Nat.not_lt.mpr small)

/-- A signed magnitude as an integer: the sign of a zero is lost. -/
theorem alike_ofInt_signed (negative : Bool) (n : Nat) :
    Alike (ofInt (signed negative n)) (ofQuotient negative n 1) := by
  rw [ofInt, natAbs_signed]
  rcases Nat.eq_zero_or_pos n with rfl | hpos
  · rw [ofQuotient_exact (Nat.zero_le _), ofQuotient_exact (Nat.zero_le _), Nat.zero_mul]
    exact .inr ⟨_, _, rfl, rfl⟩
  · have hsign : decide (signed negative n < 0) = negative := by
      cases negative <;> simp [signed, hpos]
    rw [hsign]
    exact .inl rfl

/-- A magnitude of 63 bits, or the one above them all, is rounded to an integer. -/
theorem exists_whole {n : Nat} (h : n ≤ 2 ^ 63) (negative : Bool) :
    ∃ k, ofQuotient negative n 1 = .finite negative (k * unitsPerOne) ∧
      ofQuotient negative k 1 = .finite negative (k * unitsPerOne) := by
  obtain ⟨k, hk⟩ := unitsPerOne_dvd_round n
  rw [Nat.mul_comm unitsPerOne k] at hk
  have hidem := roundQuotient_idem (n * unitsPerOne)
  rw [hk] at hidem
  have small : k * unitsPerOne ≤ maxUnits := by
    obtain ⟨e, he⟩ := exists_unitsPerOne
    obtain ⟨a, ha, hr⟩ := exists_rounded (n * unitsPerOne)
    have hexcess : excessBits (n * unitsPerOne) ≤ 11 + e := by
      refine excessBits_le ?_
      rw [he, ← Nat.add_assoc, Nat.pow_add]
      exact Nat.mul_lt_mul_of_pos_right (by omega) (Nat.two_pow_pos e)
    have hmax : 2 ^ 64 * unitsPerOne ≤ maxUnits := by decide +kernel
    calc k * unitsPerOne = a * 2 ^ excessBits (n * unitsPerOne) := hk.symm.trans hr
      _ ≤ 2 ^ 53 * 2 ^ (11 + e) :=
        Nat.mul_le_mul ha (Nat.pow_le_pow_right (by omega) hexcess)
      _ = 2 ^ 64 * unitsPerOne := by rw [he]; ring
      _ ≤ maxUnits := hmax
  refine ⟨k, ?_, ofQuotient_of_rounded hidem small negative⟩
  simp only [ofQuotient, hk]
  exact if_neg (Nat.not_lt.mpr small)

/-- What has more than 53 bits is not rounded below them. -/
theorem le_round {n : Nat} (h : 2 ^ 53 ≤ n) :
    2 ^ 53 * unitsPerOne ≤ roundQuotient (n * unitsPerOne) 1 := by
  obtain ⟨e, he⟩ := exists_unitsPerOne
  rw [he]
  have hlog : 53 + e ≤ (n * 2 ^ e).log2 := by
    have hpos : n * 2 ^ e ≠ 0 := Nat.mul_ne_zero (by omega) (Nat.two_pow_pos e).ne'
    rw [Nat.le_log2 hpos, Nat.pow_add]
    exact Nat.mul_le_mul_right _ h
  have hexcess : e + 1 ≤ excessBits (n * 2 ^ e) := by
    unfold excessBits
    omega
  have hstep : 2 ^ (e + 1) ≤ 2 ^ excessBits (n * 2 ^ e) := Nat.pow_le_pow_right (by omega) hexcess
  have hsignificand := le_significand (Nat.lt_of_lt_of_le (Nat.succ_pos e) hexcess)
  have hdown : n * 2 ^ e / 2 ^ excessBits (n * 2 ^ e) * 2 ^ excessBits (n * 2 ^ e) ≤
      roundQuotient (n * 2 ^ e) 1 := by
    rw [roundQuotient_one]
    apply Nat.mul_le_mul_right
    split <;> omega
  calc 2 ^ 53 * 2 ^ e = 2 ^ 52 * 2 ^ (e + 1) := by ring
    _ ≤ n * 2 ^ e / 2 ^ excessBits (n * 2 ^ e) * 2 ^ excessBits (n * 2 ^ e) :=
      Nat.mul_le_mul hsignificand hstep
    _ ≤ roundQuotient (n * 2 ^ e) 1 := hdown

/-! ## Integers -/

theorem signed_natAbs_mul (i : Int) (u : Nat) :
    signed (decide (i < 0)) (i.natAbs * u) = i * u := by
  by_cases hi : i < 0
  · have habs : (i.natAbs : Int) = -i := by omega
    simp [signed, hi, habs]
  · have habs : (i.natAbs : Int) = i := by omega
    simp [signed, hi, habs]

theorem ofInt_exact {a : Int} (h : a.natAbs ≤ 2 ^ 53) :
    ofInt a = .finite (decide (a < 0)) (a.natAbs * unitsPerOne) :=
  ofQuotient_exact h _

theorem sameValue_ofInt_self (a : Int) : (ofInt a).sameValue (ofInt a) = true := by
  simp only [ofInt, ofQuotient]
  split
  · cases decide (a < 0) <;> rfl
  · exact finite_sameValue.mpr rfl

/-- What 53 bits hold is rounded to a number of its own. -/
theorem sameValue_ofInt {a b : Int} (ha : a.natAbs < 2 ^ 53) :
    (ofInt a).sameValue (ofInt b) = true ↔ a = b := by
  have hunits := unitsPerOne_pos
  rw [ofInt_exact (Nat.le_of_lt ha)]
  rcases Nat.lt_or_ge b.natAbs (2 ^ 53) with hb | hb
  · rw [ofInt_exact (Nat.le_of_lt hb), finite_sameValue, signed_natAbs_mul, signed_natAbs_mul]
    constructor
    · exact Int.eq_of_mul_eq_mul_right (by omega)
    · rintro rfl
      rfl
  · have hne : a ≠ b := by
      rintro rfl
      omega
    refine ⟨fun same => ?_, fun heq => absurd heq hne⟩
    have hsmall : a.natAbs * unitsPerOne < 2 ^ 53 * unitsPerOne :=
      Nat.mul_lt_mul_of_pos_right ha hunits
    have hlarge := le_round hb
    simp only [ofInt, ofQuotient] at same
    split at same
    · rw [finite_sameValue_infinite] at same
      cases same
    · rw [finite_sameValue] at same
      have hnat := congrArg Int.natAbs same
      rw [natAbs_signed, natAbs_signed] at hnat
      omega

end Double

end TemplateLint
