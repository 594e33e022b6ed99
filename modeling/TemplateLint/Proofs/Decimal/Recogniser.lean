import TemplateLint.Decimal.Recogniser
import TemplateLint.Proofs.Grammar.Numbers

/-!
# The recogniser and the grammar

Each part of the recogniser does on the bytes of a text what the scan does on
its characters. They part only where a digit follows a leading zero: there the
scan stops at once, and the recogniser goes on to find that something is left.
So it accepts just the texts that write a literal.
-/

namespace TemplateLint.Decimal.Recogniser

open Literal (scanDigits scanMinus scanWhole scanFraction scanSigned scanExponent
  scanExponentDigits scan ofText? Writes)

variable {cs : List Char}

/-! ## Bytes of characters -/

theorem toNat_toUInt8 {c : Char} (h : c.val ≤ 127) : c.toUInt8.toNat = c.val.toNat := by
  have h : c.val.toNat ≤ 127 := h
  simp only [Char.toUInt8, UInt32.toNat_toUInt8]
  omega

theorem toUInt8_eq_iff {c d : Char} (hc : c.val ≤ 127) (hd : d.val ≤ 127) :
    c.toUInt8 = d.toUInt8 ↔ c = d := by
  constructor
  · intro h
    have same := congrArg UInt8.toNat h
    rw [toNat_toUInt8 hc, toNat_toUInt8 hd] at same
    exact Char.ext (UInt32.toNat_inj.mp same)
  · rintro rfl
    rfl

theorem isDigit_toUInt8 {c : Char} (h : c.val ≤ 127) : isDigit c.toUInt8 = c.isDigit := by
  unfold isDigit Char.isDigit
  simp only [UInt8.le_iff_toNat_le, UInt32.le_iff_toNat_le, ge_iff_le, toNat_toUInt8 h]
  rfl

theorem bytes_cons {c : Char} (h : c.val ≤ 127) (cs : List Char) :
    bytes (c :: cs) = c.toUInt8 :: bytes cs := by
  unfold bytes
  rw [List.flatMap_cons, String.utf8EncodeChar_eq_singleton (Char.utf8Size_eq_one_iff.mpr h)]
  rfl

theorem bytes_cons_of_lt {c : Char} (h : 127 < c.val) (cs : List Char) :
    ∃ b rest, bytes (c :: cs) = b :: rest ∧ 127 < b := by
  have h : 127 < c.val.toNat := h
  unfold bytes
  rw [List.flatMap_cons, String.utf8EncodeChar]
  simp only [UInt8.lt_iff_toNat_lt]
  split
  · omega
  · split
    · exact ⟨_, _, rfl, by simp; omega⟩
    · split <;> exact ⟨_, _, rfl, by simp; omega⟩

/-- The first byte of a character tells it from every other one in ASCII, and whether it is a
digit. -/
theorem bytes_head (c : Char) (cs : List Char) : ∃ b rest, bytes (c :: cs) = b :: rest ∧
    (∀ d : Char, d.val ≤ 127 → (b = d.toUInt8 ↔ c = d)) ∧ (c.val ≤ 127 → rest = bytes cs) ∧
    isDigit b = c.isDigit := by
  by_cases h : c.val ≤ 127
  · exact ⟨_, _, bytes_cons h cs, fun d hd => toUInt8_eq_iff h hd, fun _ => rfl, isDigit_toUInt8 h⟩
  · have outside : 127 < c.val := UInt32.not_le.mp h
    obtain ⟨b, rest, hbytes, hb⟩ := bytes_cons_of_lt outside cs
    have large : 127 < b.toNat := hb
    refine ⟨b, rest, hbytes, fun d hd => ⟨?_, ?_⟩, fun hle => (h hle).elim, ?_⟩
    · rintro rfl
      have small : d.val.toNat ≤ 127 := hd
      rw [toNat_toUInt8 hd] at large
      omega
    · rintro rfl
      exact (h hd).elim
    · have noDigit : ¬ b ≤ '9'.toUInt8 := fun hle => by
        have : b.toNat ≤ 57 := hle
        omega
      have noFigure : ¬ c.val ≤ 57 := fun hle => by
        have : c.val.toNat ≤ 57 := hle
        have : 127 < c.val.toNat := outside
        omega
      simp [isDigit, Char.isDigit, noDigit, noFigure]

/-- A digit is in ASCII. -/
theorem le_of_isDigit {c : Char} (h : c.isDigit = true) : c.val ≤ 127 := by
  simp only [Char.isDigit, Bool.and_eq_true, decide_eq_true_eq] at h
  exact UInt32.le_trans h.2 (by decide)

/-! ## Parts -/

/-- What a part of the recogniser does is what a part of the scan does, with all that the scan
keeps left out. -/
def Follows {α : Type} (part : Option (List UInt8))
    (scanned : Except Literal.Fault (α × List Char)) : Prop :=
  part = scanned.toOption.map fun x => bytes x.2

theorem takeWhile_bytes (cs : List Char) :
    ((bytes cs).takeWhile isDigit).length = (cs.takeWhile Char.isDigit).length := by
  induction cs with
  | nil => rfl
  | cons c cs ih =>
    obtain ⟨b, rest, hbytes, -, hrest, hdigit⟩ := bytes_head c cs
    rw [hbytes]
    cases hc : c.isDigit with
    | false => simp [hdigit, hc]
    | true => simp [hdigit, hc, hrest (le_of_isDigit hc), ih]

theorem drop_bytes (cs : List Char) : (bytes cs).drop (cs.takeWhile Char.isDigit).length =
    bytes (cs.dropWhile Char.isDigit) := by
  induction cs with
  | nil => rfl
  | cons c cs ih =>
    cases hc : c.isDigit with
    | false => simp [hc]
    | true => simp [hc, bytes_cons (le_of_isDigit hc), ih]

theorem digits?_follows (cs : List Char) : Follows (digits? (bytes cs)) (scanDigits cs) := by
  unfold Follows digits? scanDigits
  simp only [takeWhile_bytes, drop_bytes]
  cases cs.takeWhile Char.isDigit with
  | nil => rfl
  | cons d ds => rfl

theorem Follows.map {α β : Type} {part : Option (List UInt8)}
    {scanned : Except Literal.Fault (α × List Char)} (h : Follows part scanned) (f : α → β) :
    Follows part (scanned.map fun (a, rest) => (f a, rest)) := by
  unfold Follows at h ⊢
  rw [h]
  cases scanned <;> rfl

theorem Follows.bind {α β : Type} {part : Option (List UInt8)}
    {scanned : Except Literal.Fault (α × List Char)} {next : List UInt8 → Option (List UInt8)}
    {after : α × List Char → Except Literal.Fault (β × List Char)} (h : Follows part scanned)
    (hnext : ∀ x, Follows (next (bytes x.2)) (after x)) :
    Follows (part >>= next) (scanned >>= after) := by
  unfold Follows at h
  rw [h]
  cases scanned with
  | error fault => rfl
  | ok x => exact hnext x

theorem minus_bytes (cs : List Char) : minus (bytes cs) = bytes (scanMinus cs).2 := by
  cases cs with
  | nil => rfl
  | cons c cs =>
    obtain ⟨b, rest, hbytes, same, hrest, -⟩ := bytes_head c cs
    rw [hbytes]
    by_cases hc : c = '-'
    · subst hc
      simp [minus, same '-' (by decide), scanMinus, hrest (by decide)]
    · simp [minus, same '-' (by decide), hc, scanMinus, hbytes]

theorem fraction?_follows (cs : List Char) :
    Follows (fraction? (bytes cs)) (scanFraction cs) := by
  cases cs with
  | nil => rfl
  | cons c cs =>
    obtain ⟨b, rest, hbytes, same, hrest, -⟩ := bytes_head c cs
    rw [hbytes]
    by_cases hc : c = '.'
    · subst hc
      rw [fraction?, if_pos ((same '.' (by decide)).mpr rfl), hrest (by decide)]
      exact (digits?_follows cs).map some
    · rw [fraction?, if_neg fun h => hc ((same '.' (by decide)).mp h), ← hbytes]
      simp [scanFraction, hc, Follows, Except.toOption]

theorem exponentDigits_follows (negative : Bool) (cs : List Char) :
    Follows (digits? (bytes cs)) (scanExponentDigits negative cs) :=
  (digits?_follows cs).map fun ds => some (⟨negative, ds⟩ : Exponent)

theorem sign_follows (cs : List Char) : Follows (digits? (sign (bytes cs))) (scanSigned cs) := by
  cases cs with
  | nil => rfl
  | cons c cs =>
    obtain ⟨b, rest, hbytes, same, hrest, -⟩ := bytes_head c cs
    rw [hbytes]
    by_cases hplus : c = '+'
    · subst hplus
      rw [sign, if_pos (Or.inl ((same '+' (by decide)).mpr rfl)), hrest (by decide)]
      exact exponentDigits_follows false cs
    by_cases hminus : c = '-'
    · subst hminus
      rw [sign, if_pos (Or.inr ((same '-' (by decide)).mpr rfl)), hrest (by decide)]
      exact exponentDigits_follows true cs
    · have unsigned : ¬(b = '+'.toUInt8 ∨ b = '-'.toUInt8) := by
        simp [same '+' (by decide), same '-' (by decide), hplus, hminus]
      rw [sign, if_neg unsigned, ← hbytes]
      simpa [scanSigned, hplus, hminus] using exponentDigits_follows false (c :: cs)

theorem power?_follows (cs : List Char) : Follows (power? (bytes cs)) (scanExponent cs) := by
  cases cs with
  | nil => rfl
  | cons c cs =>
    obtain ⟨b, rest, hbytes, same, hrest, -⟩ := bytes_head c cs
    rw [hbytes]
    by_cases he : c = 'e' ∨ c = 'E'
    · have letter : b = 'e'.toUInt8 ∨ b = 'E'.toUInt8 :=
        he.imp (same 'e' (by decide)).mpr (same 'E' (by decide)).mpr
      have small : c.val ≤ 127 := by rcases he with rfl | rfl <;> decide
      rw [power?, if_pos letter, hrest small]
      rcases he with rfl | rfl <;> exact sign_follows cs
    · have other : ¬(b = 'e'.toUInt8 ∨ b = 'E'.toUInt8) := fun h =>
        he (h.imp (same 'e' (by decide)).mp (same 'E' (by decide)).mp)
      obtain ⟨small, large⟩ := not_or.mp he
      rw [power?, if_neg other, ← hbytes]
      simp [scanExponent, small, large, Follows, Except.toOption]

/-! ## Whole parts -/

theorem whole?_zero (cs : List Char) : whole? (bytes ('0' :: cs)) = some (bytes cs) := by
  rw [bytes_cons (by decide), whole?, if_pos rfl]

theorem whole?_follows {c : Char} (hc : c ≠ '0') (cs : List Char) :
    Follows (whole? (bytes (c :: cs))) (scanWhole (c :: cs)) := by
  obtain ⟨b, rest, hbytes, same, -, hdigit⟩ := bytes_head c cs
  have scanned : scanWhole (c :: cs) = scanDigits (c :: cs) := by simp [scanWhole, hc]
  have nonzero : b ≠ '0'.toUInt8 := fun h => hc ((same '0' (by decide)).mp h)
  have figure : ('1'.toUInt8 ≤ b ∧ b ≤ '9'.toUInt8) ↔ c.isDigit = true := by
    rw [← hdigit]
    unfold isDigit
    simp only [Bool.and_eq_true, decide_eq_true_eq, UInt8.le_iff_toNat_le]
    have : b.toNat ≠ '0'.toUInt8.toNat := fun h => nonzero (UInt8.toNat_inj.mp h)
    change b.toNat ≠ 48 at this
    change (49 ≤ b.toNat ∧ _) ↔ (48 ≤ b.toNat ∧ _)
    omega
  rw [hbytes, whole?, if_neg nonzero, scanned, ← hbytes]
  by_cases h : c.isDigit = true
  · rw [if_pos (figure.mpr h)]
    exact digits?_follows (c :: cs)
  · rw [if_neg fun within => h (figure.mp within)]
    simp [Follows, scanDigits, h, Except.toOption]

/-! ## Numbers -/

theorem behind_follows (negative : Bool) (whole cs : List Char) :
    Follows (fraction? (bytes cs) >>= power?) (do
      let (fraction, cs) ← scanFraction cs
      let (exponent, cs) ← scanExponent cs
      return ((⟨negative, whole, fraction, exponent⟩ : Literal), cs)) :=
  (fraction?_follows cs).bind fun x =>
    (power?_follows x.2).map fun exponent => (⟨negative, whole, x.1, exponent⟩ : Literal)

theorem number?_follows (h : ∀ ds, (scanMinus cs).2 ≠ '0' :: ds) :
    Follows (number? (bytes cs)) (scan cs) := by
  unfold number? scan
  rw [minus_bytes]
  generalize scanMinus cs = x at h
  obtain ⟨negative, rest⟩ := x
  cases rest with
  | nil => rfl
  | cons c rest =>
    have hc : c ≠ '0' := by
      rintro rfl
      exact h rest rfl
    exact (whole?_follows hc rest).bind fun x => behind_follows negative x.1 x.2

theorem number?_follows_zero {rest : List Char} (h : (scanMinus cs).2 = '0' :: rest)
    (ends : Literal.Ends rest) : Follows (number? (bytes cs)) (scan cs) := by
  unfold number? scan
  rw [minus_bytes]
  generalize scanMinus cs = x at h
  obtain ⟨negative, _⟩ := x
  cases h
  have scanned : scanWhole ('0' :: rest) = .ok (['0'], rest) :=
    Literal.scanWhole_append .zero ends
  simp only [whole?_zero, scanned]
  exact behind_follows negative ['0'] rest

/-- Behind a zero a digit is left where it is. -/
theorem number?_zero_digit {d : Char} {rest : List Char}
    (h : (scanMinus cs).2 = '0' :: d :: rest) (hd : d.isDigit = true) :
    number? (bytes cs) = some (bytes (d :: rest)) := by
  have other (c : Char) (hc : c.isDigit = false) : d ≠ c := by
    rintro rfl
    rw [hd] at hc
    cases hc
  have noFraction : scanFraction (d :: rest) = .ok (none, d :: rest) := by
    simp [scanFraction, other '.' rfl]
  have noPower : scanExponent (d :: rest) = .ok (none, d :: rest) := by
    simp [scanExponent, other 'e' rfl, other 'E' rfl]
  have follows := behind_follows (scanMinus cs).1 ['0'] (d :: rest)
  unfold number?
  rw [minus_bytes, h, whole?_zero]
  simpa [Follows, noFraction, noPower, bind, Except.bind, pure, Except.pure, Except.toOption]
    using follows

theorem bytes_eq_nil_iff : bytes cs = [] ↔ cs = [] := by
  cases cs with
  | nil => simp [bytes]
  | cons c cs =>
    obtain ⟨b, rest, hbytes, -⟩ := bytes_head c cs
    simp [hbytes]

theorem accepts_of_follows (h : Follows (number? (bytes cs)) (scan cs)) :
    accepts cs = (ofText? cs).isSome := by
  unfold accepts ofText?
  rw [h, Bool.eq_iff_iff, decide_eq_true_eq]
  cases scan cs with
  | error fault => simp [Except.toOption]
  | ok x =>
    obtain ⟨l, rest⟩ := x
    cases rest <;> simp [Except.toOption, bytes_eq_nil_iff]

/-- The recogniser accepts a text exactly when it is taken for a literal. -/
theorem accepts_eq (cs : List Char) : accepts cs = (ofText? cs).isSome := by
  by_cases zero : ∃ rest, (scanMinus cs).2 = '0' :: rest
  · obtain ⟨rest, hrest⟩ := zero
    cases rest with
    | nil => exact accepts_of_follows (number?_follows_zero hrest Literal.stops_nil.ends)
    | cons d rest =>
      cases hd : d.isDigit with
      | false => exact accepts_of_follows (number?_follows_zero hrest (Literal.ends_cons hd rest))
      | true =>
        have left : accepts cs = false := by
          simp [accepts, number?_zero_digit hrest hd, bytes_eq_nil_iff]
        have stopped : scan cs = .error .malformed := by
          unfold scan
          simp [hrest, scanWhole, hd, bind, Except.bind]
        rw [left]
        simp [ofText?, stopped]
  · exact accepts_of_follows (number?_follows fun ds hds => zero ⟨ds, hds⟩)

end TemplateLint.Decimal.Recogniser
