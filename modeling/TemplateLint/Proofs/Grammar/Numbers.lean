import Mathlib.Data.List.TakeWhile
import TemplateLint.Decimal.Literal

/-!
# The grammar of number literals

A number of JSON is written as an optional minus, a whole part without needless
zeros in front, an optional fraction and an optional exponent. The scan takes a
text for a literal exactly when the grammar does, and with the same parts.
-/

namespace TemplateLint

section Readers

variable {ε α β : Type} {x : Except ε α} {b : β}

theorem bind_eq_ok {f : α → Except ε β} (h : x >>= f = .ok b) : ∃ a, x = .ok a ∧ f a = .ok b := by
  cases x with
  | error e => cases h
  | ok a => exact ⟨a, rfl, h⟩

theorem map_eq_ok {f : α → β} (h : x.map f = .ok b) : ∃ a, x = .ok a ∧ f a = b := by
  cases x with
  | error e => cases h
  | ok a => exact ⟨a, rfl, Except.ok.inj h⟩

end Readers

namespace Decimal.Literal

/-- One digit or more. -/
structure Digits (ds : List Char) : Prop where
  nonempty : ds ≠ []
  all : ∀ d ∈ ds, d.isDigit = true

inductive Minus : List Char → Bool → Prop where
  | absent : Minus [] false
  | present : Minus ['-'] true

/-- A zero alone, or digits of which the first is not zero. -/
inductive Whole : List Char → Prop where
  | zero : Whole ['0']
  | digits {d : Char} {ds : List Char} : d ≠ '0' → Digits (d :: ds) → Whole (d :: ds)

inductive Fraction : List Char → Option (List Char) → Prop where
  | absent : Fraction [] none
  | present {ds : List Char} : Digits ds → Fraction ('.' :: ds) (some ds)

/-- The sign of an exponent. -/
inductive Sign : List Char → Bool → Prop where
  | absent : Sign [] false
  | plus : Sign ['+'] false
  | minus : Sign ['-'] true

inductive Power : List Char → Option Exponent → Prop where
  | absent : Power [] none
  | present {e : Char} {sign ds : List Char} {negative : Bool} : e = 'e' ∨ e = 'E' →
      Sign sign negative → Digits ds → Power (e :: (sign ++ ds)) (some ⟨negative, ds⟩)

/-- A text writes a literal. -/
inductive Writes : List Char → Literal → Prop where
  | parts {minus whole fraction power : List Char} {l : Literal} : Minus minus l.negative →
      whole = l.whole → Whole whole → Fraction fraction l.fraction → Power power l.exponent →
      Writes (minus ++ (whole ++ (fraction ++ power))) l

/-! ## Digits -/

/-- What follows digits is no digit. -/
def Ends (cs : List Char) : Prop := ∀ c ∈ cs.head?, c.isDigit = false

theorem scanDigits_append {ds cs : List Char} (h : Digits ds) (hcs : Ends cs) :
    scanDigits (ds ++ cs) = .ok (ds, cs) := by
  have htake : (ds ++ cs).takeWhile Char.isDigit = ds := by
    rw [List.takeWhile_append_of_pos h.all]
    cases cs with
    | nil => simp
    | cons c rest => simp [hcs c rfl]
  have hdrop : (ds ++ cs).dropWhile Char.isDigit = cs := by
    rw [List.dropWhile_append_of_pos h.all]
    cases cs with
    | nil => rfl
    | cons c rest => simp [hcs c rfl]
  unfold scanDigits
  rw [htake, hdrop]
  split
  · exact (h.nonempty rfl).elim
  · rfl

theorem scanDigits_eq_ok {cs ds rest : List Char} (h : scanDigits cs = .ok (ds, rest)) :
    cs = ds ++ rest ∧ Digits ds := by
  unfold scanDigits at h
  split at h
  · cases h
  · rename_i hne
    cases h
    refine ⟨List.takeWhile_append_dropWhile.symm, fun hnil => hne hnil, ?_⟩
    intro d hd
    exact List.mem_takeWhile_imp hd

theorem ends_cons {c : Char} (h : c.isDigit = false) (cs : List Char) : Ends (c :: cs) := by
  intro d hd
  cases hd
  exact h

/-- What follows a literal: nothing that could be a part of it. -/
def Stops (cs : List Char) : Prop :=
  ∀ c ∈ cs.head?, c.isDigit = false ∧ c ≠ '.' ∧ c ≠ 'e' ∧ c ≠ 'E'

theorem stops_nil : Stops [] := by
  intro c hc
  cases hc

theorem Stops.ends {cs : List Char} (h : Stops cs) : Ends cs := fun c hc => (h c hc).1

theorem Power.ends {cs rest : List Char} {e : Option Exponent} (h : Power cs e)
    (hrest : Ends rest) : Ends (cs ++ rest) := by
  cases h with
  | absent => exact hrest
  | present letter sign digits => rcases letter with rfl | rfl <;> exact ends_cons rfl _

theorem Fraction.ends {cs rest : List Char} {f : Option (List Char)} (h : Fraction cs f)
    (hrest : Ends rest) : Ends (cs ++ rest) := by
  cases h with
  | absent => exact hrest
  | present digits => exact ends_cons rfl _

/-! ## What the grammar writes -/

theorem Digits.head {d : Char} {ds : List Char} (h : Digits (d :: ds)) : d.isDigit = true :=
  h.all d List.mem_cons_self

theorem Whole.head {cs : List Char} (h : Whole cs) :
    ∃ d ds, cs = d :: ds ∧ d.isDigit = true := by
  cases h with
  | zero => exact ⟨'0', [], rfl, rfl⟩
  | digits _ digits => exact ⟨_, _, rfl, digits.head⟩

/-- A literal begins with a digit, perhaps behind a minus. -/
theorem Writes.head {cs : List Char} {l : Literal} (h : Writes cs l) :
    ∃ d ds, (cs = d :: ds ∨ cs = '-' :: d :: ds) ∧ d.isDigit = true := by
  cases h with
  | parts minus _ whole fraction power =>
    obtain ⟨d, ds, rfl, hd⟩ := whole.head
    generalize l.negative = negative at minus
    cases minus with
    | absent => exact ⟨d, _, Or.inl rfl, hd⟩
    | present => exact ⟨d, _, Or.inr rfl, hd⟩

theorem scanMinus_append {cs whole rest : List Char} {negative : Bool} (h : Minus cs negative)
    (hw : Whole whole) : scanMinus (cs ++ (whole ++ rest)) = (negative, whole ++ rest) := by
  cases h with
  | present => rfl
  | absent =>
    obtain ⟨d, ds, rfl, hd⟩ := hw.head
    have hne : d ≠ '-' := by
      rintro rfl
      cases hd
    simp [scanMinus, hne]

theorem scanWhole_append {cs rest : List Char} (h : Whole cs) (hrest : Ends rest) :
    scanWhole (cs ++ rest) = .ok (cs, rest) := by
  cases h with
  | zero =>
    cases rest with
    | nil => rfl
    | cons c rest => simp [scanWhole, hrest c rfl]
  | digits hne digits =>
    have hscan := scanDigits_append digits hrest
    simpa [scanWhole, hne] using hscan

theorem scanFraction_append {cs power rest : List Char} {f : Option (List Char)}
    {e : Option Exponent} (h : Fraction cs f) (hpower : Power power e) (stops : Stops rest) :
    scanFraction (cs ++ (power ++ rest)) = .ok (f, power ++ rest) := by
  cases h with
  | absent =>
    cases hpower with
    | absent =>
      cases rest with
      | nil => rfl
      | cons c rest => simp [scanFraction, (stops c rfl).2.1]
    | present letter _ _ => rcases letter with rfl | rfl <;> rfl
  | present digits =>
    simp [scanFraction, scanDigits_append digits (hpower.ends stops.ends), Except.map]

theorem scanSigned_append {sign ds rest : List Char} {negative : Bool} (h : Sign sign negative)
    (digits : Digits ds) (ends : Ends rest) :
    scanSigned (sign ++ (ds ++ rest)) = .ok (some ⟨negative, ds⟩, rest) := by
  have hscan := scanDigits_append digits ends
  cases h with
  | plus => simp [scanSigned, scanExponentDigits, hscan, Except.map]
  | minus => simp [scanSigned, scanExponentDigits, hscan, Except.map]
  | absent =>
    cases ds with
    | nil => exact (digits.nonempty rfl).elim
    | cons d ds =>
      have hd := digits.head
      have hplus : d ≠ '+' := by
        rintro rfl
        cases hd
      have hminus : d ≠ '-' := by
        rintro rfl
        cases hd
      rw [List.cons_append] at hscan
      simp [scanSigned, hplus, hminus, scanExponentDigits, hscan, Except.map]

theorem scanExponent_append {cs rest : List Char} {e : Option Exponent} (h : Power cs e)
    (stops : Stops rest) : scanExponent (cs ++ rest) = .ok (e, rest) := by
  cases h with
  | absent =>
    cases rest with
    | nil => rfl
    | cons c rest => simp [scanExponent, (stops c rfl).2.2.1, (stops c rfl).2.2.2]
  | present letter sign digits =>
    have hscan := scanSigned_append sign digits stops.ends
    rcases letter with rfl | rfl <;> simpa [scanExponent] using hscan

/-- A literal is scanned off the front of a text. -/
theorem Writes.scan_append {cs rest : List Char} {l : Literal} (h : Writes cs l)
    (stops : Stops rest) : scan (cs ++ rest) = .ok (l, rest) := by
  obtain ⟨minus, rfl, whole, fraction, power⟩ := h
  have hfraction := fraction.ends (power.ends stops.ends)
  simp [scan, scanMinus_append minus whole, scanWhole_append whole hfraction,
    scanFraction_append fraction power stops, scanExponent_append power stops, bind, Except.bind,
    pure, Except.pure]

theorem Writes.ofText? {cs : List Char} {l : Literal} (h : Writes cs l) : ofText? cs = some l := by
  have hscan := h.scan_append stops_nil
  rw [List.append_nil] at hscan
  simp [Literal.ofText?, hscan]

/-- A text writes one literal only. -/
theorem Writes.unique {cs : List Char} {l k : Literal} (h : Writes cs l) (h' : Writes cs k) :
    l = k :=
  Option.some.inj (h.ofText?.symm.trans h'.ofText?)

/-! ## What is scanned -/

theorem scanMinus_eq (cs : List Char) :
    ∃ minus, cs = minus ++ (scanMinus cs).2 ∧ Minus minus (scanMinus cs).1 := by
  unfold scanMinus
  split
  · exact ⟨['-'], rfl, .present⟩
  · exact ⟨[], rfl, .absent⟩

theorem scanWhole_eq_ok {cs ds rest : List Char} (h : scanWhole cs = .ok (ds, rest)) :
    cs = ds ++ rest ∧ Whole ds := by
  unfold scanWhole at h
  split at h
  · split at h
    · cases h
    · cases h
      exact ⟨rfl, .zero⟩
  · rename_i hzero
    obtain ⟨rfl, digits⟩ := scanDigits_eq_ok h
    refine ⟨rfl, ?_⟩
    cases ds with
    | nil => exact (digits.nonempty rfl).elim
    | cons d ds =>
      by_cases hd : d = '0'
      · subst hd
        cases ds with
        | nil => exact .zero
        | cons d ds => exact (hzero d (ds ++ rest) rfl).elim
      · exact .digits hd digits

theorem scanFraction_eq_ok {cs rest : List Char} {f : Option (List Char)}
    (h : scanFraction cs = .ok (f, rest)) :
    ∃ fraction, cs = fraction ++ rest ∧ Fraction fraction f := by
  unfold scanFraction at h
  split at h
  · obtain ⟨⟨ds, after⟩, hscan, h⟩ := map_eq_ok h
    cases h
    obtain ⟨rfl, digits⟩ := scanDigits_eq_ok hscan
    exact ⟨_, rfl, .present digits⟩
  · cases h
    exact ⟨[], rfl, .absent⟩

theorem scanSigned_eq_ok {cs rest : List Char} {e : Option Exponent}
    (h : scanSigned cs = .ok (e, rest)) : ∃ sign negative ds, cs = sign ++ (ds ++ rest) ∧
      Sign sign negative ∧ Digits ds ∧ e = some ⟨negative, ds⟩ := by
  have signed : ∀ {negative : Bool} {cs : List Char},
      scanExponentDigits negative cs = .ok (e, rest) →
        ∃ ds, cs = ds ++ rest ∧ Digits ds ∧ e = some ⟨negative, ds⟩ := by
    intro negative cs h
    obtain ⟨⟨ds, after⟩, hscan, h⟩ := map_eq_ok h
    cases h
    obtain ⟨rfl, digits⟩ := scanDigits_eq_ok hscan
    exact ⟨ds, rfl, digits, rfl⟩
  unfold scanSigned at h
  split at h
  · obtain ⟨ds, rfl, digits, rfl⟩ := signed h
    exact ⟨_, _, ds, rfl, .plus, digits, rfl⟩
  · obtain ⟨ds, rfl, digits, rfl⟩ := signed h
    exact ⟨_, _, ds, rfl, .minus, digits, rfl⟩
  · obtain ⟨ds, rfl, digits, rfl⟩ := signed h
    exact ⟨_, _, ds, rfl, .absent, digits, rfl⟩

theorem scanExponent_eq_ok {cs rest : List Char} {e : Option Exponent}
    (h : scanExponent cs = .ok (e, rest)) : ∃ power, cs = power ++ rest ∧ Power power e := by
  unfold scanExponent at h
  split at h
  · obtain ⟨sign, negative, ds, rfl, hsign, digits, rfl⟩ := scanSigned_eq_ok h
    exact ⟨'e' :: (sign ++ ds), by simp, .present (Or.inl rfl) hsign digits⟩
  · obtain ⟨sign, negative, ds, rfl, hsign, digits, rfl⟩ := scanSigned_eq_ok h
    exact ⟨'E' :: (sign ++ ds), by simp, .present (Or.inr rfl) hsign digits⟩
  · cases h
    exact ⟨[], rfl, .absent⟩

theorem scan_eq_ok {cs rest : List Char} {l : Literal} (h : scan cs = .ok (l, rest)) :
    ∃ text, cs = text ++ rest ∧ Writes text l := by
  obtain ⟨minus, hcs, isMinus⟩ := scanMinus_eq cs
  unfold scan at h
  generalize scanMinus cs = signed at h hcs isMinus
  obtain ⟨⟨whole, _⟩, hwhole, h⟩ := bind_eq_ok h
  obtain ⟨⟨fraction, _⟩, hfraction, h⟩ := bind_eq_ok h
  obtain ⟨⟨exponent, _⟩, hexponent, h⟩ := bind_eq_ok h
  cases h
  obtain ⟨hafter, isWhole⟩ := scanWhole_eq_ok hwhole
  obtain ⟨fractionText, rfl, isFraction⟩ := scanFraction_eq_ok hfraction
  obtain ⟨powerText, rfl, isPower⟩ := scanExponent_eq_ok hexponent
  refine ⟨minus ++ (whole ++ (fractionText ++ powerText)), ?_,
    .parts isMinus rfl isWhole isFraction isPower⟩
  rw [hcs, hafter]
  simp

/-- A text is taken for a literal exactly when it writes that literal. -/
theorem ofText?_eq_some_iff {cs : List Char} {l : Literal} :
    ofText? cs = some l ↔ Writes cs l := by
  constructor
  · intro h
    unfold ofText? at h
    split at h
    · rename_i hscan
      cases h
      obtain ⟨text, rfl, writes⟩ := scan_eq_ok hscan
      simpa using writes
    · cases h
  · exact Writes.ofText?

end Decimal.Literal

end TemplateLint
