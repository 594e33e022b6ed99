import TemplateLint.Proofs.Descent.Cuts
import TemplateLint.Proofs.Lexemes.Patterns

/-!
# Longest lexemes

Lexemes are cut off the front of a text one by one. Each token is spelled as its
pattern has it, and no pattern reaches farther from where it starts; where no
pattern reaches anywhere there is no token. So the lexemes of a text lose
nothing of it, and a token ends only where no longer one could be read.
-/

namespace TemplateLint

open Lexeme (longest byteLength)
open Pattern

/-- A lexeme as it is to be cut off the front of a text. -/
structure CutOff (cs : List Char) (l : Lexeme (Option Token)) : Prop where
  front : l.text <+: cs
  advances : l.text ≠ []
  /-- A token is spelled by its pattern, and none is spelled by more of the text. -/
  token : ∀ t, l.kind = some t → l.text ∈ t.pattern ∧
    ∀ u : Token, ∀ front ∈ u.pattern, front <+: cs → front.length ≤ l.text.length
  /-- What is no token begins with none. -/
  unknown : l.kind = none → ∀ u : Token, ∀ front ∈ u.pattern, ¬ front <+: cs

/-! ## What patterns reach -/

/-- Wherever a text begins like this, a token is found there that is at least as long. -/
def Reached (front : List Char) : Prop :=
  ∃ c tail, front = c :: tail ∧ ∀ rest, (longest c (tail ++ rest)).1.isSome = true ∧
    front.length ≤ (longest c (tail ++ rest)).2

theorem reached_fixed {t : Token} {text : List Char} (h : t.fixed? = some text) :
    Reached text := by
  have spelled : (⟨t, text, .point 0⟩ : Lexeme Token).WellSpelled := .fixed h
  obtain ⟨c, tail, htext, -⟩ := Lexeme.longest_spelled spelled [] (by simp)
  refine ⟨c, tail, htext, fun rest => ?_⟩
  have number : t ≠ .number := by
    rintro rfl
    cases h
  obtain ⟨d, more, hmore, hlongest⟩ := Lexeme.longest_spelled spelled rest
    fun hnumber => (number hnumber).elim
  cases htext.symm.trans hmore
  rw [hlongest]
  exact ⟨rfl, Nat.le_refl _⟩

theorem length_le_takeWhile {p : Char → Bool} {front : List Char} (h : ∀ c ∈ front, p c = true)
    (rest : List Char) : front.length ≤ ((front ++ rest).takeWhile p).length := by
  rw [List.takeWhile_append_of_pos h, List.length_append]
  exact Nat.le_add_right _ _

theorem reached_whitespace {front : List Char} (h : front ∈ Token.whitespace.pattern) :
    Reached front := by
  obtain ⟨hne, blanks⟩ := Token.mem_whitespace.mp h
  obtain ⟨c, tail, rfl⟩ := List.exists_cons_of_ne_nil hne
  obtain ⟨hc, htail⟩ := List.forall_mem_cons.mp blanks
  refine ⟨c, tail, rfl, fun rest => ?_⟩
  rw [Lexeme.longest_blank hc]
  exact ⟨rfl, Nat.succ_le_succ (length_le_takeWhile htail rest)⟩

theorem reached_number {front : List Char} (h : front ∈ Token.number.pattern) :
    Reached front := by
  obtain ⟨d, tail, hd, words, rfl | rfl⟩ := Token.mem_number.mp h
  · refine ⟨d, tail, rfl, fun rest => ?_⟩
    rw [Lexeme.longest_digit hd]
    exact ⟨rfl, Nat.succ_le_succ (length_le_takeWhile words rest)⟩
  · refine ⟨'-', d :: tail, rfl, fun rest => ?_⟩
    have far : tail.length ≤ Lexeme.numberLength (tail ++ rest) := length_le_takeWhile words rest
    simp [longest, hd, far]

theorem reached_string {front : List Char} (h : front ∈ Token.string.pattern) :
    Reached front := by
  obtain ⟨inner, hinner, rfl⟩ := Token.mem_string.mp h
  refine ⟨'"', inner ++ ['"'], rfl, fun rest => ?_⟩
  have closed : Lexeme.closedLength (inner ++ '"' :: rest) = some (1 + inner.length) := by
    rw [closedLength_append hinner, closedLength_quote]
    rfl
  rw [List.append_assoc, List.singleton_append]
  simp only [longest, closed, Option.isSome_some, List.length_cons, List.length_append,
    List.length_nil, true_and]
  omega

theorem reached_unterminated {front : List Char} (h : front ∈ Token.unterminatedString.pattern) :
    Reached front := by
  obtain ⟨inner, hinner, rfl⟩ := Token.mem_unterminated.mp h
  refine ⟨'"', inner, rfl, fun rest => ?_⟩
  have passed := closedLength_append (body_mono plainInLine_subset hinner) rest
  cases hclosed : Lexeme.closedLength rest with
  | none =>
    rw [hclosed, Option.map_none] at passed
    simp [longest, passed, openLength_append hinner]
  | some n =>
    rw [hclosed, Option.map_some] at passed
    simp [longest, passed]

theorem reached_of_mem {t : Token} {front : List Char} (h : front ∈ t.pattern) :
    Reached front := by
  cases hfixed : t.fixed? with
  | some text =>
    rw [t.pattern_of_fixed hfixed] at h
    exact (show front = text from h) ▸ reached_fixed hfixed
  | none =>
    cases t
    case whitespace => exact reached_whitespace h
    case string => exact reached_string h
    case unterminatedString => exact reached_unterminated h
    case number => exact reached_number h
    all_goals cases hfixed

/-- Where a pattern reaches, a token is found that is at least as long. -/
theorem longest_reaches {t : Token} {front : List Char} (h : front ∈ t.pattern) {c : Char}
    {rest : List Char} (hfront : front <+: c :: rest) :
    (longest c rest).1.isSome = true ∧ front.length ≤ (longest c rest).2 := by
  obtain ⟨d, tail, rfl, far⟩ := reached_of_mem h
  obtain ⟨more, hmore⟩ := hfront
  obtain ⟨rfl, rfl⟩ := List.cons.inj hmore
  exact far more

/-! ## How tokens are spelled -/

/-- A number begins with a digit, or with a minus and a digit. -/
theorem longest_number_cases {c : Char} {rest : List Char}
    (h : (longest c rest).1 = some .number) : c.isDigit = true ∨
      ∃ d more, c = '-' ∧ rest = d :: more ∧ d.isDigit = true := by
  unfold longest Lexeme.keyword at h
  grind

theorem take_numberLength (rest : List Char) :
    ∀ c ∈ rest.take (Lexeme.numberLength rest), Lexeme.isWordChar c = true := by
  have whole : rest.take (Lexeme.numberLength rest) = rest.takeWhile Lexeme.isWordChar :=
    (List.prefix_iff_eq_take.mp (List.takeWhile_prefix _)).symm
  rw [whole]
  exact fun c hc => List.mem_takeWhile_imp hc

theorem spelled_number {c : Char} {rest : List Char} (h : (longest c rest).1 = some .number) :
    (c :: rest).take (longest c rest).2 ∈ Token.number.pattern := by
  rcases longest_number_cases h with hd | ⟨d, more, rfl, rfl, hd⟩
  · rw [Lexeme.longest_digit hd]
    exact Token.mem_number.mpr ⟨c, _, hd, take_numberLength rest, Or.inl rfl⟩
  · have length : (longest '-' (d :: more)).2 = Lexeme.numberLength more + 2 := by
      simp [longest, hd]
    rw [length]
    exact Token.mem_number.mpr ⟨d, _, hd, take_numberLength more, Or.inr rfl⟩

theorem spelled_string {c : Char} {rest : List Char} (h : (longest c rest).1 = some .string) :
    (c :: rest).take (longest c rest).2 ∈ Token.string.pattern := by
  obtain rfl := Lexeme.longest_quote h (Or.inl rfl)
  cases hclosed : Lexeme.closedLength rest with
  | none => simp [longest, hclosed] at h
  | some n =>
    obtain ⟨inner, hinner, more, rfl, rfl⟩ := exists_body_of_closedLength hclosed
    refine Token.mem_string.mpr ⟨inner, hinner, ?_⟩
    simp [longest, hclosed, List.take_length_add_append]

theorem spelled_unterminated {c : Char} {rest : List Char}
    (h : (longest c rest).1 = some .unterminatedString) :
    (c :: rest).take (longest c rest).2 ∈ Token.unterminatedString.pattern := by
  obtain rfl := Lexeme.longest_quote h (Or.inr rfl)
  cases hclosed : Lexeme.closedLength rest with
  | some n => simp [longest, hclosed] at h
  | none =>
    refine Token.mem_unterminated.mpr ⟨_, (take_openLength rest).2, ?_⟩
    simp [longest, hclosed]

theorem ne_nil_of_longest (c : Char) (rest : List Char) :
    (c :: rest).take (longest c rest).2 ≠ [] := by
  have pos := Lexeme.longest_pos c rest
  simp only [ne_eq, List.take_eq_nil_iff, List.cons_ne_nil, or_false]
  omega

/-- A token is spelled by its pattern. -/
theorem spelled_of_longest {c : Char} {rest : List Char} {t : Token}
    (h : (longest c rest).1 = some t) : (c :: rest).take (longest c rest).2 ∈ t.pattern := by
  cases hfixed : t.fixed? with
  | some text =>
    have found := Lexeme.fixed?_of_longest h (by rw [hfixed]; rfl)
    rw [Token.pattern_of_fixed found]
    exact Set.mem_singleton _
  | none =>
    cases t
    case whitespace =>
      exact Token.mem_whitespace.mpr ⟨ne_nil_of_longest c rest, Lexeme.blank_of_longest h⟩
    case string => exact spelled_string h
    case unterminatedString => exact spelled_unterminated h
    case number => exact spelled_number h
    all_goals cases hfixed

namespace Lexeme

/-- The lexeme at the front of a text that begins at an offset. -/
def first (offset : Nat) (c : Char) (rest : List Char) : Lexeme (Option Token) :=
  ⟨(longest c rest).1, (c :: rest).take (longest c rest).2,
    .ofLength offset (byteLength ((c :: rest).take (longest c rest).2))⟩

theorem cutOff_first (offset : Nat) (c : Char) (rest : List Char) :
    CutOff (c :: rest) (first offset c rest) where
  front := List.take_prefix _ _
  advances := ne_nil_of_longest c rest
  token t h := by
    refine ⟨spelled_of_longest h, fun u front hu hfront => ?_⟩
    have reach := (longest_reaches hu hfront).2
    have fits := hfront.length_le
    simp only [first, List.length_take]
    omega
  unknown h u front hu hfront := by
    have found := (longest_reaches hu hfront).1
    rw [show (longest c rest).1 = none from h] at found
    cases found

/-! ## All lexemes of a text -/

/-- A lexeme of a text is the first of those of the text from where it starts. -/
theorem exists_first_of_mem {offset : Nat} {cs : List Char} {l : Lexeme (Option Token)}
    (h : l ∈ listFrom offset 0 cs) : ∃ front before c rest, cs = before ++ c :: rest ∧
      listFrom offset 0 cs = front ++ listFrom (offset + byteLength before) 0 (c :: rest) ∧
      l = first (offset + byteLength before) c rest := by
  induction hn : cs.length using Nat.strongRecOn generalizing offset cs with
  | ind n ih =>
    cases cs with
    | nil => cases h
    | cons c rest =>
      have hpos := longest_pos c rest
      have shorter : ((c :: rest).drop (longest c rest).2).length < n := by
        rw [← hn, List.length_drop, List.length_cons]
        omega
      have split := listFrom_cons offset c rest
      rw [split] at h
      rcases List.mem_cons.mp h with rfl | h
      · exact ⟨[], [], c, rest, rfl, rfl, rfl⟩
      · obtain ⟨front, before, d, behind, hsplit, hlist, hl⟩ := ih _ shorter h rfl
        rw [Nat.add_assoc, ← byteLength_append] at hlist hl
        refine ⟨first offset c rest :: front, (c :: rest).take (longest c rest).2 ++ before, d,
          behind, ?_, ?_, hl⟩
        · rw [List.append_assoc, ← hsplit, List.take_append_drop]
        · rw [split, hlist]
          rfl

/-- Lexemes that stand side by side start where those in front of them stop. -/
theorem Tiles.starts {κ : Type} {offset : Nat} {ls : List (Lexeme κ)} (h : Tiles offset ls) :
    ls.map (·.span.start) ++ [offset + byteLength (ls.flatMap (·.text))] =
      offset :: ls.map (·.span.stop) := by
  induction ls generalizing offset with
  | nil => rfl
  | cons l rest ih =>
    obtain ⟨hspan, htiles⟩ := h
    have tail := ih htiles
    rw [Nat.add_assoc] at tail
    simp only [List.map_cons, List.cons_append, List.flatMap_cons, byteLength_append, tail, hspan,
      Span.ofLength]

/-- The lexemes of a text are all of it, from its start to its end. None is empty, none cuts a
character in two, and each is the longest that any pattern admits where it starts; only where no
pattern admits any there is no token. -/
theorem ofText_maximal (source : List Char) :
    (ofText source).flatMap (·.text) = source ∧
      (ofText source).map (·.span.start) ++ [byteLength source] =
        0 :: (ofText source).map (·.span.stop) ∧
      ∀ l ∈ ofText source, l.span.start < l.span.stop ∧
        Boundary source l.span.start ∧ Boundary source l.span.stop ∧
        ∃ before rest, source = before ++ rest ∧
          l.span = .ofLength (byteLength before) (byteLength l.text) ∧ CutOff rest l := by
  obtain ⟨whole, tiles, -⟩ := listFrom_spec 0 source
  refine ⟨whole, ?_, fun l hl => ?_⟩
  · have starts := tiles.starts
    rwa [whole, Nat.zero_add] at starts
  · have within := (of_mem_ofText hl).1
    obtain ⟨-, before, c, rest, hsource, -, rfl⟩ := exists_first_of_mem hl
    rw [Nat.zero_add] at within ⊢
    have cut := cutOff_first (byteLength before) c rest
    have forward := Nat.lt_add_of_pos_right (n := byteLength before) (byteLength_pos cut.advances)
    exact ⟨forward, within.start, within.stop, before, c :: rest, hsource, rfl, cut⟩

end Lexeme

end TemplateLint
