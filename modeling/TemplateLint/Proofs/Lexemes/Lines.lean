import TemplateLint.Proofs.Lexemes.Longest

/-!
# Unclosed literals

A string literal without a closing quote is to end with its line, so that the
lines behind it are read as if it were not there. This holds unless a quote
further down closes the literal, which then runs over the lines in between, or
the line ends in a carriage return that a backslash escapes. A backslash escapes
no line feed: at the end of a line it is left over as no token.
-/

namespace TemplateLint.Lexeme

open Pattern

def breaksLine (c : Char) : Bool := c == '\r' || c == '\n'

/-- The text begins with a literal that has both its quotes. -/
def Closed (cs : List Char) : Prop := ∃ front ∈ Token.string.pattern, front <+: cs

/-- A line that ends in a backslash which no other one escapes. -/
def Dangles (line : List Char) : Prop :=
  ∃ inner, '"' :: inner ∈ Token.unterminatedString.pattern ∧ line = inner ++ ['\\']

/-- A lexeme that ends with its line: it is an unclosed literal without a line break, of the line
at most a backslash is left over, and the lexemes that follow are those of the lines behind. -/
structure EndsWithLine (source line behind : List Char) (l : Lexeme (Option Token)) : Prop where
  kind : l.kind = some .unterminatedString
  inLine : ∀ c ∈ l.text, breaksLine c = false
  follow : ∃ front rest, ofText source = front ++ l :: (rest ++
    listFrom (l.span.start + byteLength ('"' :: line)) 0 behind) ∧
      ∀ r ∈ rest, r.kind = none ∧ r.text = ['\\']

/-! ## Literals and lines -/

theorem closed_iff {rest : List Char} :
    Closed ('"' :: rest) ↔ (closedLength rest).isSome = true := by
  constructor
  · rintro ⟨front, hfront, more, hmore⟩
    obtain ⟨inner, hinner, rfl⟩ := Token.mem_string.mp hfront
    have hrest : inner ++ '"' :: more = rest := by simpa using hmore
    rw [← hrest, closedLength_append hinner, closedLength_quote]
    rfl
  · intro h
    obtain ⟨n, hn⟩ := Option.isSome_iff_exists.mp h
    obtain ⟨inner, hinner, more, rfl, -⟩ := exists_body_of_closedLength hn
    exact ⟨_, Token.mem_string.mpr ⟨inner, hinner, rfl⟩, more, by simp⟩

theorem not_closed_iff {rest : List Char} :
    ¬ Closed ('"' :: rest) ↔ closedLength rest = none := by
  rw [closed_iff, Bool.not_eq_true, Option.isSome_eq_false_iff, Option.isNone_iff_eq_none]

theorem dangles_iff {line : List Char} :
    Dangles line ↔ ∃ inner ∈ body plainInLine, line = inner ++ ['\\'] := by
  constructor
  · rintro ⟨inner, hinner, rfl⟩
    obtain ⟨same, hsame, heq⟩ := Token.mem_unterminated.mp hinner
    obtain ⟨-, rfl⟩ := List.cons.inj heq
    exact ⟨inner, hsame, rfl⟩
  · rintro ⟨inner, hinner, rfl⟩
    exact ⟨inner, Token.mem_unterminated.mpr ⟨inner, hinner, rfl⟩, rfl⟩

/-- A line without a closing quote may stand in a literal, but for a backslash at its end. -/
theorem line_cases {line : List Char} (inLine : ∀ c ∈ line, breaksLine c = false)
    (unclosed : closedLength line = none) : line ∈ body plainInLine ∨ Dangles line := by
  have own : ∀ c, breaksLine c = false → c ≠ '"' → c ≠ '\\' → c ∈ plainInLine := by
    intro c hbreak hquote hslash
    simp only [breaksLine, Bool.or_eq_false_iff, beq_eq_false_iff_ne] at hbreak
    simp [plainInLine, hbreak, hquote, hslash]
  fun_induction closedLength line with
  | case1 => exact Or.inl body_nil
  | case2 => cases unclosed
  | case3 => exact Or.inr (dangles_iff.mpr ⟨[], body_nil, rfl⟩)
  | case4 rest => simp [breaksLine] at inLine
  | case5 c rest hc ih =>
    have tail : ∀ d ∈ rest, breaksLine d = false := fun d hd => inLine d (by simp [hd])
    rcases ih tail (Option.map_eq_none_iff.mp unclosed) with h | h
    · exact Or.inl (body_escape hc h)
    · obtain ⟨inner, hinner, rfl⟩ := dangles_iff.mp h
      exact Or.inr (dangles_iff.mpr ⟨'\\' :: c :: inner, body_escape hc hinner, rfl⟩)
  | case6 c rest hquote hlone hpair ih =>
    obtain ⟨hbreak, tail⟩ := List.forall_mem_cons.mp inLine
    have hown := own c hbreak hquote (ne_backslash hlone hpair)
    rcases ih tail (Option.map_eq_none_iff.mp unclosed) with h | h
    · exact Or.inl (body_cons hown h)
    · obtain ⟨inner, hinner, rfl⟩ := dangles_iff.mp h
      exact Or.inr (dangles_iff.mpr ⟨c :: inner, body_cons hown hinner, rfl⟩)

theorem openLength_of_break {behind : List Char} (h : ∀ c ∈ behind.head?, breaksLine c = true) :
    openLength behind = 0 := by
  cases behind with
  | nil => rfl
  | cons c rest =>
    have hc := h c rfl
    simp only [breaksLine, Bool.or_eq_true, beq_iff_eq] at hc
    rcases hc with rfl | rfl
    · cases rest <;> rfl
    · cases rest <;> rfl

/-- A backslash at the end of a line begins no token of its own and escapes no line feed. -/
theorem openLength_of_dangling {behind : List Char} (h : ∀ c ∈ behind.head?, breaksLine c = true)
    (feed : behind.head? ≠ some '\r') : openLength ('\\' :: behind) = 0 := by
  cases behind with
  | nil => rfl
  | cons c rest =>
    have hc := h c rfl
    simp only [breaksLine, Bool.or_eq_true, beq_iff_eq] at hc
    rcases hc with rfl | rfl
    · exact (feed rfl).elim
    · rfl

/-- Two ways to cut a text at one offset are the same. -/
theorem eq_of_byteLength {a b c d : List Char} (h : a ++ b = c ++ d)
    (length : byteLength a = byteLength c) : a = c ∧ b = d := by
  have cut := Descent.cutAt?_append a b
  rw [length, h, Descent.cutAt?_append] at cut
  exact Prod.mk.inj (Option.some.inj cut).symm

/-! ## Unclosed literals -/

section Unclosed

variable {source before line behind : List Char} {l : Lexeme (Option Token)}

theorem first_closed {offset : Nat} {rest : List Char} (h : Closed ('"' :: rest)) :
    (first offset '"' rest).kind = some .string := by
  obtain ⟨n, hn⟩ := Option.isSome_iff_exists.mp (closed_iff.mp h)
  simp [first, longest, hn]

/-- The lexeme where a quote stands, and those that follow it. -/
theorem exists_quoted (hsource : source = before ++ '"' :: (line ++ behind))
    (hl : l ∈ ofText source) (start : l.span.start = byteLength before) :
    l = first (byteLength before) '"' (line ++ behind) ∧
      ∃ front, ofText source =
        front ++ listFrom (byteLength before) 0 ('"' :: (line ++ behind)) := by
  obtain ⟨front, between, c, rest, hsplit, hlist, rfl⟩ := exists_first_of_mem hl
  rw [Nat.zero_add] at start hlist ⊢
  obtain ⟨rfl, hrest⟩ := eq_of_byteLength (hsplit.symm.trans hsource) start
  obtain ⟨rfl, rfl⟩ := List.cons.inj hrest
  exact ⟨rfl, front, hlist⟩

/-- An unclosed literal is as long as it can be, and the lexemes behind it follow. -/
theorem listFrom_unclosed {part more : List Char} (opened : closedLength (part ++ more) = none)
    (length : openLength (part ++ more) = part.length) (offset : Nat) :
    first offset '"' (part ++ more) = ⟨some .unterminatedString, '"' :: part,
        .ofLength offset (byteLength ('"' :: part))⟩ ∧
      listFrom offset 0 ('"' :: (part ++ more)) = first offset '"' (part ++ more) ::
        listFrom (offset + byteLength ('"' :: part)) 0 more := by
  have found : longest '"' (part ++ more) = (some .unterminatedString, part.length + 1) := by
    simp [longest, opened, length]
  have cut := listFrom_cons offset '"' (part ++ more)
  rw [found] at cut
  refine ⟨?_, ?_⟩
  · simp [first, found]
  · rw [cut]
    simp [first, found]

/-- A backslash outside of literals is no token. -/
theorem exists_stray (offset : Nat) (behind : List Char) : ∃ stray : Lexeme (Option Token),
    stray.kind = none ∧ stray.text = ['\\'] ∧ listFrom offset 0 ('\\' :: behind) =
      stray :: listFrom (offset + byteLength ['\\']) 0 behind :=
  ⟨_, rfl, rfl, listFrom_cons offset '\\' behind⟩

/-- Where no quote closes a literal and no carriage return is escaped, the literal ends with its
line. -/
theorem endsWithLine_of_open (hsource : source = before ++ '"' :: (line ++ behind))
    (hl : l ∈ ofText source) (start : l.span.start = byteLength before)
    (inLine : ∀ c ∈ line, breaksLine c = false) (ends : ∀ c ∈ behind.head?, breaksLine c = true)
    (unclosed : ¬ Closed ('"' :: line)) (opened : closedLength (line ++ behind) = none)
    (feed : ¬ (Dangles line ∧ behind.head? = some '\r')) : EndsWithLine source line behind l := by
  obtain ⟨rfl, front, hlist⟩ := exists_quoted hsource hl start
  rcases line_cases inLine (not_closed_iff.mp unclosed) with whole | dangles
  · have length : openLength (line ++ behind) = line.length := by
      rw [openLength_append whole, openLength_of_break ends, Nat.zero_add]
    obtain ⟨hfirst, hfollow⟩ := listFrom_unclosed opened length (byteLength before)
    refine ⟨by rw [hfirst], ?_, front, [], by rw [hlist, hfollow]; rfl, by simp⟩
    rw [hfirst]
    exact List.forall_mem_cons.mpr ⟨rfl, inLine⟩
  · obtain ⟨inner, hinner, rfl⟩ := dangles_iff.mp dangles
    rw [List.append_assoc, List.singleton_append] at opened hlist ⊢
    have length : openLength (inner ++ '\\' :: behind) = inner.length := by
      have stop := openLength_of_dangling ends fun hreturn => feed ⟨dangles, hreturn⟩
      rw [openLength_append hinner, stop, Nat.zero_add]
    obtain ⟨hfirst, hfollow⟩ := listFrom_unclosed opened length (byteLength before)
    obtain ⟨stray, hkind, htext, hstray⟩ :=
      exists_stray (byteLength before + byteLength ('"' :: inner)) behind
    have width : byteLength ('"' :: inner) + byteLength ['\\'] =
        byteLength ('"' :: (inner ++ ['\\'])) := (byteLength_append ('"' :: inner) ['\\']).symm
    rw [Nat.add_assoc, width] at hstray
    refine ⟨by rw [hfirst], ?_, front, [stray], ?_, by simp [hkind, htext]⟩
    · rw [hfirst]
      exact List.forall_mem_cons.mpr ⟨rfl, fun c hc => inLine c (by simp [hc])⟩
    · rw [hlist, hfollow, hstray]
      rfl

/-- A literal that is not closed within its line ends with its line, just if no quote further down
closes it and it does not go on behind an escaped carriage return. -/
theorem endsWithLine_iff (hsource : source = before ++ '"' :: (line ++ behind))
    (hl : l ∈ ofText source) (start : l.span.start = byteLength before)
    (inLine : ∀ c ∈ line, breaksLine c = false) (ends : ∀ c ∈ behind.head?, breaksLine c = true)
    (unclosed : ¬ Closed ('"' :: line)) : EndsWithLine source line behind l ↔
      ¬ Closed ('"' :: (line ++ behind)) ∧ ¬ (Dangles line ∧ behind.head? = some '\r') := by
  constructor
  · intro h
    obtain ⟨rfl, -⟩ := exists_quoted hsource hl start
    have cut := cutOff_first (byteLength before) '"' (line ++ behind)
    constructor
    · intro closed
      cases (first_closed closed).symm.trans h.kind
    · rintro ⟨dangles, hreturn⟩
      obtain ⟨inner, hinner, rfl⟩ := dangles_iff.mp dangles
      obtain ⟨more, rfl⟩ : ∃ more, behind = '\r' :: more := List.head?_eq_some_iff.mp hreturn
      have escaped : inner ++ ['\\', '\r'] ∈ body plainInLine :=
        body_append hinner (body_escape (by decide) body_nil)
      have reach : '"' :: (inner ++ ['\\', '\r']) <+:
          '"' :: ((inner ++ ['\\']) ++ '\r' :: more) := ⟨more, by simp⟩
      have far := (cut.token _ h.kind).2 .unterminatedString _
        (Token.mem_unterminated.mpr ⟨_, escaped, rfl⟩) reach
      have inside := List.prefix_of_prefix_length_le reach cut.front far
      have broken := h.inLine '\r' (inside.subset (by simp))
      cases broken
  · rintro ⟨opened, feed⟩
    exact endsWithLine_of_open hsource hl start inLine ends unclosed (not_closed_iff.mp opened) feed

/-- A literal that ends with its line, in front of an escaped line feed. -/
theorem endsWithLine_iff_feed :
    let source := "[\"a\\\n]".toList
    (∀ c ∈ ['a', '\\'], breaksLine c = false) ∧ ¬ Closed ['"', 'a', '\\'] ∧
      ∃ l ∈ ofText source, l.span.start = 1 ∧ EndsWithLine source ['a', '\\'] ['\n', ']'] l := by
  intro source
  have inLine : ∀ c ∈ ['a', '\\'], breaksLine c = false := by simp [breaksLine]
  have ends : ∀ c ∈ ['\n', ']'].head?, breaksLine c = true := by simp [breaksLine]
  have unclosed : ¬ Closed ['"', 'a', '\\'] := not_closed_iff.mpr rfl
  have opened : ¬ Closed ['"', 'a', '\\', '\n', ']'] := not_closed_iff.mpr rfl
  have mem : (⟨some .unterminatedString, ['"', 'a'], ⟨1, 3⟩⟩ : Lexeme (Option Token)) ∈
      ofText source := by decide +kernel
  refine ⟨inLine, unclosed, _, mem, rfl, ?_⟩
  have hsource : source = ['['] ++ '"' :: (['a', '\\'] ++ ['\n', ']']) := rfl
  refine (endsWithLine_iff hsource mem rfl inLine ends unclosed).mpr ?_
  exact ⟨opened, fun h => by cases h.2⟩

/-- A quote in the next line closes a literal, and what is a literal there is cut in two; and a
literal goes on behind an escaped carriage return. Neither literal is closed within its line. -/
theorem unclosed_runs_on :
    let quoted := "\"a\n\"b\"".toList
    let returned := "\"a\\\r1".toList
    let first : Lexeme (Option Token) := ⟨some .string, ['"', 'a', '\n', '"'], ⟨0, 4⟩⟩
    let only : Lexeme (Option Token) := ⟨some .unterminatedString, returned, ⟨0, 5⟩⟩
    (¬ Closed ['"', 'a'] ∧ ¬ EndsWithLine quoted ['a'] ['\n', '"', 'b', '"'] first ∧
        ofText quoted = [first, ⟨none, ['b'], ⟨4, 5⟩⟩, ⟨some .unterminatedString, ['"'], ⟨5, 6⟩⟩]) ∧
      ¬ Closed ['"', 'a', '\\'] ∧ ¬ EndsWithLine returned ['a', '\\'] ['\r', '1'] only ∧
        ofText returned = [only] := by
  intro quoted returned first only
  refine ⟨⟨not_closed_iff.mpr rfl, ?_, by decide +kernel⟩, not_closed_iff.mpr rfl, ?_,
    by decide +kernel⟩
  · intro h
    cases h.kind
  · intro h
    cases h.inLine '\r' (by decide)

end Unclosed

end TemplateLint.Lexeme
