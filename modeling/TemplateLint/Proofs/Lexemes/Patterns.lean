import Mathlib.Computability.Language
import Mathlib.Data.Char
import Mathlib.Order.Interval.Set.Basic
import TemplateLint.Proofs.Grammar.Lexing

/-!
# Patterns of tokens

Every token is declared by a regular expression, read here as a language: union,
concatenation and repetition of classes of characters. The two forms of string
literals share their escapes and differ in the characters that may stand for
themselves. Where a text begins with what belongs to a pattern, the lengths that
lexemes are cut by say how far it can reach.
-/

namespace TemplateLint

open scoped Computability

/-! ## Patterns -/

namespace Pattern

/-- One character of a class. -/
def one (chars : Set Char) : Language Char := {cs | ∃ c ∈ chars, cs = [c]}

def blank : Set Char := {' ', '\t', '\r', '\n'}

def digit : Set Char := Set.Icc '0' '9'

def word : Set Char :=
  Set.Icc '0' '9' ∪ Set.Icc 'A' 'Z' ∪ Set.Icc 'a' 'z' ∪ {'_', '.', '+', '-'}

/-- What may stand for itself in a literal with both its quotes. -/
def plain : Set Char := {'"', '\\'}ᶜ

/-- What may stand for itself in a literal without a closing quote. -/
def plainInLine : Set Char := {'"', '\\', '\r', '\n'}ᶜ

/-- A backslash, and any character but a line feed. -/
def escape : Language Char := one {'\\'} * one {'\n'}ᶜ

/-- What stands behind the opening quote of a literal. -/
def body (plain : Set Char) : Language Char := (one plain + escape)∗

end Pattern

open Pattern in
/-- How a token may be written. -/
def Token.pattern : Token → Language Char
  | .whitespace => one blank * (one blank)∗
  | .openBrace => {['\x7b']}
  | .closeBrace => {['\x7d']}
  | .openBracket => {['[']}
  | .closeBracket => {[']']}
  | .colon => {[':']}
  | .comma => {[',']}
  | .string => one {'"'} * body plain * one {'"'}
  | .unterminatedString => one {'"'} * body plainInLine
  | .number => (1 + one {'-'}) * one digit * (one word)∗
  | .trueWord => {['t', 'r', 'u', 'e']}
  | .falseWord => {['f', 'a', 'l', 's', 'e']}
  | .nullWord => {['n', 'u', 'l', 'l']}

namespace Pattern

/-! ## Classes -/

theorem mem_one_mul {chars : Set Char} {l : Language Char} {cs : List Char} :
    cs ∈ one chars * l ↔ ∃ c ∈ chars, ∃ rest ∈ l, cs = c :: rest := by
  rw [Language.mem_mul]
  constructor
  · rintro ⟨_, ⟨c, hc, rfl⟩, rest, hrest, rfl⟩
    exact ⟨c, hc, rest, hrest, rfl⟩
  · rintro ⟨c, hc, rest, hrest, rfl⟩
    exact ⟨[c], ⟨c, hc, rfl⟩, rest, hrest, rfl⟩

theorem mem_mul_one {chars : Set Char} {l : Language Char} {cs : List Char} :
    cs ∈ l * one chars ↔ ∃ front ∈ l, ∃ c ∈ chars, cs = front ++ [c] := by
  rw [Language.mem_mul]
  constructor
  · rintro ⟨front, hfront, _, ⟨c, hc, rfl⟩, rfl⟩
    exact ⟨front, hfront, c, hc, rfl⟩
  · rintro ⟨front, hfront, c, hc, rfl⟩
    exact ⟨front, hfront, [c], ⟨c, hc, rfl⟩, rfl⟩

theorem mem_one_kstar {chars : Set Char} {cs : List Char} :
    cs ∈ (one chars)∗ ↔ ∀ c ∈ cs, c ∈ chars := by
  constructor
  · intro h
    obtain ⟨parts, rfl, single⟩ := Language.mem_kstar.mp h
    intro c hc
    obtain ⟨part, hpart, hcpart⟩ := List.mem_flatten.mp hc
    obtain ⟨d, hd, rfl⟩ := single part hpart
    exact List.mem_singleton.mp hcpart ▸ hd
  · intro h
    refine Language.mem_kstar.mpr ⟨cs.map fun c => [c], ?_, ?_⟩
    · rw [← List.flatMap_def, List.flatMap_singleton']
    · rintro part hpart
      obtain ⟨c, hc, rfl⟩ := List.mem_map.mp hpart
      exact ⟨c, h c hc, rfl⟩

theorem mem_blank {c : Char} : c ∈ blank ↔ Lexeme.isBlank c = true := by
  simp [blank, Lexeme.isBlank, or_assoc]

theorem mem_digit {c : Char} : c ∈ digit ↔ c.isDigit = true := by
  simp only [digit, Set.mem_Icc, Char.isDigit, Bool.and_eq_true, decide_eq_true_eq]
  exact Iff.rfl

theorem mem_word {c : Char} : c ∈ word ↔ Lexeme.isWordChar c = true := by
  have upper : c.isUpper = true ↔ c ∈ Set.Icc 'A' 'Z' := decide_eq_true_iff
  have lower : c.isLower = true ↔ c ∈ Set.Icc 'a' 'z' :=
    Bool.and_eq_true_iff.trans (and_congr decide_eq_true_iff decide_eq_true_iff)
  have figure : c.isDigit = true ↔ c ∈ Set.Icc '0' '9' := mem_digit.symm
  have letter : c.isAlphanum = ((c.isUpper || c.isLower) || c.isDigit) := rfl
  simp only [word, Lexeme.isWordChar, letter, Bool.or_eq_true, beq_iff_eq, Set.mem_union,
    Set.mem_insert_iff, Set.mem_singleton_iff, upper, lower, figure]
  grind

/-! ## Literals -/

section Body

variable {own : Set Char} {cs rest : List Char}

theorem body_nil : [] ∈ body own := Language.nil_mem_kstar _

theorem body_append (h : cs ∈ body own) (hrest : rest ∈ body own) : cs ++ rest ∈ body own :=
  (kstar_mul_kstar (one own + escape)).le (Language.append_mem_mul h hrest)

theorem body_part (h : cs ∈ one own + escape) : cs ∈ body own :=
  (le_kstar : one own + escape ≤ body own) h

theorem body_cons {c : Char} (hc : c ∈ own) (h : cs ∈ body own) : c :: cs ∈ body own :=
  body_append (body_part (Or.inl ⟨c, hc, rfl⟩)) h

theorem body_escape {d : Char} (hd : d ≠ '\n') (h : cs ∈ body own) :
    '\\' :: d :: cs ∈ body own := by
  have pair : ['\\', d] ∈ escape := mem_one_mul.mpr ⟨'\\', rfl, [d], ⟨d, hd, rfl⟩, rfl⟩
  exact body_append (body_part (Or.inr pair)) h

theorem body_induction {P : (cs : List Char) → cs ∈ body own → Prop} (nil : P [] body_nil)
    (cons : ∀ c (hc : c ∈ own) cs (h : cs ∈ body own), P cs h → P (c :: cs) (body_cons hc h))
    (escape : ∀ d (hd : d ≠ '\n') cs (h : cs ∈ body own), P cs h →
      P ('\\' :: d :: cs) (body_escape hd h))
    (h : cs ∈ body own) : P cs h := by
  obtain ⟨parts, rfl, good⟩ := Language.mem_kstar.mp h
  induction parts with
  | nil => exact nil
  | cons part parts ih =>
    obtain ⟨hpart, tailed⟩ := List.forall_mem_cons.mp good
    have tail : parts.flatten ∈ body own := Language.join_mem_kstar tailed
    rcases hpart with ⟨c, hc, rfl⟩ | hescape
    · exact cons c hc _ tail (ih tailed tail)
    · obtain ⟨_, rfl, _, ⟨d, hd, rfl⟩, rfl⟩ := mem_one_mul.mp hescape
      exact escape d hd _ tail (ih tailed tail)

theorem body_mono {other : Set Char} (sub : own ⊆ other) (h : cs ∈ body own) : cs ∈ body other := by
  induction h using body_induction with
  | nil => exact body_nil
  | cons c hc cs _ ih => exact body_cons (sub hc) ih
  | escape d hd cs _ ih => exact body_escape hd ih

theorem plainInLine_subset : plainInLine ⊆ plain := by
  intro c hc
  simp only [plainInLine, plain, Set.mem_compl_iff, Set.mem_insert_iff] at hc ⊢
  grind

theorem ne_backslash {c : Char} (alone : c = '\\' → rest = [] → False)
    (pair : ∀ d more, c = '\\' → rest = d :: more → False) : c ≠ '\\' := by
  intro hc
  cases rest with
  | nil => exact alone hc rfl
  | cons d more => exact pair d more hc rfl

/-- What may stand in a literal is passed over on the way to its closing quote. -/
theorem closedLength_append (h : cs ∈ body plain) (rest : List Char) :
    Lexeme.closedLength (cs ++ rest) = (Lexeme.closedLength rest).map (· + cs.length) := by
  induction h using body_induction with
  | nil => simp
  | cons c hc cs _ ih =>
    obtain ⟨hquote, hslash⟩ : c ≠ '"' ∧ c ≠ '\\' := by simpa [plain] using hc
    rw [List.cons_append, Lexeme.closedLength_plain hquote hslash, ih, Option.map_map]
    rfl
  | escape d hd cs _ ih =>
    rw [List.cons_append, List.cons_append, Lexeme.closedLength, if_neg hd, ih, Option.map_map]
    rfl

theorem closedLength_quote (rest : List Char) : Lexeme.closedLength ('"' :: rest) = some 1 := by
  cases rest <;> rfl

/-- A literal is closed by the first quote behind what may stand in it. -/
theorem exists_body_of_closedLength {n : Nat} (h : Lexeme.closedLength cs = some n) :
    ∃ front ∈ body plain, ∃ rest, cs = front ++ '"' :: rest ∧ n = front.length + 1 := by
  fun_induction Lexeme.closedLength cs generalizing n with
  | case1 => cases h
  | case2 rest =>
    cases h
    exact ⟨[], body_nil, rest, rfl, rfl⟩
  | case3 => cases h
  | case4 => cases h
  | case5 c rest hc ih =>
    obtain ⟨m, hm, rfl⟩ := Option.map_eq_some_iff.mp h
    obtain ⟨front, hfront, tail, rfl, rfl⟩ := ih hm
    exact ⟨'\\' :: c :: front, body_escape hc hfront, tail, rfl, rfl⟩
  | case6 c rest hquote hlone hpair ih =>
    obtain ⟨m, hm, rfl⟩ := Option.map_eq_some_iff.mp h
    obtain ⟨front, hfront, tail, rfl, rfl⟩ := ih hm
    have hslash := ne_backslash hlone hpair
    exact ⟨c :: front, body_cons (by simpa [plain] using ⟨hquote, hslash⟩) hfront, tail, rfl, rfl⟩

theorem openLength_cons {c : Char} (hc : c ∈ plainInLine) (rest : List Char) :
    Lexeme.openLength (c :: rest) = Lexeme.openLength rest + 1 := by
  simp only [plainInLine, Set.mem_compl_iff, Set.mem_insert_iff, Set.mem_singleton_iff,
    not_or] at hc
  cases rest <;> simp [Lexeme.openLength, hc]

/-- What may stand in a literal within its line is passed over on the way to where it ends. -/
theorem openLength_append (h : cs ∈ body plainInLine) (rest : List Char) :
    Lexeme.openLength (cs ++ rest) = Lexeme.openLength rest + cs.length := by
  induction h using body_induction with
  | nil => rfl
  | cons c hc cs _ ih =>
    rw [List.cons_append, openLength_cons hc, ih]
    rfl
  | escape d hd cs _ ih =>
    rw [List.cons_append, List.cons_append, Lexeme.openLength, if_neg hd, ih]
    rfl

/-- The part of a literal that stays within its line is one that may stand there. -/
theorem take_openLength (cs : List Char) :
    Lexeme.openLength cs ≤ cs.length ∧ cs.take (Lexeme.openLength cs) ∈ body plainInLine := by
  fun_induction Lexeme.openLength cs with
  | case1 => exact ⟨Nat.le_refl _, body_nil⟩
  | case2 => exact ⟨Nat.zero_le _, body_nil⟩
  | case3 => exact ⟨Nat.zero_le _, body_nil⟩
  | case4 c rest hc ih => exact ⟨by simpa using ih.1, body_escape hc ih.2⟩
  | case5 => exact ⟨Nat.zero_le _, body_nil⟩
  | case6 c rest hlone hpair hc ih =>
    have hslash := ne_backslash hlone hpair
    have hown : c ∈ plainInLine := by
      simp only [Bool.or_eq_true, decide_eq_true_eq, not_or] at hc
      simp [plainInLine, hc, hslash]
    exact ⟨by simpa using ih.1, body_cons hown ih.2⟩

end Body

end Pattern

/-! ## Spellings -/

namespace Token

open Pattern

variable {cs : List Char}

theorem mem_whitespace : cs ∈ whitespace.pattern ↔
    cs ≠ [] ∧ ∀ c ∈ cs, Lexeme.isBlank c = true := by
  constructor
  · intro h
    obtain ⟨c, hc, tail, htail, rfl⟩ := mem_one_mul.mp h
    refine ⟨List.cons_ne_nil c tail, List.forall_mem_cons.mpr ⟨mem_blank.mp hc, fun b hb => ?_⟩⟩
    exact mem_blank.mp (mem_one_kstar.mp htail b hb)
  · rintro ⟨hne, blanks⟩
    obtain ⟨c, tail, rfl⟩ := List.exists_cons_of_ne_nil hne
    obtain ⟨hc, htail⟩ := List.forall_mem_cons.mp blanks
    have tailed : tail ∈ (one blank)∗ := mem_one_kstar.mpr fun b hb => mem_blank.mpr (htail b hb)
    exact mem_one_mul.mpr ⟨c, mem_blank.mpr hc, tail, tailed, rfl⟩

theorem mem_string : cs ∈ string.pattern ↔ ∃ inner ∈ body plain, cs = '"' :: (inner ++ ['"']) := by
  constructor
  · intro h
    obtain ⟨front, hfront, _, rfl, rfl⟩ := mem_mul_one.mp h
    obtain ⟨_, rfl, inner, hinner, rfl⟩ := mem_one_mul.mp hfront
    exact ⟨inner, hinner, rfl⟩
  · rintro ⟨inner, hinner, rfl⟩
    have opened : '"' :: inner ∈ one {'"'} * body plain :=
      mem_one_mul.mpr ⟨'"', rfl, inner, hinner, rfl⟩
    exact mem_mul_one.mpr ⟨'"' :: inner, opened, '"', rfl, rfl⟩

theorem mem_unterminated : cs ∈ unterminatedString.pattern ↔
    ∃ inner ∈ body plainInLine, cs = '"' :: inner := by
  constructor
  · intro h
    obtain ⟨_, rfl, inner, hinner, rfl⟩ := mem_one_mul.mp h
    exact ⟨inner, hinner, rfl⟩
  · rintro ⟨inner, hinner, rfl⟩
    exact mem_one_mul.mpr ⟨'"', rfl, inner, hinner, rfl⟩

theorem mem_number : cs ∈ number.pattern ↔ ∃ d tail, d.isDigit = true ∧
    (∀ c ∈ tail, Lexeme.isWordChar c = true) ∧ (cs = d :: tail ∨ cs = '-' :: d :: tail) := by
  have unsigned : ∀ {ds : List Char}, ds ∈ one digit * (one Pattern.word)∗ ↔ ∃ d tail,
      d.isDigit = true ∧ (∀ c ∈ tail, Lexeme.isWordChar c = true) ∧ ds = d :: tail := by
    intro ds
    simp only [mem_one_mul, mem_one_kstar, mem_digit, mem_word]
    constructor
    · rintro ⟨d, hd, tail, htail, rfl⟩
      exact ⟨d, tail, hd, htail, rfl⟩
    · rintro ⟨d, tail, hd, htail, rfl⟩
      exact ⟨d, hd, tail, htail, rfl⟩
  have signed : number.pattern = (1 + one {'-'}) * (one digit * (one Pattern.word)∗) :=
    mul_assoc _ _ _
  rw [signed, add_mul, one_mul, Language.mem_add, unsigned, mem_one_mul]
  constructor
  · rintro (⟨d, tail, hd, htail, rfl⟩ | ⟨_, rfl, _, h, rfl⟩)
    · exact ⟨d, tail, hd, htail, Or.inl rfl⟩
    · obtain ⟨d, tail, hd, htail, rfl⟩ := unsigned.mp h
      exact ⟨d, tail, hd, htail, Or.inr rfl⟩
  · rintro ⟨d, tail, hd, htail, rfl | rfl⟩
    · exact Or.inl ⟨d, tail, hd, htail, rfl⟩
    · exact Or.inr ⟨'-', rfl, d :: tail, unsigned.mpr ⟨d, tail, hd, htail, rfl⟩, rfl⟩

theorem pattern_of_fixed {t : Token} {text : List Char} (h : t.fixed? = some text) :
    t.pattern = {text} := by
  cases t <;> cases h <;> rfl

end Token

end TemplateLint
