import TemplateLint.Span

/-!
# Lexemes

A template's text is cut into lexemes: tokens of JSON, runs of white space and
stretches that belong to no token. Each lexeme is the longest one that starts
where the previous one ended, so together they are the whole text.
-/

namespace TemplateLint

inductive Token where
  | whitespace
  | openBrace
  | closeBrace
  | openBracket
  | closeBracket
  | colon
  | comma
  /-- A string literal with both its quotes; it may run over several lines. -/
  | string
  /-- A string literal without a closing quote, up to the end of its line. -/
  | unterminatedString
  /-- A number, or what looks like one: `1.2.3` and `12abc` are single tokens. -/
  | number
  | trueWord
  | falseWord
  | nullWord
deriving DecidableEq

/-- How messages call a token. -/
def Token.describe : Token → String
  | .whitespace => "whitespace"
  | .openBrace => "`\x7b`"
  | .closeBrace => "`\x7d`"
  | .openBracket => "`[`"
  | .closeBracket => "`]`"
  | .colon => "`:`"
  | .comma => "`,`"
  | .string | .unterminatedString => "string"
  | .number => "number"
  | .trueWord => "`true`"
  | .falseWord => "`false`"
  | .nullWord => "`null`"

/-- A stretch of the source, of some kind. -/
structure Lexeme (κ : Type) where
  kind : κ
  text : List Char
  span : Span
deriving DecidableEq

namespace Lexeme

def isBlank (c : Char) : Bool := c == ' ' || c == '\t' || c == '\r' || c == '\n'

def isWordChar (c : Char) : Bool :=
  c.isAlphanum || c == '_' || c == '.' || c == '+' || c == '-'

/-- The length of a string literal from behind its opening quote through the first quote that no
backslash escapes. A backslash escapes any character but a line feed. -/
def closedLength : List Char → Option Nat
  | [] => none
  | '"' :: _ => some 1
  | ['\\'] => none
  | '\\' :: c :: rest => if c = '\n' then none else (closedLength rest).map (· + 2)
  | _ :: rest => (closedLength rest).map (· + 1)

/-- The length of the part of a string literal that stays within its line. -/
def openLength : List Char → Nat
  | [] => 0
  | ['\\'] => 0
  | '\\' :: c :: rest => if c = '\n' then 0 else openLength rest + 2
  | c :: rest => if c = '"' || c = '\r' || c = '\n' then 0 else openLength rest + 1

/-- The length of what two texts begin with alike. -/
def commonLength : List Char → List Char → Nat
  | a :: as, b :: bs => if a = b then commonLength as bs + 1 else 0
  | _, _ => 0

/-- A keyword given by what follows its first letter. What falls short of it is no token. -/
def keyword (token : Token) (tail rest : List Char) : Option Token × Nat :=
  let n := commonLength tail rest
  (if n = tail.length then some token else none, n + 1)

def numberLength (rest : List Char) : Nat := (rest.takeWhile isWordChar).length

/-- The longest lexeme at the front of a text, as its token and its length in characters. -/
def longest (c : Char) (rest : List Char) : Option Token × Nat :=
  match c with
  | '\x7b' => (some .openBrace, 1)
  | '\x7d' => (some .closeBrace, 1)
  | '[' => (some .openBracket, 1)
  | ']' => (some .closeBracket, 1)
  | ':' => (some .colon, 1)
  | ',' => (some .comma, 1)
  | 't' => keyword .trueWord ['r', 'u', 'e'] rest
  | 'f' => keyword .falseWord ['a', 'l', 's', 'e'] rest
  | 'n' => keyword .nullWord ['u', 'l', 'l'] rest
  | '"' =>
    match closedLength rest with
    | some n => (some .string, n + 1)
    | none => (some .unterminatedString, openLength rest + 1)
  | '-' =>
    match rest with
    | d :: rest => if d.isDigit then (some .number, numberLength rest + 2) else (none, 1)
    | [] => (none, 1)
  | _ =>
    if isBlank c then (some .whitespace, (rest.takeWhile isBlank).length + 1)
    else if c.isDigit then (some .number, numberLength rest + 1)
    else (none, 1)

def byteLength (text : List Char) : Nat := text.foldr (fun c n => c.utf8Size + n) 0

/-- The lexemes of a text that begins at a byte offset, after as many characters as `pending`
says: those belong to a lexeme already found. -/
def listFrom (offset : Nat) (pending : Nat) : List Char → List (Lexeme (Option Token))
  | [] => []
  | c :: rest =>
    match pending with
    | k + 1 => listFrom (offset + c.utf8Size) k rest
    | 0 =>
      let (token, n) := longest c rest
      let text := (c :: rest).take n
      ⟨token, text, .ofLength offset (byteLength text)⟩ ::
        listFrom (offset + c.utf8Size) (n - 1) rest

/-- The lexemes of a text. Where no token starts, a lexeme has none. -/
def ofText (source : List Char) : List (Lexeme (Option Token)) := listFrom 0 0 source

/-- A lexeme that counts for the tree: a token other than white space. -/
def significant? (l : Lexeme (Option Token)) : Option (Lexeme Token) :=
  match l.kind with
  | none => none
  | some .whitespace => none
  | some token => some ⟨token, l.text, l.span⟩

theorem longest_pos (c : Char) (rest : List Char) : 0 < (longest c rest).2 := by
  unfold longest keyword
  grind

end Lexeme

example : (Lexeme.ofText "[tru]".toList).map (·.kind) =
    [some .openBracket, none, some .closeBracket] := by decide

end TemplateLint
