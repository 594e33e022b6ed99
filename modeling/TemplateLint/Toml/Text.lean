import TemplateLint.Text.Escape

/-!
# Texts and keys of TOML

Blanks, line breaks and comments, texts in quotes of four kinds, and keys. Each
reader takes its thing off the front of a text and gives what is left.
-/

namespace TemplateLint.Toml

/-! ## Blanks -/

def isSpace (c : Char) : Bool := c == ' ' || c == '\t'

def skipSpaces (cs : List Char) : List Char := cs.dropWhile isSpace

/-- Whether a character may stand in a comment or, quotes apart, in a text on one line. -/
def isPrintable (c : Char) : Bool := c == '\t' || (0x20 ≤ c.toNat && c.toNat != 0x7F)

/-- The text from the next line on, if nothing but a comment is left of this one. -/
def endLine (cs : List Char) : Option (List Char) :=
  let rest := skipSpaces cs
  let rest := if rest.head? = some '#' then rest.dropWhile isPrintable else rest
  match rest with
  | [] => some []
  | '\n' :: rest => some rest
  | '\r' :: '\n' :: rest => some rest
  | _ => none

/-- Skips blanks and up to a number of line breaks, each with a comment in front or without. -/
def skipSomeLines (count : Nat) (cs : List Char) : List Char :=
  match count with
  | 0 => cs
  | count + 1 =>
    match skipSpaces cs with
    | [] => []
    | c :: rest =>
      if c = '\n' || c = '\r' || c = '#' then
        match endLine (c :: rest) with
        | some rest => skipSomeLines count rest
        | none => c :: rest
      else c :: rest

/-- Skips blanks, line breaks and comments. -/
def skipLines (cs : List Char) : List Char := skipSomeLines cs.length cs

/-! ## Texts -/

def namedEscape? : Char → Option Char
  | 'b' => some '\x08'
  | 't' => some '\t'
  | 'n' => some '\n'
  | 'f' => some '\x0c'
  | 'r' => some '\r'
  | 'e' => some '\x1b'
  | '"' => some '"'
  | '\\' => some '\\'
  | _ => none

/-- A text in double quotes, from behind the first. The first `skip` characters belong to an
escape. -/
def basic (skip : Nat) : List Char → Option (List Char × List Char)
  | [] => none
  | c :: rest =>
    match skip with
    | k + 1 => basic k rest
    | 0 =>
      if c = '"' then some ([], rest)
      else if c = '\\' then do
        let (d, n) ← Text.escape? namedEscape? rest
        let (text, rest) ← basic n rest
        return (d :: text, rest)
      else if isPrintable c then do
        let (text, rest) ← basic 0 rest
        return (c :: text, rest)
      else none

/-- A text in single quotes, in which every character stands for itself. -/
def literal : List Char → Option (List Char × List Char)
  | [] => none
  | c :: rest =>
    if c = '\'' then some ([], rest)
    else if isPrintable c then (literal rest).map fun (text, rest) => (c :: text, rest)
    else none

/-- How many characters blanks and line breaks take up. -/
def gapLength : List Char → Nat
  | [] => 0
  | '\r' :: '\n' :: rest => gapLength rest + 2
  | c :: rest => if isSpace c || c == '\n' then gapLength rest + 1 else 0

/-- Whether a backslash stands at the end of its line: how many blanks and breaks it takes away. -/
def continuation? (cs : List Char) : Option Nat :=
  match skipSpaces cs with
  | '\n' :: _ | '\r' :: '\n' :: _ => some (gapLength cs)
  | _ => none

/-- A text in three quotes of a kind, over several lines; up to two quotes may stand before its
end. -/
def multiline (mark : Char) (skip : Nat) : List Char → Option (List Char × List Char)
  | [] => none
  | c :: rest =>
    match skip with
    | k + 1 => multiline mark k rest
    | 0 =>
      if c = mark && rest.take 2 = [mark, mark] then
        let extra := min 2 ((rest.drop 2).takeWhile (· == mark)).length
        some (List.replicate extra mark, rest.drop (2 + extra))
      else if c = '\\' && mark = '"' then
        match continuation? rest with
        | some n => multiline mark n rest
        | none => do
          let (d, n) ← Text.escape? namedEscape? rest
          let (text, rest) ← multiline mark n rest
          return (d :: text, rest)
      else if isPrintable c || c = '\n' || (c = '\r' && rest.head? = some '\n') then do
        let (text, rest) ← multiline mark 0 rest
        return (c :: text, rest)
      else none

/-- A line break right behind the opening quotes does not belong to the text. -/
def dropBreak : List Char → List Char
  | '\n' :: rest => rest
  | '\r' :: '\n' :: rest => rest
  | cs => cs

def text? : List Char → Option (String × List Char)
  | '"' :: '"' :: '"' :: rest => (multiline '"' 0 (dropBreak rest)).map fun (t, r) => (.ofList t, r)
  | '\'' :: '\'' :: '\'' :: rest =>
    (multiline '\'' 0 (dropBreak rest)).map fun (t, r) => (.ofList t, r)
  | '"' :: rest => (basic 0 rest).map fun (t, r) => (.ofList t, r)
  | '\'' :: rest => (literal rest).map fun (t, r) => (.ofList t, r)
  | _ => none

/-! ## Keys -/

def isBare (c : Char) : Bool := c.isAlphanum || c == '_' || c == '-'

/-- One part of a key, bare or quoted. -/
def keyPart? (cs : List Char) : Option (String × List Char) :=
  match cs with
  | '"' :: rest => (basic 0 rest).map fun (t, r) => (.ofList t, r)
  | '\'' :: rest => (literal rest).map fun (t, r) => (.ofList t, r)
  | _ =>
    let name := cs.takeWhile isBare
    if name.isEmpty then none else some (.ofList name, cs.dropWhile isBare)

/-- How many parts a key may have, and how many arrays and tables may stand within each other. -/
def maxDepth : Nat := 80

/-- A key, whose parts points divide, and the text behind it and its blanks. It has no more than
`room` parts. -/
def keyWithin? (room : Nat) (cs : List Char) : Option (List String × List Char) :=
  match room with
  | 0 => none
  | room + 1 => do
    let (name, rest) ← keyPart? (skipSpaces cs)
    match skipSpaces rest with
    | '.' :: rest => do
      let (names, rest) ← keyWithin? room rest
      return (name :: names, rest)
    | rest => return ([name], rest)

def key? (cs : List Char) : Option (List String × List Char) := keyWithin? maxDepth cs

end TemplateLint.Toml
