/-!
# Glyphs

A glyph is a character together with the place where it stands, which YAML
looks at: the line, the column that indentation counts, and the bytes that tell
how long a key is. A text becomes glyphs once its line breaks are made alike.
-/

namespace TemplateLint.Yaml

structure Glyph where
  char : Char
  line : Nat
  column : Nat
  /-- The bytes of its line in front of it. -/
  offset : Nat
deriving DecidableEq

def isBreak (c : Char) : Bool := c == '\n' || c == '\u2028' || c == '\u2029'

def isBlank (c : Char) : Bool := c == ' ' || c == '\t'

/-- Whether a character may stand in a text at all. -/
def isAllowed (c : Char) : Bool :=
  c == '\t' || c == '\n' || c == '\r' || c == '\u0085' || (0x20 ≤ c.toNat && c.toNat ≤ 0x7E) ||
    (0xA0 ≤ c.toNat && c.toNat != 0xFFFE && c.toNat != 0xFFFF)

/-- Line breaks of every kind are line feeds, but for the separators of lines and paragraphs, which
stay what they are. -/
def normalizeBreaks : List Char → List Char
  | [] => []
  | '\r' :: '\n' :: rest => '\n' :: normalizeBreaks rest
  | '\r' :: rest => '\n' :: normalizeBreaks rest
  | '\u0085' :: rest => '\n' :: normalizeBreaks rest
  | c :: rest => c :: normalizeBreaks rest

namespace Glyph

def isBreak (g : Glyph) : Bool := Yaml.isBreak g.char

def isBlank (g : Glyph) : Bool := Yaml.isBlank g.char

/-- The glyphs of a text that begins at a place. -/
def place (line column offset : Nat) : List Char → List Glyph
  | [] => []
  | c :: rest =>
    ⟨c, line, column, offset⟩ :: if Yaml.isBreak c then place (line + 1) 0 0 rest
      else place line (column + 1) (offset + c.utf8Size) rest

/-- The glyphs of a text. -/
def ofText? (text : List Char) : Option (List Glyph) :=
  if text.all isAllowed then some (place 0 0 0 (normalizeBreaks text)) else none

end Glyph

/-- Whether a blank, a break or the end of the text comes next. -/
def atGap : List Glyph → Bool
  | [] => true
  | g :: _ => g.isBlank || g.isBreak

/-- Whether a line begins here with a mark of three like characters, which nothing runs into. -/
def atMark (c : Char) : List Glyph → Bool
  | g :: h :: i :: rest =>
    g.column == 0 && g.char == c && h.char == c && i.char == c && atGap rest
  | _ => false

/-- Whether a document begins or ends here by its mark. -/
def atDocumentMark (cs : List Glyph) : Bool := atMark '-' cs || atMark '.' cs

/-- Passes over blanks, breaks and comments, and tells whether a key may stand behind them.
Outside flow forms a key may begin on every new line, and no tab may stand where one may. A byte
order mark in front of a line is passed over as well, and takes up a column. -/
def skipGap (inFlow keyAllowed inComment : Bool) : List Glyph → Bool × List Glyph
  | [] => (keyAllowed, [])
  | g :: rest =>
    if g.isBreak then skipGap inFlow (keyAllowed || !inFlow) false rest
    else if inComment || g.char == '#' then skipGap inFlow keyAllowed true rest
    else if g.char == ' ' || (g.char == '\t' && (inFlow || !keyAllowed)) ||
        (g.char == '\uFEFF' && g.column == 0) then skipGap inFlow keyAllowed false rest
    else (keyAllowed, g :: rest)

end TemplateLint.Yaml
