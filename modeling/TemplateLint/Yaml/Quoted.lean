import TemplateLint.Text.Escape
import TemplateLint.Yaml.Gap
import TemplateLint.Yaml.Glyph

/-!
# Quoted scalars

In single quotes a quote is written twice. In double quotes a backslash begins
an escape, and in front of a line break it takes the break away. No mark of a
document may stand within a quoted scalar.
-/

namespace TemplateLint.Yaml

def namedEscape? : Char → Option Char
  | '0' => some '\x00'
  | 'a' => some '\x07'
  | 'b' => some '\x08'
  | 't' => some '\t'
  | '\t' => some '\t'
  | 'n' => some '\n'
  | 'v' => some '\x0b'
  | 'f' => some '\x0c'
  | 'r' => some '\r'
  | 'e' => some '\x1b'
  | ' ' => some ' '
  | '"' => some '"'
  | '/' => some '/'
  | '\\' => some '\\'
  | 'N' => some '\u0085'
  | '_' => some '\u00a0'
  | 'L' => some '\u2028'
  | 'P' => some '\u2029'
  | _ => none

/-- What comes next within a scalar: its end, or a character, or nothing where a break is escaped;
with it, how many glyphs behind the first one belong to it. -/
inductive Stroke where
  | close
  | char (c : Char) (more : Nat)
  | escapedBreak

/-- Reads a glyph that is no blank and no break. -/
def stroke? (mark : Char) (g : Glyph) (rest : List Glyph) : Option Stroke :=
  if g.char = mark then
    if mark = '\'' && rest.head?.any (·.char == mark) then some (.char mark 1) else some .close
  else if g.char = '\\' && mark = '"' then
    if rest.head?.any Glyph.isBreak then some .escapedBreak
    else (Text.escape? namedEscape? ((rest.take 9).map Glyph.char)).map fun (c, n) => .char c n
  else some (.char g.char 0)

/-- The text of a quoted scalar from behind a gap on, and what follows its second mark. The first
`skip` glyphs belong to what came before. -/
def quoted (mark : Char) (gap : Gap) (skip : Nat) : List Glyph → Option (List Char × List Glyph)
  | [] => none
  | g :: rest =>
    match skip with
    | k + 1 => quoted mark gap k rest
    | 0 =>
      if g.isBlank then quoted mark (gap.addBlank g.char) 0 rest
      else if g.isBreak then quoted mark (gap.addBreak g.char) 0 rest
      else if atDocumentMark (g :: rest) then none
      else do
        match ← stroke? mark g rest with
        | .close => return (gap.text, rest)
        | .char c more =>
          let (text, rest) ← quoted mark .empty more rest
          return (gap.text ++ c :: text, rest)
        | .escapedBreak =>
          let (text, rest) ← quoted mark (.breaks none []) 1 rest
          return (gap.text ++ text, rest)

/-- The text of a quoted scalar from behind its first mark on. -/
def quoted? (mark : Char) (cs : List Glyph) : Option (List Char × List Glyph) :=
  quoted mark .empty 0 cs

end TemplateLint.Yaml
