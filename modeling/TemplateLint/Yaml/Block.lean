import TemplateLint.Yaml.Gap
import TemplateLint.Yaml.Glyph

/-!
# Block scalars

A block scalar is a run of rows that share an indentation. Behind a bar its rows
are kept as they are; behind an angle bracket the break between two rows is
folded, unless one of them begins with a blank. A mark says what becomes of the
breaks at its end, and a digit how much further in its rows stand.
-/

namespace TemplateLint.Yaml

/-- What becomes of the breaks behind the last row. -/
inductive Chomping where
  | strip
  | clip
  | keep

/-- A row, and the breaks behind it: its own and those of empty lines. -/
structure Row where
  text : List Char
  breaks : List Char

namespace Row

def isIndented (r : Row) : Bool := r.text.head?.any isBlank

def joinLiteral : List Row → List Char
  | [] => []
  | [r] => r.text
  | r :: rest => r.text ++ r.breaks ++ joinLiteral rest

def joinFolded : List Row → List Char
  | [] => []
  | [r] => r.text
  | r :: next :: rest =>
    let breaks := if r.isIndented || next.isIndented then r.breaks else Gap.foldBreaks r.breaks
    r.text ++ breaks ++ joinFolded (next :: rest)

end Row

def Chomping.tail : Chomping → List Char → List Char
  | strip, _ => []
  | clip, breaks => breaks.take 1
  | keep, breaks => breaks

/-- The text of a block, where `before` are the breaks in front of its first row. -/
def blockText (isLiteral : Bool) (chomping : Chomping) (before : List Char) (rows : List Row) :
    List Char :=
  match rows.getLast? with
  | none =>
    match chomping with
    | .keep => before
    | _ => []
  | some last =>
    before ++ (if isLiteral then Row.joinLiteral rows else Row.joinFolded rows) ++
      chomping.tail last.breaks

example : blockText false .clip [] [⟨['a'], ['\n']⟩, ⟨['b'], ['\n', '\n']⟩] =
    ['a', ' ', 'b', '\n'] := by decide

/-! ## Reading -/

def chomping? (cs : List Glyph) : Option (Chomping × List Glyph) :=
  match cs with
  | [] => none
  | g :: rest =>
    if g.char = '+' then some (.keep, rest)
    else if g.char = '-' then some (.strip, rest)
    else none

def digit? (cs : List Glyph) : Option (Nat × List Glyph) :=
  match cs with
  | [] => none
  | g :: rest => if g.char.isDigit then some (g.char.toNat - '0'.toNat, rest) else none

/-- The marks in front of a block, in either order, and the text from the next line on. -/
def blockHeader? (cs : List Glyph) : Option (Chomping × Option Nat × List Glyph) := do
  let (early, rest) := ((chomping? cs).map fun (c, rest) => (some c, rest)).getD (none, cs)
  let (digit, rest) := ((digit? rest).map fun (d, rest) => (some d, rest)).getD (none, rest)
  let (late, rest) := ((chomping? rest).map fun (c, rest) => (some c, rest)).getD (none, rest)
  if digit = some 0 ∨ (early.isSome ∧ late.isSome) then none
  let rest := rest.dropWhile Glyph.isBlank
  let rest := if rest.head?.any (·.char == '#') then rest.dropWhile (!·.isBreak) else rest
  if !rest.head?.all Glyph.isBreak then none
  return ((early.or late).getD .clip, digit, rest.drop 1)

/-- Passes over empty lines and indentation up to a column, if there is one. The answer holds the
breaks, and the greatest column that a line was indented to. -/
def skipIndentation (limit : Option Nat) (deepest : Nat) (breaks : List Char) :
    List Glyph → Option (Nat × List Char × List Glyph)
  | [] => some (deepest, breaks.reverse, [])
  | g :: rest =>
    let isInside := limit.all (g.column < ·)
    if g.char = ' ' && isInside then skipIndentation limit deepest breaks rest
    else if g.char = '\t' && isInside then none
    else
      let deepest := max deepest g.column
      if g.isBreak then skipIndentation limit deepest (g.char :: breaks) rest
      else some (deepest, breaks.reverse, g :: rest)

/-- The rows at a column, and what follows them: `text` and `breaks` are what has been read of the
row at hand, the latest first. -/
def rows? (column : Nat) (text breaks : List Char) :
    List Glyph → Option (List Row × List Glyph)
  | [] => some ([⟨text.reverse, breaks.reverse⟩], [])
  | g :: rest =>
    if g.isBreak then rows? column text (g.char :: breaks) rest
    else if breaks.isEmpty then rows? column (g.char :: text) [] rest
    else if column ≤ g.column then do
      let (rows, rest) ← rows? column [g.char] [] rest
      return (⟨text.reverse, breaks.reverse⟩ :: rows, rest)
    else if g.char = ' ' then rows? column text breaks rest
    else if g.char = '\t' then none
    else some ([⟨text.reverse, breaks.reverse⟩], g :: rest)

/-- The text of a block scalar from behind its first mark, and what follows it. The form around it,
if there is one, stands at a column. -/
def block? (isLiteral : Bool) (outer : Option Nat) (cs : List Glyph) :
    Option (List Char × List Glyph) := do
  let (chomping, digit, rest) ← blockHeader? cs
  let limit := digit.map (outer.getD 0 + ·)
  let (deepest, before, rest) ← skipIndentation limit 0 [] rest
  let column := limit.getD (max deepest (max 1 ((outer.map (· + 1)).getD 0)))
  match rest with
  | [] => return (blockText isLiteral chomping before [], [])
  | g :: more =>
    if g.column < column then return (blockText isLiteral chomping before [], g :: more)
    else
      let (rows, rest) ← rows? column [g.char] [] more
      return (blockText isLiteral chomping before rows, rest)

end TemplateLint.Yaml
