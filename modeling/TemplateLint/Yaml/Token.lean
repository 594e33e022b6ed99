import TemplateLint.Yaml.Block
import TemplateLint.Yaml.Plain
import TemplateLint.Yaml.Quoted

/-!
# Tokens of YAML

A text is a sequence of tokens. Block forms have no marks of their own, so their
beginnings and ends come from columns; and that something is a key shows only at
the colon behind it. A reading therefore keeps the columns of the block forms
that it stands in, and for every flow form the token that may turn out a key.
-/

namespace TemplateLint.Yaml

inductive Token where
  | documentStart
  | documentEnd
  | scalar (text : List Char) (isPlain : Bool)
  | listStart
  | listEnd
  | mapStart
  | mapEnd
  | comma
  | blockList
  | blockMap
  /-- The end of a list or a map in block form. -/
  | blockEnd
  | item
  | key
  | value
deriving DecidableEq

/-- Where a token stands that may be a key. -/
structure Candidate where
  glyph : Glyph
  /-- How many tokens are in front of it. -/
  number : Nat
  /-- Whether nothing but a key may stand here. -/
  isRequired : Bool

namespace Candidate

/-- How many bytes a key may have with the blanks behind it. -/
def maxSize : Nat := 1024

/-- Whether the colon of a key would come too late, on a later line or too far behind. -/
def isPassed (k : Candidate) (g : Glyph) : Bool :=
  decide (k.glyph.line < g.line) || decide (k.glyph.offset + maxSize < g.offset)

/-- Gives up what cannot be a key any more, unless it has to be one. -/
def recheck (g : Glyph) : Option Candidate → Option (Option Candidate)
  | none => some none
  | some k => if !k.isPassed g then some (some k) else if k.isRequired then none else some none

end Candidate

/-- A text that has been read in part. -/
structure Scan where
  tokens : Array Token
  /-- The columns of the block forms around, the innermost first. -/
  columns : List Nat
  candidate : Option Candidate
  /-- The candidates outside each flow form around, the innermost first. -/
  outer : List (Option Candidate)
  /-- Whether a key may stand next. -/
  keyAllowed : Bool

namespace Scan

def start : Scan := ⟨#[], [], none, [], true⟩

def inFlow (s : Scan) : Bool := !s.outer.isEmpty

/-- The least column that stands further in than the innermost block form. -/
def least (s : Scan) : Nat := (s.columns.head?.map (· + 1)).getD 0

def push (s : Scan) (t : Token) : Scan := { s with tokens := s.tokens.push t }

def allowKey (s : Scan) (allowed : Bool) : Scan := { s with keyAllowed := allowed }

/-- Ends the innermost block forms at columns of a kind. -/
def closeBlocks (s : Scan) (isClosed : Nat → Bool) : Scan :=
  if s.inFlow then s
  else
    let ends := (s.columns.takeWhile isClosed).map fun _ => Token.blockEnd
    { s with tokens := s.tokens ++ ends, columns := s.columns.dropWhile isClosed }

/-- Begins a block form if a column stands further in than the one around. Its token comes behind
the first `number` ones. -/
def openBlock (s : Scan) (t : Token) (column number : Nat) : Scan :=
  if s.inFlow || decide (column < s.least) then s
  else
    { s with tokens := s.tokens.insertIdxIfInBounds number t, columns := column :: s.columns }

def dropCandidate (s : Scan) : Option Scan :=
  if s.candidate.any (·.isRequired) then none else some { s with candidate := none }

/-- Takes what begins here for a key, if one may stand here. -/
def addCandidate (s : Scan) (g : Glyph) : Option Scan :=
  if s.keyAllowed then do
    let isRequired := !s.inFlow && s.columns.head? == some g.column
    let k : Candidate := ⟨g, s.tokens.size, isRequired⟩
    return { ← s.dropCandidate with candidate := some k }
  else some s

def recheck (s : Scan) (g : Glyph) : Option Scan := do
  let candidate ← Candidate.recheck g s.candidate
  let outer ← s.outer.mapM (Candidate.recheck g)
  return { s with candidate := candidate, outer := outer }

/-! ## Single tokens -/

def documentMark (s : Scan) (t : Token) : Option Scan := do
  return ((← (s.closeBlocks fun _ => true).dropCandidate).push t).allowKey false

def openFlow (s : Scan) (g : Glyph) (t : Token) : Option Scan := do
  let s ← s.addCandidate g
  return { s.push t with outer := s.candidate :: s.outer, candidate := none, keyAllowed := true }

def closeFlow (s : Scan) (t : Token) : Option Scan := do
  let s ← s.dropCandidate
  return { s.push t with
    candidate := s.outer.head?.join, outer := s.outer.drop 1, keyAllowed := false }

def comma (s : Scan) : Option Scan := do
  return ((← s.dropCandidate).push .comma).allowKey true

/-- A dash in front of an item. What does not belong into a flow form is left to whoever takes the
tokens. -/
def item (s : Scan) (g : Glyph) : Option Scan := do
  if !s.inFlow && !s.keyAllowed then none
  let s := s.openBlock .blockList g.column s.tokens.size
  return ((← s.dropCandidate).push .item).allowKey true

/-- A question mark in front of a key. -/
def explicitKey (s : Scan) (g : Glyph) : Option Scan := do
  if !s.inFlow && !s.keyAllowed then none
  let s := s.openBlock .blockMap g.column s.tokens.size
  return ((← s.dropCandidate).push .key).allowKey !s.inFlow

/-- A colon in front of a value. -/
def value (s : Scan) (g : Glyph) : Option Scan :=
  match s.candidate with
  | some k =>
    let s := { s with
      tokens := s.tokens.insertIdxIfInBounds k.number .key, candidate := none, keyAllowed := false }
    some ((s.openBlock .blockMap k.glyph.column k.number).push .value)
  | none =>
    if !s.inFlow && !s.keyAllowed then none
    else some (((s.openBlock .blockMap g.column s.tokens.size).push .value).allowKey !s.inFlow)

def quotedScalar (s : Scan) (g : Glyph) (rest : List Glyph) : Option (Scan × List Glyph) := do
  let s ← s.addCandidate g
  let (text, rest) ← quoted? g.char rest
  return ((s.push (.scalar text false)).allowKey false, rest)

def plainScalar (s : Scan) (g : Glyph) (rest : List Glyph) : Option (Scan × List Glyph) := do
  let s ← s.addCandidate g
  let (text, broken, rest) ← plain s.inFlow s.least .empty (g :: rest)
  return ((s.push (.scalar text true)).allowKey broken, rest)

def blockScalar (s : Scan) (g : Glyph) (rest : List Glyph) : Option (Scan × List Glyph) := do
  let s ← s.dropCandidate
  let (text, rest) ← block? (g.char = '|') s.columns.head? rest
  return ((s.push (.scalar text false)).allowKey true, rest)

/-! ## Texts -/

/-- Reads the token that begins with a glyph, and gives what follows it. -/
def next? (s : Scan) (g : Glyph) (rest : List Glyph) : Option (Scan × List Glyph) :=
  let alone := s.inFlow || atGap rest
  if atMark '-' (g :: rest) then (s.documentMark .documentStart).map (·, rest.drop 2)
  else if atMark '.' (g :: rest) then (s.documentMark .documentEnd).map (·, rest.drop 2)
  else if g.char = '[' then (s.openFlow g .listStart).map (·, rest)
  else if g.char = ']' then (s.closeFlow .listEnd).map (·, rest)
  else if g.char = '\x7b' then (s.openFlow g .mapStart).map (·, rest)
  else if g.char = '\x7d' then (s.closeFlow .mapEnd).map (·, rest)
  else if g.char = ',' then s.comma.map (·, rest)
  else if g.char = '-' && atGap rest then (s.item g).map (·, rest)
  else if g.char = '?' && alone then (s.explicitKey g).map (·, rest)
  else if g.char = ':' && alone then (s.value g).map (·, rest)
  else if (g.char = '|' || g.char = '>') && !s.inFlow then s.blockScalar g rest
  else if g.char = '\'' || g.char = '"' then s.quotedScalar g rest
  else if beginsPlain s.inFlow g rest then s.plainScalar g rest
  else none

def finish (s : Scan) : Option (List Token) := do
  return (← (s.closeBlocks fun _ => true).dropCandidate).tokens.toList

/-- Reads the tokens of what is left of a text. Each takes a glyph or more. -/
def run (fuel : Nat) (s : Scan) (cs : List Glyph) : Option (List Token) :=
  match fuel with
  | 0 => none
  | fuel + 1 =>
    match skipGap s.inFlow s.keyAllowed false cs with
    | (_, []) => s.finish
    | (keyAllowed, g :: rest) => do
      let s ← (s.allowKey keyAllowed).recheck g
      let (s, rest) ← (s.closeBlocks fun column => decide (g.column < column)).next? g rest
      s.run fuel rest

end Scan

/-- The tokens of a text. -/
def tokens? (text : List Char) : Option (List Token) := do
  let cs ← Glyph.ofText? text
  Scan.start.run (cs.length + 1) cs

example : tokens? "a: [b]\n".toList = some
    [.blockMap, .key, .scalar ['a'] true, .value, .listStart, .scalar ['b'] true, .listEnd,
      .blockEnd] := by decide +kernel

end TemplateLint.Yaml
