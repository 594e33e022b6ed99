import TemplateLint.Yaml.Gap
import TemplateLint.Yaml.Glyph

/-!
# Plain scalars

A plain scalar runs up to a comment, to a colon that sets off a value, or to a
mark of the flow form that it stands in. It goes on in further lines as long as
these are indented enough.
-/

namespace TemplateLint.Yaml

def isFlowMark (c : Char) : Bool := c == ',' || c == '[' || c == ']' || c == '\x7b' || c == '\x7d'

/-- Characters that cannot begin a plain scalar. -/
def isIndicator (c : Char) : Bool := isFlowMark c || "#&*!|>'\"%@`".toList.contains c

def beginsPlain (inFlow : Bool) (g : Glyph) (rest : List Glyph) : Bool :=
  if g.char == '-' then !atGap rest
  else if g.char == '?' || g.char == ':' then !inFlow && !atGap rest
  else !(g.isBlank || isIndicator g.char)

/-- Whether a plain scalar that has come to a gap ends behind it. -/
def endsBehindGap (inFlow : Bool) (least : Nat) (g : Glyph) (rest : List Glyph) : Bool :=
  (!inFlow && g.column < least) || atDocumentMark (g :: rest) || g.char == '#'

/-- Whether a plain scalar ends in front of a glyph. -/
def endsBefore (inFlow : Bool) (g : Glyph) (rest : List Glyph) : Bool :=
  (g.char == ':' && atGap rest) || (inFlow && isFlowMark g.char)

/-- Whether a colon within a flow form runs into a mark, which leaves open what it means. -/
def isCrowded (inFlow : Bool) (g : Glyph) (rest : List Glyph) : Bool :=
  inFlow && g.char == ':' && rest.head?.any fun h => isFlowMark h.char || h.char == '?'

/-- The text of a plain scalar from behind a gap on, whether a line break follows it, and what
follows then. Further lines are indented by `least` columns or more, and not by tabs. -/
def plain (inFlow : Bool) (least : Nat) (gap : Gap) :
    List Glyph → Option (List Char × Bool × List Glyph)
  | [] => some ([], gap.hasBreak, [])
  | g :: rest =>
    if g.isBlank then
      if gap.hasBreak && g.char == '\t' && g.column < least then none
      else plain inFlow least (gap.addBlank g.char) rest
    else if g.isBreak then plain inFlow least (gap.addBreak g.char) rest
    else if !gap.isEmpty && endsBehindGap inFlow least g rest then
      some ([], gap.hasBreak, g :: rest)
    else if isCrowded inFlow g rest then none
    else if endsBefore inFlow g rest then some ([], gap.hasBreak, g :: rest)
    else do
      let (text, broken, rest) ← plain inFlow least .empty rest
      return (gap.text ++ g.char :: text, broken, rest)

end TemplateLint.Yaml
