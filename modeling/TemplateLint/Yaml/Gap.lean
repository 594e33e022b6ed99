/-!
# Gaps

A gap is what stands between two words of a scalar that may run over several
lines. Blanks on one line stand for themselves; around a line break they are
dropped. A single line feed stands for a blank, and of several the first is
dropped.
-/

namespace TemplateLint.Yaml

inductive Gap where
  /-- Blanks on one line, the latest first. -/
  | blanks (cs : List Char)
  /-- A break, or `none` if it is escaped, and further breaks, the latest first. -/
  | breaks (first : Option Char) (further : List Char)

namespace Gap

def empty : Gap := .blanks []

def isEmpty : Gap → Bool
  | .blanks cs => cs.isEmpty
  | .breaks _ _ => false

def hasBreak : Gap → Bool
  | .blanks _ => false
  | .breaks _ _ => true

def addBlank (c : Char) : Gap → Gap
  | .blanks cs => .blanks (c :: cs)
  | .breaks first further => .breaks first further

def addBreak (c : Char) : Gap → Gap
  | .blanks _ => .breaks (some c) []
  | .breaks first further => .breaks first (c :: further)

/-- What line feeds and other breaks in a row stand for. -/
def foldBreaks : List Char → List Char
  | [] => []
  | c :: further =>
    if c ≠ '\n' then c :: further
    else if further.isEmpty then [' '] else further

def text : Gap → List Char
  | .blanks cs => cs.reverse
  | .breaks none further => further.reverse
  | .breaks (some c) further => foldBreaks (c :: further.reverse)

example : ((((blanks []).addBlank ' ').addBreak '\n').addBlank ' ').text = [' '] := by decide
example : (((blanks []).addBreak '\n').addBreak '\n').text = ['\n'] := by decide

end Gap

end TemplateLint.Yaml
