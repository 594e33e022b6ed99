import TemplateLint.Diagnostic
import TemplateLint.Lexeme

/-!
# Reports

How diagnostics are written for a person, in a layout of this library's own. The
short form has one line for each diagnostic, with the place where its primary
label begins. The full form has a line for the diagnostic and one for each
label; it does not quote the source lines or draw marks under them, as the
reports of a terminal do. Lines and columns count from one, columns in
characters.
-/

namespace TemplateLint

inductive ReportMode where
  | full
  | oneLine
deriving DecidableEq

namespace ReportMode

def name : ReportMode → String
  | full => "full"
  | oneLine => "one-line"

def all : List ReportMode := [full, oneLine]

def ofName? (name : String) : Option ReportMode := all.find? (·.name = name)

end ReportMode

namespace Report

structure Position where
  line : Nat
  column : Nat
deriving DecidableEq

/-- The position at a byte offset behind a position in a text. -/
def positionFrom (p : Position) (offset : Nat) : List Char → Position
  | [] => p
  | c :: rest =>
    if offset < c.utf8Size then p
    else
      let next := if c = '\n' then ⟨p.line + 1, 1⟩ else ⟨p.line, p.column + 1⟩
      positionFrom next (offset - c.utf8Size) rest

def position (source : List Char) (offset : Nat) : Position := positionFrom ⟨1, 1⟩ offset source

def place (path : String) (source : List Char) (span : Span) : String :=
  let p := position source span.start
  path ++ ":" ++ toString p.line ++ ":" ++ toString p.column

def heading (d : Diagnostic) : String :=
  let rule :=
    match d.rule with
    | some rule => "[" ++ rule ++ "]"
    | none => ""
  d.severity.heading ++ rule ++ ": " ++ d.message

def labelLine (path : String) (source : List Char) (l : Label) : String :=
  let text := if l.text.isEmpty then "" else ": " ++ l.text
  "  at " ++ place path source l.span ++ text ++ "\n"

def short (path : String) (source : List Char) (d : Diagnostic) : String :=
  let start := (d.reportLabels.head?.map fun l => place path source l.span ++ ": ").getD ""
  start ++ heading d ++ "\n"

def full (path : String) (source : List Char) (d : Diagnostic) : String :=
  heading d ++ "\n" ++ String.join (d.reportLabels.map (labelLine path source))

def render (mode : ReportMode) (path : String) (source : List Char) (ds : List Diagnostic) :
    String :=
  String.join (ds.map (match mode with
    | .full => full path source
    | .oneLine => short path source))

end Report

example : Report.position "é\nab".toList 4 = ⟨2, 2⟩ := by decide

end TemplateLint
