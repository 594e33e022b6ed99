import TemplateLint.Span

/-!
# Diagnostics

A diagnostic is what a reader of a template is told: a severity, an optional
rule, a message and labelled spans. The first label is the primary one and
gives the diagnostic its location. The counts of a list of diagnostics decide
whether a check fails.
-/

namespace TemplateLint

inductive Severity where
  | error
  | warning
  | information
  | hint
deriving DecidableEq

namespace Severity

def name : Severity → String
  | error => "error"
  | warning => "warning"
  | information => "information"
  | hint => "hint"

/-- The word under which a report shows the severity. -/
def heading : Severity → String
  | error => "error"
  | warning => "warning"
  | information => "note"
  | hint => "help"

end Severity

/-- A label with an empty text merely highlights its span. -/
structure Label where
  text : String
  span : Span
deriving DecidableEq

structure Diagnostic where
  severity : Severity
  rule : Option String
  message : String
  labels : List Label
deriving DecidableEq

namespace Diagnostic

def ofSeverity (severity : Severity) (message : String) : Diagnostic :=
  ⟨severity, none, message, []⟩

def withRule (rule : String) (d : Diagnostic) : Diagnostic := { d with rule := some rule }

def withLabel (text : String) (span : Span) (d : Diagnostic) : Diagnostic :=
  { d with labels := d.labels ++ [⟨text, span⟩] }

def withHighlight (span : Span) (d : Diagnostic) : Diagnostic := d.withLabel "" span

/-- The span of the primary label. -/
def location (d : Diagnostic) : Option Span := d.labels.head?.map Label.span

/-- The place shown for a diagnostic without labels: past the end of any source. -/
def beyondSource : Span := ⟨.pow 2 64 - 2, .pow 2 64 - 1⟩

/-- The labels of a report, where every diagnostic has a primary one. -/
def reportLabels (d : Diagnostic) : List Label :=
  if d.labels.isEmpty then [⟨"", beyondSource⟩] else d.labels

end Diagnostic

structure Counts where
  errors : Nat
  warnings : Nat
  information : Nat
  hints : Nat
deriving DecidableEq

namespace Counts

def ofDiagnostics (ds : List Diagnostic) : Counts where
  errors := ds.countP (·.severity = .error)
  warnings := ds.countP (·.severity = .warning)
  information := ds.countP (·.severity = .information)
  hints := ds.countP (·.severity = .hint)

def plural (n : Nat) (noun : String) : String :=
  toString n ++ " " ++ noun ++ (if n = 1 then "" else "s")

/-- The reason to fail a check that found errors. -/
def errorFailure (c : Counts) : Option String :=
  if c.errors = 0 then none else some ("failing due to " ++ plural c.errors "error")

/-- The reason to fail a check that found warnings; it names the option that asked for it. -/
def warningFailure (c : Counts) (requested : Bool) : Option String :=
  if c.warnings = 0 then none
  else some ("failing due to " ++ plural c.warnings "warning" ++
    (if requested then " (`--deny-warnings` was specified)" else ""))

theorem warningFailure_eq_none_iff (c : Counts) (requested : Bool) :
    c.warningFailure requested = none ↔ c.warnings = 0 := by
  unfold warningFailure
  split <;> simp_all

end Counts

end TemplateLint
