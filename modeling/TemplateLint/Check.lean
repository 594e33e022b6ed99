import TemplateLint.Analysis
import TemplateLint.Check.Arguments
import TemplateLint.Schema.Decoding
import TemplateLint.Schema.Yaml

/-!
# Checks

A check reads a template and a schema, and diagnoses the template: first what
is wrong with its text, then what is wrong with it under the schema. It fails
if a file cannot be used, if errors have been found, or if warnings have been
found that are denied. How files are read is left to the caller.
-/

namespace TemplateLint

/-- Why there is no text of a file. -/
inductive ReadFault where
  | missing
  | directory
  | notText
  | other (reason : String)
deriving DecidableEq

def ReadFault.message : ReadFault → String
  | missing => "No such file or directory (os error 2)"
  | directory => "Is a directory (os error 21)"
  | notText => "stream did not contain valid UTF-8"
  | other reason => reason

/-- Why a command fails. -/
inductive Failure where
  | unreadableSettings (path : String) (fault : ReadFault)
  | malformedSettings (path : String)
  | unreadableTemplate (path : String) (fault : ReadFault)
  | unreadableSchema (path : String) (fault : ReadFault)
  | malformedSchema (path : String) (reason : String)
  /-- The diagnostics of a check make it fail. -/
  | diagnosed (reason : String)
deriving DecidableEq

namespace Failure

def message : Failure → String
  | unreadableSettings path _ => "failed to read config file `" ++ path ++ "`"
  | malformedSettings path => "failed to parse config file `" ++ path ++ "`"
  | unreadableTemplate path _ => "failed to read template `" ++ path ++ "`"
  | unreadableSchema path _ => "failed to read schema `" ++ path ++ "`"
  | malformedSchema path _ => "failed to parse schema `" ++ path ++ "`"
  | diagnosed reason => reason

/-- What lies behind a failure. -/
def cause? : Failure → Option String
  | unreadableSettings _ fault => some fault.message
  | malformedSettings _ => some "malformed settings"
  | unreadableTemplate _ fault => some fault.message
  | unreadableSchema _ fault => some fault.message
  | malformedSchema _ reason => some reason
  | diagnosed _ => none

/-- The failure and its cause for a person to read. -/
def report (f : Failure) : String :=
  let cause :=
    match f.cause? with
    | some cause => "\n\nCaused by:\n    " ++ cause
    | none => ""
  "error: " ++ f.message ++ cause ++ "\n"

end Failure

structure CheckResult where
  source : String
  diagnostics : List Diagnostic

namespace Check

/-! ## Schemas of files -/

/-- What stands behind the last point of a file's name, unless nothing stands in front of it. -/
def extension? (path : String) : Option String :=
  let name := (path.toList.reverse.takeWhile (· != '/'))
  match name.dropWhile (· != '.') with
  | [] | [_] => none
  | _ => some (.ofList (name.takeWhile (· != '.')).reverse)

/-- Schemas are written in YAML where the name of the file says so, and in JSON elsewhere. -/
def isYaml (path : String) : Bool :=
  (extension? path).any fun e => ["yaml", "yml"].contains (e.map Char.toLower)

def schemaOf (path text : String) : Except Failure ResolvedSchema :=
  if isYaml path then
    match Schema.ofYamlText? text.toList with
    | some s => .ok ⟨s, []⟩
    | none => .error (.malformedSchema path "malformed schema")
  else
    match Schema.ofJsonText text.toList with
    | .ok s => .ok ⟨s, []⟩
    | .error fault => .error (.malformedSchema path fault.message)

/-! ## Diagnosis -/

/-- What is wrong with a template: with its text, and under a schema. -/
def diagnose (o : Options) (schema : ResolvedSchema) (source : String) : List Diagnostic :=
  let (d, faults) := Document.parse source.toList
  faults ++ (d.analyze o (some schema)).2.map Problem.diagnostic

/-- The diagnostics that are shown. -/
def shown (s : CheckSettings) (ds : List Diagnostic) : List Diagnostic :=
  if s.hideHints then ds.filter (·.severity != .hint) else ds

def result (a : CheckArguments) (schema : ResolvedSchema) (source : String) : CheckResult :=
  ⟨source, shown a.settings (diagnose a.options schema source)⟩

/-- Why the diagnostics of a check make it fail, if they do. -/
def failure? (s : CheckSettings) (ds : List Diagnostic) : Option Failure :=
  let counts := Counts.ofDiagnostics ds
  let denied := if s.denyWarnings then counts.warningFailure true else none
  (counts.errorFailure.or denied).map .diagnosed

/-! ## Files -/

variable {m : Type → Type} [Monad m]

/-- How the text of a file is found. -/
abbrev Reader (m : Type → Type) := String → m (Except ReadFault String)

def settings (read : Reader m) (path : String) : m (Except Failure Settings) := do
  match ← read path with
  | .error fault => return .error (.unreadableSettings path fault)
  | .ok text =>
    match Settings.ofText? text.toList with
    | some s => return .ok s
    | none => return .error (.malformedSettings path)

def run (read : Reader m) (a : CheckArguments) : m (Except Failure CheckResult) := do
  match ← read a.template with
  | .error fault => return .error (.unreadableTemplate a.template fault)
  | .ok source =>
    match ← read a.schema with
    | .error fault => return .error (.unreadableSchema a.schema fault)
    | .ok text => return (schemaOf a.schema text).map fun schema => result a schema source

end Check

example : Check.isYaml "a.json/b.YML" = true := by decide +kernel
example : Check.isYaml "schemas/.yaml" = false := by decide +kernel

end TemplateLint
