import TemplateLint.Options
import TemplateLint.Report
import TemplateLint.Toml.Reading

/-!
# Settings

A settings file states, in one table each, how checks are run and what options
the analysis has. A table for checks may hold the known names only. The table
of options passes over what is not known. What a file does not state has its
default. The main definitions read settings from a text and write them.
-/

namespace TemplateLint

structure CheckSettings where
  /-- Whether warnings make a check fail. -/
  denyWarnings : Bool
  hideHints : Bool
  noColor : Bool
  reportMode : Option ReportMode
deriving DecidableEq

structure Settings where
  check : CheckSettings
  analysis : Options
deriving DecidableEq

namespace CheckSettings

def default : CheckSettings := ⟨false, false, false, none⟩

inductive Field where
  | denyWarnings
  | hideHints
  | noColor
  | reportMode
deriving DecidableEq

namespace Field

def name : Field → String
  | denyWarnings => "deny_warnings"
  | hideHints => "hide_hints"
  | noColor => "no_color"
  | reportMode => "report_mode"

def all : List Field := [denyWarnings, hideHints, noColor, reportMode]

def ofName? (name : String) : Option Field := all.find? (·.name = name)

end Field

end CheckSettings

namespace Toml

def boolean? : Toml → Option Bool
  | .boolean b => some b
  | _ => none

/-- The name that a value gives: a text, or the only key of a table if nothing stands beside it. -/
def choice? (allowsArray : Bool) : Toml → Option String
  | .string name => some name
  | .table [(name, .table [])] => some name
  | .table [(name, .array [])] => if allowsArray then some name else none
  | _ => none

end Toml

namespace Settings

def default : Settings := ⟨.default, .default⟩

/-! ## Reading -/

def setCheckField (s : CheckSettings) (field : CheckSettings.Field) (value : Toml) :
    Option CheckSettings :=
  match field with
  | .denyWarnings => value.boolean?.map fun b => { s with denyWarnings := b }
  | .hideHints => value.boolean?.map fun b => { s with hideHints := b }
  | .noColor => value.boolean?.map fun b => { s with noColor := b }
  | .reportMode =>
    ((value.choice? true).bind ReportMode.ofName?).map fun m => { s with reportMode := some m }

/-- Reads the table for checks, or a list of its values in the order of the fields. -/
def check? : Toml → Option CheckSettings
  | .table members =>
    members.foldlM (fun s (name, value) => do
      setCheckField s (← CheckSettings.Field.ofName? name) value) .default
  | .array items =>
    (CheckSettings.Field.all.zip items).foldlM (fun s (field, value) => setCheckField s field value)
      .default
  | _ => none

def setOption (o : Options) (field : Options.Field) (value : Toml) : Option Options :=
  match field with
  | .applyGlobals => value.boolean?.map fun b => { o with applyGlobals := b }
  | .documentType =>
    ((value.choice? false).bind DocumentType.ofName?).map fun t => { o with documentType := some t }
  | .validateResources => value.boolean?.map fun b => { o with validateResources := b }

/-- Reads the table of options. Unknown members are passed over, a number without a value is not. -/
def analysis? : Toml → Option Options
  | .table members =>
    if Toml.membersAreComplete members then
      members.foldlM (fun o (name, value) =>
        match Options.Field.ofName? name with
        | some field => setOption o field value
        | none => some o) .default
    else none
  | _ => none

/-- The names of the tables of a settings file. -/
def checkName : String := "check"

def analysisName : String := "analysis"

def setTable (s : Settings) (name : String) (value : Toml) : Option Settings :=
  if name = checkName then (check? value).map fun c => { s with check := c }
  else if name = analysisName then (analysis? value).map fun o => { s with analysis := o }
  else none

/-- Reads the text of a settings file. -/
def ofText? (text : List Char) : Option Settings := do
  (← Toml.ofText? text).foldlM (fun s (name, value) => setTable s name value) .default

/-! ## Writing -/

def line (name value : String) : String := name ++ " = " ++ value ++ "\n"

def textLine (name value : String) : String := line name ("\"" ++ value ++ "\"")

def booleanLine (name : String) (value : Bool) : String := line name (toString value)

def header (name : String) : String := "[" ++ name ++ "]\n"

def checkText (s : CheckSettings) : String :=
  header checkName ++ booleanLine CheckSettings.Field.denyWarnings.name s.denyWarnings ++
    booleanLine CheckSettings.Field.hideHints.name s.hideHints ++
    booleanLine CheckSettings.Field.noColor.name s.noColor ++
    (match s.reportMode with
      | some mode => textLine CheckSettings.Field.reportMode.name mode.name
      | none => "")

def analysisText (o : Options) : String :=
  header analysisName ++ booleanLine Options.Field.applyGlobals.name o.applyGlobals ++
    (match o.documentType with
      | some type => textLine Options.Field.documentType.name type.name
      | none => "") ++
    booleanLine Options.Field.validateResources.name o.validateResources

def toText (s : Settings) : String := checkText s.check ++ "\n" ++ analysisText s.analysis

end Settings

example : Settings.ofText? Settings.default.toText.toList = some Settings.default := by
  decide +kernel
example : Settings.ofText? "[check]\ndeny_notes = true".toList = none := by decide +kernel

end TemplateLint
