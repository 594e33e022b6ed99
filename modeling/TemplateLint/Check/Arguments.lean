import TemplateLint.Arguments
import TemplateLint.Settings

/-!
# Arguments of a check

A check is given a template and a schema, and flags that sharpen the settings.
Settings that are stated in a file are put below the arguments: a flag is set
if either sets it, and the report mode of the arguments goes first.
-/

namespace TemplateLint

structure CheckArguments where
  template : String
  schema : String
  /-- The type that the template is taken to have. -/
  documentType : Option DocumentType
  noGlobals : Bool
  skipResources : Bool
  settings : CheckSettings
  /-- The options that a settings file states. -/
  analysis : Options

/-- Settings put above others. -/
def CheckSettings.over (above below : CheckSettings) : CheckSettings where
  denyWarnings := above.denyWarnings || below.denyWarnings
  hideHints := above.hideHints || below.hideHints
  noColor := above.noColor || below.noColor
  reportMode := above.reportMode.or below.reportMode

namespace CheckArguments

open Arguments (Choice Positional Grammar Given)

/-! ## Reading -/

/-- A path may be anything but the empty text. -/
def pathFault? (path : String) : Option UsageFault :=
  if path.isEmpty then some .invalidValue else none

def typeFault? (name : String) : Option UsageFault :=
  match DocumentType.parse name with
  | .ok _ => none
  | .error _ => some .refusedValue

def modeFault? (name : String) : Option UsageFault :=
  if (ReportMode.ofName? name).isSome then none else some .invalidValue

def templateName : String := "template"

def schemaName : String := "schema"

def documentTypeName : String := "document-type"

def reportModeName : String := "report-mode"

def noGlobalsName : String := "no-globals"

def skipResourcesName : String := "skip-resources"

def denyWarningsName : String := "deny-warnings"

def hideHintsName : String := "hide-hints"

def noColorName : String := "no-color"

/-- The options that every command has. -/
def standardChoices : List Choice := [⟨"help", some 'h', .help⟩, ⟨"version", some 'V', .version⟩]

def choices : List Choice :=
  [⟨schemaName, some 's', .value pathFault?⟩, ⟨documentTypeName, none, .value typeFault?⟩,
    ⟨noGlobalsName, none, .flag⟩, ⟨skipResourcesName, none, .flag⟩, ⟨denyWarningsName, none, .flag⟩,
    ⟨hideHintsName, none, .flag⟩, ⟨noColorName, none, .flag⟩,
    ⟨reportModeName, some 'm', .value modeFault?⟩]

/-- What a check may be given, with options that it shares with the commands above it. -/
def grammar (shared : List Choice) : Grammar :=
  ⟨choices ++ shared ++ standardChoices, [⟨templateName, pathFault?⟩], []⟩

def ofGiven (g : Given) : Except Interruption CheckArguments :=
  match g.value? templateName, g.value? schemaName with
  | some template, some schema =>
    .ok {
      template, schema
      documentType :=
        (g.value? documentTypeName).bind fun name => (DocumentType.parse name).toOption
      noGlobals := g.flag noGlobalsName
      skipResources := g.flag skipResourcesName
      settings := {
        denyWarnings := g.flag denyWarningsName
        hideHints := g.flag hideHintsName
        noColor := g.flag noColorName
        reportMode := (g.value? reportModeName).bind ReportMode.ofName? }
      analysis := .default }
  | _, _ => .error (.usage .missingArgument)

/-- Reads the arguments of a check that stands alone. -/
def parse (words : List String) : Except Interruption CheckArguments := do
  ofGiven (← Arguments.parse (grammar []) words)

/-! ## Settings below -/

/-- Puts settings below the arguments. -/
def withSettings (a : CheckArguments) (s : Settings) : CheckArguments :=
  { a with settings := a.settings.over s.check, analysis := s.analysis }

/-- The options of the analysis, where the arguments go before the settings. -/
def options (a : CheckArguments) : Options where
  applyGlobals := a.analysis.applyGlobals && !a.noGlobals
  documentType := a.documentType.or a.analysis.documentType
  validateResources := a.analysis.validateResources && !a.skipResources

end CheckArguments

example : (CheckArguments.parse ["t", "-ss", "--report-mode=full"]).toOption.map
    (·.settings.reportMode) = some (some .full) := by decide +kernel
example : (match CheckArguments.parse ["t", "-m", "none", "--other"] with
    | .ok _ => none
    | .error i => some i) = some (.usage .unknownArgument) := by decide +kernel

end TemplateLint
