import TemplateLint.Check

/-!
# Command line

The program has one command, which checks a template. A file of settings may
be named in front of the command or behind it, where the name behind it goes
first. The program ends with 0 when all is well, with 1 after a failure and
with 2 when its arguments cannot be used.
-/

namespace TemplateLint

/-- How the program ends. -/
structure Outcome where
  status : Nat
  output : String
  errors : String
deriving DecidableEq

namespace CommandLine

open Arguments (Choice Grammar Given)

def programName : String := "template-lint"

def versionText : String := programName ++ " 0.1.0\n"

def checkName : String := "check"

def settingsName : String := "config"

def verboseName : String := "verbose"

def quietName : String := "quiet"

/-- The options that may stand in front of the command and behind it. -/
def sharedChoices : List Choice :=
  [⟨settingsName, some 'c', .value CheckArguments.pathFault?⟩, ⟨verboseName, some 'v', .counter⟩,
    ⟨quietName, some 'q', .counter⟩]

def grammar : Grammar := ⟨sharedChoices ++ CheckArguments.standardChoices, [], [checkName]⟩

def usageText : String :=
  "Checks templates against a schema and reports diagnostics.\n\n" ++
    "Usage: " ++ programName ++ " [OPTIONS] check [OPTIONS] --schema <SCHEMA> <TEMPLATE>\n\n" ++
    "Options:\n" ++
    "  -s, --schema <SCHEMA>       The schema (JSON or YAML) to check the template against\n" ++
    "      --document-type <TYPE>  The type of the template, not the one that shows in it\n" ++
    "      --no-globals            Ignore the globals of the template\n" ++
    "      --skip-resources        Do not check resources against the definition of their type\n" ++
    "      --deny-warnings         Fail if there are warnings\n" ++
    "      --hide-hints            Hide hints\n" ++
    "      --no-color              Do not color the report\n" ++
    "  -m, --report-mode <MODE>    The report mode: full, one-line\n" ++
    "  -c, --config <FILE>         The path of a settings file\n" ++
    "  -v, --verbose...            Log more\n" ++
    "  -q, --quiet...              Log less\n" ++
    "  -h, --help                  Print help\n" ++
    "  -V, --version               Print version\n"

def usageMessage : UsageFault → String
  | .unknownArgument => "unexpected argument found"
  | .invalidValue => "a value is missing or not possible"
  | .refusedValue => "a value cannot be read"
  | .conflict => "an argument cannot be used again or beside another"
  | .unexpectedValue => "a value stands where none is expected"
  | .missingArgument => "a required argument was not provided"
  | .unknownCommand => "unknown command"
  | .missingCommand => "a command is required"

def interrupted : Interruption → Outcome
  | .help => ⟨0, usageText, ""⟩
  | .version => ⟨0, versionText, ""⟩
  | .usage fault => ⟨2, "", "error: " ++ usageMessage fault ++ "\n"⟩

/-! ## Reading the arguments -/

/-- What the program is asked to do. -/
structure Task where
  settingsPath : Option String
  check : CheckArguments

/-- Asking for more and for less of the log at once is refused. -/
def refuseNoise (g : Given) : Except Interruption Unit :=
  if g.flag verboseName && g.flag quietName then .error (.usage .conflict) else .ok ()

def task (words : List String) : Except Interruption Task := do
  let above ← Arguments.parse grammar words
  match above.command with
  | none => .error (.usage .missingCommand)
  | some (_, rest) =>
    let given ← Arguments.parse (CheckArguments.grammar sharedChoices) rest
    refuseNoise given
    let check ← CheckArguments.ofGiven given
    refuseNoise above
    return ⟨(given.value? settingsName).or (above.value? settingsName), check⟩

/-! ## Running -/

def failed (report : String) (f : Failure) : Outcome := ⟨1, "", report ++ f.report⟩

/-- The report on a check, and the failure that follows from it. -/
def conclude (a : CheckArguments) (r : CheckResult) : Outcome :=
  let mode := a.settings.reportMode.getD .full
  let report := Report.render mode a.template r.source.toList r.diagnostics
  match Check.failure? a.settings r.diagnostics with
  | some f => failed report f
  | none => ⟨0, "", report⟩

variable {m : Type → Type} [Monad m]

/-- The settings of the file that is named, or the default settings. -/
def settings (read : Check.Reader m) : Option String → m (Except Failure Settings)
  | some path => Check.settings read path
  | none => return .ok .default

def perform (read : Check.Reader m) (t : Task) : m Outcome := do
  match ← settings read t.settingsPath with
  | .error f => return failed "" f
  | .ok s =>
    let a := t.check.withSettings s
    match ← Check.run read a with
    | .error f => return failed "" f
    | .ok r => return conclude a r

def run (read : Check.Reader m) (words : List String) : m Outcome :=
  match task words with
  | .error i => return interrupted i
  | .ok t => perform read t

end CommandLine

end TemplateLint
