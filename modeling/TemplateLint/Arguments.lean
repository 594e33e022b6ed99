/-!
# Arguments

How the words behind the name of a command are read. An option has a long name
and maybe a letter; it stands alone or takes a value. A value is looked at only
when the next argument has been recognized, so that an unknown argument is
reported before a bad value in front of it.
-/

namespace TemplateLint

/-- Why arguments cannot be used. -/
inductive UsageFault where
  | unknownArgument
  /-- A value that is missing, or not one of those allowed. -/
  | invalidValue
  /-- A value that cannot be read. -/
  | refusedValue
  /-- An option that was given before, or beside one that excludes it. -/
  | conflict
  /-- A value for an option that takes none. -/
  | unexpectedValue
  | missingArgument
  | unknownCommand
  | missingCommand
deriving DecidableEq

/-- Why a command is not run: its arguments are at fault, or they ask for something else. -/
inductive Interruption where
  | usage (fault : UsageFault)
  | help
  | version
deriving DecidableEq

namespace Arguments

/-- What an option asks for. -/
inductive Action where
  /-- Stands alone, and at most once. -/
  | flag
  /-- Stands alone, any number of times. -/
  | counter
  /-- Takes a value, and stands at most once. A reader tells what is wrong with the value. -/
  | value (fault? : String → Option UsageFault)
  | help
  | version

structure Choice where
  name : String
  letter : Option Char
  action : Action

/-- A positional argument, with a reader that tells what is wrong with it. -/
structure Positional where
  name : String
  fault? : String → Option UsageFault

/-- The arguments that a command knows. -/
structure Grammar where
  choices : List Choice
  positionals : List Positional
  /-- The names of commands below this one. -/
  commands : List String

/-- What has been given: every name as often as it was given, with its value if it takes one. -/
structure Given where
  values : List (String × String)
  flags : List String
  /-- The command below this one, with the arguments that belong to it. -/
  command : Option (String × List String)

namespace Given

def nothing : Given := ⟨[], [], none⟩

def value? (g : Given) (name : String) : Option String := (g.values.find? (·.1 = name)).map (·.2)

def flag (g : Given) (name : String) : Bool := g.flags.contains name

end Given

/-- The option or positional argument that was recognized last, if its value is still to be looked
at. -/
structure Pending where
  name : String
  fault? : String → Option UsageFault
  value : Option String

structure State where
  given : Given
  pending : Option Pending
  /-- The positional arguments that are still open. -/
  remaining : List Positional

def usage {α : Type} (fault : UsageFault) : Except Interruption α := .error (.usage fault)

/-- Looks at the value that is pending. -/
def settle (s : State) : Except Interruption State :=
  match s.pending with
  | none => .ok s
  | some p =>
    match p.value with
    | none => usage .invalidValue
    | some v =>
      if (s.given.value? p.name).isSome then usage .conflict
      else
        match p.fault? v with
        | some fault => usage fault
        | none =>
          .ok { s with
            given := { s.given with values := s.given.values ++ [(p.name, v)] }
            pending := none }

/-- Whether the next argument is the value of the option in front of it. -/
def isAwaiting (s : State) : Bool := s.pending.any (·.value.isNone)

/-- Takes an option that stands alone. -/
def takeAlone (s : State) (c : Choice) : Except Interruption State := do
  let s ← settle s
  match c.action with
  | .help => .error .help
  | .version => .error .version
  | .flag =>
    if s.given.flag c.name then usage .conflict
    else return { s with given := { s.given with flags := s.given.flags ++ [c.name] } }
  | _ => return { s with given := { s.given with flags := s.given.flags ++ [c.name] } }

/-- Takes an option with a value, which may be attached to it. An attached value is looked at on
the spot. -/
def takeValue (s : State) (c : Choice) (fault? : String → Option UsageFault)
    (attached : Option String) : Except Interruption State := do
  let s ← settle s
  let s := { s with pending := some ⟨c.name, fault?, attached⟩ }
  if attached.isSome then settle s else return s

/-- Takes an option by its long name. -/
def takeLong (g : Grammar) (s : State) (word : List Char) : Except Interruption State :=
  let name := String.ofList (word.takeWhile (· != '='))
  let attached :=
    match word.dropWhile (· != '=') with
    | [] => none
    | _ :: value => some (String.ofList value)
  match g.choices.find? (·.name = name) with
  | none => usage .unknownArgument
  | some c =>
    match c.action with
    | .value fault? => takeValue s c fault? attached
    | _ => if attached.isSome then usage .unexpectedValue else takeAlone s c

/-- Takes options by their letters. The rest of a word behind the letter of an option with a value
is that value. -/
def takeLetters (g : Grammar) (s : State) : List Char → Except Interruption State
  | [] => .ok s
  | letter :: rest =>
    match g.choices.find? (·.letter = some letter) with
    | none => usage .unknownArgument
    | some c =>
      match c.action with
      | .value fault? =>
        let attached :=
          match rest with
          | [] => none
          | '=' :: value => some (String.ofList value)
          | value => some (String.ofList value)
        takeValue s c fault? attached
      | _ => do takeLetters g (← takeAlone s c) rest

/-- Takes the next positional argument. -/
def takePositional (s : State) (word : String) : Except Interruption State :=
  match s.remaining with
  | [] => usage .unknownArgument
  | p :: rest => do
    let s ← settle s
    return { s with pending := some ⟨p.name, p.fault?, some word⟩, remaining := rest }

/-- The name of the command that explains the others. -/
def helpCommand : String := "help"

/-- Whether help on the commands named can be given. -/
def explain (g : Grammar) (names : List String) : Interruption :=
  match names with
  | [] => .help
  | [name] =>
    if name = helpCommand || g.commands.contains name then .help else .usage .unknownCommand
  | _ => .usage .unknownCommand

/-- Reads arguments one after the other; behind `--` all of them are positional. -/
def run (g : Grammar) (trailing : Bool) (s : State) : List String → Except Interruption State
  | [] => settle s
  | word :: rest =>
    if trailing then do run g true (← takePositional s word) rest
    else if isAwaiting s && !isOption word then
      run g false { s with pending := s.pending.map fun p => { p with value := some word } } rest
    else if !isAwaiting s && !g.commands.isEmpty && word = helpCommand then
      .error (explain g rest)
    else if !isAwaiting s && g.commands.contains word then do
      let s ← settle s
      return { s with given := { s.given with command := some (word, rest) } }
    else
      match word.toList with
      | ['-', '-'] => run g true s rest
      | '-' :: '-' :: long => do run g false (← takeLong g s long) rest
      | '-' :: letter :: letters => do run g false (← takeLetters g s (letter :: letters)) rest
      | _ =>
        if g.positionals.isEmpty && !g.commands.isEmpty then usage .unknownCommand
        else do run g false (← takePositional s word) rest
where
  /-- A lone dash is no option. -/
  isOption (word : String) : Bool :=
    match word.toList with
    | '-' :: _ :: _ => true
    | _ => false

def parse (g : Grammar) (words : List String) : Except Interruption Given :=
  (run g false ⟨.nothing, none, g.positionals⟩ words).map State.given

end Arguments

end TemplateLint
