import TemplateLint.Tree.Builder

/-!
# Reading trees by descent

A tree can also be read by functions that call each other as the values of the
text are nested, with the nodes in one list, where they refer to each other by
their numbers. Nothing here is taken for granted: a reading has no outcome if a
loop takes more turns than it is allowed to, or values are nested deeper, and
whatever the reading relies on without a check breaks it off where it fails.
-/

namespace TemplateLint.Descent

/-- Why a reading is broken off. -/
inductive Breach where
  /-- A container was to be read where the text had ended. -/
  | noOpening (opening : Token)
  | noKey
  /-- White space does not count for the tree. -/
  | whiteSpace
  | backwards (reason : Span.RangeError)
  | noNode (id : Nat)
  /-- A text was cut behind its end, or in the middle of a character. -/
  | badCut
  /-- More containers were left than entered. -/
  | unbalanced
deriving DecidableEq

inductive Content where
  | object (properties : List Nat)
  | array (items : List Nat)
  | property (key : String) (keySpan : Span) (value : Option Nat)
  | scalar (content : Scalar)
deriving DecidableEq

/-- A node, with the numbers of the nodes around it. -/
structure Row where
  parent : Option Nat
  segment : Option Segment
  span : Span
  content : Content
deriving DecidableEq

structure State where
  source : List Char
  /-- The token that was read last. -/
  latest : Option (Lexeme Token)
  ahead : List (Lexeme Token)
  /-- The nodes, each at the place of its number. -/
  rows : List Row
  /-- The faults met so far, the latest first. -/
  faults : List PlacedFault
  depth : Nat

namespace State

/-- Behind the token that was next. -/
def pass (t : Lexeme Token) (rest : List (Lexeme Token)) (s : State) : State :=
  { s with latest := some t, ahead := rest }

def report (fault : Fault) (span : Span) (s : State) : State :=
  { s with faults := ⟨fault, span⟩ :: s.faults }

def add (row : Row) (s : State) : State := { s with rows := s.rows ++ [row] }

def set (id : Nat) (row : Row) (s : State) : State := { s with rows := s.rows.set id row }

def withDepth (depth : Nat) (s : State) : State := { s with depth := depth }

/-- Where the token that was read last ended. -/
def lastEnd? (s : State) : Option Nat := s.latest.map (·.span.stop)

/-- The empty span at the end of the text. -/
def eof (s : State) : Span := .point (Lexeme.byteLength s.source)

/-- Where the next token stands. -/
def nextSpan (s : State) : Span := (s.ahead.head?.map (·.span)).getD s.eof

def nextKind? (s : State) : Option Token := s.ahead.head?.map (·.kind)

end State

/-- A reading may be broken off, or have no outcome at all. -/
abbrev Action (α : Type) : Type := StateT State (ExceptT Breach Option) α

/-- How a value is read, and its node found a place in the tree. -/
abbrev Reader : Type := Option Nat → Option Segment → Action (Option Nat)

/-! ## Loops -/

/-- More has been read than was allowed. -/
def tooLong {α : Type} : Action α := fun _ => (none : Option (Except Breach (α × State)))

/-- What comes of one turn of a loop: its result, or what the next turn starts with. -/
inductive Turn (α β : Type) where
  | leave (result : α)
  | again (next : β)

/-- Takes turns until one of them leaves the loop. -/
def loop {α β : Type} (turn : β → Action (Turn α β)) : Nat → β → Action α
  | 0, _ => tooLong
  | limit + 1, b => do
    match ← turn b with
    | .leave a => pure a
    | .again b => loop turn limit b

/-! ## Cutting texts -/

/-- Cuts a text at a byte offset. -/
def cutAt? (offset : Nat) (text : List Char) : Option (List Char × List Char) :=
  match offset, text with
  | 0, text => some ([], text)
  | _ + 1, [] => none
  | offset + 1, c :: rest =>
    if c.utf8Size ≤ offset + 1 then
      (cutAt? (offset + 1 - c.utf8Size) rest).map fun (front, back) => (c :: front, back)
    else none

/-- The part of a text between two byte offsets. -/
def slice? (text : List Char) (start stop : Nat) : Option (List Char) :=
  if start ≤ stop then do
    let (_, rest) ← cutAt? start text
    let (part, _) ← cutAt? (stop - start) rest
    pure part
  else none

/-! ## Tokens and nodes -/

def peek : Action (Option (Lexeme Token)) := return (← get).ahead.head?

/-- Takes the next token. -/
def bump : Action (Option (Lexeme Token)) := do
  match (← get).ahead with
  | [] => pure none
  | t :: rest =>
    modify (State.pass t rest)
    pure (some t)

/-- Takes the next token if it is of a kind. -/
def eat (kind : Token) : Action Bool := do
  if (← get).nextKind? = some kind then
    let _ ← bump
    pure true
  else pure false

def lastEnd (default : Nat) : Action Nat := return (← get).lastEnd?.getD default

def report (fault : Fault) (span : Span) : Action Unit := modify (State.report fault span)

/-- Reports that something else than the next token was expected. -/
def reportExpected (what : Expectation) (context : Span) : Action Unit := do
  let s ← get
  report (.expected what s.nextKind? context) s.nextSpan

def reportExpectedValue : Action Unit := do
  let s ← get
  report (.expectedValue s.nextKind?) s.nextSpan

def range (start stop : Nat) : Action Span :=
  match Span.ofRange start stop with
  | .ok span => pure span
  | .error reason => throw (.backwards reason)

def slice (text : List Char) (start stop : Nat) : Action (List Char) :=
  match slice? text start stop with
  | some part => pure part
  | none => throw .badCut

/-- Gives a node the next number. -/
def alloc (parent : Option Nat) (segment : Option Segment) (span : Span) (content : Content) :
    Action Nat := do
  let s ← get
  modify (State.add ⟨parent, segment, span, content⟩)
  pure s.rows.length

/-- Completes a node that was given its number early. -/
def complete (id start stop : Nat) (change : Content → Content) : Action Unit := do
  match (← get).rows[id]? with
  | none => throw (.noNode id)
  | some row =>
    let span ← range start stop
    modify (State.set id { row with span := span, content := change row.content })

def enter : Action Unit := do
  let s ← get
  modify (State.withDepth (s.depth + 1))

def leave : Action Unit := do
  match (← get).depth with
  | 0 => throw .unbalanced
  | depth + 1 => modify (State.withDepth depth)

/-! ## Skipping -/

/-- One turn on the way to the next comma, which is taken, or to a closing token, which is not. -/
def recoverTurn (close : Token) : Action (Turn Bool Unit) := do
  match ← peek with
  | none => pure (.leave false)
  | some t =>
    if t.kind = close then pure (.leave true)
    else
      let _ ← bump
      if t.kind = .comma then pure (.leave true) else pure (.again ())

/-- Whether a comma or the closing token was found before the text ended. -/
def recover (limit : Nat) (close : Token) : Action Bool :=
  loop (fun () => recoverTurn close) limit ()

/-- Where a container ends with others around it, the skipping goes on. -/
def nestingAfter (nesting : Nat) : Turn Unit Nat :=
  if nesting - 1 = 0 then .leave () else .again (nesting - 1)

/-- One turn within a container nested too deep, with the number of containers open. -/
def skipTurn (nesting : Nat) : Action (Turn Unit Nat) := do
  match ← bump with
  | none => pure (.leave ())
  | some t =>
    match t.kind with
    | .openBrace | .openBracket => pure (.again (nesting + 1))
    | .closeBrace | .closeBracket => pure (nestingAfter nesting)
    | _ => pure (.again nesting)

/-- Skips a container with all that is in it. -/
def skipContainer (limit : Nat) : Action Span := do
  let start := (← get).nextSpan.start
  loop skipTurn limit 0
  range start (← lastEnd start)

/-! ## Values -/

/-- The text that a string token stands for, cut from the source. -/
def stringText (t : Lexeme Token) : Action String := do
  let text ← slice (← get).source t.span.start t.span.stop
  if t.kind = .unterminatedString then
    report .unterminatedString t.span
    return .ofList (← slice text 1 (Lexeme.byteLength text))
  else
    match Json.Quoted.decode? text with
    | some cs => return .ofList cs
    | none =>
      report .invalidString t.span
      return .ofList (← slice text 1 (Lexeme.byteLength text - 1))

def number (t : Lexeme Token) : Action Scalar := do
  let text ← slice (← get).source t.span.start t.span.stop
  match Builder.numberScalar { t with text := text } with
  | (content, none) => pure content
  | (content, some fault) =>
    report fault t.span
    pure content

/-- How a token is read that is a value on its own. -/
def scalar? (t : Lexeme Token) : Option (Action Scalar) :=
  match t.kind with
  | .string | .unterminatedString => some (return .string (← stringText t))
  | .number => some (number t)
  | .trueWord => some (pure (.boolean true))
  | .falseWord => some (pure (.boolean false))
  | .nullWord => some (pure .null)
  | _ => none

/-- Takes the token that opens a container, and gives the container its number. -/
def openContainer (opening : Token) (parent : Option Nat) (segment : Option Segment)
    (content : Content) : Action (Nat × Span) := do
  match ← bump with
  | none => throw (.noOpening opening)
  | some t =>
    enter
    return (← alloc parent segment t.span content, t.span)

/-- Completes a container with what has been read of it. -/
def closeContainer (id : Nat) (opening : Span) (content : Content) : Action Nat := do
  complete id opening.start (← lastEnd opening.stop) fun _ => content
  leave
  pure id

section Containers

variable (read : Reader) (limit : Nat)

/-- Goes on behind what could not be read, if anything is left of the container. -/
def resume {β : Type} (close : Token) (parts : β) : Action (Turn β β) := do
  if ← recover limit close then pure (.again parts) else pure (.leave parts)

/-- Behind a part of a container there is a comma, or the container ends. -/
def endPart {β : Type} (what : Expectation) (close : Token) (opening : Span) (parts : β) :
    Action (Turn β β) := do
  if ← eat .comma then pure (.again parts)
  else if ← eat close then pure (.leave parts)
  else
    reportExpected what opening
    resume limit close parts

/-- Reads the value of a property from behind its key. -/
def propertyValue (id : Nat) (key : String) (keySpan : Span) : Action (Option Nat) := do
  if ← eat .colon then
    match ← peek with
    | none =>
      reportExpectedValue
      pure none
    | some t =>
      if t.kind = .comma ∨ t.kind = .closeBrace then
        reportExpectedValue
        pure none
      else read (some id) (some (.key key))
  else
    reportExpected .colon keySpan
    pure none

def property (object : Nat) : Action Nat := do
  match ← bump with
  | none => throw .noKey
  | some t =>
    let key ← stringText t
    let id ← alloc (some object) (some (.key key)) t.span (.property key t.span none)
    let v ← propertyValue read id key t.span
    complete id t.span.start (← lastEnd t.span.stop) fun
      | .property key keySpan _ => .property key keySpan v
      | content => content
    pure id

/-- One turn of the loop that reads the properties of an object. -/
def objectTurn (id : Nat) (opening : Span) (properties : List Nat) :
    Action (Turn (List Nat) (List Nat)) := do
  if ← eat .closeBrace then pure (.leave properties)
  else
    match ← peek with
    | some t =>
      if t.kind = .string ∨ t.kind = .unterminatedString then
        let p ← property read id
        endPart limit .propertyEnd .closeBrace opening (properties ++ [p])
      else
        reportExpected .propertyKey opening
        resume limit .closeBrace properties
    | none =>
      reportExpected .propertyKey opening
      resume limit .closeBrace properties

def object (parent : Option Nat) (segment : Option Segment) : Action Nat := do
  let (id, opening) ← openContainer .openBrace parent segment (.object [])
  let properties ← loop (objectTurn read limit id opening) limit []
  closeContainer id opening (.object properties)

/-- One turn of the loop that reads the items of an array. -/
def arrayTurn (id : Nat) (opening : Span) (items : List Nat) :
    Action (Turn (List Nat) (List Nat)) := do
  if ← eat .closeBracket then pure (.leave items)
  else
    match ← peek with
    | none =>
      reportExpected .itemOrEnd opening
      pure (.leave items)
    | some _ =>
      match ← read (some id) (some (.index items.length)) with
      | some v => endPart limit .itemEnd .closeBracket opening (items ++ [v])
      | none => resume limit .closeBracket items

def array (parent : Option Nat) (segment : Option Segment) : Action Nat := do
  let (id, opening) ← openContainer .openBracket parent segment (.array [])
  let items ← loop (arrayTurn read limit id opening) limit []
  closeContainer id opening (.array items)

/-- Reads a container that begins with a token, or skips it where it is nested too deep. -/
def container (opening : Token) (parent : Option Nat) (segment : Option Segment) :
    Action (Option Nat) := do
  if maxDepth ≤ (← get).depth then
    report .nestingTooDeep (← skipContainer limit)
    pure none
  else if opening = .openBrace then return some (← object read limit parent segment)
  else return some (← array read limit parent segment)

/-- Reads a value, given how the values within it are read. What begins no value is reported, and
left for an enclosing container unless it is a colon. -/
def valueBy : Reader := fun parent segment => do
  match ← peek with
  | none =>
    reportExpectedValue
    pure none
  | some t =>
    match scalar? t with
    | some read =>
      let _ ← bump
      let content ← read
      return some (← alloc parent segment t.span (.scalar content))
    | none =>
      match t.kind with
      | .openBrace | .openBracket => container read limit t.kind parent segment
      | .whitespace => throw .whiteSpace
      | .colon =>
        reportExpectedValue
        let _ ← bump
        pure none
      | _ =>
        reportExpectedValue
        pure none

end Containers

/-- Reads a value in which no loop takes more turns than a limit, and no value is nested deeper. -/
def value : Nat → Reader
  | 0 => fun _ _ => tooLong
  | limit + 1 => valueBy (value limit) (limit + 1)

/-! ## Whole texts -/

structure Outcome where
  root : Option Nat
  rows : List Row
  /-- In the order in which they are reported. -/
  faults : List PlacedFault

def State.initial (source : List Char) : State :=
  ⟨source, none, (Lexeme.ofText source).filterMap Lexeme.significant?, [], [], 0⟩

/-- Reports what stands behind the root. -/
def reportTrailing : Action Unit := do
  match ← peek with
  | none => pure ()
  | some t =>
    let stop := ((← get).ahead.getLast?.map (·.span.stop)).getD t.span.stop
    report .trailingContent (← range t.span.start stop)

/-- Reads the root, if there are tokens at all. -/
def root (limit : Nat) : Action (Option Nat) := do
  let id ← if (← get).ahead.isEmpty then pure none else value limit none none
  reportTrailing
  pure id

/-- The characters that belong to no token. -/
def unknownCharacters (source : List Char) : List PlacedFault :=
  (Lexeme.ofText source).filterMap fun l =>
    if l.kind.isNone then some ⟨.unknownCharacter, l.span⟩ else none

/-- Reads a whole text within a limit. -/
def parse (limit : Nat) (source : List Char) : Option (Except Breach Outcome) :=
  match (root limit).run (.initial source) with
  | none => none
  | some (.error breach) => some (.error breach)
  | some (.ok (id, s)) =>
    some (.ok ⟨id, s.rows, unknownCharacters source ++ s.faults.reverse⟩)

end TemplateLint.Descent
