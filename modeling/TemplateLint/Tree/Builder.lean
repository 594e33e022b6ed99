import TemplateLint.Decimal.Literal
import TemplateLint.Fault
import TemplateLint.Json.Quoted
import TemplateLint.Tree

/-!
# Building trees

A tree is built from the tokens of a template, one token a step. What is being
read is the focus; the objects and arrays around it wait on a stack for the
value they are to receive. A token that does not fit is reported, and tokens
are skipped up to the next comma or the end of the innermost container, so
every text yields a tree of what could be read.
-/

namespace TemplateLint.Builder

/-- An object being read; its properties stand with the latest first. -/
structure OpenObject where
  id : Nat
  opening : Span
  properties : List Property

/-- An array being read; its items stand with the latest first. -/
structure OpenArray where
  id : Nat
  opening : Span
  items : List Value

/-- A property whose value is still to come. -/
structure OpenProperty where
  id : Nat
  key : String
  keySpan : Span

/-- Where a value goes once it has been read. -/
inductive Place where
  | root
  | property (object : OpenObject) (property : OpenProperty)
  | item (array : OpenArray)

/-- What is expected of the next token. -/
inductive Focus where
  /-- The first token of the template. -/
  | start
  /-- A key, or the end of the object. -/
  | key (object : OpenObject)
  | colon (object : OpenObject) (property : OpenProperty)
  | propertyValue (object : OpenObject) (property : OpenProperty)
  /-- A comma, or the end of the object. -/
  | propertyEnd (object : OpenObject)
  /-- Tokens are skipped up to a comma or the end of the object. -/
  | objectRecovery (object : OpenObject)
  /-- An item, or the end of the array. -/
  | item (array : OpenArray)
  /-- A comma, or the end of the array. -/
  | itemEnd (array : OpenArray)
  /-- Tokens are skipped up to a comma or the end of the array. -/
  | arrayRecovery (array : OpenArray)
  /-- A container nested too deep is skipped; `nesting` counts the containers open within it. -/
  | skip (start : Nat) (nesting : Nat) (place : Place)
  /-- Nothing more is expected; what comes is trailing content. -/
  | done (root : Option Value) (trailing : Option Span)

structure State where
  focus : Focus
  /-- Where the open containers go, the innermost first. -/
  stack : List Place
  /-- How many containers are open. -/
  depth : Nat
  nextId : Nat
  /-- Where the latest token ended. -/
  lastEnd : Nat
  /-- The faults met so far, the latest first. -/
  faults : List PlacedFault

def State.initial : State := ⟨.start, [], 0, 0, 0, []⟩

def State.report (fault : Fault) (span : Span) (s : State) : State :=
  { s with faults := ⟨fault, span⟩ :: s.faults }

def State.withFocus (focus : Focus) (s : State) : State := { s with focus := focus }

/-! ## Tokens with content -/

/-- The text a string token stands for. One that cannot be decoded stands for its characters. -/
def stringText (t : Lexeme Token) : String × Option Fault :=
  if t.kind = .unterminatedString then (.ofList (t.text.drop 1), some .unterminatedString)
  else
    match Json.Quoted.decode? t.text with
    | some cs => (.ofList cs, none)
    | none => (.ofList (t.text.drop 1).dropLast, some .invalidString)

/-- The number a number token stands for. -/
def numberScalar (t : Lexeme Token) : Scalar × Option Fault :=
  let malformed := (Scalar.number .nan true, some (.invalidNumber t.text))
  match Decimal.Literal.ofText? t.text with
  | none => malformed
  | some l => if l.toDouble.isFinite then (.number l.toDouble l.isInteger, none) else malformed

/-- What a token stands for on its own. -/
def scalar? (t : Lexeme Token) : Option (Scalar × Option Fault) :=
  match t.kind with
  | .string | .unterminatedString => let (text, fault) := stringText t; some (.string text, fault)
  | .number => some (numberScalar t)
  | .trueWord => some (.boolean true, none)
  | .falseWord => some (.boolean false, none)
  | .nullWord => some (.null, none)
  | _ => none

def State.reportAny (fault : Option Fault) (span : Span) (s : State) : State :=
  match fault with
  | some fault => s.report fault span
  | none => s

/-! ## Values and containers -/

def OpenObject.close (o : OpenObject) (stop : Nat) : Value :=
  .object o.id ⟨o.opening.start, stop⟩ o.properties.reverse

def OpenArray.close (a : OpenArray) (stop : Nat) : Value :=
  .array a.id ⟨a.opening.start, stop⟩ a.items.reverse

def OpenProperty.close (p : OpenProperty) (value : Option Value) (stop : Nat) : Property :=
  ⟨p.id, ⟨p.keySpan.start, stop⟩, p.key, p.keySpan, value⟩

def OpenObject.add (o : OpenObject) (p : Property) : OpenObject :=
  { o with properties := p :: o.properties }

def OpenArray.add (a : OpenArray) (v : Value) : OpenArray := { a with items := v :: a.items }

/-- The focus once a place has received its value, or has been refused one. A property keeps its
key without a value; an array goes on behind the next comma. -/
def Place.receive (value : Option Value) (stop : Nat) : Place → Focus
  | .root => .done value none
  | .property o p => .propertyEnd (o.add (p.close value stop))
  | .item a =>
    match value with
    | some v => .itemEnd (a.add v)
    | none => .arrayRecovery a

/-- Ends the innermost container: its value goes to the place that waits for it. -/
def State.closeContainer (value : Value) (stop : Nat) (s : State) : State :=
  match s.stack with
  | [] => s.withFocus (.done (some value) none)
  | place :: stack =>
    { s with focus := place.receive (some value) stop, stack := stack, depth := s.depth - 1 }

/-- Begins a container whose value is to go to a place. -/
def State.openContainer (place : Place) (focus : Focus) (s : State) : State :=
  { s with focus := focus, stack := place :: s.stack, depth := s.depth + 1, nextId := s.nextId + 1 }

/-! ## One token -/

/-- Behind the root value. -/
def trail (root : Option Value) (trailing : Option Span) (t : Lexeme Token) : State → State :=
  .withFocus (.done root (some ⟨(trailing.getD t.span).start, t.span.stop⟩))

/-- On the way to the next comma or the end of an object. -/
def recoverObject (o : OpenObject) (t : Lexeme Token) (s : State) : State :=
  match t.kind with
  | .closeBrace => s.closeContainer (o.close t.span.stop) t.span.stop
  | .comma => s.withFocus (.key o)
  | _ => s.withFocus (.objectRecovery o)

def recoverArray (a : OpenArray) (t : Lexeme Token) (s : State) : State :=
  match t.kind with
  | .closeBracket => s.closeContainer (a.close t.span.stop) t.span.stop
  | .comma => s.withFocus (.item a)
  | _ => s.withFocus (.arrayRecovery a)

/-- Behind a property. -/
def endProperty (o : OpenObject) (t : Lexeme Token) (s : State) : State :=
  if t.kind = .comma ∨ t.kind = .closeBrace then recoverObject o t s
  else recoverObject o t (s.report (.expected .propertyEnd (some t.kind) o.opening) t.span)

/-- Behind an item. -/
def endItem (a : OpenArray) (t : Lexeme Token) (s : State) : State :=
  if t.kind = .comma ∨ t.kind = .closeBracket then recoverArray a t s
  else recoverArray a t (s.report (.expected .itemEnd (some t.kind) a.opening) t.span)

/-- A place that expected a value meets a token that begins none and is not its own: the place
stays without a value, and the token is taken by what comes next. -/
def refuse (place : Place) (t : Lexeme Token) (s : State) : State :=
  match place with
  | .root => trail none none t s
  | .property o p => endProperty (o.add (p.close none s.lastEnd)) t s
  | .item a => recoverArray a t s

/-- A token where a value is expected. -/
def beginValue (place : Place) (t : Lexeme Token) (s : State) : State :=
  match scalar? t with
  | some (content, fault) =>
    { s.reportAny fault t.span with
      focus := place.receive (some (.scalar s.nextId t.span content)) t.span.stop
      nextId := s.nextId + 1 }
  | none =>
    match t.kind with
    | .openBrace =>
      if maxDepth ≤ s.depth then s.withFocus (.skip t.span.start 0 place)
      else s.openContainer place (.key ⟨s.nextId, t.span, []⟩)
    | .openBracket =>
      if maxDepth ≤ s.depth then s.withFocus (.skip t.span.start 0 place)
      else s.openContainer place (.item ⟨s.nextId, t.span, []⟩)
    | .colon =>
      (s.report (.expectedValue (some t.kind)) t.span).withFocus (place.receive none t.span.stop)
    | _ => refuse place t (s.report (.expectedValue (some t.kind)) t.span)

/-- A token where a key or the end of an object is expected. -/
def beginProperty (o : OpenObject) (t : Lexeme Token) (s : State) : State :=
  match t.kind with
  | .closeBrace => recoverObject o t s
  | .string | .unterminatedString =>
    let (key, fault) := stringText t
    { s.reportAny fault t.span with
      focus := .colon o ⟨s.nextId, key, t.span⟩
      nextId := s.nextId + 1 }
  | _ => recoverObject o t (s.report (.expected .propertyKey (some t.kind) o.opening) t.span)

/-- A token behind a key. -/
def beginColon (o : OpenObject) (p : OpenProperty) (t : Lexeme Token) (s : State) : State :=
  if t.kind = .colon then s.withFocus (.propertyValue o p)
  else
    endProperty (o.add (p.close none s.lastEnd)) t
      (s.report (.expected .colon (some t.kind) p.keySpan) t.span)

/-- A token within a container nested too deep. -/
def skipToken (start nesting : Nat) (place : Place) (t : Lexeme Token) (s : State) : State :=
  match t.kind, nesting with
  | .openBrace, _ | .openBracket, _ => s.withFocus (.skip start (nesting + 1) place)
  | .closeBrace, 0 | .closeBracket, 0 =>
    (s.report .nestingTooDeep ⟨start, t.span.stop⟩).withFocus (place.receive none t.span.stop)
  | .closeBrace, n + 1 | .closeBracket, n + 1 => s.withFocus (.skip start n place)
  | _, _ => s

def act (t : Lexeme Token) (s : State) : State :=
  match s.focus with
  | .start => beginValue .root t s
  | .key o => beginProperty o t s
  | .colon o p => beginColon o p t s
  | .propertyValue o p => beginValue (.property o p) t s
  | .propertyEnd o => endProperty o t s
  | .objectRecovery o => recoverObject o t s
  | .item a => if t.kind = .closeBracket then recoverArray a t s else beginValue (.item a) t s
  | .itemEnd a => endItem a t s
  | .arrayRecovery a => recoverArray a t s
  | .skip start nesting place => skipToken start nesting place t s
  | .done root trailing => trail root trailing t s

def step (s : State) (t : Lexeme Token) : State := { act t s with lastEnd := t.span.stop }

def run (ts : List (Lexeme Token)) : State := ts.foldl step .initial

/-! ## The end of the text -/

/-- The root once the text has ended: each open container, from the innermost on, receives the
value before it and is reported as unclosed. The faults come with the latest first. -/
def unwind (stop : Nat) (eof : Span) (value : Option Value) (faults : List PlacedFault) :
    List Place → Option Value × List PlacedFault
  | [] => (value, faults)
  | .root :: _ => (value, faults)
  | .property o p :: rest =>
    unwind stop eof (some ((o.add (p.close value stop)).close stop))
      (⟨.expected .propertyEnd none o.opening, eof⟩ :: faults) rest
  | .item a :: rest =>
    match value with
    | some v =>
      unwind stop eof (some ((a.add v).close stop))
        (⟨.expected .itemEnd none a.opening, eof⟩ :: faults) rest
    | none => unwind stop eof (some (a.close stop)) faults rest

/-- The root of the tree and the faults, the latest first, once the text has ended. -/
def finish (eof : Span) (s : State) : Option Value × List PlacedFault :=
  let unwindFrom := fun value faults stack => unwind s.lastEnd eof value (faults ++ s.faults) stack
  match s.focus with
  | .start => (none, s.faults)
  | .key o =>
    unwindFrom (some (o.close s.lastEnd)) [⟨.expected .propertyKey none o.opening, eof⟩] s.stack
  | .colon o p =>
    unwindFrom none [⟨.expected .colon none p.keySpan, eof⟩] (.property o p :: s.stack)
  | .propertyValue o p => unwindFrom none [⟨.expectedValue none, eof⟩] (.property o p :: s.stack)
  | .propertyEnd o =>
    unwindFrom (some (o.close s.lastEnd)) [⟨.expected .propertyEnd none o.opening, eof⟩] s.stack
  | .objectRecovery o => unwindFrom (some (o.close s.lastEnd)) [] s.stack
  | .item a =>
    unwindFrom (some (a.close s.lastEnd)) [⟨.expected .itemOrEnd none a.opening, eof⟩] s.stack
  | .itemEnd a =>
    unwindFrom (some (a.close s.lastEnd)) [⟨.expected .itemEnd none a.opening, eof⟩] s.stack
  | .arrayRecovery a => unwindFrom (some (a.close s.lastEnd)) [] s.stack
  | .skip start _ place =>
    unwindFrom none [⟨.nestingTooDeep, ⟨start, s.lastEnd⟩⟩] (place :: s.stack)
  | .done root trailing =>
    (root, (trailing.map fun span => ⟨.trailingContent, span⟩).toList ++ s.faults)

/-- The root of the tree of a template and its faults in the order they are reported: what belongs
to no token first, then what is wrong with the tokens. -/
def build (source : List Char) : Option Value × List PlacedFault :=
  let lexemes := Lexeme.ofText source
  let unknown := lexemes.filterMap fun l =>
    if l.kind.isNone then some ⟨.unknownCharacter, l.span⟩ else none
  let tokens := lexemes.filterMap Lexeme.significant?
  let (root, faults) := finish (.point (Lexeme.byteLength source)) (run tokens)
  (root, unknown ++ faults.reverse)

end TemplateLint.Builder
