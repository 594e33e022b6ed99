import TemplateLint.Json
import TemplateLint.Json.Quoted
import TemplateLint.Decimal.Scaling

/-!
# Reading JSON text

A text is read up to its first fault. What has been read is kept, with the
fault in the place where it was met, so that whoever makes something of the
value meets the parts before the fault first.
-/

namespace TemplateLint.Json

/-- Why a text is not JSON. -/
inductive TextFault where
  | endInValue
  | endInList
  | endInObject
  | quoted (fault : Quoted.Fault)
  | expectedValue
  | expectedWord
  | expectedColon
  | expectedItemEnd
  | expectedMemberEnd
  | keyNotString
  | trailingComma
  | trailingText
  | invalidNumber
  | numberOutOfRange
  | tooDeep
deriving DecidableEq

def Quoted.Fault.message : Quoted.Fault → String
  | .unfinished => "EOF while parsing a string"
  | .invalidEscape => "invalid escape"
  | .controlCharacter => "control character (\\u0000-\\u001F) found while parsing a string"
  | .loneSurrogate => "lone leading surrogate in hex escape"
  | .brokenPair => "unexpected end of hex escape"

def TextFault.message : TextFault → String
  | .endInValue => "EOF while parsing a value"
  | .endInList => "EOF while parsing a list"
  | .endInObject => "EOF while parsing an object"
  | .quoted fault => fault.message
  | .expectedValue => "expected value"
  | .expectedWord => "expected ident"
  | .expectedColon => "expected `:`"
  | .expectedItemEnd => "expected `,` or `]`"
  | .expectedMemberEnd => "expected `,` or `\x7d`"
  | .keyNotString => "key must be a string"
  | .trailingComma => "trailing comma"
  | .trailingText => "trailing characters"
  | .invalidNumber => "invalid number"
  | .numberOutOfRange => "number out of range"
  | .tooDeep => "recursion limit exceeded"

/-- What has been read of a value. A container that was not closed says why. -/
inductive Reading where
  | broken (fault : TextFault)
  | null
  | boolean (value : Bool)
  | number (value : Number)
  | string (value : String)
  | array (items : List Reading) (unclosed : Option TextFault)
  | object (members : List (String × Reading)) (unclosed : Option TextFault)

namespace Reading

/-- Containers nest at most this deep. -/
def maxDepth : Nat := 127

def afterBlanks (cs : List Char) : List Char := cs.dropWhile Lexeme.isBlank

/-- What a literal is read as: an integer where 64 bits hold it, and otherwise the number that it
comes to by scaling, if that is finite. A negative zero is no integer. -/
def numberOf (l : Decimal.Literal) : Except TextFault Number :=
  let n := l.toInt
  if l.isInteger ∧ -.pow 2 63 ≤ n ∧ n < .pow 2 64 ∧ ¬(l.negative ∧ n = 0) then .ok (.integer n)
  else
    match l.toScaled with
    | .finite s m => .ok (.real (.finite s m))
    | _ => .error .numberOutOfRange

/-- The number at the front of a text. -/
def readNumber (cs : List Char) : Except TextFault (Number × List Char) :=
  match Decimal.Literal.scan cs with
  | .ok (l, rest) => (numberOf l).map fun n => (n, rest)
  | .error .unfinished => .error .endInValue
  | .error .malformed => .error .invalidNumber

/-- What is left of a text behind a word. -/
def readWord : List Char → List Char → Except TextFault (List Char)
  | [], cs => .ok cs
  | _ :: _, [] => .error .endInValue
  | w :: ws, c :: cs => if w = c then readWord ws cs else .error .expectedWord

def readQuoted (cs : List Char) : Except TextFault (String × List Char) :=
  match Quoted.read cs with
  | .ok (s, rest) => .ok (.ofList s, rest)
  | .error fault => .error (.quoted fault)

/-- Goes on behind the next item of a list, or to its end: `none` is its end. -/
def nextItem (first : Bool) (cs : List Char) : Except TextFault (Option (List Char) × List Char) :=
  match afterBlanks cs with
  | [] => .error .endInList
  | ']' :: rest => .ok (none, rest)
  | c :: rest =>
    if first then .ok (some (c :: rest), [])
    else if c = ',' then
      match afterBlanks rest with
      | [] => .error .endInValue
      | ']' :: _ => .error .trailingComma
      | rest => .ok (some rest, [])
    else .error .expectedItemEnd

/-- Goes to behind the opening quote of the next member's name, or to the end: `none` is the end. -/
def nextMember (first : Bool) (cs : List Char) :
    Except TextFault (Option (List Char) × List Char) :=
  match afterBlanks cs with
  | [] => .error .endInObject
  | '\x7d' :: rest => .ok (none, rest)
  | c :: rest =>
    if first then (if c = '"' then .ok (some rest, []) else .error .keyNotString)
    else if c = ',' then
      match afterBlanks rest with
      | [] => .error .endInValue
      | '"' :: rest => .ok (some rest, [])
      | '\x7d' :: _ => .error .trailingComma
      | _ => .error .keyNotString
    else .error .expectedMemberEnd

def readColon (cs : List Char) : Except TextFault (List Char) :=
  match afterBlanks cs with
  | [] => .error .endInObject
  | ':' :: rest => .ok rest
  | _ => .error .expectedColon

/-- A leaf, and the text behind it unless it is a fault. -/
def leaf {α : Type} (make : α → Reading) :
    Except TextFault (α × List Char) → Reading × Option (List Char)
  | .ok (a, rest) => (make a, some rest)
  | .error fault => (.broken fault, none)

def word (value : Reading) (tail : String) (cs : List Char) : Reading × Option (List Char) :=
  leaf (fun _ : Unit => value) ((readWord tail.toList cs).map fun rest => ((), rest))

mutual

/-- Reads the value at the front of a text, with containers nested at most `depth` deep. The text
behind the value is there unless a fault was met. -/
def readValue (fuel depth : Nat) (cs : List Char) : Reading × Option (List Char) :=
  match fuel with
  | 0 => (.broken .endInValue, none)
  | fuel + 1 =>
    match afterBlanks cs with
    | [] => (.broken .endInValue, none)
    | 'n' :: rest => word .null "ull" rest
    | 't' :: rest => word (.boolean true) "rue" rest
    | 'f' :: rest => word (.boolean false) "alse" rest
    | '"' :: rest => leaf .string (readQuoted rest)
    | '[' :: rest =>
      match depth with
      | 0 => (.array [] (some .tooDeep), none)
      | depth + 1 =>
        let (items, unclosed, after) := readItems fuel depth true rest
        (.array items unclosed, after)
    | '\x7b' :: rest =>
      match depth with
      | 0 => (.object [] (some .tooDeep), none)
      | depth + 1 =>
        let (members, unclosed, after) := readMembers fuel depth true rest
        (.object members unclosed, after)
    | c :: rest =>
      if c = '-' ∨ c.isDigit then leaf .number (readNumber (c :: rest))
      else (.broken .expectedValue, none)

def readItems (fuel depth : Nat) (first : Bool) (cs : List Char) :
    List Reading × Option TextFault × Option (List Char) :=
  match fuel with
  | 0 => ([], some .endInList, none)
  | fuel + 1 =>
    match nextItem first cs with
    | .error fault => ([], some fault, none)
    | .ok (none, rest) => ([], none, some rest)
    | .ok (some rest, _) =>
      match readValue fuel depth rest with
      | (item, none) => ([item], none, none)
      | (item, some rest) =>
        let (items, unclosed, after) := readItems fuel depth false rest
        (item :: items, unclosed, after)

def readMembers (fuel depth : Nat) (first : Bool) (cs : List Char) :
    List (String × Reading) × Option TextFault × Option (List Char) :=
  match fuel with
  | 0 => ([], some .endInObject, none)
  | fuel + 1 =>
    match nextMember first cs with
    | .error fault => ([], some fault, none)
    | .ok (none, rest) => ([], none, some rest)
    | .ok (some rest, _) =>
      match readQuoted rest with
      | .error fault => ([], some fault, none)
      | .ok (name, rest) =>
        match readColon rest with
        | .error fault => ([(name, .broken fault)], none, none)
        | .ok rest =>
          match readValue fuel depth rest with
          | (value, none) => ([(name, value)], none, none)
          | (value, some rest) =>
            let (members, unclosed, after) := readMembers fuel depth false rest
            ((name, value) :: members, unclosed, after)

end

/-- What has been read of a text, and the fault of what follows the value, if anything does. -/
def ofText (cs : List Char) : Reading × Option TextFault :=
  match readValue (2 * cs.length + 2) maxDepth cs with
  | (value, none) => (value, none)
  | (value, some rest) =>
    (value, if (afterBlanks rest).isEmpty then none else some .trailingText)

/-! ## What was read as a value -/

mutual

/-- The value, unless a fault was met in it. A repeated name keeps its last value. -/
def toJson : Reading → Except TextFault Json
  | .broken fault => .error fault
  | .null => .ok .null
  | .boolean b => .ok (.boolean b)
  | .number n => .ok (.number n)
  | .string s => .ok (.string s)
  | .array items unclosed => do
    let items ← toItems items
    match unclosed with
    | some fault => .error fault
    | none => return .array items
  | .object members unclosed => do
    let members ← toMembers members
    match unclosed with
    | some fault => .error fault
    | none => return .object (Members.ofList members)

def toItems : List Reading → Except TextFault (List Json)
  | [] => .ok []
  | r :: rest => do
    let v ← toJson r
    let vs ← toItems rest
    return v :: vs

def toMembers : List (String × Reading) → Except TextFault (List (String × Json))
  | [] => .ok []
  | (name, r) :: rest => do
    let v ← toJson r
    let vs ← toMembers rest
    return (name, v) :: vs

end

end Reading

end TemplateLint.Json
