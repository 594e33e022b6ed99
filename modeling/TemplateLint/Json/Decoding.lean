import TemplateLint.Json.Reading
import TemplateLint.Text.Printable

/-!
# Decoding

Making typed data of what has been read. The text may be at fault, or a value
may not be of the type that is wanted; the reason that comes first in the text
is the one that is given.
-/

namespace TemplateLint.Json

/-- What was found where something else was wanted. -/
inductive Found where
  | null
  | boolean (value : Bool)
  | number (value : Number)
  | string (value : String)
  | sequence
  | map
deriving DecidableEq

inductive LoadFault where
  | text (fault : TextFault)
  | wrongType (found : Found) (wanted : String)
  | wrongValue (found : Found) (wanted : String)
  /-- None of the forms of a type fits. -/
  | noForm (type : String)
  | repeated (name : String)
  | unknownName (name : String) (known : List String)
deriving DecidableEq

namespace Found

/-- How a quoted string shows a character. -/
def showChar (c : Char) : List Char :=
  match c with
  | '"' => ['\\', '"']
  | '\\' => ['\\', '\\']
  | '\n' => ['\\', 'n']
  | '\r' => ['\\', 'r']
  | '\t' => ['\\', 't']
  | '\x00' => ['\\', '0']
  | c =>
    if Text.isPrintable c then [c]
    else "\\u\x7b".toList ++ Nat.toDigits 16 c.toNat ++ ['\x7d']

def describe : Found → String
  | null => "null"
  | boolean value => "boolean `" ++ toString value ++ "`"
  | number (.integer n) => "integer `" ++ toString n ++ "`"
  | number (.real x) => "floating point `" ++ Decimal.Layout.json.render x ++ "`"
  | string value => "string \"" ++ String.ofList (value.toList.flatMap showChar) ++ "\""
  | sequence => "sequence"
  | map => "map"

end Found

def quoteName (name : String) : String := "`" ++ name ++ "`"

def LoadFault.message : LoadFault → String
  | .text fault => fault.message
  | .wrongType found wanted => "invalid type: " ++ found.describe ++ ", expected " ++ wanted
  | .wrongValue found wanted => "invalid value: " ++ found.describe ++ ", expected " ++ wanted
  | .noForm type => "data did not match any variant of untagged enum " ++ type
  | .repeated name => "duplicate field " ++ quoteName name
  | .unknownName name known =>
    "unknown variant " ++ quoteName name ++ ", expected one of " ++
      ", ".intercalate (known.map quoteName)

namespace Reading

/-- A value of the wrong type, unless the text is at fault already. -/
def mismatch (wanted : String) : Reading → LoadFault
  | .broken fault => .text fault
  | .null => .wrongType .null wanted
  | .boolean b => .wrongType (.boolean b) wanted
  | .number n => .wrongType (.number n) wanted
  | .string s => .wrongType (.string s) wanted
  | .array _ _ => .wrongType .sequence wanted
  | .object _ _ => .wrongType .map wanted

/-- The fault of a container that was not closed. -/
def closed {α : Type} (unclosed : Option TextFault) (value : α) : Except LoadFault α :=
  match unclosed with
  | some fault => .error (.text fault)
  | none => .ok value

def json (r : Reading) : Except LoadFault Json := r.toJson.mapError .text

def boolean? : Reading → Except LoadFault Bool
  | .boolean b => .ok b
  | r => .error (r.mismatch "a boolean")

def string? : Reading → Except LoadFault String
  | .string s => .ok s
  | r => .error (r.mismatch "a string")

def double? : Reading → Except LoadFault Double
  | .number n => .ok n.toDouble
  | r => .error (r.mismatch "f64")

/-- A list, each of whose items is decoded. -/
def list? {α : Type} (item : Reading → Except LoadFault α) : Reading → Except LoadFault (List α)
  | .array items unclosed => do closed unclosed (← items.mapM item)
  | r => .error (r.mismatch "a sequence")

/-- A value that null stands in for when it is missing. -/
def optional {α : Type} (decode : Reading → Except LoadFault α) :
    Reading → Except LoadFault (Option α)
  | .null => .ok none
  | r => (decode r).map some

end Reading

/-- Decodes a text, which must end behind the value. -/
def load {α : Type} (decode : Reading → Except LoadFault α) (text : List Char) :
    Except LoadFault α := do
  let (r, trailing) := Reading.ofText text
  Reading.closed trailing (← decode r)

end TemplateLint.Json
