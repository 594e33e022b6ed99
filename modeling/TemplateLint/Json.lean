import TemplateLint.Members
import TemplateLint.Decimal.Layout

/-!
# JSON values

The values that templates denote and schemas hold. Members of an object keep
the order in which their names were first written. Numbers are integers or
binary64 numbers, and two values are the same when they differ at most in
which of the two they use and in the order of members.
-/

namespace TemplateLint

/-- An integer has no fraction and no exponent, and any other number has one of them. -/
inductive Number where
  | integer (value : Int)
  | real (value : Double)
deriving DecidableEq

def Number.toDouble : Number → Double
  | .integer n => .ofInt n
  | .real x => x

inductive Json where
  | null
  | boolean (value : Bool)
  | number (value : Number)
  | string (value : String)
  | array (items : List Json)
  | object (members : List (String × Json))

namespace Json

/-! ## Sameness -/

mutual

/-- Whether two values are the same: numbers by value, objects whatever their order. -/
def same : Json → Json → Bool
  | .null, .null => true
  | .boolean a, .boolean b => a == b
  | .number a, .number b => a.toDouble.sameValue b.toDouble
  | .string a, .string b => a == b
  | .array as, .array bs => sameItems as bs
  | .object as, .object bs => as.length == bs.length && sameMembers as bs
  | _, _ => false

def sameItems : List Json → List Json → Bool
  | [], [] => true
  | a :: as, b :: bs => same a b && sameItems as bs
  | _, _ => false

/-- Each member of the first list has a namesake in the second with the same value. -/
def sameMembers : List (String × Json) → List (String × Json) → Bool
  | [], _ => true
  | (name, a) :: as, bs =>
    (match Members.get? bs name with
      | some b => same a b
      | none => false) && sameMembers as bs

end

/-! ## Text -/

def hexDigit (n : Nat) : Char := Nat.digitChar n

/-- How a string literal writes a character. -/
def escapeChar (c : Char) : List Char :=
  match c with
  | '"' => ['\\', '"']
  | '\\' => ['\\', '\\']
  | '\x08' => ['\\', 'b']
  | '\x0c' => ['\\', 'f']
  | '\n' => ['\\', 'n']
  | '\r' => ['\\', 'r']
  | '\t' => ['\\', 't']
  | c =>
    if c.toNat < 0x20 then ['\\', 'u', '0', '0', hexDigit (c.toNat / 16), hexDigit (c.toNat % 16)]
    else [c]

def quote (s : String) : List Char := '"' :: (s.toList.flatMap escapeChar ++ ['"'])

def numberText : Number → List Char
  | .integer n => (toString n).toList
  | .real x => (Decimal.Layout.json.render x).toList

mutual

/-- The compact text of a value: no blanks, members in their order. -/
def toText : Json → List Char
  | .null => "null".toList
  | .boolean true => "true".toList
  | .boolean false => "false".toList
  | .number n => numberText n
  | .string s => quote s
  | .array items => '[' :: (itemsText items ++ [']'])
  | .object members => '\x7b' :: (membersText members ++ ['\x7d'])

def itemsText : List Json → List Char
  | [] => []
  | [v] => toText v
  | v :: rest => toText v ++ ',' :: itemsText rest

def membersText : List (String × Json) → List Char
  | [] => []
  | [(name, v)] => quote name ++ ':' :: toText v
  | (name, v) :: rest => quote name ++ ':' :: (toText v ++ ',' :: membersText rest)

end

def render (v : Json) : String := String.ofList v.toText

/-- The member of an object, if the value is one and has it. -/
def member? : Json → String → Option Json
  | .object members, name => Members.get? members name
  | _, _ => none

def string? : Json → Option String
  | .string s => some s
  | _ => none

def strings (ss : List String) : Json := .array (ss.map .string)

end Json

example : (Json.object [("a", .array [.null, .number (.integer (-1))])]).render =
    "\x7b\"a\":[null,-1]\x7d" := by decide

end TemplateLint
