import TemplateLint.Decimal.Numeral
import TemplateLint.Json
import TemplateLint.Yaml

/-!
# Scalars of YAML

A quoted scalar is a text. A plain one may be null, a truth value or a number
by the way it is written; digits behind a needless zero are a text.
-/

namespace TemplateLint.Yaml

inductive Resolved where
  | null
  | boolean (value : Bool)
  | integer (value : Int)
  | real (value : Double)
  | text (value : List Char)
deriving DecidableEq

def isNullWord (cs : List Char) : Bool :=
  cs.isEmpty || ["~", "null", "Null", "NULL"].contains (String.ofList cs)

def boolean? (cs : List Char) : Option Bool :=
  if ["true", "True", "TRUE"].contains (String.ofList cs) then some true
  else if ["false", "False", "FALSE"].contains (String.ofList cs) then some false
  else none

/-! ## Numbers -/

/-- Digits that are no number because a zero stands in front of them. -/
def isPadded (cs : List Char) : Bool :=
  match (Numeral.splitSign cs).2 with
  | '0' :: d :: rest => (d :: rest).all Char.isDigit
  | _ => false

def magnitude? : List Char → Option Nat
  | '0' :: 'x' :: rest => Numeral.natural? 16 rest
  | '0' :: 'o' :: rest => Numeral.natural? 8 rest
  | '0' :: 'b' :: rest => Numeral.natural? 2 rest
  | cs => if isPadded cs then none else Numeral.natural? 10 cs

def integer? (cs : List Char) : Option Int :=
  let (sign, cs) := Numeral.splitSign cs
  (magnitude? cs).map (Double.signed (sign = some '-'))

def real? (cs : List Char) : Option Double :=
  let word := String.ofList cs
  if [".inf", ".Inf", ".INF", "+.inf", "+.Inf", "+.INF"].contains word then some (.infinite false)
  else if ["-.inf", "-.Inf", "-.INF"].contains word then some (.infinite true)
  else if [".nan", ".NaN", ".NAN"].contains word then some .nan
  else (Numeral.double? cs).filter Double.isFinite

/-! ## Resolution -/

/-- What a plain scalar means. An integer of more than 64 bits, but of no more than 128, means
nothing. -/
def resolvePlain? (cs : List Char) : Option Resolved :=
  if isNullWord cs then some .null
  else
    match boolean? cs, integer? cs with
    | some b, _ => some (.boolean b)
    | none, some n =>
      if -.pow 2 63 ≤ n ∧ n < .pow 2 64 then some (.integer n)
      else if -.pow 2 127 ≤ n ∧ n < .pow 2 128 then none
      else some (realOrText cs)
    | none, none => some (realOrText cs)
where
  realOrText (cs : List Char) : Resolved :=
    if isPadded cs then .text cs
    else
      match real? cs with
      | some x => .real x
      | none => .text cs

def resolve? (cs : List Char) (isPlain : Bool) : Option Resolved :=
  if isPlain then resolvePlain? cs else some (.text cs)

/-- The JSON value of a scalar; numbers that JSON has not are null. -/
def Resolved.toJson : Resolved → Json
  | .null => .null
  | .boolean b => .boolean b
  | .integer n => .number (.integer n)
  | .real x => if x.isFinite then .number (.real x) else .null
  | .text cs => .string (.ofList cs)

/-- The text of a scalar, whatever it means. -/
def text? : Yaml → Option String
  | .scalar cs _ => some (.ofList cs)
  | _ => none

/-- The text of a scalar that means a text. -/
def properText? : Yaml → Option String
  | .scalar cs isPlain =>
    match resolve? cs isPlain with
    | some (.text cs) => some (.ofList cs)
    | _ => none
  | _ => none

/-- Whether a value is written as missing. -/
def isNull : Yaml → Bool
  | .scalar cs isPlain => isPlain && isNullWord cs
  | _ => false

mutual

/-- The JSON value of a value, with the names of members as `key` reads them. -/
def toJson? (key : Yaml → Option String) : Yaml → Option Json
  | .scalar cs isPlain => (resolve? cs isPlain).map Resolved.toJson
  | .list items => (toItems? key items).map .array
  | .map members => (toMembers? key members).map fun ms => .object (Members.ofList ms)

def toItems? (key : Yaml → Option String) : List Yaml → Option (List Json)
  | [] => some []
  | y :: rest => do
    let v ← toJson? key y
    let vs ← toItems? key rest
    return v :: vs

def toMembers? (key : Yaml → Option String) : List (Yaml × Yaml) → Option (List (String × Json))
  | [] => some []
  | (k, y) :: rest => do
    let name ← key k
    let v ← toJson? key y
    let vs ← toMembers? key rest
    return (name, v) :: vs

end

end TemplateLint.Yaml
