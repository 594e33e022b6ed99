import TemplateLint.Json.Decoding
import TemplateLint.Schema

/-!
# Loading schemas from JSON

The known keywords are decoded in the order in which they stand; a known
keyword may stand only once, and one that is null counts as missing. Of an
unknown keyword that is repeated the last value counts.
-/

namespace TemplateLint.Schema

open Json (Reading LoadFault)

/-- The keywords that have a meaning. -/
inductive Keyword where
  | type
  | definitions
  | properties
  | required
  | items
  | enum
  | const
  | multipleOf
  | minimum
  | maximum
  | exclusiveMinimum
  | exclusiveMaximum
deriving DecidableEq

namespace Keyword

def name : Keyword → String
  | type => "type"
  | definitions => "definitions"
  | properties => "properties"
  | required => "required"
  | items => "items"
  | enum => "enum"
  | const => "const"
  | multipleOf => "multipleOf"
  | minimum => "minimum"
  | maximum => "maximum"
  | exclusiveMinimum => "exclusiveMinimum"
  | exclusiveMaximum => "exclusiveMaximum"

def all : List Keyword :=
  [type, definitions, properties, required, items, enum, const, multipleOf, minimum, maximum,
    exclusiveMinimum, exclusiveMaximum]

def ofName? (name : String) : Option Keyword := all.find? (·.name = name)

end Keyword

/-- The forms of a type: a name, or a list of names. -/
def typeOfJson? : Json → Option SchemaType
  | .string name => some (.single name)
  | .array items => (items.mapM Json.string?).map .multiple
  | _ => none

def boundOfJson? : Json → Option ExclusiveBound
  | .boolean value => some (.flag value)
  | .number n => some (.limit n.toDouble)
  | _ => none

/-- Decodes a value that has several forms; it is read to its end before a form is chosen. -/
def oneForm {α : Type} (type : String) (form : Json → Option α) (r : Reading) :
    Except LoadFault α := do
  match form (← r.json) with
  | some a => return a
  | none => .error (.noForm type)

def boundOfReading : Reading → Except LoadFault (Option ExclusiveBound) :=
  Reading.optional (oneForm "ExclusiveBound" boundOfJson?)

mutual

def ofReading : Reading → Except LoadFault Schema
  | .object members unclosed => do Reading.closed unclosed (← ofMembers [] empty members)
  | r => .error (r.mismatch "struct JsonSchema")

/-- Adds the keywords of a list to a schema; `seen` are the known ones that it has. -/
def ofMembers (seen : List Keyword) (s : Schema) :
    List (String × Reading) → Except LoadFault Schema
  | [] => .ok s
  | (name, r) :: rest =>
    match Keyword.ofName? name with
    | none => do
      let v ← r.json
      ofMembers seen { s with extra := Members.put s.extra name v } rest
    | some keyword =>
      if keyword ∈ seen then .error (.repeated name)
      else do
        let s ←
          match keyword with
          | .type => do
            let v ← r.optional (oneForm "SchemaType" typeOfJson?)
            pure { s with type := v }
          | .definitions => do
            let v ← namedOfReading r
            pure { s with definitions := v }
          | .properties => do
            let v ← namedOfReading r
            pure { s with properties := v }
          | .required => do
            let v ← r.optional (Reading.list? Reading.string?)
            pure { s with required := v }
          | .items => do
            let v ← itemsOfReading r
            pure { s with items := v }
          | .enum => do
            let v ← r.optional (Reading.list? Reading.json)
            pure { s with enum := v }
          | .const => do
            let v ← r.optional Reading.json
            pure { s with const := v }
          | .multipleOf => do
            let v ← r.optional Reading.double?
            pure { s with multipleOf := v }
          | .minimum => do
            let v ← r.optional Reading.double?
            pure { s with minimum := v }
          | .maximum => do
            let v ← r.optional Reading.double?
            pure { s with maximum := v }
          | .exclusiveMinimum => do
            let v ← boundOfReading r
            pure { s with exclusiveMinimum := v }
          | .exclusiveMaximum => do
            let v ← boundOfReading r
            pure { s with exclusiveMaximum := v }
        ofMembers (keyword :: seen) s rest

def namedOfReading : Reading → Except LoadFault (Option (List (String × Schema)))
  | .null => .ok none
  | .object members unclosed => do Reading.closed unclosed (some (← schemasOfMembers [] members))
  | r => .error (r.mismatch "a map")

/-- Adds named schemas to those already decoded. -/
def schemasOfMembers (done : List (String × Schema)) :
    List (String × Reading) → Except LoadFault (List (String × Schema))
  | [] => .ok done
  | (name, r) :: rest => do
    let s ← ofReading r
    schemasOfMembers (Members.put done name s) rest

def itemsOfReading : Reading → Except LoadFault (Option Schema)
  | .null => .ok none
  | .object members unclosed => do
    Reading.closed unclosed (some (← ofMembers [] empty members))
  | r => .error (r.mismatch "struct JsonSchema")

end

/-- The schema that a JSON text holds. -/
def ofJsonText (text : List Char) : Except LoadFault Schema := Json.load ofReading text

end TemplateLint.Schema
