import TemplateLint.Json

/-!
# Schemas

The part of JSON Schema that templates are checked against. A dozen keywords
have a meaning here; every other keyword is kept as it stands. A resolved
schema also carries what went wrong while its references were resolved.
-/

namespace TemplateLint

inductive SchemaType where
  | single (name : String)
  | multiple (names : List String)
deriving DecidableEq

def SchemaType.names : SchemaType → List String
  | single name => [name]
  | multiple names => names

/-- An exclusive bound is a flag that sharpens the bound beside it, or a limit of its own. -/
inductive ExclusiveBound where
  | flag (value : Bool)
  | limit (value : Double)
deriving DecidableEq

namespace ExclusiveBound

/-- A limit counts as a flag that is set, unless it is zero. -/
def isSet : ExclusiveBound → Bool
  | flag value => value
  | limit value => !value.sameValue .zero && !value.isNan

def same : ExclusiveBound → ExclusiveBound → Bool
  | flag a, flag b => a == b
  | limit a, limit b => a.sameValue b
  | _, _ => false

end ExclusiveBound

structure Schema where
  type : Option SchemaType
  definitions : Option (List (String × Schema))
  properties : Option (List (String × Schema))
  required : Option (List String)
  items : Option Schema
  enum : Option (List Json)
  const : Option Json
  multipleOf : Option Double
  minimum : Option Double
  maximum : Option Double
  exclusiveMinimum : Option ExclusiveBound
  exclusiveMaximum : Option ExclusiveBound
  /-- The other keywords, in their order. -/
  extra : List (String × Json)

namespace Schema

/-- The schema without keywords. -/
def empty : Schema :=
  ⟨none, none, none, none, none, none, none, none, none, none, none, none, []⟩

def allowsType (s : Schema) (name : String) : Bool := s.type.any (·.names.contains name)

/-- Whether the schema speaks of integers apart from other numbers. -/
def allowsIntegers (s : Schema) : Bool := s.allowsType "integer"

def definition? (s : Schema) (name : String) : Option Schema :=
  s.definitions.bind (Members.get? · name)

def property? (s : Schema) (name : String) : Option Schema :=
  s.properties.bind (Members.get? · name)

def minimumIsExclusive (s : Schema) : Bool := s.exclusiveMinimum.any ExclusiveBound.isSet

def maximumIsExclusive (s : Schema) : Bool := s.exclusiveMaximum.any ExclusiveBound.isSet

/-! ## Text -/

/-- A keyword that is present, with its value. -/
def written {α : Type} (name : String) (f : α → Json) (value : Option α) : List (String × Json) :=
  (value.map fun v => (name, f v)).toList

def doubleJson (x : Double) : Json := .number (.real x)

def typeJson : SchemaType → Json
  | .single name => .string name
  | .multiple names => .strings names

def boundJson : ExclusiveBound → Json
  | .flag value => .boolean value
  | .limit value => doubleJson value

mutual

/-- The JSON value of a schema: the known keywords in a fixed order, then the others. -/
def toJson : Schema → Json
  | ⟨type, definitions, properties, required, items, enum, const, multipleOf, minimum, maximum,
      exclusiveMinimum, exclusiveMaximum, extra⟩ =>
    .object (written "type" typeJson type ++
      namedJson "definitions" definitions ++
      namedJson "properties" properties ++
      written "required" Json.strings required ++
      itemsJson items ++
      written "enum" Json.array enum ++
      written "const" id const ++
      written "multipleOf" doubleJson multipleOf ++
      written "minimum" doubleJson minimum ++
      written "maximum" doubleJson maximum ++
      written "exclusiveMinimum" boundJson exclusiveMinimum ++
      written "exclusiveMaximum" boundJson exclusiveMaximum ++
      extra)

def namedJson (name : String) : Option (List (String × Schema)) → List (String × Json)
  | none => []
  | some schemas => [(name, .object (schemasJson schemas))]

def schemasJson : List (String × Schema) → List (String × Json)
  | [] => []
  | (name, s) :: rest => (name, s.toJson) :: schemasJson rest

def itemsJson : Option Schema → List (String × Json)
  | none => []
  | some s => [("items", s.toJson)]

end

def render (s : Schema) : String := s.toJson.render

/-! ## Sameness -/

/-- Whether two optional values are both missing, or are both there and the same. -/
def sameOption {α : Type} (same : α → α → Bool) : Option α → Option α → Bool
  | none, none => true
  | some a, some b => same a b
  | _, _ => false

mutual

/-- Whether two schemas are the same: numbers by value, named parts whatever their order. -/
def same : Schema → Schema → Bool
  | ⟨type, definitions, properties, required, items, enum, const, multipleOf, minimum, maximum,
      exclusiveMinimum, exclusiveMaximum, extra⟩, s =>
    type == s.type && sameNamed definitions s.definitions && sameNamed properties s.properties &&
      required == s.required && sameItems items s.items &&
      sameOption Json.sameItems enum s.enum && sameOption Json.same const s.const &&
      sameOption Double.sameValue multipleOf s.multipleOf &&
      sameOption Double.sameValue minimum s.minimum &&
      sameOption Double.sameValue maximum s.maximum &&
      sameOption ExclusiveBound.same exclusiveMinimum s.exclusiveMinimum &&
      sameOption ExclusiveBound.same exclusiveMaximum s.exclusiveMaximum &&
      extra.length == s.extra.length && Json.sameMembers extra s.extra

def sameNamed : Option (List (String × Schema)) → Option (List (String × Schema)) → Bool
  | none, none => true
  | some a, some b => a.length == b.length && sameSchemas a b
  | _, _ => false

def sameSchemas : List (String × Schema) → List (String × Schema) → Bool
  | [], _ => true
  | (name, a) :: rest, others =>
    (match Members.get? others name with
      | some b => same a b
      | none => false) && sameSchemas rest others

def sameItems : Option Schema → Option Schema → Bool
  | none, none => true
  | some a, some b => same a b
  | _, _ => false

end

end Schema

/-- A schema with what went wrong while its references were resolved. -/
structure ResolvedSchema where
  schema : Schema
  errors : List String

def ResolvedSchema.same (a b : ResolvedSchema) : Bool :=
  a.schema.same b.schema && a.errors == b.errors

end TemplateLint
