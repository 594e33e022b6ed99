import TemplateLint.Problem
import TemplateLint.Tree.Path

/-!
# Conformance

The problems of a tree with a schema. A node's own problems come first, then
those of the values below it in document order; a value is checked against the
schema that its key or its array gives it. A predicate on the numbers of nodes
says which values take part: the others are passed over with all that is below
them.
-/

namespace TemplateLint

namespace Conformance

/-- The cause, unless a condition holds. -/
def require (condition : Bool) (cause : Problem.Cause) : List Problem.Cause :=
  if condition then [] else [cause]

def typeCauses (s : Schema) (typeName : String) : List Problem.Cause :=
  match s.type with
  | some type => require (type.names.contains typeName) (.wrongType type)
  | none => []

/-- The demands that a schema makes on the value as a whole. What has no value meets them. -/
def valueCauses (s : Schema) (json : Option Json) : List Problem.Cause :=
  match json with
  | none => []
  | some json =>
    (match s.enum with
      | some values => require (values.any (·.same json)) (.notAccepted values)
      | none => []) ++
    (match s.const with
      | some value => require (value.same json) (.notConstant value)
      | none => [])

/-- The causes that any node can give under a schema, whose type goes by the given name. -/
def commonCauses (s : Schema) (typeName : String) (n : Node) : List Problem.Cause :=
  typeCauses s typeName ++
    (if s.enum.isNone && s.const.isNone then [] else valueCauses s n.toJson?)

def minimumCauses (s : Schema) (x : Double) : List Problem.Cause :=
  match s.minimum with
  | none => []
  | some bound =>
    if s.minimumIsExclusive then require (!x.atMost bound) (.belowExclusiveMinimum bound)
    else require (!x.less bound) (.belowMinimum bound)

def maximumCauses (s : Schema) (x : Double) : List Problem.Cause :=
  match s.maximum with
  | none => []
  | some bound =>
    if s.maximumIsExclusive then require (!bound.atMost x) (.aboveExclusiveMaximum bound)
    else require (!bound.less x) (.aboveMaximum bound)

def divisorCauses (s : Schema) (x : Double) : List Problem.Cause :=
  match s.multipleOf with
  | none => []
  | some divisor => require ((x.remainder divisor).sameValue .zero) (.notDivisible divisor)

/-- The demands on the size of a number. A malformed number meets them all. -/
def sizeCauses (s : Schema) (x : Double) : List Problem.Cause :=
  if x.isNan then [] else divisorCauses s x ++ minimumCauses s x ++ maximumCauses s x

/-- What a number is called: a literal without a fraction is an integer where the schema speaks of
integers. -/
def numberType (s : Schema) (isInteger : Bool) : String :=
  if s.allowsIntegers && isInteger then "integer" else "number"

def missingCauses (s : Schema) (properties : List Property) : List Problem.Cause :=
  ((s.required.getD []).filter fun name => !properties.any (·.key = name)).map .missingProperty

/-- The causes of a number at a node. -/
def numberCauses (s : Schema) (x : Double) (isInteger : Bool) (n : Node) : List Problem.Cause :=
  commonCauses s (numberType s isInteger) n ++ sizeCauses s x

/-- The causes that a value gives by itself. -/
def ownCauses (s : Schema) (v : Value) : List Problem.Cause :=
  match v with
  | .object _ _ properties => commonCauses s "object" (.value v) ++ missingCauses s properties
  | .array _ _ _ => commonCauses s "array" (.value v)
  | .scalar _ _ (.string _) => commonCauses s "string" (.value v)
  | .scalar _ _ (.number x isInteger) => numberCauses s x isInteger (.value v)
  | .scalar _ _ (.boolean _) => commonCauses s "boolean" (.value v)
  | .scalar _ _ .null => commonCauses s "null" (.value v)

def problemsAt (n : Node) (causes : List Problem.Cause) : List Problem :=
  causes.map fun cause => ⟨cause, n.id, n.span⟩

def ownProblems (s : Schema) (v : Value) : List Problem := problemsAt (.value v) (ownCauses s v)

/-- The problems of a node that is taken for a number. -/
def numberProblems (included : Nat → Bool) (s : Schema) (x : Double) (isInteger : Bool) (n : Node) :
    List Problem :=
  if included n.id then problemsAt n (numberCauses s x isInteger n) else []

mutual

/-- The problems of a value and of the values below it. -/
def problems (included : Nat → Bool) (s : Schema) : Value → List Problem
  | .object id span properties =>
    if included id then
      ownProblems s (.object id span properties) ++ propertyProblems included s properties
    else []
  | .array id span items =>
    if included id then
      ownProblems s (.array id span items) ++
        (match s.items with
          | some t => itemProblems included t items
          | none => [])
    else []
  | .scalar id span content =>
    if included id then ownProblems s (.scalar id span content) else []

/-- The problems of the values of an object's properties. -/
def propertyProblems (included : Nat → Bool) (s : Schema) : List (PropertyOf Value) → List Problem
  | [] => []
  | ⟨_, _, _, _, none⟩ :: rest => propertyProblems included s rest
  | ⟨_, _, key, _, some v⟩ :: rest =>
    (match s.property? key with
      | some t => problems included t v
      | none => []) ++ propertyProblems included s rest

def itemProblems (included : Nat → Bool) (s : Schema) : List Value → List Problem
  | [] => []
  | v :: rest => problems included s v ++ itemProblems included s rest

end

/-- The problems of a node; those of a property are those of its value. -/
def nodeProblems (included : Nat → Bool) (s : Schema) (n : Node) : List Problem :=
  match n.value? with
  | some v => problems included s v
  | none => []

/-- Every node takes part. -/
def everyNode : Nat → Bool := fun _ => true

end Conformance

end TemplateLint
