import TemplateLint.Conformance

/-!
# Validating into a result

A validator is handed the problems that have been found so far and adds those
of a node behind them, one demand of the schema after the other. It goes down
the tree in document order and hands the result on from value to value.
-/

namespace TemplateLint.Validator

open Conformance (numberType)

/-- Work that adds to the problems found so far, which stand in the order they were found. -/
abbrev Adding := StateM (List Diagnostic) Unit

/-- Adds a problem at a node. -/
def add (n : Node) (cause : Problem.Cause) : Adding :=
  modify (· ++ [Problem.diagnostic ⟨cause, n.id, n.span⟩])

/-- Adds a problem unless a node meets a demand. -/
def demand (n : Node) (met : Bool) (cause : Problem.Cause) : Adding :=
  if met then pure () else add n cause

/-- Makes a demand on a node if a schema has the keyword for it. -/
def demandOf {α : Type} (n : Node) (keyword : Option α) (met : α → Bool)
    (cause : α → Problem.Cause) : Adding :=
  match keyword with
  | some a => demand n (met a) (cause a)
  | none => pure ()

/-- The demands on the value of a node as a whole. -/
def validateWhole (s : Schema) (n : Node) : Adding :=
  match n.toJson? with
  | none => pure ()
  | some json => do
    demandOf n s.enum (·.any (·.same json)) .notAccepted
    demandOf n s.const (·.same json) .notConstant

/-- The demands on a node of any kind, whose type goes by the given name. -/
def validateBase (s : Schema) (typeName : String) (n : Node) : Adding := do
  demandOf n s.type (·.names.contains typeName) .wrongType
  if s.enum.isNone && s.const.isNone then pure () else validateWhole s n

def validateMinimum (s : Schema) (x : Double) (n : Node) : Adding :=
  if s.minimumIsExclusive then demandOf n s.minimum (!x.atMost ·) .belowExclusiveMinimum
  else demandOf n s.minimum (!x.less ·) .belowMinimum

def validateMaximum (s : Schema) (x : Double) (n : Node) : Adding :=
  if s.maximumIsExclusive then demandOf n s.maximum (!·.atMost x) .aboveExclusiveMaximum
  else demandOf n s.maximum (!·.less x) .aboveMaximum

/-- The demands on the size of a number. -/
def validateSize (s : Schema) (x : Double) (n : Node) : Adding := do
  demandOf n s.multipleOf (fun d => (x.remainder d).sameValue .zero) .notDivisible
  validateMinimum s x n
  validateMaximum s x n

def validateNumber (included : Nat → Bool) (s : Schema) (x : Double) (isInteger : Bool)
    (n : Node) : Adding :=
  if included n.id then do
    validateBase s (numberType s isInteger) n
    if x.isNan then pure () else validateSize s x n
  else pure ()

/-- Demands that an object has the properties that it is required to have. -/
def validateRequired (names : List String) (ps : List Property) (n : Node) : Adding :=
  forM names fun name => demand n (ps.any (·.key = name)) (.missingProperty name)

mutual

def validateValue (included : Nat → Bool) (s : Schema) : Value → Adding
  | .object id span ps =>
    if included id then do
      validateBase s "object" (.value (.object id span ps))
      validateRequired (s.required.getD []) ps (.value (.object id span ps))
      validateProperties included s ps
    else pure ()
  | .array id span items =>
    if included id then do
      validateBase s "array" (.value (.array id span items))
      match s.items with
      | some t => validateItems included t items
      | none => pure ()
    else pure ()
  | .scalar id span (.number x isInteger) =>
    validateNumber included s x isInteger (.value (.scalar id span (.number x isInteger)))
  | .scalar id span (.string text) =>
    if included id then validateBase s "string" (.value (.scalar id span (.string text)))
    else pure ()
  | .scalar id span (.boolean value) =>
    if included id then validateBase s "boolean" (.value (.scalar id span (.boolean value)))
    else pure ()
  | .scalar id span .null =>
    if included id then validateBase s "null" (.value (.scalar id span .null)) else pure ()

/-- A property whose key the schema does not know is passed over, and so is one without a value. -/
def validateProperties (included : Nat → Bool) (s : Schema) : List (PropertyOf Value) → Adding
  | [] => pure ()
  | ⟨_, _, _, _, none⟩ :: rest => validateProperties included s rest
  | ⟨_, _, key, _, some v⟩ :: rest => do
    (match s.property? key with
      | some t => validateValue included t v
      | none => pure ())
    validateProperties included s rest

def validateItems (included : Nat → Bool) (s : Schema) : List Value → Adding
  | [] => pure ()
  | v :: rest => do
    validateValue included s v
    validateItems included s rest

end

/-- Validates a node and what is below it; a property is left for its value. -/
def validateNode (included : Nat → Bool) (s : Schema) (n : Node) : Adding :=
  match n.value? with
  | some v => validateValue included s v
  | none => pure ()

end TemplateLint.Validator
