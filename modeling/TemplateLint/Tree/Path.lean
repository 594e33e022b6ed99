import TemplateLint.Tree
import TemplateLint.Json

/-!
# Paths and values of trees

A path leads from a node to one below it. Where an object repeats a key, a
path takes the first property with it, and the value of an object is looked up
at the last. A tree denotes a JSON value; what could not be read of it is left
out.
-/

namespace TemplateLint

/-- The node one step below a value. -/
def Value.step? : Segment → Value → Option Node
  | .key name, .object _ _ properties => (properties.find? (·.key = name)).map .property
  | .index position, .array _ _ items => items[position]?.map .value
  | _, _ => none

/-- The node at the end of a path; a property on the way is left for its value. -/
def Node.follow? : List Segment → Node → Option Node
  | [], n => some n
  | s :: rest, n => do
    let v ← n.value?
    let m ← v.step? s
    m.follow? rest

/-- The value of the last property with a key. -/
def Value.member? (v : Value) (key : String) : Option Value := do
  let properties ← v.properties?
  let p ← properties.reverse.find? (·.key = key)
  p.value

/-! ## JSON values -/

/-- An integer literal denotes an integer if 64 bits hold it. -/
def numberJson? (value : Double) (isInteger : Bool) : Option Json :=
  match isInteger, value.toInt? (.pow 2 63) with
  | true, some n => some (.number (.integer n))
  | _, _ => if value.isFinite then some (.number (.real value)) else none

def Scalar.toJson? : Scalar → Option Json
  | .string text => some (.string text)
  | .number value isInteger => numberJson? value isInteger
  | .boolean value => some (.boolean value)
  | .null => some .null

mutual

/-- The JSON value of a tree. A malformed number has none; a property without a value is left out,
and an item without one is null. -/
def Value.toJson? : Value → Option Json
  | .object _ _ properties => some (.object (Members.ofList (propertiesJson properties)))
  | .array _ _ items => some (.array (itemsJson items))
  | .scalar _ _ content => content.toJson?

def propertiesJson : List (PropertyOf Value) → List (String × Json)
  | [] => []
  | ⟨_, _, _, _, none⟩ :: rest => propertiesJson rest
  | ⟨_, _, key, _, some v⟩ :: rest =>
    match v.toJson? with
    | some json => (key, json) :: propertiesJson rest
    | none => propertiesJson rest

def itemsJson : List Value → List Json
  | [] => []
  | v :: rest => v.toJson?.getD .null :: itemsJson rest

end

def Node.toJson? (n : Node) : Option Json := n.value?.bind Value.toJson?

end TemplateLint
