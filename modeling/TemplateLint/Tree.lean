import TemplateLint.Double
import TemplateLint.Span

/-!
# Trees

The tree of a template: values, and the properties of objects. Values and
properties are numbered in the order in which they begin in the source, and
every one knows the span of text it was read from. A tree can be seen as the
list of its nodes, each with its parent and the step that leads to it.
-/

namespace TemplateLint

/-- A step from a node to one below it. -/
inductive Segment where
  | key (name : String)
  | index (position : Nat)
deriving DecidableEq

def Segment.render : Segment → String
  | .key name => name
  | .index position => "[" ++ toString position ++ "]"

inductive Scalar where
  | string (text : String)
  /-- A literal that is no number has the value NaN. -/
  | number (value : Double) (isInteger : Bool)
  | boolean (value : Bool)
  | null
deriving DecidableEq

/-- A property whose values are of a given type; the value may be missing. -/
structure PropertyOf (V : Type) where
  id : Nat
  span : Span
  key : String
  keySpan : Span
  value : Option V

inductive Value where
  | object (id : Nat) (span : Span) (properties : List (PropertyOf Value))
  | array (id : Nat) (span : Span) (items : List Value)
  | scalar (id : Nat) (span : Span) (content : Scalar)

abbrev Property := PropertyOf Value

/-- What a path can lead to. -/
inductive Node where
  | value (value : Value)
  | property (property : Property)

namespace Value

def id : Value → Nat
  | object id _ _ => id
  | array id _ _ => id
  | scalar id _ _ => id

def span : Value → Span
  | object _ span _ => span
  | array _ span _ => span
  | scalar _ span _ => span

/-- The properties of an object; other values have none. -/
def properties? : Value → Option (List Property)
  | object _ _ properties => some properties
  | _ => none

def items? : Value → Option (List Value)
  | array _ _ items => some items
  | _ => none

def text? : Value → Option String
  | scalar _ _ (.string text) => some text
  | _ => none

/-- Whether a value is an object. -/
def isObject (v : Value) : Bool := v.properties?.isSome

end Value

namespace Node

def id : Node → Nat
  | value v => v.id
  | property p => p.id

def span : Node → Span
  | value v => v.span
  | property p => p.span

/-- The value that a node is or has. -/
def value? : Node → Option Value
  | value v => some v
  | property p => p.value

/-- The numbers of the nodes directly below a node. -/
def children : Node → List Nat
  | value (.object _ _ properties) => properties.map (·.id)
  | value (.array _ _ items) => items.map Value.id
  | value (.scalar _ _ _) => []
  | property p => (p.value.map Value.id).toList

end Node

/-- A node with its parent and the step that leads to it; the root has neither. -/
structure Entry where
  parent : Option Nat
  segment : Option Segment
  node : Node

mutual

/-- The nodes of a value, in the order of their numbers. -/
def Value.entries (parent : Option Nat) (segment : Option Segment) : Value → List Entry
  | .object id span properties =>
    ⟨parent, segment, .value (.object id span properties)⟩ :: propertyEntries id properties
  | .array id span items =>
    ⟨parent, segment, .value (.array id span items)⟩ :: itemEntries id 0 items
  | .scalar id span content => [⟨parent, segment, .value (.scalar id span content)⟩]

def propertyEntries (owner : Nat) : List (PropertyOf Value) → List Entry
  | [] => []
  | ⟨id, span, key, keySpan, none⟩ :: rest =>
    ⟨some owner, some (.key key), .property ⟨id, span, key, keySpan, none⟩⟩ ::
      propertyEntries owner rest
  | ⟨id, span, key, keySpan, some v⟩ :: rest =>
    ⟨some owner, some (.key key), .property ⟨id, span, key, keySpan, some v⟩⟩ ::
      (v.entries (some id) (some (.key key)) ++ propertyEntries owner rest)

def itemEntries (owner : Nat) (index : Nat) : List Value → List Entry
  | [] => []
  | v :: rest => v.entries (some owner) (some (.index index)) ++ itemEntries owner (index + 1) rest

end

end TemplateLint
