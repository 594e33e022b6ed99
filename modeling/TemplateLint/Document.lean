import TemplateLint.Tree.Builder
import TemplateLint.Tree.Path

/-!
# Documents

A document is a template's tree with its type and with the globals that have
been collected from it. The type of a template shows in its top-level
properties; only some types of template may declare globals. Each global key
lists the names of the properties that every resource of a certain type is
given without stating them.
-/

namespace TemplateLint

inductive DocumentType where
  | cloudFormation
  | sam
  | unknown
deriving DecidableEq

namespace DocumentType

def all : List DocumentType := [cloudFormation, sam, unknown]

def name : DocumentType → String
  | cloudFormation => "cloudformation"
  | sam => "sam"
  | unknown => "unknown"

/-- Reads the exact name of a type. -/
def ofName? (name : String) : Option DocumentType := all.find? (·.name = name)

def parseFailure : String := "Matching variant not found"

/-- Reads the name of a type in any case. -/
def parse (text : String) : Except String DocumentType :=
  match ofName? (text.map Char.toLower) with
  | some t => .ok t
  | none => .error parseFailure

def supportsGlobals : DocumentType → Bool
  | cloudFormation | sam => true
  | unknown => false

/-- What the names of serverless transforms begin with. -/
def transformStart : String := "AWS::Serverless"

def isServerlessTransform (v : Value) : Bool :=
  match v.text? with
  | some text => transformStart.toList.isPrefixOf text.toList
  | none => false

/-- A transform is named alone or among others. -/
def transforms (v : Value) : List Value := v.items?.getD [v]

end DocumentType

/-! ## Globals -/

inductive GlobalKey where
  | api
  | function
  | simpleTable
deriving DecidableEq

namespace GlobalKey

def all : List GlobalKey := [api, function, simpleTable]

def name : GlobalKey → String
  | api => "Api"
  | function => "Function"
  | simpleTable => "SimpleTable"

def ofName? (name : String) : Option GlobalKey := all.find? (·.name = name)

/-- The types of resources that are given the properties under a key. -/
def resourceTypes : GlobalKey → List String
  | api => ["AWS::Serverless::Api"]
  | function => ["AWS::Serverless::Function"]
  | simpleTable => ["AWS::Serverless::SimpleTable"]

end GlobalKey

/-- The names listed under each key, in document order and with repetitions. -/
structure Globals where
  api : List String
  function : List String
  simpleTable : List String
deriving DecidableEq

namespace Globals

def empty : Globals := ⟨[], [], []⟩

def names (g : Globals) : GlobalKey → List String
  | .api => g.api
  | .function => g.function
  | .simpleTable => g.simpleTable

def append (g : Globals) (key : GlobalKey) (more : List String) : Globals :=
  match key with
  | .api => { g with api := g.api ++ more }
  | .function => { g with function := g.function ++ more }
  | .simpleTable => { g with simpleTable := g.simpleTable ++ more }

def isEmpty (g : Globals) : Bool := GlobalKey.all.all fun key => (g.names key).isEmpty

@[simp] theorem names_append (g : Globals) (key other : GlobalKey) (more : List String) :
    (g.append key more).names other = g.names other ++ (if key = other then more else []) := by
  cases key <;> cases other <;> simp [append, names]

/-- Adds what one property of the globals section lists. Other keys than the known ones, and
values that are no objects, list nothing. -/
def addProperty (g : Globals) (p : Property) : Globals :=
  match GlobalKey.ofName? p.key, p.value.bind Value.properties? with
  | some key, some declared => g.append key (declared.map (·.key))
  | _, _ => g

/-- What a globals section lists. -/
def ofSection (v : Value) : Globals := (v.properties?.getD []).foldl addProperty empty

end Globals

/-! ## Documents -/

structure Document where
  type : DocumentType
  root : Option Value
  globals : Globals

namespace Document

/-- A document of a type with nothing in it. -/
def ofType (type : DocumentType) : Document := ⟨type, none, .empty⟩

def find? (d : Document) (path : List Segment) : Option Node :=
  d.root.bind fun root => (Node.value root).follow? path

/-- The value at the end of a path. -/
def value? (d : Document) (path : List Segment) : Option Value := (d.find? path).bind Node.value?

def entries (d : Document) : List Entry :=
  match d.root with
  | some root => root.entries none none
  | none => []

/-- A serverless transform makes a template a SAM template; resources, or the version of the
format, make it a CloudFormation template. -/
def detectType (d : Document) : DocumentType :=
  let transform := d.value? [.key "Transform"]
  let transforms := (transform.map DocumentType.transforms).getD []
  if transforms.any DocumentType.isServerlessTransform then .sam
  else if (d.find? [.key "AWSTemplateFormatVersion"]).isSome
      || (d.find? [.key "Resources"]).isSome then
    .cloudFormation
  else .unknown

/-- The globals that a document declares. -/
def collectGlobals (d : Document) : Globals :=
  if d.type.supportsGlobals then
    match d.value? [.key "Globals"] with
    | some v => .ofSection v
    | none => .empty
  else .empty

/-- The document of a template's text, with what is wrong with the text. -/
def parse (source : List Char) : Document × List Diagnostic :=
  let (root, faults) := Builder.build source
  let d : Document := ⟨.unknown, root, .empty⟩
  ({ d with type := d.detectType }, faults.map PlacedFault.diagnostic)

end Document

end TemplateLint
