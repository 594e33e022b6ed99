import TemplateLint.Conformance
import TemplateLint.Options
import TemplateLint.Schema.Relaxation

/-!
# Analysis of templates

The analysis of a template checks it as a whole against a schema, and each of
its resources against the definition of the resource's type. The globals of
the template relax the schema first, unless the options say otherwise.
-/

namespace TemplateLint

namespace Analysis

def resourcesKey : String := "Resources"

def resourceTypeKey : String := "Type"

/-- The problems of one resource. A resource whose type the schema does not define is passed over,
with a hint if it defines any. -/
def resourceProblems (s : Schema) (resource : Value) : List Problem :=
  match resource.member? resourceTypeKey with
  | none => []
  | some typeValue =>
    match typeValue.text? with
    | none => []
    | some name =>
      match s.definition? name with
      | some definition => Conformance.problems Conformance.everyNode definition resource
      | none =>
        if s.definitions.isSome then
          [⟨.unknownResourceType name, typeValue.id, typeValue.span⟩]
        else []

/-- The resources that a template declares, in document order. -/
def resources (root : Value) : List Value :=
  (((root.member? resourcesKey).bind Value.properties?).getD []).filterMap (·.value)

/-- Where problems of the schema itself are shown: the first byte of the template's value. -/
def resolutionSpan (root : Value) : Span := .ofLength root.span.start (min root.span.length 1)

def resolutionProblems (s : ResolvedSchema) (root : Value) : List Problem :=
  s.errors.map fun reason => ⟨.unresolvedReference reason, root.id, resolutionSpan root⟩

/-- The problems of a template's value: with the schema, as a whole, and resource by resource. -/
def rootProblems (validateResources : Bool) (s : ResolvedSchema) (root : Value) : List Problem :=
  resolutionProblems s root ++
    Conformance.problems Conformance.everyNode s.schema root ++
    (if validateResources then (resources root).flatMap (resourceProblems s.schema) else [])

/-- The document as the options have it: of the type they force, and with its globals collected. -/
def prepare (o : Options) (d : Document) : Document :=
  let d : Document := { d with type := o.documentType.getD d.type }
  { d with globals := d.collectGlobals }

/-- The problems of a prepared document. Without a schema, or without a value, there are none. -/
def problems (o : Options) (d : Document) (schema : Option ResolvedSchema) : List Problem :=
  match d.root, schema with
  | some root, some s =>
    rootProblems o.validateResources (if o.applyGlobals then s.relax d.globals else s) root
  | _, _ => []

end Analysis

/-- Analyzes a document; its type and its globals are left as the options have them. -/
def Document.analyze (d : Document) (o : Options) (schema : Option ResolvedSchema) :
    Document × List Problem :=
  let d := Analysis.prepare o d
  (d, Analysis.problems o d schema)

end TemplateLint
