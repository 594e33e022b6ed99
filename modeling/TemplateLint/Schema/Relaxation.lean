import TemplateLint.Document
import TemplateLint.Schema

/-!
# Relaxed schemas

Resources are given the properties that the globals of their template list, so
a schema must not require those of the resources themselves. Relaxing a schema
takes the listed names off the required properties of each type they apply to.
-/

namespace TemplateLint

/-- The name of the property that holds a resource's own properties. -/
def resourcePropertiesKey : String := "Properties"

namespace Schema

/-- Requires none of the given names. -/
def dropRequired (names : List String) (s : Schema) : Schema :=
  { s with required := s.required.map (·.filter fun name => !names.contains name) }

/-- Changes one of the named properties. -/
def modifyProperty (name : String) (f : Schema → Schema) (s : Schema) : Schema :=
  { s with properties := s.properties.map (Members.modify · name f) }

/-- Changes one of the definitions. -/
def modifyDefinition (name : String) (f : Schema → Schema) (s : Schema) : Schema :=
  { s with definitions := s.definitions.map (Members.modify · name f) }

/-- Takes names off what the resources of one type have to state. -/
def relaxResource (names : List String) (resourceType : String) (s : Schema) : Schema :=
  s.modifyDefinition resourceType (modifyProperty resourcePropertiesKey (dropRequired names))

/-- Takes the names listed under a key off what the resources of its types have to state. -/
def relaxKey (g : Globals) (s : Schema) (key : GlobalKey) : Schema :=
  key.resourceTypes.foldl (fun s t => s.relaxResource (g.names key) t) s

def relax (g : Globals) (s : Schema) : Schema := GlobalKey.all.foldl (relaxKey g) s

end Schema

namespace ResolvedSchema

/-- The relaxed schema, if there is anything to relax: globals, and definitions they apply to. -/
def relax? (g : Globals) (s : ResolvedSchema) : Option ResolvedSchema :=
  if g.isEmpty || s.schema.definitions.isNone then none
  else some { s with schema := s.schema.relax g }

def relax (g : Globals) (s : ResolvedSchema) : ResolvedSchema := (s.relax? g).getD s

end ResolvedSchema

end TemplateLint
