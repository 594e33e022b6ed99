import TemplateLint.Schema.Decoding
import TemplateLint.Yaml.Reading
import TemplateLint.Yaml.Scalar

/-!
# Loading schemas from YAML

The keywords are those of a schema in JSON. Where a name is wanted, any scalar
is its own text; a keyword without a meaning here must have texts for names at
every level below it. A schema that is left out has no keywords.
-/

namespace TemplateLint.Schema

open Yaml (Resolved)

/-- A value that may be written as missing. -/
def optionalYaml {α : Type} (decode : Yaml → Option α) (y : Yaml) : Option (Option α) :=
  if y.isNull then some none else (decode y).map some

def stringsOfYaml? : Yaml → Option (List String)
  | .list items => items.mapM Yaml.text?
  | _ => none

def valuesOfYaml? : Yaml → Option (List Json)
  | .list items => items.mapM (Yaml.toJson? Yaml.text?)
  | _ => none

def doubleOfYaml? : Yaml → Option Double
  | .scalar cs true => Yaml.real? cs
  | _ => none

def boundOfYaml? : Yaml → Option ExclusiveBound
  | .scalar cs isPlain =>
    match Yaml.resolve? cs isPlain with
    | some (.boolean b) => some (.flag b)
    | some (.integer n) => some (.limit (.ofInt n))
    | some (.real x) => some (.limit x)
    | _ => none
  | _ => none

def typeOfYaml? (y : Yaml) : Option SchemaType :=
  (y.toJson? Yaml.properText?).bind typeOfJson?

mutual

def ofYaml? : Yaml → Option Schema
  | .map members => ofYamlMembers? [] empty members
  | .scalar [] true => some empty
  | _ => none

/-- Adds the keywords of a map to a schema; `seen` are the known ones that it has. -/
def ofYamlMembers? (seen : List Keyword) (s : Schema) : List (Yaml × Yaml) → Option Schema
  | [] => some s
  | (key, y) :: rest => do
    let name ← key.text?
    match Keyword.ofName? name with
    | none => do
      let v ← y.toJson? Yaml.properText?
      ofYamlMembers? seen { s with extra := Members.put s.extra name v } rest
    | some keyword =>
      if keyword ∈ seen then none
      else do
        let s ←
          match keyword with
          | .type => do
            let v ← optionalYaml typeOfYaml? y
            pure { s with type := v }
          | .definitions => do
            let v ← namedOfYaml? y
            pure { s with definitions := v }
          | .properties => do
            let v ← namedOfYaml? y
            pure { s with properties := v }
          | .required => do
            let v ← optionalYaml stringsOfYaml? y
            pure { s with required := v }
          | .items => do
            let v ← itemsOfYaml? y
            pure { s with items := v }
          | .enum => do
            let v ← optionalYaml valuesOfYaml? y
            pure { s with enum := v }
          | .const => do
            let v ← optionalYaml (Yaml.toJson? Yaml.text?) y
            pure { s with const := v }
          | .multipleOf => do
            let v ← optionalYaml doubleOfYaml? y
            pure { s with multipleOf := v }
          | .minimum => do
            let v ← optionalYaml doubleOfYaml? y
            pure { s with minimum := v }
          | .maximum => do
            let v ← optionalYaml doubleOfYaml? y
            pure { s with maximum := v }
          | .exclusiveMinimum => do
            let v ← optionalYaml boundOfYaml? y
            pure { s with exclusiveMinimum := v }
          | .exclusiveMaximum => do
            let v ← optionalYaml boundOfYaml? y
            pure { s with exclusiveMaximum := v }
        ofYamlMembers? (keyword :: seen) s rest

def namedOfYaml? : Yaml → Option (Option (List (String × Schema)))
  | .map members => (schemasOfYaml? [] members).map some
  | y => if y.isNull then some none else none

/-- Adds named schemas to those already decoded. -/
def schemasOfYaml? (done : List (String × Schema)) :
    List (Yaml × Yaml) → Option (List (String × Schema))
  | [] => some done
  | (key, y) :: rest => do
    let name ← key.text?
    let s ← ofYaml? y
    schemasOfYaml? (Members.put done name s) rest

def itemsOfYaml? : Yaml → Option (Option Schema)
  | .map members => (ofYamlMembers? [] empty members).map some
  | y => if y.isNull then some none else none

end

/-- The schema that a YAML text holds. -/
def ofYamlText? (text : List Char) : Option Schema := (Yaml.ofText? text).bind ofYaml?

example : (ofYamlText? "type: [integer, string]\nminimum: 0.5 # least\n".toList).map render =
    some "\x7b\"type\":[\"integer\",\"string\"],\"minimum\":0.5\x7d" := by decide +kernel

end TemplateLint.Schema
