import TemplateLint.Diagnostic
import TemplateLint.Schema

/-!
# Problems

What can be wrong with a template that is checked against a schema. A problem
has a cause, the node at which it was found and a place in the source.
-/

namespace TemplateLint

namespace Problem

inductive Cause where
  | wrongType (wanted : SchemaType)
  | notAccepted (values : List Json)
  | notConstant (value : Json)
  | missingProperty (name : String)
  | notDivisible (divisor : Double)
  | belowMinimum (minimum : Double)
  | belowExclusiveMinimum (minimum : Double)
  | aboveMaximum (maximum : Double)
  | aboveExclusiveMaximum (maximum : Double)
  /-- A reference of the schema could not be resolved. -/
  | unresolvedReference (reason : String)
  | unknownResourceType (name : String)

namespace Cause

def rule : Cause → String
  | wrongType _ => "type"
  | notAccepted _ => "enum"
  | notConstant _ => "const"
  | missingProperty _ => "required"
  | notDivisible _ => "multiple-of"
  | belowMinimum _ => "minimum"
  | belowExclusiveMinimum _ => "exclusive-minimum"
  | aboveMaximum _ => "maximum"
  | aboveExclusiveMaximum _ => "exclusive-maximum"
  | unresolvedReference _ => "schema-resolution"
  | unknownResourceType _ => "unknown-resource-type"

def severity : Cause → Severity
  | unresolvedReference _ => .warning
  | unknownResourceType _ => .hint
  | _ => .error

def describeType : SchemaType → String
  | .single name => "Expected \"" ++ name ++ "\"."
  | .multiple names => "Expected one of " ++ ", ".intercalate names ++ "."

def number (x : Double) : String := Decimal.Layout.message.render x

def message : Cause → String
  | wrongType wanted => "Incorrect type. " ++ describeType wanted
  | notAccepted values =>
    "Value is not accepted. Valid values: " ++ ", ".intercalate (values.map Json.render) ++ "."
  | notConstant value => "Value must be " ++ value.render ++ "."
  | missingProperty name => "Missing property \"" ++ name ++ "\"."
  | notDivisible divisor => "Value is not divisible by " ++ number divisor ++ "."
  | belowMinimum x => "Value is below the minimum of " ++ number x ++ "."
  | belowExclusiveMinimum x => "Value is below the exclusive minimum of " ++ number x ++ "."
  | aboveMaximum x => "Value is above the maximum of " ++ number x ++ "."
  | aboveExclusiveMaximum x => "Value is above the exclusive maximum of " ++ number x ++ "."
  | unresolvedReference reason => "Problems loading reference: " ++ reason
  | unknownResourceType name =>
    "No schema definition for resource type \"" ++ name ++ "\"; its properties are not checked."

end Cause

end Problem

structure Problem where
  cause : Problem.Cause
  /-- The number of the node at which the problem was found. -/
  node : Nat
  span : Span

namespace Problem

def diagnostic (p : Problem) : Diagnostic :=
  ⟨p.cause.severity, some p.cause.rule, p.cause.message, [⟨"", p.span⟩]⟩

@[simp] theorem location_diagnostic (p : Problem) : p.diagnostic.location = some p.span := rfl

end Problem

end TemplateLint
