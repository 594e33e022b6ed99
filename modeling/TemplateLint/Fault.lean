import TemplateLint.Diagnostic
import TemplateLint.Lexeme

/-!
# Syntax faults

What can be wrong with the text of a template. A fault has a place and becomes
an error for the reader; it never keeps the rest of the template from being
read.
-/

namespace TemplateLint

/-- What was expected where something else was found. -/
inductive Expectation where
  | propertyKey
  | colon
  | propertyEnd
  | itemOrEnd
  | itemEnd
deriving DecidableEq

namespace Expectation

def describe : Expectation → String
  | propertyKey => "a property key"
  | colon => "`:`"
  | propertyEnd => "`,` or `\x7d`"
  | itemOrEnd => "`]`"
  | itemEnd => "`,` or `]`"

/-- What was being read. -/
def context : Expectation → String
  | propertyKey | propertyEnd => "object"
  | colon => "property"
  | itemOrEnd | itemEnd => "array"

end Expectation

/-- Values may be enclosed in this many objects and arrays. -/
def maxDepth : Nat := 128

inductive Fault where
  | unknownCharacter
  /-- At the end of the text nothing is found. -/
  | expectedValue (found : Option Token)
  | expected (what : Expectation) (found : Option Token) (context : Span)
  | invalidNumber (literal : List Char)
  | nestingTooDeep
  | unterminatedString
  | invalidString
  | trailingContent
deriving DecidableEq

namespace Fault

def describeFound (found : Option Token) : String :=
  match found with
  | some token => token.describe
  | none => "end of input"

def message : Fault → String
  | unknownCharacter => "unknown character"
  | expectedValue found => "expected a value, but found " ++ describeFound found
  | expected what found _ => "expected " ++ what.describe ++ ", but found " ++ describeFound found
  | invalidNumber literal => "invalid number literal `" ++ String.ofList literal ++ "`"
  | nestingTooDeep => "maximum nesting depth exceeded"
  | unterminatedString => "unterminated string"
  | invalidString => "string contains an invalid escape sequence or control character"
  | trailingContent => "unexpected content after the template's root value"

/-- The text beside the place of the fault. -/
def note : Fault → String
  | unknownCharacter => "this character is not valid JSON"
  | invalidNumber _ => "this is not a valid number"
  | nestingTooDeep => "values nested deeper than " ++ toString maxDepth ++ " levels are ignored"
  | unterminatedString => "this string is missing a closing quote"
  | _ => ""

def context? : Fault → Option Label
  | expected what _ context => some ⟨"while parsing this " ++ what.context, context⟩
  | _ => none

end Fault

/-- A fault and its place. -/
structure PlacedFault where
  fault : Fault
  span : Span
deriving DecidableEq

namespace PlacedFault

def diagnostic (f : PlacedFault) : Diagnostic :=
  { severity := .error
    rule := none
    message := f.fault.message
    labels := ⟨f.fault.note, f.span⟩ :: f.fault.context?.toList }

@[simp] theorem location_diagnostic (f : PlacedFault) : f.diagnostic.location = some f.span := rfl

end PlacedFault

end TemplateLint
