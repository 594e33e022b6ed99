import TemplateLint.Document
import TemplateLint.Json.Decoding

/-!
# Options of the analysis

The options are written as a JSON object. When they are read, what is not
stated has its default and what is not known is passed over; nothing is decided
before the whole object has been read.
-/

namespace TemplateLint

structure Options where
  applyGlobals : Bool
  /-- The type that a template is taken to have, instead of the one that shows in it. -/
  documentType : Option DocumentType
  validateResources : Bool
deriving DecidableEq

namespace Options

open Json (Reading LoadFault)

def default : Options := ⟨true, none, true⟩

inductive Field where
  | applyGlobals
  | documentType
  | validateResources
deriving DecidableEq

namespace Field

def name : Field → String
  | applyGlobals => "apply_globals"
  | documentType => "document_type"
  | validateResources => "validate_resources"

def all : List Field := [applyGlobals, documentType, validateResources]

def ofName? (name : String) : Option Field := all.find? (·.name = name)

end Field

/-! ## Writing -/

def toJson (o : Options) : Json :=
  .object ([(Field.applyGlobals.name, .boolean o.applyGlobals)] ++
    (o.documentType.map fun t => (Field.documentType.name, Json.string t.name)).toList ++
    [(Field.validateResources.name, .boolean o.validateResources)])

def typeTitle : DocumentType → String
  | .cloudFormation => "CloudFormation"
  | .sam => "Sam"
  | .unknown => "Unknown"

/-- The options for a person to read. -/
def describe (o : Options) : String :=
  let type :=
    match o.documentType with
    | some t => "Some(" ++ typeTitle t ++ ")"
    | none => "None"
  "Config \x7b " ++ Field.applyGlobals.name ++ ": " ++ toString o.applyGlobals ++ ", " ++
    Field.documentType.name ++ ": " ++ type ++ ", " ++
    Field.validateResources.name ++ ": " ++ toString o.validateResources ++ " \x7d"

/-! ## Reading -/

def typeNamed (name : String) : Except LoadFault DocumentType :=
  match DocumentType.ofName? name with
  | some t => .ok t
  | none => .error (.unknownName name (DocumentType.all.map DocumentType.name))

/-- What may stand beside the name of a type: nothing. -/
def nothing : Reading → Except LoadFault Unit
  | .null => .ok ()
  | .object [] _ => .ok ()
  | r => .error (r.mismatch "unit")

/-- A type is its name, or an object with the name for its only key. -/
def documentType? : Reading → Except LoadFault DocumentType
  | .string name => typeNamed name
  | .object [(name, r)] _ => do
    let t ← typeNamed name
    nothing r
    return t
  | .object _ _ => .error (.wrongValue .map "map with a single key")
  | r => .error (r.mismatch "string or map")

def setField (field : Field) (r : Reading) (o : Options) : Except LoadFault Options :=
  match field with
  | .applyGlobals => do return { o with applyGlobals := ← r.boolean? }
  | .documentType => do return { o with documentType := ← r.optional documentType? }
  | .validateResources => do return { o with validateResources := ← r.boolean? }

/-- Sets the fields of a list; `seen` are those already set. -/
def setFields (seen : List Field) (o : Options) : List (String × Reading) → Except LoadFault Options
  | [] => .ok o
  | (name, r) :: rest =>
    match Field.ofName? name with
    | none => setFields seen o rest
    | some field =>
      if field ∈ seen then .error (.repeated name)
      else do setFields (field :: seen) (← setField field r o) rest

def ofReading (r : Reading) : Except LoadFault Options :=
  match r with
  | .object members unclosed => do
    let _ ← r.json
    Reading.closed unclosed (← setFields [] default members)
  | r => .error (r.mismatch "struct Config")

def ofJsonText (text : List Char) : Except LoadFault Options := Json.load ofReading text

end Options

end TemplateLint
