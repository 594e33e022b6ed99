import TemplateLint.Main
import TemplateLint.Proofs.Descent
import TemplateLint.Proofs.Globals
import TemplateLint.Proofs.History
import TemplateLint.Proofs.Layout
import TemplateLint.Proofs.Printing
import TemplateLint.Proofs.Schema.Composition
import TemplateLint.Proofs.Schema.Constants
import TemplateLint.Proofs.Schema.RoundTrip
import TemplateLint.Proofs.Segments
import TemplateLint.Proofs.Silence
import TemplateLint.Proofs.Spacing
import TemplateLint.Proofs.Verdict
import TemplateLint.Proofs.Exclusion
import TemplateLint.Proofs.Schema.Frame
import TemplateLint.Proofs.Conversion
import TemplateLint.Proofs.Detection
import TemplateLint.Proofs.Brackets
import TemplateLint.Proofs.Builder.Levels
import TemplateLint.Proofs.Recovery
import TemplateLint.Proofs.Lookups
import TemplateLint.Proofs.Numbers
import TemplateLint.Proofs.Validator
import TemplateLint.Proofs.MissingValues
import TemplateLint.Proofs.Comparison
import TemplateLint.Proofs.Spelling
import TemplateLint.Proofs.Bounds
import TemplateLint.Proofs.Nesting
import TemplateLint.Proofs.Lexemes.Lines
import TemplateLint.Proofs.Paths
import TemplateLint.Proofs.Repetition
import TemplateLint.Proofs.Rejection
import TemplateLint.Proofs.Classification
import TemplateLint.Proofs.Decimal.Scaling
