import TemplateLint.Analysis

/-!
# Documents with a history

A document can be analyzed again and again, with other options and other
schemas. Its globals are collected anew each time, and nothing else that an
analysis leaves behind has a part in the next one, except for the type: once
options have forced one, the type that shows in the template is lost, and
options that force none find the forced one.
-/

namespace TemplateLint

namespace Document

/-- Analyses in the order in which they are made. -/
abbrev History := List (Options × Option ResolvedSchema)

/-- The document as a series of analyses leaves it. -/
def after (d : Document) (history : History) : Document :=
  history.foldl (fun d x => (d.analyze x.1 x.2).1) d

/-- The type that was forced last in a series of analyses. -/
def History.lastForced : History → Option DocumentType
  | [] => none
  | x :: rest => (lastForced rest).or x.1.documentType

variable (d : Document) (history : History) (o : Options) (schema : Option ResolvedSchema)

/-- What a series of analyses leaves behind: a type, and the globals collected last. -/
theorem after_eq : ∃ globals, d.after history =
    { d with type := history.lastForced.getD d.type, globals := globals } := by
  induction history generalizing d with
  | nil => exact ⟨d.globals, rfl⟩
  | cons x rest ih =>
    obtain ⟨globals, hd⟩ := ih (d.analyze x.1 x.2).1
    refine ⟨globals, hd.trans ?_⟩
    rw [History.lastForced, Option.getD_or]
    rfl

/-- A document's type counts where the options force none; the globals it came with do not. -/
theorem analyze_type (type : Option DocumentType) (globals : Globals) :
    ({ d with type := type.getD d.type, globals := globals } : Document).analyze o schema =
      d.analyze { o with documentType := o.documentType.or type } schema := by
  have prepared : Analysis.prepare o { d with type := type.getD d.type, globals := globals } =
      Analysis.prepare { o with documentType := o.documentType.or type } d := by
    simp only [Analysis.prepare, Option.getD_or]
    rfl
  simp only [analyze, prepared]
  rfl

/-- After any analyses of a document the next one is what it would be on the document itself, with
options that force the type forced last, unless they force one themselves. -/
theorem analyze_after (source : List Char) : ((parse source).1.after history).analyze o schema =
    (parse source).1.analyze
      { o with documentType := o.documentType.or history.lastForced } schema := by
  obtain ⟨globals, hd⟩ := (parse source).1.after_eq history
  rw [hd, analyze_type]

/-- A type that was forced once is found by later options that force none: the globals of this
template count on a fresh document, and do not once the type has been forced to be unknown. -/
theorem analyze_after_forced :
    let source := ("\x7b\"Globals\":\x7b\"Api\":\x7b\"a\":1\x7d\x7d,\"Resources\":\x7b\"r\":\x7b" ++
      "\"Type\":\"AWS::Serverless::Api\",\"Properties\":\x7b\x7d\x7d\x7d\x7d").toList
    let required : Schema := { Schema.empty with required := some ["a"] }
    let definition : Schema := { Schema.empty with properties := some [("Properties", required)] }
    let s : ResolvedSchema :=
      ⟨{ Schema.empty with definitions := some [("AWS::Serverless::Api", definition)] }, []⟩
    let forced : Options := { Options.default with documentType := some .unknown }
    ((parse source).1.analyze .default (some s)).2 = [] ∧
      (((parse source).1.after [(forced, some s)]).analyze .default (some s)).2.map
          Problem.diagnostic =
        [⟨.error, some "required", "Missing property \"a\".", [⟨"", ⟨88, 90⟩⟩]⟩] ∧
      (parse source).1.type = .cloudFormation := by
  intro source required definition s forced
  have fresh : ((parse source).1.analyze .default (some s)).2.map Problem.diagnostic = [] := by
    decide +kernel
  exact ⟨List.map_eq_nil_iff.mp fresh, by decide +kernel, by decide +kernel⟩

end Document

end TemplateLint
