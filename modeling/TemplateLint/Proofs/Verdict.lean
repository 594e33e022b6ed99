import TemplateLint.CommandLine
import TemplateLint.Proofs.Causes

/-!
# Verdicts

A check fails for the errors it finds and for nothing else. It finds errors and
hints only, so there are no warnings to deny, and no hint counts for anything.
How much is shown, and how, makes no difference to the verdict.
-/

namespace TemplateLint

theorem Document.severity_of_mem_parse {source : List Char} {d : Diagnostic}
    (h : d ∈ (parse source).2) : d.severity = .error := by
  obtain ⟨fault, -, rfl⟩ := List.mem_map.mp h
  rfl

namespace Check

/-- All faults of a template's text, and the problems under a schema that are errors. -/
def errorCount (o : Options) (schema : ResolvedSchema) (source : String) : Nat :=
  (Document.parse source.toList).2.length +
    ((Document.parse source.toList).1.analyze o (some schema)).2.countP
      (·.cause.severity = .error)

/-- The verdict on a number of errors. -/
def verdict (errors : Nat) : Option Failure :=
  if errors = 0 then none
  else some (.diagnosed ("failing due to " ++ Counts.plural errors "error"))

theorem errors_diagnose (o : Options) (schema : ResolvedSchema) (source : String) :
    (Counts.ofDiagnostics (diagnose o schema source)).errors = errorCount o schema source := by
  have faults : (Document.parse source.toList).2.countP (·.severity = .error) =
      (Document.parse source.toList).2.length := by
    refine List.countP_eq_length.mpr fun d hd => ?_
    simp [Document.severity_of_mem_parse hd]
  simp only [Counts.ofDiagnostics, diagnose, List.countP_append, faults, List.countP_map]
  rfl

theorem severity_of_mem_diagnose {o : Options} {schema : ResolvedSchema} {source : String}
    (resolved : schema.errors = []) {d : Diagnostic} (h : d ∈ diagnose o schema source) :
    d.severity = .error ∨ d.severity = .hint := by
  rcases List.mem_append.mp h with h | h
  · exact .inl (Document.severity_of_mem_parse h)
  · obtain ⟨p, hp, rfl⟩ := List.mem_map.mp h
    exact Analysis.severity_of_mem_problems resolved hp

/-- Hiding hints hides no error. -/
theorem errors_shown (s : CheckSettings) (ds : List Diagnostic) :
    (Counts.ofDiagnostics (shown s ds)).errors = (Counts.ofDiagnostics ds).errors := by
  unfold shown
  split
  · simp only [Counts.ofDiagnostics, List.countP_filter]
    refine List.countP_congr fun d _ => ?_
    cases d.severity <;> simp
  · rfl

theorem mem_of_mem_shown {s : CheckSettings} {ds : List Diagnostic} {d : Diagnostic}
    (h : d ∈ shown s ds) : d ∈ ds := by
  unfold shown at h
  split at h
  · exact List.mem_of_mem_filter h
  · exact h

/-- Where nothing is a warning, denying warnings denies nothing. -/
theorem failure?_eq_verdict {s : CheckSettings} {ds : List Diagnostic}
    (h : ∀ d ∈ ds, d.severity ≠ .warning) :
    failure? s ds = verdict (Counts.ofDiagnostics ds).errors := by
  have warnings : (Counts.ofDiagnostics ds).warnings = 0 := by
    refine List.countP_eq_zero.mpr fun d hd => ?_
    simpa using h d hd
  have denied : (if s.denyWarnings then (Counts.ofDiagnostics ds).warningFailure true else none) =
      none := by
    split
    · exact (Counts.warningFailure_eq_none_iff _ true).mpr warnings
    · rfl
  simp only [failure?, denied, Option.or_none, Counts.errorFailure, verdict]
  split <;> rfl

/-- Every schema that loads is resolved. -/
theorem errors_of_schemaOf {path text : String} {schema : ResolvedSchema}
    (h : schemaOf path text = .ok schema) : schema.errors = [] := by
  unfold schemaOf at h
  split at h <;> split at h <;> cases h <;> rfl

section Files

variable {m : Type → Type} [Monad m] [LawfulMonad m] {read : Reader m}

theorem run_eq {a : CheckArguments} {source text : String} {schema : ResolvedSchema}
    (template : read a.template = pure (.ok source)) (file : read a.schema = pure (.ok text))
    (loads : schemaOf a.schema text = .ok schema) :
    run read a = pure (.ok (result a schema source)) := by
  simp [run, template, file, loads, Except.map]

/-- What is shown of a check, whatever that is, leads to the verdict on its errors. -/
theorem failure?_result {a : CheckArguments} {schema : ResolvedSchema} (source : String)
    (resolved : schema.errors = []) :
    (∀ d ∈ (result a schema source).diagnostics, d.severity ≠ .warning ∧
        d.severity ≠ .information) ∧
      failure? a.settings (result a schema source).diagnostics =
        verdict (errorCount a.options schema source) := by
  have shownSeverity : ∀ d ∈ (result a schema source).diagnostics, d.severity ≠ .warning ∧
      d.severity ≠ .information := by
    intro d hd
    rcases severity_of_mem_diagnose resolved (mem_of_mem_shown hd) with h | h <;> simp [h]
  refine ⟨shownSeverity, ?_⟩
  rw [failure?_eq_verdict fun d hd => (shownSeverity d hd).1]
  simp only [result, errors_shown, errors_diagnose]

/-- There are errors where a text is at fault or its analysis finds one. -/
theorem verdict_ne_none_iff (o : Options) (schema : ResolvedSchema) (source : String) :
    verdict (errorCount o schema source) ≠ none ↔
      (Document.parse source.toList).2 ≠ [] ∨
        ∃ p ∈ ((Document.parse source.toList).1.analyze o (some schema)).2,
          p.diagnostic.severity = .error := by
  have failing : ∀ n, verdict n ≠ none ↔ n ≠ 0 := by
    intro n
    unfold verdict
    split <;> simp_all
  have either : ∀ x y : Nat, x + y ≠ 0 ↔ 0 < x ∨ 0 < y := by omega
  rw [failing, errorCount, either, List.length_pos_iff, List.countP_pos_iff]
  simp [Problem.diagnostic]

theorem conclude_eq (a : CheckArguments) (r : CheckResult) :
    ∃ report, CommandLine.conclude a r =
      match failure? a.settings r.diagnostics with
      | none => ⟨0, "", report⟩
      | some failure => ⟨1, "", report ++ failure.report⟩ := by
  refine ⟨Report.render (a.settings.reportMode.getD .full) a.template r.source.toList
    r.diagnostics, ?_⟩
  unfold CommandLine.conclude
  cases failure? a.settings r.diagnostics <;> rfl

/-- All faults of a text are errors, and a check gives neither warnings nor notes. It fails if the
text is at fault or the analysis finds an error, for the number of those errors, whatever the flags
and the settings file say of hints, warnings, colors and the mode of the report. -/
theorem verdict_of_errors (a : CheckArguments) (o : Options) {source text : String}
    {schema : ResolvedSchema} (template : read a.template = pure (.ok source))
    (file : read a.schema = pure (.ok text)) (loads : schemaOf a.schema text = .ok schema) :
    (∀ d ∈ (Document.parse source.toList).2, d.severity = .error) ∧
      (verdict (errorCount { a with analysis := o }.options schema source) ≠ none ↔
        (Document.parse source.toList).2 ≠ [] ∨
          ∃ p ∈ ((Document.parse source.toList).1.analyze { a with analysis := o }.options
            (some schema)).2, p.diagnostic.severity = .error) ∧
      ∀ (flags stated : CheckSettings),
        let b := { a with settings := flags }.withSettings ⟨stated, o⟩
        ∃ r, run read b = pure (.ok r) ∧
          (∀ d ∈ r.diagnostics, d.severity ≠ .warning ∧ d.severity ≠ .information) ∧
          failure? b.settings r.diagnostics =
            verdict (errorCount { a with analysis := o }.options schema source) ∧
          ∀ path, CommandLine.settings read path = pure (.ok ⟨stated, o⟩) →
            ∃ report, CommandLine.perform read ⟨path, { a with settings := flags }⟩ =
              pure (match verdict (errorCount { a with analysis := o }.options schema source) with
                | none => ⟨0, "", report⟩
                | some failure => ⟨1, "", report ++ failure.report⟩) := by
  refine ⟨fun d => Document.severity_of_mem_parse, verdict_ne_none_iff _ schema source, ?_⟩
  intro flags stated b
  have ran : run read b = pure (.ok (result b schema source)) := run_eq template file loads
  obtain ⟨severity, failure⟩ := failure?_result (a := b) source (errors_of_schemaOf loads)
  refine ⟨_, ran, severity, failure, ?_⟩
  intro path stated
  obtain ⟨report, concluded⟩ := conclude_eq b (result b schema source)
  rw [failure] at concluded
  refine ⟨report, ?_⟩
  simp only [CommandLine.perform, stated, pure_bind]
  rw [ran, pure_bind]
  exact congrArg pure concluded

end Files

/-- A template that is no object, where an object is wanted: two files by their names. -/
theorem verdict_of_errors_array :
    let read : Reader Id := fun path =>
      pure (if path = "t" then .ok "[1]"
        else if path = "s" then .ok "\x7b\"type\":\"object\"\x7d" else .error .missing)
    let a : CheckArguments := ⟨"t", "s", none, false, false, .default, .default⟩
    let schema : ResolvedSchema := ⟨{ Schema.empty with type := some (.single "object") }, []⟩
    schemaOf "s" "\x7b\"type\":\"object\"\x7d" = .ok schema ∧
      (∀ d ∈ (Document.parse "[1]".toList).2, d.severity = .error) ∧
      verdict (errorCount .default schema "[1]") =
        some (.diagnosed "failing due to 1 error") ∧
      ∀ (flags stated : CheckSettings),
        let b := { a with settings := flags }.withSettings ⟨stated, .default⟩
        ∃ r, run read b = pure (.ok r) ∧
          failure? b.settings r.diagnostics = verdict (errorCount .default schema "[1]") := by
  intro read a schema
  have loads : schemaOf "s" "\x7b\"type\":\"object\"\x7d" = .ok schema := by
    cbv
  have template : read a.template = pure (.ok "[1]") := rfl
  have file : read a.schema = pure (.ok "\x7b\"type\":\"object\"\x7d") := rfl
  obtain ⟨faults, -, verdicts⟩ := verdict_of_errors a .default template file loads
  refine ⟨loads, faults, ?_, fun flags stated => ?_⟩
  · decide +kernel
  · obtain ⟨r, ran, -, failure, -⟩ := verdicts flags stated
    exact ⟨r, ran, failure⟩

end Check

end TemplateLint
