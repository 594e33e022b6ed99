import TemplateLint.Proofs.Analysis
import TemplateLint.Proofs.Schema.Composition

/-!
# Causes and severities

Whatever a value is found at fault for is a demand of a schema that the value
does not meet, and an error. An analysis adds hints, on types that the schema
does not define, and warnings where a reference of the schema is unresolved.
-/

namespace TemplateLint

namespace Conformance

variable {s : Schema} {c : Problem.Cause}

theorem mem_require {condition : Bool} {cause : Problem.Cause} (h : c ∈ require condition cause) :
    condition = false ∧ c = cause := by
  cases condition with
  | false => exact ⟨rfl, List.mem_singleton.mp h⟩
  | true => cases h

theorem mem_typeCauses {typeName : String} (h : c ∈ typeCauses s typeName) :
    ∃ wanted, s.type = some wanted ∧ c = .wrongType wanted := by
  unfold typeCauses at h
  split at h
  · exact ⟨_, ‹_›, (mem_require h).2⟩
  · cases h

theorem mem_valueCauses {json : Option Json} (h : c ∈ valueCauses s json) :
    (∃ values, s.enum = some values ∧ c = .notAccepted values) ∨
      ∃ value, s.const = some value ∧ c = .notConstant value := by
  unfold valueCauses at h
  split at h
  · cases h
  · rcases List.mem_append.mp h with h | h
    · split at h
      · exact .inl ⟨_, ‹_›, (mem_require h).2⟩
      · cases h
    · split at h
      · exact .inr ⟨_, ‹_›, (mem_require h).2⟩
      · cases h

/-- Any value may be of a wrong type, or another one than wanted. -/
theorem mem_commonCauses {typeName : String} {n : Node} (h : c ∈ commonCauses s typeName n) :
    (∃ wanted, s.type = some wanted ∧ c = .wrongType wanted) ∨
      (∃ values, s.enum = some values ∧ c = .notAccepted values) ∨
      ∃ value, s.const = some value ∧ c = .notConstant value := by
  rcases List.mem_append.mp h with h | h
  · exact .inl (mem_typeCauses h)
  · split at h
    · cases h
    · exact .inr (mem_valueCauses h)

/-- A number may be of a wrong size. -/
theorem mem_sizeCauses {x : Double} (h : c ∈ sizeCauses s x) :
    (∃ divisor, c = .notDivisible divisor) ∨
      (∃ bound, c = .belowMinimum bound ∨ c = .belowExclusiveMinimum bound) ∨
      ∃ bound, c = .aboveMaximum bound ∨ c = .aboveExclusiveMaximum bound := by
  unfold sizeCauses divisorCauses minimumCauses maximumCauses at h
  split at h
  · cases h
  · rcases List.mem_append.mp h with h | h
    · rcases List.mem_append.mp h with h | h
      · split at h
        · cases h
        · exact .inl ⟨_, (mem_require h).2⟩
      · split at h
        · cases h
        · split at h
          · exact .inr (.inl ⟨_, .inr (mem_require h).2⟩)
          · exact .inr (.inl ⟨_, .inl (mem_require h).2⟩)
    · split at h
      · cases h
      · split at h
        · exact .inr (.inr ⟨_, .inr (mem_require h).2⟩)
        · exact .inr (.inr ⟨_, .inl (mem_require h).2⟩)

theorem mem_missingCauses {ps : List Property} (h : c ∈ missingCauses s ps) :
    ∃ name, c = .missingProperty name := by
  obtain ⟨name, -, rfl⟩ := List.mem_map.mp h
  exact ⟨name, rfl⟩

theorem rule_of_mem_typeCauses {typeName : String} (h : c ∈ typeCauses s typeName) :
    c.rule = "type" := by
  obtain ⟨_, -, rfl⟩ := mem_typeCauses h
  rfl

theorem rule_of_mem_valueCauses {json : Option Json} (h : c ∈ valueCauses s json) :
    c.rule = "enum" ∨ c.rule = "const" := by
  rcases mem_valueCauses h with ⟨_, -, rfl⟩ | ⟨_, -, rfl⟩
  · exact .inl rfl
  · exact .inr rfl

/-- The rules about the size of a number. -/
def sizeRules : List String :=
  ["multiple-of", "minimum", "exclusive-minimum", "maximum", "exclusive-maximum"]

theorem rule_of_mem_sizeCauses {x : Double} (h : c ∈ sizeCauses s x) : c.rule ∈ sizeRules := by
  rcases mem_sizeCauses h with ⟨_, rfl⟩ | ⟨_, rfl | rfl⟩ | ⟨_, rfl | rfl⟩ <;>
    simp [Problem.Cause.rule, sizeRules]

theorem severity_of_mem_commonCauses {typeName : String} {n : Node}
    (h : c ∈ commonCauses s typeName n) : c.severity = .error := by
  rcases mem_commonCauses h with ⟨_, _, rfl⟩ | ⟨_, _, rfl⟩ | ⟨_, _, rfl⟩ <;> rfl

/-- What a value does not meet is an error. -/
theorem severity_of_mem_ownCauses {v : Value} (h : c ∈ ownCauses s v) : c.severity = .error := by
  rcases v with ⟨id, span, ps⟩ | ⟨id, span, vs⟩ | ⟨id, span, text | ⟨x, isInteger⟩ | value | _⟩
  · rcases List.mem_append.mp h with h | h
    · exact severity_of_mem_commonCauses h
    · obtain ⟨name, rfl⟩ := mem_missingCauses h
      rfl
  · exact severity_of_mem_commonCauses h
  · exact severity_of_mem_commonCauses h
  · rcases List.mem_append.mp h with h | h
    · exact severity_of_mem_commonCauses h
    · rcases mem_sizeCauses h with ⟨_, rfl⟩ | ⟨_, rfl | rfl⟩ | ⟨_, rfl | rfl⟩ <;> rfl
  · exact severity_of_mem_commonCauses h
  · exact severity_of_mem_commonCauses h

theorem severity_of_mem_problems {included : Nat → Bool} {v : Value} {p : Problem}
    (h : p ∈ problems included s v) : p.cause.severity = .error := by
  induction v using Value.parts_induction generalizing s with
  | value v ih =>
    cases hi : included v.id with
    | false =>
      rw [problems_excluded hi] at h
      cases h
    | true =>
      rw [problems_eq hi] at h
      rcases List.mem_append.mp h with h | h
      · obtain ⟨cause, hcause, rfl⟩ := List.mem_map.mp h
        exact severity_of_mem_ownCauses hcause
      · obtain ⟨⟨segment, w⟩, hw, hp⟩ := List.mem_flatMap.mp h
        cases hs : s.below? segment with
        | none => simp [problemsUnder, hs] at hp
        | some t => exact ih segment w hw (by simpa [problemsUnder, hs] using hp)

end Conformance

namespace Analysis

/-- What an analysis finds is an error, a hint on a type, or a warning about the schema. -/
theorem severity_cases {validateResources : Bool} {s : ResolvedSchema} {root : Value} {p : Problem}
    (h : p ∈ rootProblems validateResources s root) :
    p.cause.severity = .error ∨ (∃ name, p.cause = .unknownResourceType name) ∨
      ∃ reason ∈ s.errors, p.cause = .unresolvedReference reason := by
  rcases List.mem_append.mp h with h | h
  · rcases List.mem_append.mp h with h | h
    · obtain ⟨reason, hreason, rfl⟩ := List.mem_map.mp h
      exact .inr (.inr ⟨reason, hreason, rfl⟩)
    · exact .inl (Conformance.severity_of_mem_problems h)
  · cases validateResources with
    | false => cases h
    | true =>
      obtain ⟨resource, -, h⟩ := List.mem_flatMap.mp h
      unfold resourceProblems at h
      split at h
      · cases h
      · split at h
        · cases h
        · split at h
          · exact .inl (Conformance.severity_of_mem_problems h)
          · split at h
            · cases List.mem_singleton.mp h
              exact .inr (.inl ⟨_, rfl⟩)
            · cases h

/-- With a schema whose references are all resolved, an analysis finds errors and hints only. -/
theorem severity_of_mem_problems {o : Options} {d : Document} {s : ResolvedSchema}
    (resolved : s.errors = []) {p : Problem} (h : p ∈ problems o d (some s)) :
    p.cause.severity = .error ∨ p.cause.severity = .hint := by
  unfold problems at h
  split at h
  · rename_i hs
    cases hs
    have relaxed : (if o.applyGlobals then s.relax d.globals else s).errors = [] := by
      split
      · rw [ResolvedSchema.relax_eq]
        exact resolved
      · exact resolved
    rcases severity_cases h with error | ⟨name, hint⟩ | ⟨reason, hreason, -⟩
    · exact .inl error
    · exact .inr (hint ▸ rfl)
    · rw [relaxed] at hreason
      cases hreason
  · cases h

end Analysis

end TemplateLint
