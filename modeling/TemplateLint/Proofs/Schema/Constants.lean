import TemplateLint.Proofs.Schema.Keywords
import TemplateLint.Proofs.Sources

/-!
# Constants

A schema that states a constant and nothing else accepts what is the same as
the constant, with one exception: the constant null counts as none, so with it
everything is accepted. The constant is what is read from the text of the
schema, where a number need not be the one nearest to its literal.
-/

namespace TemplateLint

open Conformance (everyNode nodeProblems)
open Json (Reading LoadFault)

namespace Schema

/-- The schema that states a constant, or nothing. -/
def constant (value : Option Json) : Schema := { empty with const := value }

/-- What a constant is taken for: null is no constant. -/
def constantOf : Json → Option Json
  | .null => none
  | c => some c

theorem constantOf_of_ne {c : Json} (h : c ≠ .null) : constantOf c = some c := by
  cases c <;> first | rfl | exact absurd rfl h

theorem optional_json {r : Reading} {c : Json} (h : r.toJson = .ok c) :
    r.optional Reading.json = .ok (constantOf c) := by
  by_cases hnull : r = .null
  · cases hnull
    cases h
    rfl
  · rw [Reading.optional_of_ne _ hnull, Reading.json, h,
      constantOf_of_ne fun hc => hnull ((Reading.eq_null_iff h).mpr hc)]
    rfl

/-- A text with a constant for its only keyword loads. -/
theorem ofJsonText_constant {text : List Char} {r : Reading} {c : Json}
    (reads : Reading.ofText text = (.object [("const", r)] none, none))
    (denotes : r.toJson = .ok c) :
    ofJsonText text = .ok (constant (constantOf c)) := by
  have keyword : Keyword.ofName? "const" = some .const := by decide
  have decoded : ofReading (.object [("const", r)] none) = .ok (constant (constantOf c)) := by
    simp only [ofReading, ofMembers, keyword, optional_json denotes]
    rfl
  simp only [ofJsonText, Json.load, reads, decoded]
  rfl

end Schema

namespace Conformance

theorem commonCauses_constant (value : Option Json) (typeName : String) {n : Node} {json : Json}
    (stands : n.toJson? = some json) :
    commonCauses (.constant value) typeName n =
      match value with
      | some c => require (c.same json) (.notConstant c)
      | none => [] := by
  rw [commonCauses, stands]
  cases value <;> rfl

/-- What a schema that states a constant asks of a value. -/
theorem ownCauses_constant (value : Option Json) {v : Value} {json : Json}
    (stands : v.toJson? = some json) :
    ownCauses (.constant value) v =
      match value with
      | some c => require (c.same json) (.notConstant c)
      | none => [] := by
  have common : ∀ typeName, commonCauses (.constant value) typeName (.value v) = _ :=
    fun typeName => commonCauses_constant value typeName stands
  have size : ∀ x, sizeCauses (.constant value) x = [] := by
    intro x
    unfold sizeCauses
    split <;> rfl
  rcases v with ⟨id, span, ps⟩ | ⟨id, span, vs⟩ | ⟨id, span, text | ⟨x, isInteger⟩ | b | _⟩
  · rw [ownCauses, common]
    exact List.append_nil _
  · exact common _
  · exact common _
  · rw [ownCauses, numberCauses, common, size, List.append_nil]
  · exact common _
  · exact common _

/-- A schema that states a constant asks nothing of the values below. -/
theorem problems_constant (value : Option Json) (v : Value) :
    problems everyNode (.constant value) v = ownProblems (.constant value) v := by
  rw [problems_eq rfl]
  have below : ∀ segment, (Schema.constant value).below? segment = none := by
    intro segment
    cases segment <;> rfl
  simp [below, problemsUnder]

end Conformance

/-- The constant that is read from the text of a schema is enforced unless it is null: any other one
is reported where the value of a template without faults is not the same as it, and nowhere else. -/
theorem Document.constant_enforced {text : List Char} {r : Reading} {c : Json}
    (reads : Reading.ofText text = (.object [("const", r)] none, none))
    (denotes : r.toJson = .ok c) :
    ∃ s, Schema.ofJsonText text = .ok s ∧
      ∀ (source : List Char) (root : Value), (parse source).2 = [] →
        (parse source).1.root = some root →
          ∃ json, root.toJson? = some json ∧
            ((∃ p ∈ nodeProblems everyNode s (.value root), p.diagnostic.rule = some "const") ↔
              c ≠ .null ∧ c.same json = false) := by
  refine ⟨_, Schema.ofJsonText_constant reads denotes, fun source root faultless hroot => ?_⟩
  obtain ⟨json, stands⟩ := exists_toJson? faultless hroot
  refine ⟨json, stands, ?_⟩
  change (∃ p ∈ Conformance.problems everyNode _ root, _) ↔ _
  rw [Conformance.problems_constant, Conformance.ownProblems,
    Conformance.ownCauses_constant _ stands]
  by_cases hnull : c = .null
  · subst hnull
    simp [Schema.constantOf, Conformance.problemsAt]
  · rw [Schema.constantOf_of_ne hnull]
    cases hsame : c.same json <;>
      simp [Conformance.require, Conformance.problemsAt, hsame, hnull, Problem.diagnostic,
        Problem.Cause.rule]

/-- An array, which is not the constant of the schema. -/
theorem Document.constant_enforced_array :
    Reading.ofText "\x7b\"const\": true\x7d".toList =
        (.object [("const", .boolean true)] none, none) ∧
      (parse "[]".toList).2 = [] ∧
      ∃ s root, Schema.ofJsonText "\x7b\"const\": true\x7d".toList = .ok s ∧
        (parse "[]".toList).1.root = some root ∧
        ∃ p ∈ nodeProblems everyNode s (.value root), p.diagnostic.rule = some "const" := by
  have reads : Reading.ofText "\x7b\"const\": true\x7d".toList =
      (.object [("const", .boolean true)] none, none) := by
    cbv
  have faultless : (parse "[]".toList).2 = [] := by decide +kernel
  have hroot : (parse "[]".toList).1.root = some (.array 0 ⟨0, 2⟩ []) := by
    rfl
  obtain ⟨s, loads, enforced⟩ := constant_enforced reads rfl
  obtain ⟨json, stands, reported⟩ := enforced _ _ faultless hroot
  refine ⟨reads, faultless, s, _, loads, hroot, reported.mpr ?_⟩
  cases stands
  exact ⟨by simp, rfl⟩

/-- The number one is not null, and a schema with the constant null accepts it. -/
theorem Document.null_constant_unenforced :
    ∃ s root, Schema.ofJsonText "\x7b\"const\":null\x7d".toList = .ok s ∧
      (parse "1".toList).2 = [] ∧ (parse "1".toList).1.root = some root ∧
      root.toJson? = some (.number (.integer 1)) ∧
      Json.same .null (.number (.integer 1)) = false ∧
      nodeProblems everyNode s (.value root) = [] := by
  have reads : Reading.ofText "\x7b\"const\":null\x7d".toList =
      (.object [("const", .null)] none, none) := by
    cbv
  have faultless : (parse "1".toList).2 = [] := by decide +kernel
  have hscalar : (parse "1".toList).1.root.bind Value.scalar? =
      some (.number (.ofInt 1) true) := by decide +kernel
  have hint : (Double.ofInt 1).toInt? (.pow 2 63) = some 1 := by decide +kernel
  generalize Double.ofInt 1 = x at hscalar hint
  obtain ⟨root, hroot, hcontent⟩ := Option.bind_eq_some_iff.mp hscalar
  have stands : root.toJson? = some (.number (.integer 1)) := by
    cases root with
    | object _ _ _ => cases hcontent
    | array _ _ _ => cases hcontent
    | scalar id span content =>
      cases hcontent
      exact numberJson?_integer hint
  refine ⟨_, root, Schema.ofJsonText_constant reads rfl, faultless, hroot, stands, by decide, ?_⟩
  change Conformance.problems everyNode _ root = []
  rw [Conformance.problems_constant, Conformance.ownProblems,
    Conformance.ownCauses_constant _ stands]
  rfl

end TemplateLint
