import TemplateLint.Proofs.Builder.Origins
import TemplateLint.Proofs.Causes
import TemplateLint.Proofs.Decimal.Integers
import TemplateLint.Proofs.Sources

/-!
# Integer literals and integer constants

An integer literal is checked against an integer constant by their nearest
binary64 numbers. So a literal that denotes the constant meets it, and one that
does not is reported if 53 bits hold either of the two. Of larger integers
several share a number, and are not told apart.
-/

namespace TemplateLint

namespace Decimal.Literal

theorem alike_ofInt_toInt {l : Literal} (h : l.isInteger = true) :
    (Double.ofInt l.toInt).Alike l.toDouble := by
  rw [toDouble_of_isInteger h]
  exact Double.alike_ofInt_signed _ _

/-- The number of an integer literal of 64 bits is finite, and its JSON value is the number nearest
to the integer, whichever form that has. -/
theorem exists_number_of_fitsWord {l : Literal} (h : l.isInteger = true)
    (fits : Double.FitsWord l.toInt) :
    l.toDouble.isFinite = true ∧
      ∃ n, numberJson? l.toDouble l.isInteger = some (.number n) ∧
        n.toDouble.Alike (.ofInt l.toInt) := by
  have bounded : natOfDigits l.whole ≤ 2 ^ 63 := by
    obtain ⟨low, high⟩ := fits
    unfold toInt Double.signed at low high
    cases hneg : l.negative <;> simp only [hneg, if_true, Bool.false_eq_true, if_false] at low high
    · omega
    · omega
  obtain ⟨k, hx, hk⟩ := Double.exists_whole bounded l.negative
  have alike := (alike_ofInt_toInt h).symm
  rw [toDouble_of_isInteger h, hx] at alike ⊢
  refine ⟨rfl, ?_⟩
  cases hint : (Double.finite l.negative (k * Double.unitsPerOne)).toInt? (.pow 2 63) with
  | none => exact ⟨.real _, numberJson?_real rfl fun _ => hint, alike⟩
  | some i =>
    rw [h]
    refine ⟨.integer i, numberJson?_integer hint, Double.Alike.trans ?_ alike⟩
    have hunits := Double.unitsPerOne_pos
    simp only [Double.toInt?, Nat.mul_div_cancel k hunits, Option.ite_none_right_eq_some,
      Option.some.injEq] at hint
    rw [← hint.2, ← hk]
    exact Double.alike_ofInt_signed _ _

end Decimal.Literal

namespace Builder

/-- A number token whose literal is finite stands for the literal's number. -/
theorem scalar?_of_literal {t : Lexeme Token} {l : Decimal.Literal} (hkind : t.kind = .number)
    (hl : Decimal.Literal.ofText? t.text = some l) (finite : l.toDouble.isFinite = true) :
    scalar? t = some (.number l.toDouble l.isInteger, none) := by
  simp [scalar?, hkind, numberScalar, hl, finite]

end Builder

namespace Conformance

variable {s : Schema} {c : Json}

/-- A constant is the last demand that any value has to meet. -/
theorem commonCauses_constant_last (typeName : String) {n : Node} {json : Json}
    (hs : s.const = some c) (hn : n.toJson? = some json) :
    ∃ others, commonCauses s typeName n = others ++ require (c.same json) (.notConstant c) ∧
      ∀ cause ∈ others, cause.rule ≠ "const" := by
  have type (cause : Problem.Cause) (h : cause ∈ typeCauses s typeName) :
      cause.rule ≠ "const" := by
    simp [rule_of_mem_typeCauses h]
  cases henum : s.enum with
  | none =>
    refine ⟨typeCauses s typeName, ?_, type⟩
    simp [commonCauses, valueCauses, hs, hn, henum]
  | some values =>
    refine ⟨typeCauses s typeName ++ require (values.any (·.same json)) (.notAccepted values),
      ?_, fun cause h => ?_⟩
    · simp [commonCauses, valueCauses, hs, hn, henum]
    · rcases List.mem_append.mp h with h | h
      · exact type cause h
      · rw [(mem_require h).2]
        simp [Problem.Cause.rule]

/-- A number is reported for a constant just if it is not the same. -/
theorem exists_const_mem_problems {id : Nat} {span : Span} {x : Double} {isInteger : Bool}
    {json : Json} (hs : s.const = some c) (hx : numberJson? x isInteger = some json) :
    (∃ p ∈ nodeProblems everyNode s (.value (.scalar id span (.number x isInteger))),
      p.diagnostic.rule = some "const") ↔ c.same json = false := by
  obtain ⟨others, hcommon, hothers⟩ := commonCauses_constant_last (numberType s isInteger) hs
    (show Node.toJson? (.value (.scalar id span (.number x isInteger))) = some json from hx)
  constructor
  · rintro ⟨p, hp, hrule⟩
    obtain ⟨cause, hcause, rfl⟩ := List.mem_map.mp hp
    have hrule : cause.rule = "const" := Option.some.inj hrule
    rcases List.mem_append.mp hcause with hcause | hcause
    · rw [hcommon] at hcause
      rcases List.mem_append.mp hcause with hcause | hcause
      · exact absurd hrule (hothers cause hcause)
      · exact (mem_require hcause).1
    · have size := rule_of_mem_sizeCauses hcause
      rw [hrule] at size
      exact absurd size (by decide)
  · intro differs
    refine ⟨⟨.notConstant c, id, span⟩, List.mem_map_of_mem (List.mem_append_left _ ?_), rfl⟩
    rw [hcommon]
    simp [require, differs]

end Conformance

namespace Document

open Conformance (everyNode nodeProblems)

/-- In any text, an integer literal of 64 bits is reported for an integer constant just if the two
have different nearest numbers. So only a literal that does not denote the constant is, and every
such literal is if 53 bits hold it or the constant. -/
theorem integer_constant_iff {source : List Char} {t : Lexeme Token} {l : Decimal.Literal}
    (ht : t ∈ Lexeme.tokens source) (hkind : t.kind = .number)
    (hl : Decimal.Literal.ofText? t.text = some l) (integer : l.isInteger = true)
    (fits : Double.FitsWord l.toInt) {e : Entry} {id : Nat} {content : Scalar}
    (he : e ∈ (parse source).1.entries) (hnode : e.node = .value (.scalar id t.span content))
    {s : Schema} {c : Int} (hs : s.const = some (.number (.integer c))) :
    let Reported := ∃ p ∈ nodeProblems everyNode s e.node, p.diagnostic.rule = some "const"
    (Reported ↔ (Double.ofInt c).sameValue (.ofInt l.toInt) = false) ∧
      (Reported → l.toInt ≠ c) ∧
      (l.toInt.natAbs < 2 ^ 53 ∨ c.natAbs < 2 ^ 53 → (Reported ↔ l.toInt ≠ c)) := by
  intro Reported
  obtain ⟨finite, n, hn, alike⟩ := l.exists_number_of_fitsWord integer fits
  have hcontent : content = .number l.toDouble l.isInteger := by
    obtain ⟨u, hu, hspan, fault, hscalar⟩ := scalar?_of_mem he hnode
    cases Lexeme.eq_of_span hu ht hspan
    rw [Builder.scalar?_of_literal hkind hl finite] at hscalar
    cases hscalar
    rfl
  subst hcontent
  have rounded : Reported ↔ (Double.ofInt c).sameValue (.ofInt l.toInt) = false := by
    unfold Reported
    rw [hnode, Conformance.exists_const_mem_problems hs hn, ← alike.sameValue_right]
    rfl
  have exact_of_small (h : l.toInt.natAbs < 2 ^ 53 ∨ c.natAbs < 2 ^ 53) :
      (Double.ofInt c).sameValue (.ofInt l.toInt) = true ↔ l.toInt = c := by
    rcases h with h | h
    · rw [Double.sameValue_comm]
      exact Double.sameValue_ofInt h
    · rw [Double.sameValue_ofInt h]
      exact eq_comm
  refine ⟨rounded, fun reported same => ?_, fun small => ?_⟩
  · have differs := rounded.mp reported
    rw [same, Double.sameValue_ofInt_self] at differs
    cases differs
  · rw [rounded, ← Bool.not_eq_true, exact_of_small small]

/-- The largest integer of 53 bits, in a text that goes on behind it, is reported for the next
integer, and not for itself. -/
theorem integer_constant_iff_largest :
    let source := "9007199254740991,".toList
    let constant (c : Int) : Schema := { Schema.empty with const := some (.number (.integer c)) }
    ∃ root, (parse source).1.root = some root ∧
      (∃ p ∈ nodeProblems everyNode (constant 9007199254740992) (.value root),
        p.diagnostic.rule = some "const") ∧
      ¬ ∃ p ∈ nodeProblems everyNode (constant 9007199254740991) (.value root),
        p.diagnostic.rule = some "const" := by
  intro source constant
  have shown : (parse source).1.root.map (fun root => (root.span, root.scalar?.isSome)) =
      some (⟨0, 16⟩, true) := by
    decide +kernel
  obtain ⟨root, hroot, hshown⟩ := Option.map_eq_some_iff.mp shown
  simp only [Prod.mk.injEq] at hshown
  obtain ⟨hspan, hscalar⟩ := hshown
  rcases root with ⟨id, span, ps⟩ | ⟨id, span, vs⟩ | ⟨id, span, content⟩
  · cases hscalar
  · cases hscalar
  · obtain rfl : span = ⟨0, 16⟩ := hspan
    have he : ⟨none, none, .value (.scalar id ⟨0, 16⟩ content)⟩ ∈ (parse source).1.entries := by
      rw [entries, hroot]
      exact Node.mem_entries_self none none _
    have reported (c : Int) := integer_constant_iff (s := constant c) (c := c)
      (t := ⟨.number, "9007199254740991".toList, ⟨0, 16⟩⟩)
      (l := ⟨false, "9007199254740991".toList, none, none⟩)
      (by decide +kernel) rfl (by decide +kernel) rfl (by decide +kernel) he rfl rfl
    have small : (⟨false, "9007199254740991".toList, none, none⟩ :
        Decimal.Literal).toInt.natAbs < 2 ^ 53 := by
      decide +kernel
    refine ⟨_, hroot, ((reported _).2.2 (.inl small)).mpr (by decide +kernel), ?_⟩
    rw [(reported _).2.2 (.inl small)]
    decide +kernel

/-- Two integers that are rounded to one number: the literal of the first is not reported for the
second. -/
theorem integer_constant_unreported :
    let source := "9007199254740993".toList
    let c : Int := 9007199254740992
    ∃ t ∈ Lexeme.tokens source, ∃ l, Decimal.Literal.ofText? t.text = some l ∧
      l.isInteger = true ∧ Double.FitsWord l.toInt ∧ Double.FitsWord c ∧ l.toInt ≠ c ∧
      ∃ e ∈ (parse source).1.entries, e.node.span = t.span ∧
        nodeProblems everyNode
          { Schema.empty with const := some (.number (.integer c)) } e.node = [] := by
  intro source c
  refine ⟨⟨.number, source, ⟨0, 16⟩⟩, by decide +kernel, ⟨false, source, none, none⟩,
    by decide +kernel, by decide, by decide +kernel, by decide +kernel, by decide +kernel, ?_⟩
  have found : ∃ e ∈ (parse source).1.entries, e.node.span = ⟨0, 16⟩ ∧
      (nodeProblems everyNode { Schema.empty with const := some (.number (.integer c)) }
        e.node).length = 0 := by
    decide +kernel
  obtain ⟨e, he, hspan, hnone⟩ := found
  exact ⟨e, he, hspan, List.eq_nil_of_length_eq_zero hnone⟩

end Document

end TemplateLint
