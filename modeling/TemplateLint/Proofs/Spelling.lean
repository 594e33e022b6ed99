import TemplateLint.Proofs.Literals

/-!
# Numbers spelled in several ways

A number can be written with or without a fraction and an exponent, and zero with
or without a sign. What a schema demands of the value and of the size of a number
goes by the number. Only the type can tell the spellings apart, in favour of the
literal that is written as an integer.
-/

namespace TemplateLint

theorem Json.same_number_congr {m n : Number} (h : m.toDouble.Alike n.toDouble) (c : Json) :
    c.same (.number m) = c.same (.number n) := by
  cases c with
  | number k => exact h.sameValue_right k.toDouble
  | _ => rfl

namespace Conformance

variable {s : Schema}

theorem valueCauses_alike {m n : Number} (h : m.toDouble.Alike n.toDouble) :
    valueCauses s (some (.number m)) = valueCauses s (some (.number n)) := by
  simp only [valueCauses, Json.same_number_congr h]

/-- A number that is not written as an integer fits no more types than one that is. -/
theorem typeCauses_numberType (s : Schema) :
    typeCauses s (numberType s false) = typeCauses s (numberType s true) ∨
      ∃ wanted, typeCauses s (numberType s true) = [] ∧
        typeCauses s (numberType s false) = [.wrongType wanted] := by
  cases type : s.type with
  | none => exact .inl (by simp [typeCauses, type])
  | some wanted =>
    by_cases integers : "integer" ∈ wanted.names
    · have allowed : s.allowsIntegers = true := by
        simp [Schema.allowsIntegers, Schema.allowsType, type, integers]
      have fits : typeCauses s (numberType s true) = [] := by
        simp [typeCauses, numberType, allowed, type, require, integers]
      by_cases number : "number" ∈ wanted.names
      · refine .inl ?_
        rw [fits]
        simp [typeCauses, numberType, type, require, number]
      · refine .inr ⟨wanted, fits, ?_⟩
        simp [typeCauses, numberType, type, require, number]
    · have other : s.allowsIntegers = false := by
        simp [Schema.allowsIntegers, Schema.allowsType, type, integers]
      exact .inl (by simp [numberType, other])

/-- A literal is found at fault for its type, and then for what goes by its number alone. -/
theorem findings_spelling {l l' : Decimal.Literal} (alike : l.toDouble.Alike l'.toDouble)
    (finite : l.toDouble.isFinite = true) (s : Schema) (id id' : Nat) (span span' : Span) :
    ∃ rest,
      findings s (.value (.scalar id span l.scalar)) =
        (typeCauses s (numberType s l.isInteger)).map Problem.Cause.shown ++ rest ∧
      findings s (.value (.scalar id' span' l'.scalar)) =
        (typeCauses s (numberType s l'.isInteger)).map Problem.Cause.shown ++ rest := by
  have finite' : l'.toDouble.isFinite = true := alike.isFinite_eq ▸ finite
  obtain ⟨m, hm, left⟩ := l.exists_numberJson?_alike finite l.isInteger
  obtain ⟨n, hn, right⟩ := l'.exists_numberJson?_alike finite' l'.isInteger
  have values : valueCauses s (some (.number n)) = valueCauses s (some (.number m)) :=
    valueCauses_alike (right.trans (alike.symm.trans left.symm))
  refine ⟨(valueCauses s (some (.number m)) ++ sizeCauses s l.toDouble).map
    Problem.Cause.shown, ?_, ?_⟩
  · rw [Decimal.Literal.scalar, if_pos finite, findings_number, List.map_append, hm]
  · rw [Decimal.Literal.scalar, if_pos finite', findings_number, List.map_append, hn, values,
      sizeCauses_alike alike]

end Conformance

namespace Document

open Conformance (findings)

/-- Literals of one value are found at fault for the same things, in the same words and order, if
both are written as integers or neither is. If one is, the other is found at fault for its type at
most, ahead of all else. -/
theorem spelling_immaterial {source source' : List Char} {l l' : Decimal.Literal} {n n' : Node}
    (hn : Spells source l n) (hn' : Spells source' l' n')
    (same : l.toDouble.sameValue l'.toDouble = true) (s : Schema) :
    (findings s n).filter (·.1 ≠ "type") = (findings s n').filter (·.1 ≠ "type") ∧
      (l.isInteger = l'.isInteger → findings s n = findings s n') ∧
      (l.isInteger = true → l'.isInteger = false →
        findings s n' = findings s n ∨
          ∃ message, findings s n' = ("type", message) :: findings s n) := by
  obtain ⟨id, span, rfl⟩ := hn.exists_scalar
  obtain ⟨id', span', rfl⟩ := hn'.exists_scalar
  obtain ⟨-, alike⟩ := Double.sameValue_iff.mp same
  cases finite : l.toDouble.isFinite with
  | false =>
    have infinite : l'.toDouble.isFinite = false := alike.isFinite_eq ▸ finite
    -- whichever form they have, both stand for the same malformed number
    have malformed : findings s (.value (.scalar id span l.scalar)) =
        findings s (.value (.scalar id' span' l'.scalar)) := by
      simp only [Decimal.Literal.scalar, finite, infinite, Bool.false_eq_true, if_false,
        Conformance.findings_number]
    exact ⟨by rw [malformed], fun _ => malformed, fun _ _ => .inl malformed.symm⟩
  | true =>
    obtain ⟨rest, found, found'⟩ := Conformance.findings_spelling alike finite s id id' span span'
    have untyped (typeName : String) : ((Conformance.typeCauses s typeName).map
        Problem.Cause.shown).filter (·.1 ≠ "type") = [] := by
      refine List.filter_eq_nil_iff.mpr fun shown hshown => ?_
      obtain ⟨c, hc, rfl⟩ := List.mem_map.mp hshown
      simp [Problem.Cause.shown, Conformance.rule_of_mem_typeCauses hc]
    rw [found, found']
    refine ⟨?_, fun hint => by rw [hint], fun integer other => ?_⟩
    · rw [List.filter_append, List.filter_append, untyped, untyped]
    · rw [integer, other]
      rcases Conformance.typeCauses_numberType s with equal | ⟨wanted, fits, wrong⟩
      · exact .inl (by rw [equal])
      · refine .inr ⟨(Problem.Cause.wrongType wanted).message, ?_⟩
        rw [fits, wrong]
        rfl

/-- A hundred that is to be an integer of no more than 99 is found too large however it is written,
and with an exponent it is not an integer. -/
theorem spelling_immaterial_hundred :
    let s : Schema := { Schema.empty with
      type := some (.single "integer"), maximum := some (.ofInt 99) }
    ∃ n n', Spells "100".toList ⟨false, "100".toList, none, none⟩ n ∧
      Spells "1e2".toList ⟨false, "1".toList, none, some ⟨false, "2".toList⟩⟩ n' ∧
      (findings s n).map Prod.fst = ["maximum"] ∧
      (findings s n').map Prod.fst = ["type", "maximum"] ∧
      (findings s n).filter (·.1 ≠ "type") = (findings s n').filter (·.1 ≠ "type") := by
  intro s
  obtain ⟨root, hroot, hn⟩ := exists_spells (show Decimal.Literal.ofText? "100".toList =
    some ⟨false, "100".toList, none, none⟩ by decide)
  obtain ⟨root', hroot', hn'⟩ := exists_spells (show Decimal.Literal.ofText? "1e2".toList =
    some ⟨false, "1".toList, none, some ⟨false, "2".toList⟩⟩ by decide)
  have shown : ((parse "100".toList).1.root.map fun v => (findings s (.value v)).map Prod.fst) =
      some ["maximum"] := by
    decide +kernel
  have shown' : ((parse "1e2".toList).1.root.map fun v => (findings s (.value v)).map Prod.fst) =
      some ["type", "maximum"] := by
    decide +kernel
  rw [hroot] at shown
  rw [hroot'] at shown'
  exact ⟨_, _, hn, hn', Option.some.inj shown, Option.some.inj shown',
    (spelling_immaterial hn hn' (by decide +kernel) s).1⟩

end Document

end TemplateLint
