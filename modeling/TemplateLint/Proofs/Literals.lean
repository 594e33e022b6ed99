import TemplateLint.Proofs.Comparison
import TemplateLint.Proofs.Grammar.Lexing
import TemplateLint.Proofs.Numbers

/-!
# Number literals and what is found of them

A number literal of a text becomes a node that the literal alone decides. What a
schema finds of the node comes in three parts: the type, the comparison with the
values of the schema, and the size of the number.
-/

namespace TemplateLint

namespace Double

/-- An integer that a number is read as is rounded to the number again. -/
theorem alike_of_toInt? {negative : Bool} {units bound : Nat} {i : Int}
    (held : Representable units) (small : units ≤ maxUnits)
    (h : (finite negative units).toInt? bound = some i) :
    (ofInt i).Alike (finite negative units) := by
  simp only [toInt?, Option.ite_none_right_eq_some, Option.some.injEq] at h
  obtain ⟨⟨whole, -⟩, rfl⟩ := h
  have exact_ : units / unitsPerOne * unitsPerOne = units :=
    Nat.div_mul_cancel (Nat.dvd_of_mod_eq_zero whole)
  have rounded := ofQuotient_of_rounded (k := units / unitsPerOne)
    (by rw [exact_, roundQuotient_of_representable held]) (by rwa [exact_]) negative
  rw [exact_] at rounded
  rw [← rounded]
  exact alike_ofInt_signed negative _

end Double

namespace Decimal.Literal

variable {l : Literal}

/-- What a literal stands for in a tree. One that is too large for a finite number is malformed. -/
def scalar (l : Literal) : Scalar :=
  if l.toDouble.isFinite then .number l.toDouble l.isInteger else .number .nan true

/-- The JSON value of a literal is a number with the value of the literal, whichever form it has. -/
theorem exists_numberJson?_alike (finite : l.toDouble.isFinite = true) (isInteger : Bool) :
    ∃ n : Number, numberJson? l.toDouble isInteger = some (.number n) ∧
      n.toDouble.Alike l.toDouble := by
  cases hx : l.toDouble with
  | nan => simp [hx, Double.isFinite] at finite
  | infinite negative => simp [hx, Double.isFinite] at finite
  | finite negative units =>
    obtain ⟨held, small⟩ := Double.rounded_ofDecimal _ _ _ _ _ hx
    cases hint : (Double.finite negative units).toInt? (.pow 2 63) with
    | none => exact ⟨.real _, numberJson?_real rfl fun _ => hint, .inl rfl⟩
    | some i =>
      cases isInteger with
      | false => exact ⟨.real _, numberJson?_real rfl Bool.noConfusion, .inl rfl⟩
      | true => exact ⟨.integer i, numberJson?_integer hint, Double.alike_of_toInt? held small hint⟩

end Decimal.Literal

namespace Document

/-- A node of the tree of a text that a number literal of the text stands for. -/
def Spells (source : List Char) (l : Decimal.Literal) (n : Node) : Prop :=
  ∃ t ∈ Lexeme.tokens source, t.kind = .number ∧ Decimal.Literal.ofText? t.text = some l ∧
    ∃ e ∈ (parse source).1.entries, e.node = n ∧
      ∃ id content, n = .value (.scalar id t.span content)

/-- The literal decides the node, apart from where and as which one it stands. -/
theorem Spells.exists_scalar {source : List Char} {l : Decimal.Literal} {n : Node}
    (h : Spells source l n) : ∃ id span, n = .value (.scalar id span l.scalar) := by
  obtain ⟨t, ht, hkind, hl, e, he, rfl, id, content, hnode⟩ := h
  refine ⟨id, t.span, ?_⟩
  obtain ⟨u, hu, hspan, fault, hscalar⟩ := scalar?_of_mem he hnode
  cases Lexeme.eq_of_span hu ht hspan
  have stands : content = l.scalar := by
    simp only [Builder.scalar?, hkind, Builder.numberScalar, hl] at hscalar
    unfold Decimal.Literal.scalar
    split at hscalar <;> cases hscalar <;> rename_i finite <;> simp [finite]
  rw [hnode, stands]

/-- A literal that is all of a text spells the root of its tree. -/
theorem exists_spells {source : List Char} {l : Decimal.Literal}
    (h : Decimal.Literal.ofText? source = some l) :
    ∃ root, (parse source).1.root = some root ∧ Spells source l (.value root) := by
  let t : Lexeme Token := ⟨.number, source, .ofLength 0 (Lexeme.byteLength source)⟩
  have well : t.WellSpelled := .number rfl (Decimal.Literal.ofText?_eq_some_iff.mp h)
  have spelled : Spelled 0 source [t] := .token (List.append_nil _).symm well rfl .nil
  have tokens : Lexeme.tokens source = [t] := (spelled.lexemes (List.isChain_singleton t)).1
  obtain ⟨content, fault, hscalar⟩ : ∃ content fault, Builder.scalar? t = some (content, fault) :=
    ⟨_, _, rfl⟩
  have hroot : (parse source).1.root = some (.scalar 0 t.span content) := by
    have built : (Builder.finish (.point (Lexeme.byteLength source))
        (Builder.run (Lexeme.tokens source))).1 = some (.scalar 0 t.span content) := by
      rw [tokens]
      simp only [Builder.run, List.foldl_cons, List.foldl_nil, Builder.step, Builder.act,
        Builder.State.initial, Builder.beginValue, hscalar]
      rfl
    exact built
  refine ⟨_, hroot, t, tokens ▸ List.mem_singleton_self t, rfl, h, ?_⟩
  exact ⟨_, root_mem_entries hroot, rfl, 0, content, rfl⟩

end Document

/-- The rule that is broken, and the message. -/
def Problem.Cause.shown (c : Problem.Cause) : String × String := (c.rule, c.message)

namespace Conformance

variable {s : Schema}

section Sizes

variable {x y : Double} (h : x.Alike y)

include h

theorem less_alike (z : Double) : x.less z = y.less z ∧ z.less x = z.less y := by
  simp only [Double.less, h.compare?_left, h.compare?_right, and_self]

theorem atMost_alike (z : Double) : x.atMost z = y.atMost z ∧ z.atMost x = z.atMost y := by
  simp only [Double.atMost, less_alike h, Double.sameValue, h.compare?_left, h.compare?_right,
    and_self]

/-- The sign of a zero makes no difference to its size. -/
theorem sizeCauses_alike : sizeCauses s x = sizeCauses s y := by
  have divisor : divisorCauses s x = divisorCauses s y := by
    simp only [divisorCauses, h.remainder_zero]
  have minimum : minimumCauses s x = minimumCauses s y := by
    simp only [minimumCauses, less_alike h, atMost_alike h]
  have maximum : maximumCauses s x = maximumCauses s y := by
    simp only [maximumCauses, less_alike h, atMost_alike h]
  rw [sizeCauses, sizeCauses, h.isNan_eq, divisor, minimum, maximum]

end Sizes

/-- What is reported of a node under a schema. -/
def findings (s : Schema) (n : Node) : List (String × String) :=
  (nodeProblems everyNode s n).map fun p => p.cause.shown

theorem findings_number (s : Schema) (id : Nat) (span : Span) (x : Double) (isInteger : Bool) :
    findings s (.value (.scalar id span (.number x isInteger))) =
      (typeCauses s (numberType s isInteger) ++
        (valueCauses s (numberJson? x isInteger) ++ sizeCauses s x)).map Problem.Cause.shown := by
  have own : nodeProblems everyNode s (.value (.scalar id span (.number x isInteger))) =
      problemsAt (.value (.scalar id span (.number x isInteger)))
        (numberCauses s x isInteger (.value (.scalar id span (.number x isInteger)))) := rfl
  rw [findings, own, problemsAt, List.map_map, numberCauses, commonCauses_eq, List.append_assoc]
  rfl

end Conformance

end TemplateLint
