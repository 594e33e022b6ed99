import TemplateLint.Proofs.Builder.Malformed
import TemplateLint.Proofs.Decimal.Overflow
import TemplateLint.Proofs.Decimal.Patterns
import TemplateLint.Proofs.Decimal.Recogniser

/-!
# Classification of number literals

Tokens that look like numbers are told apart by the grammar of JSON and by
their magnitude. Those outside the grammar and those that overflow become nodes
without a number and are reported, each once; of the others the grammar says
which are integers.
-/

namespace TemplateLint

open Decimal (Literal)
open Decimal.Literal (Writes)

/-- Whether a diagnostic reports the literal with a span as no number. -/
def Diagnostic.rejectsNumber (span : Span) (d : Diagnostic) : Bool :=
  "invalid number literal `".toList.isPrefixOf d.message.toList && d.location = some span

theorem PlacedFault.rejectsNumber_iff {f : PlacedFault} {span : Span} :
    f.diagnostic.rejectsNumber span = true ↔ f.malformed? = some span := by
  obtain ⟨fault, place⟩ := f
  have message : "invalid number literal `".toList.isPrefixOf fault.message.toList = true ↔
      ∃ literal, fault = .invalidNumber literal :=
    List.isPrefixOf_iff_prefix.trans Fault.message_invalid_iff
  have shown : (PlacedFault.diagnostic ⟨fault, place⟩).rejectsNumber span =
      ("invalid number literal `".toList.isPrefixOf fault.message.toList &&
        decide (some place = some span)) := rfl
  rw [shown, Bool.and_eq_true, decide_eq_true_eq, message]
  constructor
  · rintro ⟨⟨literal, rfl⟩, hplace⟩
    exact hplace
  · intro h
    cases fault with
    | invalidNumber literal => exact ⟨⟨literal, rfl⟩, h⟩
    | _ => cases h

namespace Builder

variable {t : Lexeme Token} {x : Double} {isInteger : Bool} {fault : Option Fault}

/-- A token stands for the number of the literal that it writes. -/
structure Proper (t : Lexeme Token) (x : Double) (isInteger : Bool) (l : Literal) : Prop where
  writes : Writes t.text l
  small : ¬l.Overflows
  value : x = l.toDouble
  form : isInteger = l.isInteger

section Number

variable (h : scalar? t = some (.number x isInteger, fault))

include h

theorem kind_eq_number : t.kind = .number := by
  unfold scalar? at h
  split at h
  all_goals first | assumption | cases h

/-- A token that is taken for a number writes a literal that is finite, or is reported. -/
theorem scalar?_number : (∃ l, Proper t x isInteger l ∧ malformed? t = none) ∨
    ((∀ l, Writes t.text l → l.Overflows) ∧ x = .nan ∧ malformed? t = some t.span) := by
  have hnumber : numberScalar t = (.number x isInteger, fault) := by
    simpa [scalar?, kind_eq_number h] using h
  have hmalformed (literal : List Char) (hf : fault = some (.invalidNumber literal)) :
      malformed? t = some t.span := by
    simp [malformed?, h, hf]
  unfold numberScalar at hnumber
  cases hl : Literal.ofText? t.text with
  | none =>
    rw [hl] at hnumber
    cases hnumber
    refine Or.inr ⟨fun l writes => ?_, rfl, hmalformed _ rfl⟩
    rw [writes.ofText?] at hl
    cases hl
  | some l =>
    have writes := Literal.ofText?_eq_some_iff.mp hl
    rw [hl] at hnumber
    by_cases finite : l.toDouble.isFinite = true
    · simp only [finite, if_true] at hnumber
      cases hnumber
      refine Or.inl ⟨l, ⟨writes, Literal.isFinite_toDouble_iff.mp finite, rfl, rfl⟩, ?_⟩
      simp [malformed?, h]
    · simp only [finite] at hnumber
      cases hnumber
      refine Or.inr ⟨fun k hk => ?_, rfl, hmalformed _ rfl⟩
      cases writes.unique hk
      exact not_not.mp fun small => finite (Literal.isFinite_toDouble_iff.mpr small)

theorem nan_iff : x = .nan ↔
    t.text ∉ Pattern.number ∨ ∃ l, Writes t.text l ∧ ∃ sign, l.toDouble = .infinite sign := by
  simp only [Pattern.mem_number, Literal.infinite_iff]
  rcases scalar?_number h with ⟨l, proper, -⟩ | ⟨overflows, rfl, -⟩
  · constructor
    · intro hx
      exact (l.toDouble_ne_nan (proper.value.symm.trans hx)).elim
    · rintro (outside | ⟨k, writes, overflows⟩)
      · exact (outside ⟨l, proper.writes⟩).elim
      · cases proper.writes.unique writes
        exact (proper.small overflows).elim
  · refine iff_of_true rfl ?_
    by_cases written : ∃ l, Writes t.text l
    · obtain ⟨l, writes⟩ := written
      exact Or.inr ⟨l, writes, overflows l writes⟩
    · exact Or.inl written

theorem nan_iff_malformed : x = .nan ↔ malformed? t = some t.span := by
  rcases scalar?_number h with ⟨l, proper, none⟩ | ⟨-, rfl, malformed⟩
  · rw [none]
    exact iff_of_false (fun hx => l.toDouble_ne_nan (proper.value.symm.trans hx)) nofun
  · exact iff_of_true rfl malformed

theorem isInteger_iff (hx : x ≠ .nan) : isInteger = true ↔ t.text ∈ Pattern.integer := by
  rw [Pattern.mem_integer]
  rcases scalar?_number h with ⟨l, proper, -⟩ | ⟨-, hnan, -⟩
  · rw [proper.form]
    constructor
    · exact fun form => ⟨l, proper.writes, form⟩
    · rintro ⟨k, writes, form⟩
      cases proper.writes.unique writes
      exact form
  · exact (hx hnan).elim

end Number

end Builder

namespace Document

/-- How often a literal is reported as no number. -/
theorem countP_rejectsNumber (source : List Char) (span : Span) :
    (parse source).2.countP (Diagnostic.rejectsNumber span) =
      ((Builder.build source).2.filterMap PlacedFault.malformed?).count span := by
  change ((Builder.build source).2.map PlacedFault.diagnostic).countP _ = _
  rw [List.countP_map, List.count_filterMap]
  refine List.countP_congr fun f _ => ?_
  rw [beq_iff_eq]
  exact PlacedFault.rejectsNumber_iff

theorem countP_rejectsNumber_iff {source : List Char} {span : Span} :
    (parse source).2.countP (Diagnostic.rejectsNumber span) = 1 ↔
      span ∈ (Builder.build source).2.filterMap PlacedFault.malformed? := by
  have once := List.nodup_iff_count_le_one.mp (Builder.nodup_malformed source) span
  rw [countP_rejectsNumber, ← List.count_pos_iff]
  omega

/-- The recogniser accepts the texts that belong to the pattern of numbers, and no others. A number
node of any text is NaN if its literal does not belong to the pattern, or lies at or above the
middle between the largest binary64 number and 2 ^ 1024; just then the literal is reported, and that
once. Of the other literals those are integers that belong to the pattern without a fraction and an
exponent. -/
theorem numbers_classified :
    (∀ text, Decimal.Recogniser.accepts text = true ↔ text ∈ Pattern.number) ∧
      (∀ l : Literal, (∃ sign, l.toDouble = .infinite sign) ↔ l.Overflows) ∧
      ∀ source, ∀ e ∈ (parse source).1.entries, ∀ id span x isInteger,
        e.node = .value (.scalar id span (.number x isInteger)) →
          ∃ t ∈ Lexeme.tokens source, t.kind = .number ∧ t.span = span ∧
            (x = .nan ↔ t.text ∉ Pattern.number ∨
              ∃ l, Writes t.text l ∧ ∃ sign, l.toDouble = .infinite sign) ∧
            (x = .nan ↔ (parse source).2.countP (Diagnostic.rejectsNumber span) = 1) ∧
            (x ≠ .nan → (isInteger = true ↔ t.text ∈ Pattern.integer)) := by
  refine ⟨fun text => ?_, fun l => Literal.infinite_iff,
    fun source e he id span x isInteger hnode => ?_⟩
  · rw [Decimal.Recogniser.accepts_eq, Option.isSome_iff_exists, Pattern.mem_number]
    exact exists_congr fun l => Literal.ofText?_eq_some_iff
  · obtain ⟨t, ht, rfl, ⟨fault, hscalar⟩, hmem⟩ := Builder.mem_malformed_iff he hnode
    refine ⟨t, ht, Builder.kind_eq_number hscalar, rfl, Builder.nan_iff hscalar, ?_,
      Builder.isInteger_iff hscalar⟩
    rw [countP_rejectsNumber_iff, hmem]
    exact Builder.nan_iff_malformed hscalar

end Document

end TemplateLint
