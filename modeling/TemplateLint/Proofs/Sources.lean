import TemplateLint.Proofs.Builder.Numbering
import TemplateLint.Proofs.Values

/-!
# Texts and the values they stand for

A text without faults has a tree of which nothing is lost, unless an object
repeats a key or an integer is too large for its number to be written as one.
So for such texts the problems of the tree can be told from the value alone.
-/

namespace TemplateLint

/-- The literals of a text that are written as integers. -/
def integerLiterals (source : List Char) : List Decimal.Literal :=
  ((Lexeme.tokens source).filter (·.kind = .number)).filterMap fun t =>
    (Decimal.Literal.ofText? t.text).filter (·.isInteger)

/-- The keys that an object writes, as often as it does. -/
def Node.keys : Node → List String
  | value (.object _ _ properties) => properties.map (·.key)
  | _ => []

theorem numberJson?_integer {x : Double} {i : Int} (h : x.toInt? (.pow 2 63) = some i) :
    numberJson? x true = some (.number (.integer i)) := by
  unfold numberJson?
  rw [h]

theorem numberJson?_real {x : Double} {isInteger : Bool} (finite : x.isFinite = true)
    (h : isInteger = true → x.toInt? (.pow 2 63) = none) :
    numberJson? x isInteger = some (.number (.real x)) := by
  unfold numberJson?
  cases isInteger with
  | false => exact if_pos finite
  | true =>
    rw [h rfl]
    exact if_pos finite

theorem exists_numberJson? {x : Double} (finite : x.isFinite = true) (isInteger : Bool) :
    ∃ json, numberJson? x isInteger = some json := by
  unfold numberJson?
  split
  · exact ⟨_, rfl⟩
  · exact ⟨_, if_pos finite⟩

/-- What a value is on its own, if it holds no others. -/
def Value.scalar? : Value → Option Scalar
  | scalar _ _ content => some content
  | _ => none

namespace Decimal.Literal

/-- An integer literal is rounded as the integer that it writes. -/
theorem toDouble_of_isInteger {l : Literal} (h : l.isInteger = true) :
    l.toDouble = .ofQuotient l.negative (natOfDigits l.whole) 1 := by
  simp only [isInteger, Bool.and_eq_true, Option.isNone_iff_eq_none] at h
  rw [toDouble, h.1, h.2]
  simpa using Double.ofDecimal_whole l.negative (natOfDigits l.whole)

/-- The number of a literal has the form in which the literal is written. -/
theorem exists_number {l : Literal} (finite : l.toDouble.isFinite = true)
    (small : l.isInteger = true → l.toInt.natAbs < 2 ^ 63 - 512) :
    ∃ n : Number, numberJson? l.toDouble l.isInteger = some (.number n) ∧
      n.toDouble.Alike l.toDouble ∧ (l.isInteger = true ↔ ∃ i, n = .integer i) := by
  cases hi : l.isInteger with
  | false =>
    exact ⟨.real l.toDouble, numberJson?_real finite (by simp), Or.inl rfl, by simp⟩
  | true =>
    have hx := toDouble_of_isInteger hi
    have hlt : natOfDigits l.whole < 2 ^ 63 - 512 := by
      have hsmall := small hi
      unfold toInt Double.signed at hsmall
      split at hsmall
      · simpa using hsmall
      · simpa using hsmall
    obtain ⟨i, htoInt, alike⟩ := Double.toInt?_ofQuotient hlt l.negative
    rw [← hx] at htoInt alike
    exact ⟨.integer i, numberJson?_integer htoInt, alike, by simp⟩

end Decimal.Literal

namespace Builder

/-- A token that stands for a number without a fault is a number literal. -/
theorem exists_literal {t : Lexeme Token} {x : Double} {isInteger : Bool}
    (h : scalar? t = some (.number x isInteger, none)) :
    t.kind = .number ∧ ∃ l, Decimal.Literal.ofText? t.text = some l ∧
      l.toDouble.isFinite = true ∧ x = l.toDouble ∧ isInteger = l.isInteger := by
  unfold scalar? at h
  split at h
  · cases h
  · cases h
  · refine ⟨by assumption, ?_⟩
    have hn : numberScalar t = (.number x isInteger, none) := Option.some.inj h
    unfold numberScalar at hn
    split at hn
    · cases hn
    · rename_i l hl
      split at hn
      · rename_i hfinite
        cases hn
        exact ⟨l, hl, hfinite, rfl, rfl⟩
      · cases hn
  all_goals cases h

/-- Nothing is lost of a node whose events are without faults. -/
theorem plain_of_faultless {source : List Char} {n : Node}
    (faultless : ∀ e ∈ n.events, Faultless (Lexeme.tokens source) e) (distinct : n.keys.Nodup)
    (small : ∀ l ∈ integerLiterals source, l.toInt.natAbs < 2 ^ 63 - 512) : n.Plain := by
  rcases n with (⟨id, span, ps⟩ | ⟨id, span, vs⟩ | ⟨id, span, content⟩) | p
  · exact distinct
  · trivial
  · cases content with
    | number x isInteger =>
      obtain ⟨t, ht, hscalar⟩ := faultless _ (Node.first_mem_events _)
      obtain ⟨hkind, l, hl, finite, rfl, rfl⟩ := exists_literal hscalar
      obtain ⟨n, hn, alike, written⟩ := l.exists_number finite fun hi =>
        small l (List.mem_filterMap.mpr ⟨t, List.mem_filter.mpr ⟨ht, by simpa using hkind⟩,
          by simp [hl, hi]⟩)
      refine ⟨?_, n, hn, alike, written⟩
      cases hx : l.toDouble with
      | nan => simp [hx, Double.isFinite] at finite
      | infinite negative => rfl
      | finite negative units => rfl
    | string text => trivial
    | boolean b => trivial
    | null => trivial
  · refine faultless (.propertyEnd p.value.isSome p.span.stop) ?_
    rw [Node.events_eq]
    simp [Node.last]

/-- A value whose events are without faults stands for a JSON value. -/
theorem exists_toJson?_of_faultless {source : List Char} {v : Value}
    (faultless : ∀ e ∈ v.events, Faultless (Lexeme.tokens source) e) :
    ∃ json, v.toJson? = some json := by
  rcases v with ⟨id, span, ps⟩ | ⟨id, span, vs⟩ | ⟨id, span, text | ⟨x, isInteger⟩ | b | _⟩
  · exact ⟨_, rfl⟩
  · exact ⟨_, rfl⟩
  · exact ⟨_, rfl⟩
  · obtain ⟨t, -, hscalar⟩ := faultless _
      (Node.first_mem_events (.value (.scalar id span (.number x isInteger))))
    obtain ⟨-, l, -, finite, rfl, rfl⟩ := exists_literal hscalar
    exact exists_numberJson? finite _
  · exact ⟨_, rfl⟩
  · exact ⟨_, rfl⟩

end Builder

namespace Document

open Conformance (everyNode nodeProblems)

section Faultless

variable {source : List Char} (faultless : (parse source).2 = [])

include faultless

theorem faultless_of_mem {e : Entry} (he : e ∈ (parse source).1.entries) :
    ∀ k ∈ e.node.events, Builder.Faultless (Lexeme.tokens source) k := by
  have hevents := Builder.build_faultless (List.map_eq_nil_iff.mp faultless)
  obtain ⟨root, hroot, hentries⟩ := exists_root_of_mem he
  rw [← root_parse, hroot, valueEvents_some] at hevents
  rw [hentries] at he
  have hm : e.node ∈ (Node.value root).nodes := List.mem_map_of_mem he
  exact fun k hk => hevents k ((Node.events_inside hm).subset hk)

/-- Every value of a text without faults stands for a JSON value. -/
theorem exists_toJson?_of_mem {e : Entry} (he : e ∈ (parse source).1.entries) {v : Value}
    (hv : e.node = .value v) : ∃ json, v.toJson? = some json := by
  have hevents := faultless_of_mem faultless he
  rw [hv] at hevents
  exact Builder.exists_toJson?_of_faultless hevents

theorem exists_toJson? {root : Value} (hroot : (parse source).1.root = some root) :
    ∃ json, root.toJson? = some json :=
  exists_toJson?_of_mem faultless (root_mem_entries hroot) rfl

/-- No property of a text without faults lacks its value. -/
theorem isSome_value_of_mem {e : Entry} (he : e ∈ (parse source).1.entries) {p : Property}
    (hp : e.node = .property p) : p.value.isSome = true := by
  refine faultless_of_mem faultless he (.propertyEnd p.value.isSome p.span.stop) ?_
  rw [hp, Node.events_eq]
  simp [Node.last]

end Faultless

/-- A text without faults, without repeated keys and with integers below 2^63 - 512 has problems
with just those schemas that do not accept the value it stands for. -/
theorem conforms_iff_accepts {source : List Char} {root : Value}
    (faultless : (parse source).2 = []) (hroot : (parse source).1.root = some root)
    (distinct : ∀ e ∈ (parse source).1.entries, e.node.keys.Nodup)
    (small : ∀ l ∈ integerLiterals source, l.toInt.natAbs < 2 ^ 63 - 512) :
    ∃ json, root.toJson? = some json ∧
      ∀ s, nodeProblems everyNode s (.value root) = [] ↔ s.Accepts json := by
  have hfaults : (Builder.build source).2 = [] := List.map_eq_nil_iff.mp faultless
  have hevents := Builder.build_faultless hfaults
  rw [← root_parse, hroot, valueEvents_some] at hevents
  have plain : ∀ m ∈ (Node.value root).nodes, m.Plain := by
    intro m hm
    have inside := (Node.events_inside hm).subset
    refine Builder.plain_of_faultless (fun e he => hevents e (inside he)) ?_ small
    obtain ⟨e, he, rfl⟩ := List.mem_map.mp hm
    refine distinct e ?_
    unfold entries
    rw [hroot]
    exact he
  obtain ⟨json, hjson, hiff⟩ := Conformance.exists_denotes plain
  exact ⟨json, hjson, hiff⟩

/-- An object that holds an array of numbers of both forms. -/
theorem conforms_iff_accepts_numbers :
    let source := "\x7b\"a\": [1, -2.5e3], \"b\": null\x7d".toList
    (parse source).2 = [] ∧ (∀ e ∈ (parse source).1.entries, e.node.keys.Nodup) ∧
      (∀ l ∈ integerLiterals source, l.toInt.natAbs < 2 ^ 63 - 512) ∧
      ∃ root, (parse source).1.root = some root ∧ ∃ json, root.toJson? = some json ∧
        ∀ s, nodeProblems everyNode s (.value root) = [] ↔ s.Accepts json := by
  intro source
  have faultless : (parse source).2 = [] := by decide +kernel
  have distinct : ∀ e ∈ (parse source).1.entries, e.node.keys.Nodup := by decide +kernel
  have small : ∀ l ∈ integerLiterals source, l.toInt.natAbs < 2 ^ 63 - 512 := by decide +kernel
  have hsome : (parse source).1.root.isSome = true := by decide +kernel
  obtain ⟨root, hroot⟩ := Option.isSome_iff_exists.mp hsome
  exact ⟨faultless, distinct, small, root, hroot,
    conforms_iff_accepts faultless hroot distinct small⟩

/-- Below 2^63 alone does not do: 2^63 - 512 is rounded to 2^63, which is not written as an integer,
while the tree still knows that the literal was. -/
theorem exists_rounded_out_of_range :
    let source := "9223372036854775296".toList
    let integers : Schema := { Schema.empty with type := some (.single "integer") }
    (parse source).2 = [] ∧ (∀ e ∈ (parse source).1.entries, e.node.keys.Nodup) ∧
      (∀ l ∈ integerLiterals source, l.toInt.natAbs < 2 ^ 63) ∧
      ∃ root, (parse source).1.root = some root ∧ ∃ json, root.toJson? = some json ∧
        nodeProblems everyNode integers (.value root) = [] ∧ ¬ integers.Accepts json := by
  intro source integers
  have hscalar : (parse source).1.root.bind Value.scalar? =
      some (.number (.ofInt (.pow 2 63)) true) := by decide +kernel
  have hint : (Double.ofInt (.pow 2 63)).toInt? (.pow 2 63) = none := by decide +kernel
  have hfinite : (Double.ofInt (.pow 2 63)).isFinite = true := by decide +kernel
  generalize Double.ofInt (.pow 2 63) = x at hscalar hint hfinite
  refine ⟨by decide +kernel, by decide +kernel, by decide +kernel, ?_⟩
  obtain ⟨root, hroot, hcontent⟩ := Option.bind_eq_some_iff.mp hscalar
  cases root with
  | object _ _ _ => cases hcontent
  | array _ _ _ => cases hcontent
  | scalar id span content =>
    cases hcontent
    refine ⟨_, hroot, .number (.real x), numberJson?_real hfinite fun _ => hint, ?_, ?_⟩
    · have hsize : Conformance.sizeCauses integers x = [] := ite_self _
      change Conformance.problemsAt _ (_ ++ Conformance.sizeCauses integers x) = []
      rw [hsize]
      rfl
    · intro h
      obtain ⟨name, hname, hmem⟩ := (show integers.Fits _ from h).type _ rfl
      cases List.mem_singleton.mp hname
      simp [Json.typeNames] at hmem

end Document

end TemplateLint
