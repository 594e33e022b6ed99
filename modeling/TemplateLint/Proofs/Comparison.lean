import TemplateLint.Proofs.Causes
import TemplateLint.Proofs.Sameness
import TemplateLint.Proofs.Schema.Loading

/-!
# Comparison with the values of a schema

The values that a schema lists and its constant are compared with the value of a
node. The values that trees stand for, and those of schemas that are read from
texts, repeat no name and hold no NaN. So the comparison depends neither on how
a template spells a value nor on how the schema does.
-/

namespace TemplateLint

theorem Double.ofInt_ne_nan (i : Int) : ofInt i ≠ .nan := by
  intro h
  simp only [ofInt, ofQuotient] at h
  split at h <;> cases h

namespace Json

/-- A value that a text can hold is a proper one. -/
theorem Plain.proper {n : Nat} {v : Json} (h : v.Plain n) : v.Proper := by
  induction h with
  | null => exact .null
  | boolean => exact .boolean
  | number plain =>
    cases plain with
    | integer => exact .number (Double.ofInt_ne_nan _)
    | real => exact .number Double.noConfusion
  | string => exact .string
  | array _ ih => exact .array ih
  | object distinct _ ih => exact .object distinct ih

section Congruence

variable {v w : Json} (hv : v.Proper) (hw : w.Proper) (same : v.same w = true)

include hv hw same

theorem same_congr {a b : Json} (ha : a.Proper) (hb : b.Proper) (hab : a.same b = true) :
    a.same v = b.same w := by
  rw [Bool.eq_iff_iff]
  constructor
  · intro h
    exact same_trans hb ha hw (same_symm ha hb hab) (same_trans ha hv hw h same)
  · intro h
    exact same_trans ha hb hv hab (same_trans hb hw hv h (same_symm hv hw same))

theorem any_same_of {as bs : List Json} (has : (array as).Proper) (hbs : (array bs).Proper)
    (items : sameItems as bs = true) (h : as.any (·.same v) = true) :
    bs.any (·.same w) = true := by
  obtain ⟨a, ha, hav⟩ := List.any_eq_true.mp h
  obtain ⟨position, hposition⟩ := List.mem_iff_getElem?.mp ha
  obtain ⟨b, hb, hab⟩ := (sameItems_iff.mp items).found (s := .index position) hposition
  refine List.any_eq_true.mpr ⟨b, List.mem_of_getElem? hb, ?_⟩
  have proper : a.Proper := has.part (s := .index position) hposition
  rwa [← same_congr hv hw same proper (hbs.part hb) hab]

/-- Whether a value is one of a list depends neither on the spelling of the list nor on its own. -/
theorem any_same_congr {as bs : List Json} (has : (array as).Proper) (hbs : (array bs).Proper)
    (items : sameItems as bs = true) : as.any (·.same v) = bs.any (·.same w) := by
  rw [Bool.eq_iff_iff]
  exact ⟨any_same_of hv hw same has hbs items,
    any_same_of hw hv (same_symm hv hw same) hbs has (same_symm has hbs items)⟩

end Congruence

end Json

/-! ## The values of trees -/

theorem proper_numberJson? {x : Double} {isInteger : Bool} {json : Json}
    (h : numberJson? x isInteger = some json) : json.Proper := by
  unfold numberJson? at h
  split at h
  · cases h
    exact .number (Double.ofInt_ne_nan _)
  · split at h
    · cases h
      refine .number ?_
      rintro rfl
      contradiction
    · cases h

theorem Value.proper_toJson? {v : Value} {json : Json} (h : v.toJson? = some json) :
    json.Proper := by
  induction v using value_induction generalizing json with
  | object id span ps ih =>
    cases h
    have members : ∀ m ∈ propertiesJson ps, m.2.Proper := by
      intro m hm
      obtain ⟨p, hp, v, hv, hjson, -⟩ := Conformance.mem_propertiesJson.mp hm
      exact ih p hp v hv hjson
    obtain ⟨distinct, proper⟩ := Members.ofList_spec members
    exact .object distinct proper
  | array id span vs ih =>
    cases h
    refine .array fun json hjson => ?_
    rw [itemsJson_eq] at hjson
    obtain ⟨v, hv, rfl⟩ := List.mem_map.mp hjson
    cases hjson : v.toJson? with
    | none => exact .null
    | some json => exact ih v hv hjson
  | scalar id span content =>
    cases content with
    | string => cases h; exact .string
    | number => exact proper_numberJson? h
    | boolean => cases h; exact .boolean
    | null => cases h; exact .null

namespace Schema

/-- The values with which a schema has others compared repeat no name and hold no NaN. -/
structure ProperValues (s : Schema) : Prop where
  enum : ∀ vs, s.enum = some vs → (Json.array vs).Proper
  const : ∀ c, s.const = some c → c.Proper

/-- A schema that is read from a text has no others. -/
theorem Sound.properValues {n : Nat} {s : Schema} (h : Sound n s) : s.ProperValues := by
  cases h with
  | mk leaves =>
    refine ⟨fun vs hvs => ?_, fun c hc => ?_⟩
    · exact (leaves.value .enum (.array vs) rfl (by simp [value?, hvs])).1.proper
    · exact (leaves.value .const c rfl (by simp [value?, hc])).1.proper

end Schema

namespace Conformance

open Schema (ProperValues sameOption)

/-- The causes at a value that come from its comparison with the values of a schema. -/
def comparisons (s : Schema) (v : Value) : List Problem.Cause :=
  (ownCauses s v).filter fun c => c.rule = "enum" ∨ c.rule = "const"

theorem commonCauses_eq (s : Schema) (typeName : String) (n : Node) :
    commonCauses s typeName n = typeCauses s typeName ++ valueCauses s n.toJson? := by
  unfold commonCauses
  cases henum : s.enum <;> cases hconst : s.const <;>
    cases n.toJson? <;> simp [valueCauses, henum, hconst]

/-- A value is compared once, whatever else is asked of it. -/
theorem exists_ownCauses (s : Schema) (v : Value) : ∃ typeName others,
    ownCauses s v = typeCauses s typeName ++ valueCauses s v.toJson? ++ others ∧
      ∀ c ∈ others, c.rule ≠ "enum" ∧ c.rule ≠ "const" := by
  have common (typeName : String) := commonCauses_eq s typeName (.value v)
  have alone {typeName : String} (h : ownCauses s v = commonCauses s typeName (.value v)) :
      ∃ typeName others,
        ownCauses s v = typeCauses s typeName ++ valueCauses s v.toJson? ++ others ∧
          ∀ c ∈ others, c.rule ≠ "enum" ∧ c.rule ≠ "const" :=
    ⟨typeName, [], by rw [h, common, List.append_nil]; rfl, nofun⟩
  rcases v with ⟨id, span, ps⟩ | ⟨id, span, vs⟩ | ⟨id, span, text | ⟨x, isInteger⟩ | b | _⟩
  · refine ⟨"object", missingCauses s ps, by rw [ownCauses, common]; rfl, fun c hc => ?_⟩
    obtain ⟨name, rfl⟩ := mem_missingCauses hc
    simp [Problem.Cause.rule]
  · exact alone rfl
  · exact alone rfl
  · refine ⟨numberType s isInteger, sizeCauses s x, by rw [ownCauses, numberCauses, common]; rfl,
      fun c hc => ?_⟩
    have size := rule_of_mem_sizeCauses hc
    exact ⟨ne_of_mem_of_not_mem size (by decide), ne_of_mem_of_not_mem size (by decide)⟩
  · exact alone rfl
  · exact alone rfl

theorem comparisons_eq (s : Schema) (v : Value) : comparisons s v = valueCauses s v.toJson? := by
  obtain ⟨typeName, others, h, apart⟩ := exists_ownCauses s v
  have type : (typeCauses s typeName).filter (fun c => c.rule = "enum" ∨ c.rule = "const") =
      [] :=
    List.filter_eq_nil_iff.mpr fun c hc => by simp [rule_of_mem_typeCauses hc]
  have value : (valueCauses s v.toJson?).filter (fun c => c.rule = "enum" ∨ c.rule = "const") =
      valueCauses s v.toJson? :=
    List.filter_eq_self.mpr fun c hc => decide_eq_true (rule_of_mem_valueCauses hc)
  have rest : others.filter (fun c => c.rule = "enum" ∨ c.rule = "const") = [] :=
    List.filter_eq_nil_iff.mpr fun c hc => by simp [apart c hc]
  rw [comparisons, h, List.filter_append, List.filter_append, type, value, rest]
  simp

section Spelling

variable {s t : Schema} (hs : s.ProperValues) (ht : t.ProperValues)
  (enum : sameOption Json.sameItems s.enum t.enum = true)
  (const : sameOption Json.same s.const t.const = true)
  {v w : Value} (same : sameOption Json.same v.toJson? w.toJson? = true)

include hs ht enum const same

/-- Schemas and values that are spelled in other ways are compared with the same outcome. -/
theorem rules_comparisons :
    (comparisons s v).map Problem.Cause.rule = (comparisons t w).map Problem.Cause.rule := by
  rw [comparisons_eq, comparisons_eq]
  rcases Schema.sameOption_cases same with ⟨hv, hw⟩ | ⟨a, b, hv, hw, same⟩
  · rw [hv, hw]
    rfl
  have ha := Value.proper_toJson? hv
  have hb := Value.proper_toJson? hw
  rw [hv, hw]
  simp only [valueCauses, List.map_append]
  congr 1
  · rcases Schema.sameOption_cases enum with ⟨hs', ht'⟩ | ⟨vs, ws, hvs, hws, items⟩
    · rw [hs', ht']
    · rw [hvs, hws]
      simp only [Json.any_same_congr ha hb same (hs.enum vs hvs) (ht.enum ws hws) items]
      cases ws.any (·.same b) <;> rfl
  · rcases Schema.sameOption_cases const with ⟨hs', ht'⟩ | ⟨c, d, hc, hd, constants⟩
    · rw [hs', ht']
    · rw [hc, hd]
      simp only [Json.same_congr ha hb same (hs.const c hc) (ht.const d hd) constants]
      cases d.same b <;> rfl

end Spelling

/-- With one schema the causes are the same as a whole, the values that they name included. -/
theorem comparisons_congr {s : Schema} (hs : s.ProperValues) {v w : Value}
    (same : sameOption Json.same v.toJson? w.toJson? = true) :
    comparisons s v = comparisons s w := by
  rw [comparisons_eq, comparisons_eq]
  rcases Schema.sameOption_cases same with ⟨hv, hw⟩ | ⟨a, b, hv, hw, same⟩
  · rw [hv, hw]
  have ha := Value.proper_toJson? hv
  have hb := Value.proper_toJson? hw
  rw [hv, hw]
  simp only [valueCauses]
  congr 1
  · cases henum : s.enum with
    | none => rfl
    | some vs =>
      have proper := hs.enum vs henum
      simp only [Json.any_same_congr ha hb same proper proper (Json.same_refl proper)]
  · cases hconst : s.const with
    | none => rfl
    | some c =>
      have proper := hs.const c hconst
      simp only [Json.same_congr ha hb same proper proper (Json.same_refl proper)]

end Conformance

namespace Json

open Conformance (comparisons)
open Schema (ProperValues sameOption)

/-- Sameness of values without repeated names is an equivalence. It does not see the order of
members, and a value is the same with a part exchanged for one that is the same. So what a
comparison with the values of a schema finds depends neither on the spelling that a template nor on
the one that a schema has for a value. -/
theorem sameness_congruence :
    Equivalence (fun v w : {v : Json // v.Proper} => v.1.same w.1 = true) ∧
      (∀ {v v' w w' : Json}, v.Proper → w.Proper → Reordered v v' → Reordered w w' →
        v.same w = v'.same w') ∧
      (∀ (C : Context) {v w : Json}, (C.fill v).Proper → w.Proper → v.same w = true →
        (C.fill w).Proper ∧ (C.fill v).same (C.fill w) = true) ∧
      (∀ {s : Schema}, s.ProperValues → ∀ {v w : Value},
        sameOption same v.toJson? w.toJson? = true → comparisons s v = comparisons s w) ∧
      ∀ {s t : Schema}, s.ProperValues → t.ProperValues →
        sameOption sameItems s.enum t.enum = true → sameOption same s.const t.const = true →
        ∀ {v w : Value}, sameOption same v.toJson? w.toJson? = true →
          (comparisons s v).map Problem.Cause.rule = (comparisons t w).map Problem.Cause.rule := by
  refine ⟨⟨fun v => same_refl v.2, fun {v w} => same_symm v.2 w.2,
    fun {u v w} => same_trans u.2 v.2 w.2⟩, ?_, ?_, Conformance.comparisons_congr, ?_⟩
  · intro v v' w w' hv hw reorderedLeft reorderedRight
    obtain ⟨hv', left⟩ := reorderedLeft.proper_and_same hv
    obtain ⟨hw', right⟩ := reorderedRight.proper_and_same hw
    exact same_congr hw hw' right hv hv' left
  · intro C v w filled hw same
    exact ⟨Context.proper_fill filled hw, Context.same_fill filled hw same⟩
  · intro s t hs ht enum const v w same
    exact Conformance.rules_comparisons hs ht enum const same

/-- An array is the same with an object in it spelled in another way: members in another order, and
an integer as another number. -/
theorem sameness_congruence_respelled :
    let one : Json := .object [("a", .number (.integer 1)), ("b", .null)]
    let other : Json := .object [("b", .null), ("a", .number (.real (.ofInt 1)))]
    (array [.null, one]).Proper ∧ other.Proper ∧ one.same other = true ∧
      (array [.null, other]).same (array [.null, one]) = true := by
  intro one other
  have proper (value : Number) (h : value.toDouble ≠ .nan) : (object [("a", .number value),
      ("b", .null)]).Proper ∧ (object [("b", .null), ("a", .number value)]).Proper := by
    simp [proper_object, Members.names, Proper.null, Proper.number h]
  have hone : (array [.null, one]).Proper := by
    rw [proper_array, List.forall_mem_cons, List.forall_mem_singleton]
    exact ⟨.null, (proper (.integer 1) (Double.ofInt_ne_nan 1)).1⟩
  have hother : other.Proper := (proper (.real (.ofInt 1)) (Double.ofInt_ne_nan 1)).2
  have same : one.same other = true := by decide +kernel
  obtain ⟨equivalence, -, exchange, -⟩ := sameness_congruence
  obtain ⟨filled, exchanged⟩ := exchange (.item [.null] .hole []) hone hother same
  exact ⟨hone, hother, same, equivalence.symm (x := ⟨_, hone⟩) (y := ⟨_, filled⟩) exchanged⟩

end Json

end TemplateLint
