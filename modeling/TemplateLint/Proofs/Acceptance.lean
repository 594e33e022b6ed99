import TemplateLint.Proofs.Conformance
import TemplateLint.Proofs.Double

/-!
# Acceptance of values

What a schema means is said of JSON values alone, without a tree: a value fits
a schema by its type, its size and its names, and it is accepted when what it
holds is accepted as well. A tree that stands for a value has no problems with
a schema just when the schema accepts the value.
-/

namespace TemplateLint

/-- What schemas call a value. A number that is written as an integer goes by two names. -/
def Json.typeNames : Json → List String
  | null => ["null"]
  | boolean _ => ["boolean"]
  | number (.integer _) => ["integer", "number"]
  | number (.real _) => ["number"]
  | string _ => ["string"]
  | array _ => ["array"]
  | object _ => ["object"]

namespace Schema

/-- The demands on the size of a number. -/
structure FitsNumber (s : Schema) (x : Double) : Prop where
  divisor : ∀ d, s.multipleOf = some d → (x.remainder d).sameValue .zero = true
  minimum : ∀ b, s.minimum = some b →
    if s.minimumIsExclusive then x.atMost b = false else x.less b = false
  maximum : ∀ b, s.maximum = some b →
    if s.maximumIsExclusive then b.atMost x = false else b.less x = false

/-- The demands on a value as a whole. -/
structure FitsValue (s : Schema) (json : Json) : Prop where
  enum : ∀ values, s.enum = some values → ∃ v ∈ values, v.same json = true
  const : ∀ v, s.const = some v → v.same json = true

/-- The demands on a value, save those on what it holds. -/
structure Fits (s : Schema) (json : Json) : Prop where
  type : ∀ t, s.type = some t → ∃ name ∈ t.names, name ∈ json.typeNames
  value : s.FitsValue json
  number : ∀ n, json = .number n → s.FitsNumber n.toDouble
  required : ∀ members names, json = .object members → s.required = some names →
    ∀ name ∈ names, name ∈ Members.names members

mutual

/-- A value fits, and what it holds is accepted by the schemas for it. -/
def Accepts : Schema → Json → Prop
  | s, .object members => s.Fits (.object members) ∧ AcceptsMembers s members
  | s, .array items =>
    s.Fits (.array items) ∧
      match s.items with
      | some t => AcceptsItems t items
      | none => True
  | s, .null => s.Fits .null
  | s, .boolean b => s.Fits (.boolean b)
  | s, .number n => s.Fits (.number n)
  | s, .string text => s.Fits (.string text)

def AcceptsMembers : Schema → List (String × Json) → Prop
  | _, [] => True
  | s, (name, v) :: rest =>
    (match s.property? name with
      | some t => Accepts t v
      | none => True) ∧ AcceptsMembers s rest

def AcceptsItems : Schema → List Json → Prop
  | _, [] => True
  | t, v :: rest => Accepts t v ∧ AcceptsItems t rest

end

theorem acceptsMembers_iff {s : Schema} {members : List (String × Json)} :
    AcceptsMembers s members ↔
      ∀ m ∈ members, ∀ t, s.property? m.1 = some t → t.Accepts m.2 := by
  induction members with
  | nil => simp [AcceptsMembers]
  | cons m rest ih =>
    obtain ⟨name, v⟩ := m
    simp only [AcceptsMembers, ih, List.forall_mem_cons]
    cases s.property? name <;> simp

theorem acceptsItems_iff {t : Schema} {items : List Json} :
    AcceptsItems t items ↔ ∀ v ∈ items, t.Accepts v := by
  induction items with
  | nil => simp [AcceptsItems]
  | cons v rest ih => simp [AcceptsItems, ih]

theorem accepts_object {s : Schema} {members : List (String × Json)} :
    s.Accepts (.object members) ↔ s.Fits (.object members) ∧
      ∀ m ∈ members, ∀ t, s.property? m.1 = some t → t.Accepts m.2 := by
  rw [Accepts, acceptsMembers_iff]

theorem accepts_array {s : Schema} {items : List Json} :
    s.Accepts (.array items) ↔ s.Fits (.array items) ∧
      ∀ t, s.items = some t → ∀ v ∈ items, t.Accepts v := by
  rw [Accepts]
  cases s.items <;> simp [acceptsItems_iff]

theorem FitsNumber.alike {s : Schema} {x y : Double} (h : x.Alike y) (hx : s.FitsNumber x) :
    s.FitsNumber y where
  divisor := by
    intro d hd
    rw [← h.remainder_zero]
    exact hx.divisor d hd
  minimum := by
    intro b hb
    simp only [Double.atMost, Double.less, Double.sameValue, ← h.compare?_left]
    exact hx.minimum b hb
  maximum := by
    intro b hb
    simp only [Double.atMost, Double.less, Double.sameValue, ← h.compare?_right]
    exact hx.maximum b hb

end Schema

namespace Conformance

variable {s : Schema}

theorem require_eq_nil {condition : Bool} {cause : Problem.Cause} :
    require condition cause = [] ↔ condition = true := by
  cases condition <;> simp [require]

theorem typeCauses_eq_nil {typeName : String} :
    typeCauses s typeName = [] ↔ ∀ t, s.type = some t → typeName ∈ t.names := by
  unfold typeCauses
  cases s.type <;> simp [require_eq_nil]

theorem valueCauses_eq_nil {json : Json} :
    valueCauses s (some json) = [] ↔ s.FitsValue json := by
  unfold valueCauses
  rw [List.append_eq_nil_iff]
  constructor
  · rintro ⟨henum, hconst⟩
    refine ⟨fun values hv => ?_, fun v hv => ?_⟩
    · rw [hv] at henum
      exact List.any_eq_true.mp (require_eq_nil.mp henum)
    · rw [hv] at hconst
      exact require_eq_nil.mp hconst
  · rintro ⟨henum, hconst⟩
    constructor
    · split
      · rename_i values hv
        exact require_eq_nil.mpr (List.any_eq_true.mpr (henum values hv))
      · rfl
    · split
      · rename_i v hv
        exact require_eq_nil.mpr (hconst v hv)
      · rfl

theorem commonCauses_eq_nil {typeName : String} {n : Node} {json : Json}
    (h : n.toJson? = some json) : commonCauses s typeName n = [] ↔
      (∀ t, s.type = some t → typeName ∈ t.names) ∧ s.FitsValue json := by
  unfold commonCauses
  rw [List.append_eq_nil_iff, typeCauses_eq_nil, h]
  refine and_congr_right fun _ => ?_
  split
  · rename_i hnone
    simp only [Bool.and_eq_true, Option.isNone_iff_eq_none] at hnone
    simp only [true_iff]
    exact ⟨by simp [hnone.1], by simp [hnone.2]⟩
  · exact valueCauses_eq_nil

theorem sizeCauses_eq_nil {x : Double} (h : x.isNan = false) :
    sizeCauses s x = [] ↔ s.FitsNumber x := by
  unfold sizeCauses
  simp only [h, Bool.false_eq_true, if_false, List.append_eq_nil_iff]
  constructor
  · rintro ⟨⟨hd, hmin⟩, hmax⟩
    refine ⟨fun d hs => ?_, fun b hs => ?_, fun b hs => ?_⟩
    · simpa [divisorCauses, hs, require_eq_nil] using hd
    · simp only [minimumCauses, hs] at hmin
      split at hmin <;> simp_all [require_eq_nil]
    · simp only [maximumCauses, hs] at hmax
      split at hmax <;> simp_all [require_eq_nil]
  · rintro ⟨hd, hmin, hmax⟩
    refine ⟨⟨?_, ?_⟩, ?_⟩
    · cases hs : s.multipleOf with
      | none => simp [divisorCauses, hs]
      | some d => simpa [divisorCauses, hs, require_eq_nil] using hd d hs
    · cases hs : s.minimum with
      | none => simp [minimumCauses, hs]
      | some b =>
        have hb := hmin b hs
        simp only [minimumCauses, hs]
        split at hb <;> simp_all [require_eq_nil]
    · cases hs : s.maximum with
      | none => simp [maximumCauses, hs]
      | some b =>
        have hb := hmax b hs
        simp only [maximumCauses, hs]
        split at hb <;> simp_all [require_eq_nil]

theorem missingCauses_eq_nil {ps : List Property} : missingCauses s ps = [] ↔
    ∀ names, s.required = some names → ∀ name ∈ names, name ∈ ps.map (·.key) := by
  unfold missingCauses
  rw [List.map_eq_nil_iff, List.filter_eq_nil_iff]
  cases s.required with
  | none => simp
  | some names => simp

end Conformance

end TemplateLint
