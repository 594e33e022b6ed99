import TemplateLint.Proofs.Conversion

/-!
# Types and globals told from values

The type of a template and the globals that it declares are looked up in its
tree. Where nothing of the tree is lost in the JSON value, both depend on the
value alone: on the value of its transform, on which keys it has, and on the
keys of the objects in its globals section.
-/

namespace TemplateLint

namespace Json

/-- A text that begins as the names of serverless transforms do. -/
def NamesServerless (json : Json) : Prop :=
  ∃ text, json = .string text ∧ DocumentType.transformStart.toList <+: text.toList

/-- A transform is such a text, or it is an array with one among its items. -/
def TransformsServerless (json : Json) : Prop :=
  ∃ transform, json.member? "Transform" = some transform ∧
    (transform.NamesServerless ∨
      ∃ items, transform = .array items ∧ ∃ item ∈ items, item.NamesServerless)

/-- The version of the format, or resources, are among the keys. -/
def ShowsCloudFormation (json : Json) : Prop :=
  "AWSTemplateFormatVersion" ∈ json.keys ∨ "Resources" ∈ json.keys

/-- The names that a template lists under a global key. -/
def declared (json : Json) (key : GlobalKey) : List String :=
  (((json.member? "Globals").bind (·.member? key.name)).map keys).getD []

end Json

/-! ## Types -/

namespace DocumentType

theorem isServerlessTransform_iff {v : Value} : isServerlessTransform v = true ↔
    ∃ json, v.toJson? = some json ∧ json.NamesServerless := by
  constructor
  · intro h
    unfold isServerlessTransform at h
    split at h
    · rename_i text htext
      exact ⟨.string text, Value.toJson?_eq_string_iff.mpr htext, text, rfl,
        List.isPrefixOf_iff_prefix.mp h⟩
    · cases h
  · rintro ⟨_, hjson, text, rfl, hprefix⟩
    have htext := Value.toJson?_eq_string_iff.mp hjson
    unfold isServerlessTransform
    rw [htext]
    exact List.isPrefixOf_iff_prefix.mpr hprefix

/-- A transform is serverless by its value. -/
theorem any_transforms_iff {v : Value} (whole : v.Whole) {json : Json}
    (hjson : v.toJson? = some json) : (transforms v).any isServerlessTransform = true ↔
      json.NamesServerless ∨
        ∃ items, json = .array items ∧ ∃ item ∈ items, item.NamesServerless := by
  have alone (hitems : v.items? = none) (other : ∀ items, json ≠ .array items) :
      (transforms v).any isServerlessTransform = true ↔ json.NamesServerless ∨
        ∃ items, json = .array items ∧ ∃ item ∈ items, item.NamesServerless := by
    have single : transforms v = [v] := by simp [transforms, hitems]
    have none : ¬ ∃ items, json = .array items ∧ ∃ item ∈ items, item.NamesServerless := by
      rintro ⟨items, h, -⟩
      exact other items h
    rw [single, List.any_cons, List.any_nil, Bool.or_false, isServerlessTransform_iff, hjson,
      or_iff_left none]
    simp
  rcases v with ⟨id, span, ps⟩ | ⟨id, span, vs⟩ | ⟨id, span, content⟩
  · refine alone rfl ?_
    rintro items rfl
    cases hjson
  · cases hjson
    have items : transforms (.array id span vs) = vs := rfl
    rw [items, List.any_eq_true, itemsJson_eq]
    constructor
    · rintro ⟨v, hv, hserverless⟩
      obtain ⟨json, hjson, names⟩ := isServerlessTransform_iff.mp hserverless
      refine Or.inr ⟨_, rfl, json, List.mem_map.mpr ⟨v, hv, ?_⟩, names⟩
      rw [hjson]
      rfl
    · rintro (⟨text, h, -⟩ | ⟨_, h, item, hitem, names⟩)
      · cases h
      · cases h
        obtain ⟨v, hv, rfl⟩ := List.mem_map.mp hitem
        obtain ⟨position, part⟩ := Value.part_of_item id span hv
        obtain ⟨json, hjson⟩ := (whole.part part).exists_json
        rw [hjson] at names
        exact ⟨v, hv, isServerlessTransform_iff.mpr ⟨json, hjson, names⟩⟩
  · exact alone rfl (Value.toJson?_scalar_ne hjson).2

end DocumentType

/-! ## Globals -/

theorem GlobalKey.ofName?_eq_some_iff {name : String} {key : GlobalKey} :
    ofName? name = some key ↔ name = key.name := by
  constructor
  · intro h
    have named := List.find?_some h
    exact (of_decide_eq_true named).symm
  · rintro rfl
    cases key <;> rfl

namespace Globals

theorem names_addProperty (g : Globals) (p : Property) (key : GlobalKey) :
    (g.addProperty p).names key = g.names key ++
      if p.key = key.name then (p.value.map fun v => (Node.value v).keys).getD [] else [] := by
  unfold addProperty
  cases hname : GlobalKey.ofName? p.key with
  | none =>
    have other : p.key ≠ key.name := by
      intro h
      rw [GlobalKey.ofName?_eq_some_iff.mpr h] at hname
      cases hname
    simp [other]
  | some known =>
    have same : p.key = key.name ↔ known = key := by
      rw [← GlobalKey.ofName?_eq_some_iff, hname, Option.some.injEq]
    rcases hvalue : p.value with _ | ⟨id, span, ps⟩ | ⟨id, span, vs⟩ | ⟨id, span, content⟩
    · simp
    · simp [same, Value.properties?, Node.keys]
    · simp [Value.properties?, Node.keys]
    · simp [Value.properties?, Node.keys]

/-- Of properties with different keys, one at most lists names under a global key. -/
theorem names_foldl_addProperty {ps : List Property} (distinct : (ps.map (·.key)).Nodup)
    (g : Globals) (key : GlobalKey) :
    (ps.foldl addProperty g).names key = g.names key ++
      (((ps.find? (·.key = key.name)).bind (·.value)).map
        fun v => (Node.value v).keys).getD [] := by
  induction ps generalizing g with
  | nil => simp
  | cons p rest ih =>
    obtain ⟨fresh, hrest⟩ := List.nodup_cons.mp distinct
    rw [List.foldl_cons, ih hrest, names_addProperty]
    by_cases h : p.key = key.name
    · have absent : rest.find? (·.key = key.name) = none := by
        refine List.find?_eq_none.mpr fun q hq => ?_
        simp only [decide_eq_true_eq]
        intro hkey
        exact fresh (List.mem_map.mpr ⟨q, hq, hkey.trans h.symm⟩)
      simp [h, absent]
    · simp [h]

theorem names_ofSection {v : Value} (distinct : (Node.value v).keys.Nodup) (key : GlobalKey) :
    (ofSection v).names key =
      ((v.valueAt? key.name).map fun w => (Node.value w).keys).getD [] := by
  have nothing : empty.names key = [] := by cases key <;> rfl
  rcases v with ⟨id, span, ps⟩ | ⟨id, span, vs⟩ | ⟨id, span, content⟩
  · change (ps.foldl addProperty empty).names key = _
    rw [names_foldl_addProperty distinct, nothing, List.nil_append, Value.valueAt?, Value.step?]
    cases ps.find? (·.key = key.name) <;> rfl
  · exact nothing
  · exact nothing

end Globals

/-! ## Documents -/

namespace Document

section Lookup

variable {d : Document} {root : Value} (hroot : d.root = some root)

include hroot

theorem value?_key (key : String) : d.value? [.key key] = root.valueAt? key := by
  unfold value? find? Value.valueAt?
  rw [hroot]
  change ((root.step? (.key key)).bind fun m => m.follow? []).bind Node.value? = _
  cases root.step? (.key key) <;> rfl

theorem isSome_find?_key (key : String) :
    (d.find? [.key key]).isSome = true ↔ key ∈ (Node.value root).keys := by
  have found : d.find? [.key key] = root.step? (.key key) := by
    unfold find?
    rw [hroot]
    change ((root.step? (.key key)).bind fun m => m.follow? []) = _
    cases root.step? (.key key) <;> rfl
  rw [found]
  rcases root with ⟨id, span, ps⟩ | ⟨id, span, vs⟩ | ⟨id, span, content⟩ <;>
    simp [Value.step?, Node.keys]

variable (whole : root.Whole) {json : Json} (hjson : root.toJson? = some json)

include whole hjson

theorem transforms_iff : (((d.value? [.key "Transform"]).map DocumentType.transforms).getD []).any
    DocumentType.isServerlessTransform = true ↔ json.TransformsServerless := by
  rw [value?_key hroot, Json.TransformsServerless, whole.member?_toJson? hjson]
  cases hvalue : root.valueAt? "Transform" with
  | none => simp
  | some v =>
    have part := whole.part (Value.mem_parts_of_valueAt? hvalue)
    obtain ⟨transform, htransform⟩ := part.exists_json
    have serverless := DocumentType.any_transforms_iff part htransform
    simpa [htransform] using serverless

/-- The three ways to tell the type of a document from the value of its root. -/
theorem detectType_cases :
    (d.detectType = .sam ∧ json.TransformsServerless) ∨
    (d.detectType = .cloudFormation ∧ ¬ json.TransformsServerless ∧ json.ShowsCloudFormation) ∨
    (d.detectType = .unknown ∧ ¬ json.TransformsServerless ∧ ¬ json.ShowsCloudFormation) := by
  have serverless := transforms_iff hroot whole hjson
  have shows : ((d.find? [.key "AWSTemplateFormatVersion"]).isSome ||
      (d.find? [.key "Resources"]).isSome) = true ↔ json.ShowsCloudFormation := by
    rw [Bool.or_eq_true, isSome_find?_key hroot, isSome_find?_key hroot,
      ← whole.keys_toJson? hjson]
    rfl
  rw [← serverless, ← shows]
  simp only [detectType]
  split
  · rename_i sam
    exact .inl ⟨rfl, sam⟩
  · rename_i other
    split
    · rename_i shown
      exact .inr (.inl ⟨rfl, other, shown⟩)
    · rename_i hidden
      exact .inr (.inr ⟨rfl, other, hidden⟩)

/-- What a document lists under a global key is what its value does. -/
theorem names_collectGlobals (supports : d.type.supportsGlobals = true) (key : GlobalKey) :
    d.collectGlobals.names key = json.declared key := by
  rw [collectGlobals, if_pos supports, value?_key hroot, Json.declared,
    whole.member?_toJson? hjson]
  cases hsection : root.valueAt? "Globals" with
  | none => cases key <;> rfl
  | some globals =>
    have part := whole.part (Value.mem_parts_of_valueAt? hsection)
    obtain ⟨listing, hglobals⟩ := part.exists_json
    rw [Option.bind_some, hglobals, Option.bind_some, part.member?_toJson? hglobals]
    change (Globals.ofSection globals).names key = _
    rw [Globals.names_ofSection (part.distinct _ (Node.self_mem_nodes _))]
    cases hvalue : globals.valueAt? key.name with
    | none => rfl
    | some v =>
      have listed := part.part (Value.mem_parts_of_valueAt? hvalue)
      obtain ⟨declared, hdeclared⟩ := listed.exists_json
      rw [Option.bind_some, hdeclared, Option.map_some, Option.map_some,
        listed.keys_toJson? hdeclared]

end Lookup

/-- The type of a text without faults, in which no object repeats a key, and its globals under
any type depend on the JSON value of its root alone. A text without a root shows nothing. -/
theorem type_and_globals_of_value {source : List Char} (faultless : (parse source).2 = [])
    (distinct : ∀ e ∈ (parse source).1.entries, e.node.keys.Nodup) :
    let d := (parse source).1
    let value := d.root.bind Value.toJson?
    value.isSome = d.root.isSome ∧
    (d.detectType = .sam ↔ ∃ v ∈ value, v.TransformsServerless) ∧
    (d.detectType = .cloudFormation ↔
      (¬ ∃ v ∈ value, v.TransformsServerless) ∧ ∃ v ∈ value, v.ShowsCloudFormation) ∧
    (d.detectType = .unknown ↔
      (¬ ∃ v ∈ value, v.TransformsServerless) ∧ ¬ ∃ v ∈ value, v.ShowsCloudFormation) ∧
    ∀ type : DocumentType,
      (type.supportsGlobals = true → ∀ key,
        { d with type := type }.collectGlobals.names key =
          (value.map (·.declared key)).getD []) ∧
      (type.supportsGlobals = false → { d with type := type }.collectGlobals = .empty) := by
  intro d value
  have unsupported (type : DocumentType) (h : type.supportsGlobals = false) :
      { d with type := type }.collectGlobals = .empty := by
    simp [collectGlobals, h]
  rcases Option.eq_none_or_eq_some d.root with hroot | ⟨root, hroot⟩
  · have unknown : d.detectType = .unknown := by simp [detectType, value?, find?, hroot]
    have nothing : value = none := by simp [value, hroot]
    rw [unknown, nothing]
    refine ⟨by rw [hroot]; rfl, by simp, by simp, by simp,
      fun type => ⟨fun h key => ?_, unsupported type⟩⟩
    have empty : { d with type := type }.collectGlobals = .empty := by
      simp [collectGlobals, h, value?, find?, hroot]
    rw [empty]
    cases key <;> rfl
  · have whole := whole_root faultless hroot distinct
    obtain ⟨json, hjson⟩ := whole.exists_json
    have found : value = some json := by simp [value, hroot, hjson]
    have told := detectType_cases hroot whole hjson
    simp only [found, Option.mem_some_iff, exists_eq_left']
    refine ⟨by rw [hroot]; rfl, ?_, ?_, ?_, fun type => ⟨fun h key => ?_, unsupported type⟩⟩
    · rcases told with ⟨h, ht⟩ | ⟨h, ht, -⟩ | ⟨h, ht, -⟩ <;> simp [h, ht]
    · rcases told with ⟨h, ht⟩ | ⟨h, ht, hs⟩ | ⟨h, ht, hs⟩
      · simp [h, ht]
      · simp [h, ht, hs]
      · simp [h, ht, hs]
    · rcases told with ⟨h, ht⟩ | ⟨h, ht, hs⟩ | ⟨h, ht, hs⟩
      · simp [h, ht]
      · simp [h, ht, hs]
      · simp [h, ht, hs]
    · exact names_collectGlobals (d := { d with type := type }) hroot whole hjson h key

/-- A serverless template; a number lists nothing. -/
theorem type_and_globals_of_value_serverless :
    let source := "\x7b\"Transform\": [1, \"AWS::Serverless\"],
      \"Globals\": \x7b\"Api\": \x7b\"b\": 1, \"a\": []\x7d, \"Function\": 3\x7d\x7d".toList
    let d := (parse source).1
    let value := d.root.bind Value.toJson?
    (parse source).2 = [] ∧ (∀ e ∈ d.entries, e.node.keys.Nodup) ∧
      d.detectType = .sam ∧ (∃ v ∈ value, v.TransformsServerless) ∧
      { d with type := .sam }.collectGlobals = ⟨["b", "a"], [], []⟩ ∧
      (value.map (·.declared .api)).getD [] = ["b", "a"] ∧
      (value.map (·.declared .function)).getD [] = [] := by
  intro source d value
  have evaluated : (parse source).2 = [] ∧ (∀ e ∈ d.entries, e.node.keys.Nodup) ∧
      d.detectType = .sam ∧ { d with type := .sam }.collectGlobals = ⟨["b", "a"], [], []⟩ := by
    decide +kernel
  obtain ⟨faultless, distinct, sam, collected⟩ := evaluated
  obtain ⟨-, hsam, -, -, hglobals⟩ := type_and_globals_of_value faultless distinct
  have names := (hglobals .sam).1 rfl
  refine ⟨faultless, distinct, sam, hsam.mp sam, collected, ?_, ?_⟩
  · exact (names .api).symm.trans (congrArg (Globals.names · .api) collected)
  · exact (names .function).symm.trans (congrArg (Globals.names · .function) collected)

end Document

end TemplateLint
