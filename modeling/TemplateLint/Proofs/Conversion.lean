import TemplateLint.Proofs.Sources
import TemplateLint.Proofs.Tree.Parts

/-!
# Trees as their JSON values show them

A tree in which every property has a value, every value is converted and no
object repeats a key can be looked through by way of its JSON value: the same
keys lead to the values that what they lead to in the tree is converted to.
-/

namespace TemplateLint

/-- The names of an object's members, in their order; other values have none. -/
def Json.keys : Json → List String
  | object members => Members.names members
  | _ => []

/-- All of a tree is in the JSON value that it is converted to. -/
structure Value.Whole (v : Value) : Prop where
  converts : ∀ w ∈ (Node.value v).values, ∃ json, w.toJson? = some json
  complete : ∀ p, Node.property p ∈ (Node.value v).nodes → p.value.isSome = true
  distinct : ∀ m ∈ (Node.value v).nodes, m.keys.Nodup

section Properties

variable {ps : List Property}
  (below : ∀ p ∈ ps, ∃ v json, p.value = some v ∧ v.toJson? = some json)

include below

theorem get?_propertiesJson (key : String) : Members.get? (propertiesJson ps) key =
    (ps.find? (·.key = key)).bind fun p => p.value.bind Value.toJson? := by
  rw [propertiesJson_eq]
  induction ps with
  | nil => rfl
  | cons p rest ih =>
    obtain ⟨v, json, hv, hjson⟩ := below p List.mem_cons_self
    have hrest := ih fun q hq => below q (List.mem_cons_of_mem p hq)
    simp only [List.filterMap_cons, hv, Option.bind_some, hjson, Option.map_some, Members.get?]
    by_cases h : p.key = key
    · simp [h, hv, hjson]
    · rw [if_neg h, hrest, List.find?_cons_of_neg (by simpa using h)]

end Properties

namespace Value

/-- The value of the first property with a key. -/
def valueAt? (v : Value) (key : String) : Option Value := (v.step? (.key key)).bind Node.value?

theorem mem_parts_of_valueAt? {v w : Value} {key : String} (h : v.valueAt? key = some w) :
    (Segment.key key, w) ∈ v.parts := by
  rcases v with ⟨id, span, ps⟩ | ⟨id, span, vs⟩ | ⟨id, span, content⟩
  · obtain ⟨n, hn, hw⟩ := Option.bind_eq_some_iff.mp h
    obtain ⟨p, hp, rfl⟩ := Option.map_eq_some_iff.mp hn
    have hkey : p.key = key := by simpa using List.find?_some hp
    subst hkey
    exact part_of_property id span (List.mem_of_find?_eq_some hp) hw
  · cases h
  · cases h

theorem toJson?_scalar_ne {id : Nat} {span : Span} {content : Scalar} {json : Json}
    (h : (scalar id span content).toJson? = some json) :
    (∀ members, json ≠ .object members) ∧ ∀ items, json ≠ .array items := by
  cases content with
  | string text =>
    cases h
    simp
  | number x isInteger =>
    change numberJson? x isInteger = some json at h
    unfold numberJson? at h
    split at h
    · cases h
      simp
    · split at h
      · cases h
        simp
      · cases h
  | boolean b =>
    cases h
    simp
  | null =>
    cases h
    simp

namespace Whole

variable {v : Value}

theorem part (h : v.Whole) {s : Segment} {w : Value} (hw : (s, w) ∈ v.parts) : w.Whole where
  converts := by
    intro u hu
    refine h.converts u ?_
    rw [Node.values_value]
    exact List.mem_cons_of_mem v (List.mem_flatMap.mpr ⟨(s, w), hw, hu⟩)
  complete := fun p hp => h.complete p ((Node.nodes_inside (mem_nodes_part hw)).subset hp)
  distinct := fun m hm => h.distinct m ((Node.nodes_inside (mem_nodes_part hw)).subset hm)

theorem exists_json (h : v.Whole) : ∃ json, v.toJson? = some json := by
  refine h.converts v ?_
  rw [Node.values_value]
  exact List.mem_cons_self

section Object

variable {id : Nat} {span : Span} {ps : List Property}

theorem below (h : (object id span ps).Whole) :
    ∀ p ∈ ps, ∃ v json, p.value = some v ∧ v.toJson? = some json := by
  intro p hp
  have step : (Segment.key p.key, Node.property p) ∈ (Node.value (.object id span ps)).steps :=
    List.mem_map_of_mem hp
  have hvalue := h.complete p ((Node.nodes_step_inside step).subset (Node.self_mem_nodes _))
  obtain ⟨w, hw⟩ := Option.isSome_iff_exists.mp hvalue
  obtain ⟨json, hjson⟩ := (h.part (part_of_property id span hp hw)).exists_json
  exact ⟨w, json, hw, hjson⟩

theorem toJson?_object (h : (object id span ps).Whole) :
    (object id span ps).toJson? = some (.object (propertiesJson ps)) ∧
      Members.names (propertiesJson ps) = ps.map (·.key) := by
  have names := names_propertiesJson h.below
  refine ⟨?_, names⟩
  rw [toJson?, Members.ofList_of_nodup]
  rw [names]
  exact h.distinct _ (Node.self_mem_nodes _)

end Object

/-- The JSON value of a tree has the keys of the tree. -/
theorem keys_toJson? (h : v.Whole) {json : Json} (hjson : v.toJson? = some json) :
    json.keys = (Node.value v).keys := by
  rcases v with ⟨id, span, ps⟩ | ⟨id, span, vs⟩ | ⟨id, span, content⟩
  · obtain ⟨hobject, names⟩ := h.toJson?_object
    cases hobject.symm.trans hjson
    exact names
  · cases hjson
    rfl
  · have other := (toJson?_scalar_ne hjson).1
    cases json with
    | object members => exact absurd rfl (other members)
    | _ => rfl

/-- What a key leads to in the JSON value of a tree is what it leads to in the tree, converted. -/
theorem member?_toJson? (h : v.Whole) {json : Json} (hjson : v.toJson? = some json)
    (key : String) : json.member? key = (v.valueAt? key).bind toJson? := by
  rcases v with ⟨id, span, ps⟩ | ⟨id, span, vs⟩ | ⟨id, span, content⟩
  · obtain ⟨hobject, -⟩ := h.toJson?_object
    cases hobject.symm.trans hjson
    have step : (object id span ps).step? (.key key) =
        (ps.find? (·.key = key)).map Node.property := rfl
    rw [Json.member?, get?_propertiesJson h.below, valueAt?, step]
    cases ps.find? (·.key = key) <;> rfl
  · cases hjson
    rfl
  · have other := (toJson?_scalar_ne hjson).1
    cases json with
    | object members => exact absurd rfl (other members)
    | _ => rfl

end Whole

/-- A value is converted to a text just where it is one. -/
theorem toJson?_eq_string_iff {v : Value} {text : String} :
    v.toJson? = some (.string text) ↔ v.text? = some text := by
  rcases v with ⟨id, span, ps⟩ | ⟨id, span, vs⟩ | ⟨id, span, content⟩
  · simp [toJson?, text?]
  · simp [toJson?, text?]
  · cases content with
    | string s => simp [toJson?, Scalar.toJson?, text?]
    | number x isInteger =>
      have number : numberJson? x isInteger ≠ some (.string text) := by
        unfold numberJson?
        split <;> simp
      simpa [toJson?, Scalar.toJson?, text?] using number
    | boolean b => simp [toJson?, Scalar.toJson?, text?]
    | null => simp [toJson?, Scalar.toJson?, text?]

end Value

/-- A text without faults, in which no object repeats a key, has a tree that is converted as a
whole. -/
theorem Document.whole_root {source : List Char} {root : Value}
    (faultless : (parse source).2 = []) (hroot : (parse source).1.root = some root)
    (distinct : ∀ e ∈ (parse source).1.entries, e.node.keys.Nodup) : root.Whole := by
  have listed : ∀ m ∈ (Node.value root).nodes, ∃ e ∈ (parse source).1.entries, e.node = m := by
    intro m hm
    obtain ⟨e, he, rfl⟩ := List.mem_map.mp hm
    refine ⟨e, ?_, rfl⟩
    rw [entries, hroot]
    exact he
  refine ⟨fun w hw => ?_, fun p hp => ?_, fun m hm => ?_⟩
  · obtain ⟨e, he, hew⟩ := listed _ (Node.mem_values.mp hw)
    exact exists_toJson?_of_mem faultless he hew
  · obtain ⟨e, he, hep⟩ := listed _ hp
    exact isSome_value_of_mem faultless he hep
  · obtain ⟨e, he, rfl⟩ := listed m hm
    exact distinct e he

end TemplateLint
