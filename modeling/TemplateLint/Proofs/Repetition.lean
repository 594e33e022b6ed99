import TemplateLint.Proofs.Lookups
import TemplateLint.Proofs.Reading.Depths

/-!
# Repeated keys

Where an object repeats a key, both of its readings take the last property with
it: the tree is searched from the back for the value of a key, and the JSON
value is put together from the front, each property in the place of an earlier
one. In a text without faults no property on the way is passed over for want of
a value, so the two agree.
-/

namespace TemplateLint

/-- Of the members that share a name the last one is kept. -/
theorem Members.get?_ofList {α : Type} (ms : List (String × α)) (name : String) :
    get? (ofList ms) name = get? ms.reverse name := by
  induction ms using List.reverseRecOn with
  | nil => rfl
  | append_singleton ms m ih =>
    have last : ofList (ms ++ [m]) = put (ofList ms) m.1 m.2 := List.foldl_concat ..
    rw [last, get?_put, ih, List.reverse_concat]
    rfl

section Properties

variable {id : Nat} {span : Span} {ps : List Property}

theorem exists_property_of_member? {key : String} {w : Value}
    (h : (Value.object id span ps).member? key = some w) : ∃ p ∈ ps, p.value = some w := by
  obtain ⟨p, hp, hvalue⟩ := Option.bind_eq_some_iff.mp h
  exact ⟨p, List.mem_reverse.mp (List.mem_of_find?_eq_some hp), hvalue⟩

variable (below : ∀ p ∈ ps, ∃ v json, p.value = some v ∧ v.toJson? = some json)

include below

/-- What the JSON value of an object has under a key is what the object is asked for, converted. -/
theorem get?_object (key : String) : Members.get? (Members.ofList (propertiesJson ps)) key =
    ((Value.object id span ps).member? key).bind Value.toJson? := by
  have backwards : (propertiesJson ps).reverse = propertiesJson ps.reverse := by
    rw [propertiesJson_eq, propertiesJson_eq, List.filterMap_reverse]
  have found : (Value.object id span ps).member? key =
      (ps.reverse.find? (·.key = key)).bind (·.value) := rfl
  rw [Members.get?_ofList, backwards, found,
    get?_propertiesJson (fun p hp => below p (List.mem_reverse.mp hp)), Option.bind_assoc]

/-- None of the values found is lost in the conversion, so the keys that have one are the same. -/
theorem isSome_member?_iff (key : String) :
    ((Value.object id span ps).member? key).isSome = true ↔
      key ∈ Members.names (Members.ofList (propertiesJson ps)) := by
  rw [← not_iff_not, ← Members.get?_eq_none_iff, get?_object below]
  cases hw : (Value.object id span ps).member? key with
  | none => simp
  | some w =>
    obtain ⟨p, hp, hvalue⟩ := exists_property_of_member? hw
    obtain ⟨u, json, hu, hjson⟩ := below p hp
    cases hu.symm.trans hvalue
    simp [hjson]

end Properties

namespace Document

theorem mem_entries_step {d : Document} {e : Entry} (he : e ∈ d.entries) {s : Segment} {m : Node}
    (hm : (s, m) ∈ e.node.steps) : ⟨some e.node.id, some s, m⟩ ∈ d.entries := by
  obtain ⟨root, -, hentries⟩ := exists_root_of_mem he
  rw [hentries] at he ⊢
  exact Node.mem_entries_step he hm

section Faultless

variable {source : List Char} (faultless : (parse source).2 = [])

include faultless

/-- A property of a text without faults has a value, and that is converted. -/
theorem exists_value_of_mem {e : Entry} (he : e ∈ (parse source).1.entries) {p : Property}
    (hp : e.node = .property p) : ∃ v json, p.value = some v ∧ v.toJson? = some json ∧
      ∃ c ∈ (parse source).1.entries, c.node = .value v := by
  obtain ⟨v, hv⟩ := Option.isSome_iff_exists.mp (isSome_value_of_mem faultless he hp)
  have step : (Segment.key p.key, Node.value v) ∈ e.node.steps := by
    rw [hp]
    simp [Node.steps, hv]
  have hc := mem_entries_step he step
  obtain ⟨json, hjson⟩ := exists_toJson?_of_mem faultless hc rfl
  exact ⟨v, json, hv, hjson, _, hc, rfl⟩

theorem exists_toJson?_of_node {e : Entry} (he : e ∈ (parse source).1.entries) :
    ∃ json, e.node.toJson? = some json := by
  rcases hnode : e.node with v | p
  · exact exists_toJson?_of_mem faultless he hnode
  · obtain ⟨v, json, hv, hjson, -⟩ := exists_value_of_mem faultless he hnode
    refine ⟨json, ?_⟩
    change p.value.bind Value.toJson? = some json
    rw [hv]
    exact hjson

/-- Every node of a text without faults is converted. An object, at whatever level, is asked for the
value of the last property with a key. There is one just if its JSON value has the key, and then
this is what the JSON value has under it, converted. -/
theorem member?_converts :
    (∀ e ∈ (parse source).1.entries, ∃ json, e.node.toJson? = some json) ∧
      ∀ e ∈ (parse source).1.entries, ∀ v, e.node = .value v → v.isObject = true →
        ∃ members, v.toJson? = some (.object members) ∧ (Members.names members).Nodup ∧
          ∀ key, v.member? key = (v.propertiesAt key).getLast?.bind (·.value) ∧
            ((v.member? key).isSome = true ↔ key ∈ Members.names members) ∧
              ∀ w, v.member? key = some w →
                (∃ c ∈ (parse source).1.entries, c.node = .value w) ∧
                  ∃ json, w.toJson? = some json ∧ Members.get? members key = some json := by
  refine ⟨fun e he => exists_toJson?_of_node faultless he, fun e he v hv object => ?_⟩
  rcases v with ⟨id, span, ps⟩ | ⟨id, span, vs⟩ | ⟨id, span, content⟩
  · have property : ∀ p ∈ ps, ∃ v json, p.value = some v ∧ v.toJson? = some json ∧
        ∃ c ∈ (parse source).1.entries, c.node = .value v := by
      intro p hp
      have step : (Segment.key p.key, Node.property p) ∈ e.node.steps := by
        rw [hv]
        exact List.mem_map_of_mem hp
      exact exists_value_of_mem faultless (mem_entries_step he step) rfl
    have below : ∀ p ∈ ps, ∃ v json, p.value = some v ∧ v.toJson? = some json := by
      intro p hp
      obtain ⟨v, json, hvalue, hjson, -⟩ := property p hp
      exact ⟨v, json, hvalue, hjson⟩
    have distinct : (Members.names (Members.ofList (propertiesJson ps))).Nodup :=
      (Members.ofList_spec (P := fun _ => True) fun _ _ => trivial).1
    refine ⟨_, rfl, distinct, fun key => ⟨Value.member?_eq_last _ key, isSome_member?_iff below key,
      fun w hw => ?_⟩⟩
    obtain ⟨p, hp, hvalue⟩ := exists_property_of_member? hw
    obtain ⟨u, json, hu, hjson, listed⟩ := property p hp
    cases hu.symm.trans hvalue
    refine ⟨listed, json, hjson, ?_⟩
    rw [get?_object below, hw]
    exact hjson
  · cases object
  · cases object

end Faultless

/-- A key that is repeated, with another one repeated in its last value. -/
theorem member?_converts_twice :
    let source := "\x7b\"a\": 1, \"a\": \x7b\"b\": [2], \"b\": 3\x7d\x7d".toList
    (parse source).2 = [] ∧ ∃ root members, (parse source).1.root = some root ∧
      root.toJson? = some (.object members) ∧ ∃ inner deeper, root.member? "a" = some inner ∧
        inner.toJson? = some (.object deeper) ∧
        Members.get? members "a" = some (.object deeper) ∧ ∃ last json,
          inner.member? "b" = some last ∧ last.toJson? = some json ∧
            Members.get? deeper "b" = some json := by
  intro source
  have faultless : (parse source).2 = [] := by decide +kernel
  have shape : (parse source).1.root.map (fun root => (root.isObject,
      (root.member? "a").map fun inner => (inner.isObject, (inner.member? "b").isSome))) =
      some (true, some (true, true)) := by
    decide +kernel
  obtain ⟨root, hroot, hshape⟩ := Option.map_eq_some_iff.mp shape
  simp only [Prod.mk.injEq, Option.map_eq_some_iff] at hshape
  obtain ⟨object, inner, hinner, hobject, hlast⟩ := hshape
  obtain ⟨last, hlast⟩ := Option.isSome_iff_exists.mp hlast
  obtain ⟨members, hjson, -, agree⟩ :=
    (member?_converts faultless).2 _ (root_mem_entries hroot) root rfl object
  obtain ⟨⟨c, hc, hnode⟩, json, hinto, hget⟩ := (agree "a").2.2 inner hinner
  obtain ⟨deeper, hdeeper, -, below⟩ := (member?_converts faultless).2 c hc inner hnode hobject
  cases hinto.symm.trans hdeeper
  obtain ⟨-, found, hfound, hkey⟩ := (below "b").2.2 last hlast
  exact ⟨faultless, root, members, hroot, hjson, inner, deeper, hinner, hdeeper, hget, last, found,
    hlast, hfound, hkey⟩

end Document

end TemplateLint
