import TemplateLint.Proofs.Detection

/-!
# Looking up keys

A key is looked up in two ways: a path takes the first property with the key,
and an object is asked for the value of the last one. Nodes have numbers of
their own, so the two find the same value only where the object does not repeat
the key, or where both of its properties have none.
-/

namespace TemplateLint

namespace Value

/-- The properties of a value that have a key, in their order. -/
def propertiesAt (v : Value) (key : String) : List Property :=
  (v.properties?.getD []).filter (·.key = key)

theorem valueAt?_eq_head (v : Value) (key : String) :
    v.valueAt? key = (v.propertiesAt key).head?.bind (·.value) := by
  rcases v with ⟨id, span, ps⟩ | ⟨id, span, vs⟩ | ⟨id, span, content⟩
  · change ((ps.find? (·.key = key)).map Node.property).bind Node.value? =
      (ps.filter (·.key = key)).head?.bind (·.value)
    rw [List.head?_filter]
    cases ps.find? (·.key = key) <;> rfl
  · rfl
  · rfl

theorem member?_eq_last (v : Value) (key : String) :
    v.member? key = (v.propertiesAt key).getLast?.bind (·.value) := by
  rcases v with ⟨id, span, ps⟩ | ⟨id, span, vs⟩ | ⟨id, span, content⟩
  · change (ps.reverse.find? (·.key = key)).bind (·.value) =
      (ps.filter (·.key = key)).getLast?.bind (·.value)
    rw [← List.head?_filter, List.filter_reverse, List.head?_reverse]
  · rfl
  · rfl

/-- Two properties of an object, one behind the other, have different values. -/
theorem value_ne_of_sublist {id : Nat} {span : Span} {ps : List Property} {p q : Property}
    (nodup : (Node.value (object id span ps)).ids.Nodup) (h : [p, q].Sublist ps) {v : Value}
    (hp : p.value = some v) : q.value ≠ some v := by
  intro hq
  have below : ((ps.map fun p => (Segment.key p.key, Node.property p)).flatMap
      fun x => x.2.ids).Nodup := by
    rw [Node.ids_eq] at nodup
    exact (List.nodup_cons.mp nodup).2
  rw [List.flatMap_map] at below
  have pair := below.sublist (h.flatMap fun p => (Node.property p).ids)
  have own : v.id ∈ (Node.value v).ids := List.mem_map_of_mem (Node.self_mem_nodes _)
  simp only [List.flatMap_cons, List.flatMap_nil, List.append_nil, property_ids, hp, hq,
    Option.map_some, Option.getD_some] at pair
  exact (List.nodup_append.mp pair).2.2 _ (List.mem_cons_of_mem _ own) _
    (List.mem_cons_of_mem _ own) rfl

/-- The first and the last value under a key are the same one only where the key is not repeated,
or where there are none. -/
theorem head_eq_last_iff {v : Value} (nodup : (Node.value v).ids.Nodup) (key : String) :
    (v.propertiesAt key).head?.bind (·.value) = (v.propertiesAt key).getLast?.bind (·.value) ↔
      (v.propertiesAt key).length ≤ 1 ∨
        (v.propertiesAt key).head?.bind (·.value) = none ∧
          (v.propertiesAt key).getLast?.bind (·.value) = none := by
  have listed : (v.propertiesAt key).Sublist (v.properties?.getD []) := List.filter_sublist
  generalize v.propertiesAt key = found at listed
  rcases found with _ | ⟨first, _ | ⟨second, rest⟩⟩
  · simp
  · simp
  · obtain ⟨last, hlast⟩ : ∃ last, (second :: rest).getLast? = some last :=
      Option.isSome_iff_exists.mp (by simp)
    have behind : [first, last].Sublist (first :: second :: rest) :=
      (List.singleton_sublist.mpr (List.mem_of_getLast? hlast)).cons_cons first
    have hlast : (first :: second :: rest).getLast? = some last := by simpa using hlast
    rw [List.head?_cons, hlast, Option.bind_some, Option.bind_some]
    have repeated : ¬ (first :: second :: rest).length ≤ 1 := by simp
    rw [or_iff_right repeated]
    constructor
    · intro same
      cases hfirst : first.value with
      | none => exact ⟨rfl, same.symm.trans hfirst⟩
      | some w =>
        rcases v with ⟨id, span, ps⟩ | ⟨id, span, vs⟩ | ⟨id, span, content⟩
        · exact absurd (same.symm.trans hfirst)
            (value_ne_of_sublist nodup (behind.trans listed) hfirst)
        · cases listed
        · cases listed
    · rintro ⟨hfirst, hlast⟩
      rw [hfirst, hlast]

end Value

namespace Document

/-- In the tree of any text a path leads to the value of the first property with a key, and the
root is asked for the value of the last. These are the same just if the root has the key once at
most, or if the first and the last property with it are both without a value. -/
theorem lookups_agree_iff {source : List Char} {root : Value}
    (hroot : (parse source).1.root = some root) (key : String) :
    let found := root.propertiesAt key
    (parse source).1.value? [.key key] = found.head?.bind (·.value) ∧
      root.member? key = found.getLast?.bind (·.value) ∧
      ((parse source).1.value? [.key key] = root.member? key ↔
        found.length ≤ 1 ∨ (found.head?.bind (·.value) = none ∧
          found.getLast?.bind (·.value) = none)) := by
  have nodup : (Node.value root).ids.Nodup := by
    have h := nodup_parse source
    unfold entries at h
    rw [hroot] at h
    exact Node.map_id_entries none none (.value root) ▸ h
  refine ⟨?_, root.member?_eq_last key, ?_⟩
  · rw [value?_key hroot, Value.valueAt?_eq_head]
  · rw [value?_key hroot, Value.valueAt?_eq_head, Value.member?_eq_last]
    exact Value.head_eq_last_iff nodup key

/-- An object with a key that stands once, and with another that is left without values. -/
theorem lookups_agree_iff_once :
    let source := "\x7b\"a\": , \"b\": 1, \"a\": \x7d".toList
    ∃ root, (parse source).1.root = some root ∧
      (parse source).1.value? [.key "b"] = root.member? "b" ∧
      (parse source).1.value? [.key "a"] = root.member? "a" := by
  intro source
  have counted : (parse source).1.root.map (fun root => ((root.propertiesAt "b").length,
      ((root.propertiesAt "a").head?.bind (·.value)).isNone,
      ((root.propertiesAt "a").getLast?.bind (·.value)).isNone)) = some (1, true, true) := by
    decide +kernel
  obtain ⟨root, hroot, hcounted⟩ := Option.map_eq_some_iff.mp counted
  simp only [Prod.mk.injEq, Option.isNone_iff_eq_none] at hcounted
  obtain ⟨once, first, last⟩ := hcounted
  refine ⟨root, hroot, (lookups_agree_iff hroot "b").2.2.mpr ?_,
    (lookups_agree_iff hroot "a").2.2.mpr ?_⟩
  · exact Or.inl (Nat.le_of_eq once)
  · exact Or.inr ⟨first, last⟩

/-- An object that repeats a key: a path leads to its first value, and the object gives its last. -/
theorem lookups_differ :
    let source := "\x7b\"a\":1,\"a\":2\x7d".toList
    ∃ root, (parse source).1.root = some root ∧ root.isObject = true ∧
      (parse source).1.value? [.key "a"] ≠ root.member? "a" ∧
      ((parse source).1.value? [.key "a"]).map Value.id = some 2 ∧
      (root.member? "a").map Value.id = some 4 := by
  intro source
  have found : (parse source).1.root.map (fun root => (root.isObject,
      ((parse source).1.value? [.key "a"]).map Value.id, (root.member? "a").map Value.id)) =
      some (true, some 2, some 4) := by
    decide +kernel
  obtain ⟨root, hroot, hfound⟩ := Option.map_eq_some_iff.mp found
  simp only [Prod.mk.injEq] at hfound
  obtain ⟨hobject, hpath, hmember⟩ := hfound
  refine ⟨root, hroot, hobject, fun same => ?_, hpath, hmember⟩
  rw [same, hmember] at hpath
  cases hpath

end Document

end TemplateLint
