import TemplateLint.Proofs.Schema.Keywords
import TemplateLint.Schema.Relaxation

/-!
# Numbers in schemas

Relaxing a schema writes no number into it: every number of the relaxed schema
is one of the schema it comes from.
-/

namespace TemplateLint

namespace Members

variable {α : Type}

theorem mem_modify {ms : List (String × α)} {name : String} {f : α → α} {m : String × α}
    (h : m ∈ modify ms name f) : m ∈ ms ∨ ∃ k ∈ ms, m.2 = f k.2 := by
  induction ms with
  | nil => cases h
  | cons k rest ih =>
    obtain ⟨n, v⟩ := k
    unfold modify at h
    split at h
    · rcases List.mem_cons.mp h with rfl | h
      · exact .inr ⟨_, List.mem_cons_self, rfl⟩
      · exact .inl (List.mem_cons_of_mem _ h)
    · rcases List.mem_cons.mp h with rfl | h
      · exact .inl List.mem_cons_self
      · rcases ih h with h | ⟨k, hk, h⟩
        · exact .inl (List.mem_cons_of_mem _ h)
        · exact .inr ⟨k, List.mem_cons_of_mem _ hk, h⟩

end Members

namespace Schema

/-- The numbers of a schema as it is written. -/
def numbers (s : Schema) : List Number := s.toJson.numbers

/-- A number of a schema is part of what it states for a keyword or under another name. -/
theorem mem_numbers_iff {s : Schema} {n : Number} : n ∈ s.numbers ↔
    (∃ k v, s.value? k = some v ∧ n ∈ v.numbers) ∨ ∃ m ∈ s.extra, n ∈ m.2.numbers := by
  have every : ∀ k : Keyword, k ∈ Keyword.all := by
    intro k
    cases k <;> decide
  rw [numbers, toJson_eq, Json.numbers_object, List.flatMap_append, List.mem_append,
    List.mem_flatMap, List.mem_flatMap]
  refine or_congr_left ⟨?_, ?_⟩
  · rintro ⟨m, hm, hn⟩
    obtain ⟨k, -, -, hv⟩ := mem_stated hm
    exact ⟨k, m.2, hv, hn⟩
  · rintro ⟨k, v, hv, hn⟩
    refine ⟨(k.name, v), List.mem_flatMap.mpr ⟨k, every k, ?_⟩, hn⟩
    rw [hv]
    exact List.mem_singleton_self _

theorem numbers_value {s : Schema} {k : Keyword} {v : Json} (h : s.value? k = some v) :
    v.numbers ⊆ s.numbers := fun _ hn => mem_numbers_iff.mpr (.inl ⟨k, v, h, hn⟩)

/-- Named schemas as they are written have the numbers of the schemas. -/
theorem mem_numbers_named {ss : List (String × Schema)} {n : Number} :
    n ∈ (Json.object (schemasJson ss)).numbers ↔ ∃ m ∈ ss, n ∈ m.2.numbers := by
  rw [schemasJson_eq, Json.numbers_object, List.flatMap_map, List.mem_flatMap]
  rfl

section Changes

variable {s t : Schema} {k : Keyword}

/-- No number is new when one keyword is changed and nothing new is stated for it. -/
theorem numbers_change (agree : AgreeBut k s t)
    (kept : ∀ v, t.value? k = some v → v.numbers ⊆ s.numbers) : t.numbers ⊆ s.numbers := by
  intro n hn
  rcases mem_numbers_iff.mp hn with ⟨j, v, hv, hn⟩ | hn
  · by_cases same : j = k
    · subst same
      exact kept v hv hn
    · rw [agree.value j same] at hv
      exact numbers_value hv hn
  · rw [agree.extra] at hn
    exact mem_numbers_iff.mpr (.inr hn)

theorem numbers_modify {f : Schema → Schema} (kept : ∀ t, (f t).numbers ⊆ t.numbers)
    (ss : List (String × Schema)) (name : String) :
    (Json.object (schemasJson (Members.modify ss name f))).numbers ⊆
      (Json.object (schemasJson ss)).numbers := by
  intro n hn
  obtain ⟨m, hm, hn⟩ := mem_numbers_named.mp hn
  rcases Members.mem_modify hm with hm | ⟨k, hk, same⟩
  · exact mem_numbers_named.mpr ⟨m, hm, hn⟩
  · rw [same] at hn
    exact mem_numbers_named.mpr ⟨k, hk, kept _ hn⟩

end Changes

theorem numbers_dropRequired (names : List String) (s : Schema) :
    (s.dropRequired names).numbers ⊆ s.numbers := by
  refine numbers_change (agreeBut_copy (s.dropRequired names) s .required) fun v hv => ?_
  obtain ⟨left, -, rfl⟩ := Option.map_eq_some_iff.mp hv
  have none : (Json.strings left).numbers = [] := by
    rw [Json.strings, Json.numbers_array, List.flatMap_map]
    exact List.flatMap_eq_nil_iff.mpr fun _ _ => rfl
  rw [none]
  exact List.nil_subset _

theorem numbers_modifyProperty {f : Schema → Schema} (kept : ∀ t, (f t).numbers ⊆ t.numbers)
    (name : String) (s : Schema) : (s.modifyProperty name f).numbers ⊆ s.numbers := by
  refine numbers_change (agreeBut_copy (s.modifyProperty name f) s .properties) fun v hv => ?_
  obtain ⟨ss, hss, rfl⟩ := Option.map_eq_some_iff.mp hv
  obtain ⟨old, hold, rfl⟩ := Option.map_eq_some_iff.mp hss
  have stated : s.value? .properties = some (.object (schemasJson old)) :=
    Option.map_eq_some_iff.mpr ⟨old, hold, rfl⟩
  exact List.Subset.trans (numbers_modify kept old name) (numbers_value stated)

theorem numbers_modifyDefinition {f : Schema → Schema} (kept : ∀ t, (f t).numbers ⊆ t.numbers)
    (name : String) (s : Schema) : (s.modifyDefinition name f).numbers ⊆ s.numbers := by
  refine numbers_change (agreeBut_copy (s.modifyDefinition name f) s .definitions) fun v hv => ?_
  obtain ⟨ss, hss, rfl⟩ := Option.map_eq_some_iff.mp hv
  obtain ⟨old, hold, rfl⟩ := Option.map_eq_some_iff.mp hss
  have stated : s.value? .definitions = some (.object (schemasJson old)) :=
    Option.map_eq_some_iff.mpr ⟨old, hold, rfl⟩
  exact List.Subset.trans (numbers_modify kept old name) (numbers_value stated)

theorem numbers_relaxResource (names : List String) (resourceType : String) (s : Schema) :
    (s.relaxResource names resourceType).numbers ⊆ s.numbers :=
  numbers_modifyDefinition (numbers_modifyProperty (numbers_dropRequired names) _) _ s

theorem numbers_relax (g : Globals) (s : Schema) : (s.relax g).numbers ⊆ s.numbers := by
  have key (k : GlobalKey) (t : Schema) : (relaxKey g t k).numbers ⊆ t.numbers :=
    List.foldlRecOn (motive := fun u => u.numbers ⊆ t.numbers) k.resourceTypes _
      (List.Subset.refl _) fun u hu type _ => List.Subset.trans (numbers_relaxResource _ type u) hu
  exact List.foldlRecOn (motive := fun u => u.numbers ⊆ s.numbers) GlobalKey.all _
    (List.Subset.refl _) fun u hu k _ => List.Subset.trans (key k u) hu

end Schema

end TemplateLint
