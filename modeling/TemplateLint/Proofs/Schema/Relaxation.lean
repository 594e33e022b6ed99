import TemplateLint.Schema.Relaxation

/-!
# What relaxing changes

Relaxing a schema with the globals of a template changes the definitions of the
types that globals apply to, and in each of them only what is required of the
value of one property. Relaxing step by step comes to the same as taking away
all listed names at once.
-/

namespace TemplateLint

namespace Members

variable {α : Type}

theorem get?_modify (ms : List (String × α)) (name other : String) (f : α → α) :
    get? (modify ms name f) other =
      if name = other then (get? ms other).map f else get? ms other := by
  induction ms with
  | nil => simp [modify, get?]
  | cons m rest ih =>
    obtain ⟨n, v⟩ := m
    by_cases h : n = name
    · subst h
      by_cases ho : n = other <;> simp [modify, get?, ho]
    · by_cases hn : n = other
      · subst hn
        simp [modify, get?, h, Ne.symm h]
      · simp [modify, get?, h, hn, ih]

theorem modify_modify (ms : List (String × α)) (name : String) (f h : α → α) :
    modify (modify ms name f) name h = modify ms name (h ∘ f) := by
  induction ms with
  | nil => rfl
  | cons m rest ih =>
    obtain ⟨n, v⟩ := m
    by_cases hn : n = name <;> simp [modify, hn, ih]

theorem modify_id (ms : List (String × α)) (name : String) : modify ms name id = ms := by
  induction ms with
  | nil => rfl
  | cons m rest ih =>
    obtain ⟨n, v⟩ := m
    by_cases hn : n = name <;> simp [modify, hn, ih]

end Members

namespace GlobalKey

/-- Whether resources of a type are given the properties under a key. -/
def appliesTo (key : GlobalKey) (resourceType : String) : Bool :=
  key.resourceTypes.contains resourceType

end GlobalKey

namespace Globals

/-- The names that resources of a type are given. -/
def namesFor (g : Globals) (resourceType : String) : List String :=
  (GlobalKey.all.filter (·.appliesTo resourceType)).flatMap g.names

end Globals

namespace Schema

/-- Requires none of the given names of a resource's own properties. -/
def relaxDefinition (names : List String) : Schema → Schema :=
  modifyProperty resourcePropertiesKey (dropRequired names)

section Names

variable (names more : List String) (s : Schema)

theorem dropRequired_nil : dropRequired [] = id := by
  funext s
  obtain ⟨type, definitions, properties, required, items⟩ := s
  cases required <;> simp [dropRequired]

theorem dropRequired_append :
    dropRequired more ∘ dropRequired names = dropRequired (names ++ more) := by
  funext s
  obtain ⟨type, definitions, properties, required, items⟩ := s
  cases required with
  | none => rfl
  | some required =>
    simp only [Function.comp_apply, dropRequired, Option.map_some, List.filter_filter]
    congr 2
    refine List.filter_congr fun name _ => ?_
    simp [Bool.and_comm]

theorem modifyProperty_comp (name : String) (f h : Schema → Schema) :
    modifyProperty name h (modifyProperty name f s) = modifyProperty name (h ∘ f) s := by
  simp [modifyProperty, Members.modify_modify, Function.comp_def]

theorem relaxDefinition_nil : relaxDefinition [] s = s := by
  obtain ⟨type, definitions, properties, required, items⟩ := s
  cases properties <;> simp [relaxDefinition, modifyProperty, dropRequired_nil, Members.modify_id]

theorem relaxDefinition_append :
    relaxDefinition more (relaxDefinition names s) = relaxDefinition (names ++ more) s := by
  unfold relaxDefinition
  rw [modifyProperty_comp, dropRequired_append]

/-- Only membership counts among the names. -/
theorem relaxDefinition_congr {names more : List String} (h : ∀ n, n ∈ names ↔ n ∈ more) :
    relaxDefinition names = relaxDefinition more := by
  have same : names.contains = more.contains := by
    funext n
    simp [h n]
  unfold relaxDefinition dropRequired
  rw [same]

theorem property?_relaxDefinition (name : String) :
    (relaxDefinition names s).property? name =
      if resourcePropertiesKey = name then (s.property? name).map (dropRequired names)
      else s.property? name := by
  obtain ⟨type, definitions, properties, required, items⟩ := s
  cases properties with
  | none => simp [relaxDefinition, modifyProperty, property?]
  | some ps => simp [relaxDefinition, modifyProperty, property?, Members.get?_modify]

end Names

/-- What comes of a schema when names are taken off some of its definitions. -/
structure Relaxes (names : String → List String) (s t : Schema) : Prop where
  frame : ∃ definitions, t = { s with definitions := definitions }
  defined : t.definitions.isSome = s.definitions.isSome
  definition : ∀ name, t.definition? name = (s.definition? name).map (relaxDefinition (names name))

namespace Relaxes

variable {s t u : Schema} {names more : String → List String}

theorem refl (s : Schema) : Relaxes (fun _ => []) s s where
  frame := by
    cases s
    exact ⟨_, rfl⟩
  defined := rfl
  definition := by
    intro name
    have hid : relaxDefinition [] = id := funext relaxDefinition_nil
    simp [hid]

theorem trans (h : Relaxes names s t) (k : Relaxes more t u) :
    Relaxes (fun name => names name ++ more name) s u where
  frame := by
    obtain ⟨ds, rfl⟩ := h.frame
    obtain ⟨es, rfl⟩ := k.frame
    exact ⟨es, rfl⟩
  defined := k.defined.trans h.defined
  definition := by
    intro name
    rw [k.definition, h.definition, Option.map_map]
    congr 1
    funext d
    exact relaxDefinition_append _ _ d

theorem congr (h : Relaxes names s t) (same : ∀ name n, n ∈ names name ↔ n ∈ more name) :
    Relaxes more s t where
  frame := h.frame
  defined := h.defined
  definition := by
    intro name
    rw [h.definition, relaxDefinition_congr (same name)]

/-- Step after step of relaxing. -/
theorem foldl {ι : Type} {f : Schema → ι → Schema} {names : ι → String → List String}
    (step : ∀ s i, Relaxes (names i) s (f s i)) (is : List ι) (s : Schema) :
    Relaxes (fun name => is.flatMap fun i => names i name) s (is.foldl f s) := by
  induction is generalizing s with
  | nil => exact refl s
  | cons i rest ih => exact (step s i).trans (ih (f s i))

end Relaxes

theorem relaxResource_relaxes (names : List String) (s : Schema) (resourceType : String) :
    Relaxes (fun name => if resourceType = name then names else []) s
      (s.relaxResource names resourceType) where
  frame := ⟨_, rfl⟩
  defined := by simp [relaxResource, modifyDefinition]
  definition := by
    intro name
    have hid : relaxDefinition [] = id := funext relaxDefinition_nil
    have hdef : (s.relaxResource names resourceType).definition? name =
        (s.definitions.map (Members.modify · resourceType (relaxDefinition names))).bind
          (Members.get? · name) := rfl
    rw [hdef]
    cases hs : s.definitions with
    | none => simp [definition?, hs]
    | some ds =>
      by_cases h : resourceType = name <;> simp [definition?, hs, Members.get?_modify, h, hid]

theorem relaxKey_relaxes (g : Globals) (s : Schema) (key : GlobalKey) :
    Relaxes (fun name => if key.appliesTo name = true then g.names key else []) s
      (s.relaxKey g key) := by
  have step := fun s t => relaxResource_relaxes (g.names key) s t
  have fold := Relaxes.foldl step key.resourceTypes s
  refine fold.congr fun name n => ?_
  simp only [GlobalKey.appliesTo, List.contains_iff_mem, List.mem_flatMap]
  constructor
  · rintro ⟨t, ht, hn⟩
    by_cases h : t = name
    · subst h
      simpa [ht] using hn
    · simp [h] at hn
  · intro hn
    by_cases h : name ∈ key.resourceTypes
    · exact ⟨name, h, by simpa [h] using hn⟩
    · simp [h] at hn

/-- Relaxing takes off each definition what the globals list for its type, and nothing else. -/
theorem relax_relaxes (g : Globals) (s : Schema) : Relaxes g.namesFor s (s.relax g) := by
  refine (Relaxes.foldl (relaxKey_relaxes g) GlobalKey.all s).congr fun name n => ?_
  simp only [Globals.namesFor, List.mem_flatMap, List.mem_filter]
  constructor
  · rintro ⟨key, hkey, hn⟩
    split at hn
    · exact ⟨key, ⟨hkey, by assumption⟩, hn⟩
    · cases hn
  · rintro ⟨key, ⟨hkey, happlies⟩, hn⟩
    exact ⟨key, hkey, by simpa [happlies] using hn⟩

end Schema

namespace ResolvedSchema

theorem relaxes (g : Globals) (s : ResolvedSchema) :
    Schema.Relaxes g.namesFor s.schema (s.relax g).schema ∧ (s.relax g).errors = s.errors := by
  unfold relax relax?
  split
  · rename_i h
    refine ⟨⟨(Schema.Relaxes.refl s.schema).frame, rfl, fun name => ?_⟩, rfl⟩
    rcases Bool.or_eq_true _ _ |>.mp h with hempty | hnone
    · have hnames : g.namesFor name = [] := by
        refine List.flatMap_eq_nil_iff.mpr fun key hkey => ?_
        have hall := List.all_eq_true.mp hempty key (List.mem_filter.mp hkey).1
        exact List.isEmpty_iff.mp hall
      rw [hnames]
      exact (Schema.Relaxes.refl s.schema).definition name
    · simp [Schema.definition?, Option.isNone_iff_eq_none.mp hnone]
  · exact ⟨Schema.relax_relaxes g s.schema, rfl⟩

end ResolvedSchema

end TemplateLint
