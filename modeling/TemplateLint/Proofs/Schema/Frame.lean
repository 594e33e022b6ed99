import Mathlib.Data.List.Basic
import TemplateLint.Proofs.Schema.Loading
import TemplateLint.Proofs.Schema.Relaxation

/-!
# What relaxing leaves alone

Relaxing a schema takes names off the required lists of certain definitions, and
every other part of the schema stays where and as it is. A schema in which the
definitions have different names, and the properties of each definition as well,
is known by its names and by what they stand for, so the relaxed schema can be
written down as a whole.
-/

namespace TemplateLint

namespace Members

variable {α : Type}

theorem get?_map (ms : List (String × α)) (f : String → α → α) (name : String) :
    get? (ms.map fun m => (m.1, f m.1 m.2)) name = (get? ms name).map (f name) := by
  induction ms with
  | nil => rfl
  | cons m rest ih =>
    obtain ⟨n, v⟩ := m
    by_cases h : n = name
    · subst h
      simp [get?]
    · simp [get?, h, ih]

/-- Lists of members with the same names, in the same order, are told apart by a lookup. -/
theorem ext_of_nodup {ms ns : List (String × α)} (distinct : (names ms).Nodup)
    (same : names ms = names ns) (lookup : ∀ name, get? ms name = get? ns name) : ms = ns := by
  induction ms generalizing ns with
  | nil => exact (List.map_eq_nil_iff.mp same.symm).symm
  | cons m rest ih =>
    obtain ⟨⟨n, v⟩, others, rfl, hname, hrest⟩ := List.map_eq_cons_iff.mp same.symm
    obtain ⟨_, w⟩ := m
    cases hname
    obtain ⟨fresh, distinct⟩ := List.nodup_cons.mp distinct
    have hvalue : w = v := by simpa [get?] using lookup n
    rw [hvalue, ih distinct hrest.symm fun name => ?_]
    by_cases h : n = name
    · subst h
      have absent : n ∉ names others := fun hn => fresh (hrest ▸ hn)
      rw [(get?_eq_none_iff rest n).mpr fresh, (get?_eq_none_iff others n).mpr absent]
    · simpa [get?, h] using lookup name

theorem modify_eq_map {ms : List (String × α)} (distinct : (names ms).Nodup) (name : String)
    (f : α → α) : modify ms name f = ms.map fun m => (m.1, if m.1 = name then f m.2 else m.2) := by
  have same : names (modify ms name f) =
      names (ms.map fun m => (m.1, if m.1 = name then f m.2 else m.2)) := by
    rw [names_modify, names, names, List.map_map]
    rfl
  refine ext_of_nodup ?_ same fun other => ?_
  · rw [names_modify]
    exact distinct
  · rw [get?_modify, get?_map ms fun n v => if n = name then f v else v]
    by_cases h : name = other
    · simp [h]
    · simp [h, Ne.symm h]

end Members

namespace Schema

/-- The definitions of a schema have different names, and so have the properties of each: a name
stands for one schema. -/
structure Distinct (s : Schema) : Prop where
  definitions : ∀ ds, s.definitions = some ds → (Members.names ds).Nodup
  properties : ∀ ds, s.definitions = some ds → ∀ d ∈ ds, ∀ ps, d.2.properties = some ps →
    (Members.names ps).Nodup

/-- Names are different in every schema that is read from a text. -/
theorem distinct_ofJsonText {text : List Char} {s : Schema} (h : ofJsonText text = .ok s) :
    s.Distinct := by
  obtain ⟨-, room, named, -⟩ := sound_ofJsonText h
  refine ⟨fun ds hds => (room ds (.inl hds)).2, fun ds hds d hd ps hps => ?_⟩
  cases named ds (.inl hds) d hd with
  | mk _ inner _ _ => exact (inner ps (.inr hps)).2

section Names

variable {s : Schema}

theorem names_foldl {ι : Type} {f : Schema → ι → Schema}
    (step : ∀ s i, (f s i).definitions.map Members.names = s.definitions.map Members.names)
    (is : List ι) (s : Schema) :
    (is.foldl f s).definitions.map Members.names = s.definitions.map Members.names := by
  induction is generalizing s with
  | nil => rfl
  | cons i rest ih => exact (ih (f s i)).trans (step s i)

/-- Relaxing keeps the names of the definitions, in their order. -/
theorem names_relax (g : Globals) (s : Schema) :
    (s.relax g).definitions.map Members.names = s.definitions.map Members.names := by
  refine names_foldl (fun s key => names_foldl (fun s type => ?_) key.resourceTypes s)
    GlobalKey.all s
  simp [relaxResource, modifyDefinition, Function.comp_def]

/-- A definition that is relaxed, written out. -/
theorem relaxDefinition_eq (names : List String) {d : Schema}
    (distinct : ∀ ps, d.properties = some ps → (Members.names ps).Nodup) :
    relaxDefinition names d = { d with
      properties := d.properties.map (List.map fun p => (p.1,
        if p.1 = resourcePropertiesKey then
          { p.2 with required := p.2.required.map (List.filter fun name => !names.contains name) }
        else p.2)) } := by
  obtain ⟨type, definitions, _ | ps⟩ := d
  · rfl
  · have written := Members.modify_eq_map (distinct ps rfl) resourcePropertiesKey
      (dropRequired names)
    simp only [relaxDefinition, modifyProperty, Option.map_some, written]
    rfl

/-- The definitions of a relaxed schema, written out. -/
theorem definitions_relax (g : Globals) {s : Schema} (distinct : s.Distinct)
    {definitions : List (String × Schema)} (hs : s.definitions = some definitions) :
    (s.relax g).definitions = some (definitions.map fun d =>
      (d.1, relaxDefinition (g.namesFor d.1) d.2)) := by
  have relaxes := relax_relaxes g s
  have names := names_relax g s
  rw [hs, Option.map_some, Option.map_eq_some_iff] at names
  obtain ⟨relaxed, hrelaxed, names⟩ := names
  rw [hrelaxed]
  congr 1
  refine Members.ext_of_nodup ?_ ?_ fun name => ?_
  · rw [names]
    exact distinct.definitions definitions hs
  · rw [names, Members.names, Members.names, List.map_map]
    rfl
  · have lookup := relaxes.definition name
    simp only [definition?, hs, hrelaxed, Option.bind_some] at lookup
    rw [lookup, Members.get?_map definitions fun type =>
      relaxDefinition (g.namesFor type)]

end Names

end Schema

namespace Globals

theorem mem_namesFor {g : Globals} {type name : String} : name ∈ g.namesFor type ↔
    ∃ key, type ∈ GlobalKey.resourceTypes key ∧ name ∈ g.names key := by
  simp only [namesFor, List.mem_flatMap, List.mem_filter, GlobalKey.appliesTo,
    List.contains_iff_mem]
  constructor
  · rintro ⟨key, ⟨-, htype⟩, hname⟩
    exact ⟨key, htype, hname⟩
  · rintro ⟨key, htype, hname⟩
    exact ⟨key, ⟨by cases key <;> decide, htype⟩, hname⟩

theorem isEmpty_iff {g : Globals} : g.isEmpty = true ↔ ∀ key, g.names key = [] := by
  simp only [isEmpty, List.all_eq_true, List.isEmpty_iff]
  constructor
  · intro h key
    exact h key (by cases key <;> decide)
  · exact fun h key _ => h key

end Globals

namespace ResolvedSchema

theorem relax?_eq_none_iff {g : Globals} {s : ResolvedSchema} : s.relax? g = none ↔
    (∀ key, g.names key = []) ∨ s.schema.definitions = none := by
  rw [← Globals.isEmpty_iff, ← Option.isNone_iff_eq_none (o := s.schema.definitions),
    ← Bool.or_eq_true]
  unfold relax?
  split
  · simp_all
  · simp_all

/-- A schema is left as it is where no key lists names or there are no definitions. Otherwise names
are taken off what is required of the own properties of resources: for each type all the names that
are listed under a key for it, as often as they occur. Everything else stays where and as it is. -/
theorem relax_effect {s : ResolvedSchema} (distinct : s.schema.Distinct) (d : Document) :
    (s.relax? d.globals = none ↔
        (∀ key, d.globals.names key = []) ∨ s.schema.definitions = none) ∧
      (s.relax? d.globals = none → s.relax d.globals = s) ∧
      (∀ type name, name ∈ d.globals.namesFor type ↔
        ∃ key : GlobalKey, type ∈ key.resourceTypes ∧ name ∈ d.globals.names key) ∧
      ∀ t, s.relax? d.globals = some t →
        s.relax d.globals = t ∧ ∃ definitions, s.schema.definitions = some definitions ∧
          t = { s with schema := { s.schema with
            definitions := some (definitions.map fun (type, definition) => (type,
              if d.globals.namesFor type = [] then definition
              else { definition with
                properties := definition.properties.map (List.map fun (key, property) => (key,
                  if key = resourcePropertiesKey then { property with
                    required := property.required.map
                      (List.filter fun name => !(d.globals.namesFor type).contains name) }
                  else property)) })) } } := by
  refine ⟨relax?_eq_none_iff, fun h => ?_, fun type name => Globals.mem_namesFor, fun t ht => ?_⟩
  · rw [relax, h]
    rfl
  · have relaxes : ¬ (s.relax? d.globals = none) := by simp [ht]
    rw [relax?_eq_none_iff, not_or] at relaxes
    obtain ⟨definitions, hs⟩ := Option.ne_none_iff_exists'.mp relaxes.2
    have hschema : t = { s with schema := s.schema.relax d.globals } := by
      unfold relax? at ht
      split at ht
      · cases ht
      · exact (Option.some.inj ht).symm
    obtain ⟨others, frame⟩ := (Schema.relax_relaxes d.globals s.schema).frame
    have written := Schema.definitions_relax d.globals distinct hs
    refine ⟨by rw [relax, ht]; rfl, definitions, hs, ?_⟩
    rw [frame] at written
    rw [hschema, frame, show others = _ from written]
    congr 3
    refine List.map_congr_left fun m hm => ?_
    obtain ⟨type, definition⟩ := m
    by_cases hnames : d.globals.namesFor type = []
    · simp [hnames, Schema.relaxDefinition_nil]
    · simp only [hnames, if_false]
      rw [Schema.relaxDefinition_eq _ (distinct.properties definitions hs _ hm)]

/-- Names are taken off one definition wherever they occur, another definition is left with an empty
list, and what is required of a resource itself or of its other properties stays. -/
theorem relax_effect_api_table :
    let requiring (names : List String) : Schema := { Schema.empty with required := some names }
    let resource (names : List String) : Schema := { requiring ["a"] with
      properties := some [("Metadata", requiring ["a", "x"]), ("Properties", requiring names)] }
    let s (api table : List String) : ResolvedSchema := ⟨{ requiring ["a"] with
      definitions := some [("AWS::Serverless::SimpleTable", resource table),
        ("AWS::Serverless::Api", resource api), ("AWS::Serverless::Function", resource ["a", "x"]),
        ("Other", requiring ["a", "x"])] }, ["unresolved"]⟩
    let d := { Document.ofType .sam with globals := ⟨["a", "b"], [], ["x"]⟩ }
    (s ["a", "c", "a", "b"] ["x"]).schema.Distinct ∧
      (s ["a", "c", "a", "b"] ["x"]).relax d.globals = s ["c"] [] := by
  intro requiring resource s d
  have distinct : (s ["a", "c", "a", "b"] ["x"]).schema.Distinct := by
    constructor
    · rintro _ ⟨⟩
      decide
    · rintro _ ⟨⟩ m hm ps hps
      simp only [List.mem_cons, List.not_mem_nil, or_false] at hm
      rcases hm with rfl | rfl | rfl | rfl <;> cases hps <;> decide
  obtain ⟨-, -, -, effect⟩ := relax_effect distinct d
  obtain ⟨relaxed, definitions, hs, ht⟩ := effect _ rfl
  cases hs
  exact ⟨distinct, relaxed.trans (ht.trans (by rfl))⟩

end ResolvedSchema

end TemplateLint
