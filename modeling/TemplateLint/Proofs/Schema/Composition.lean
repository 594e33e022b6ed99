import Mathlib.Data.List.Basic
import TemplateLint.Analysis
import TemplateLint.Proofs.Schema.Relaxation

/-!
# Relaxing again and again

A schema that has been relaxed for one document can be relaxed for the next.
Names that are taken off stay off, and taking names off one definition has no
part in another, so a series of documents comes to the same as one document
that lists the globals of all of them; only which names are listed counts.
-/

namespace TemplateLint

theorem Members.modify_comm {α : Type} (ms : List (String × α)) {name other : String}
    {f h : α → α} (commute : h ∘ f = f ∘ h) :
    modify (modify ms name f) other h = modify (modify ms other h) name f := by
  by_cases same : name = other
  · subst same
    rw [modify_modify, modify_modify, commute]
  · induction ms with
    | nil => rfl
    | cons m rest ih =>
      obtain ⟨n, v⟩ := m
      by_cases hn : n = name
      · subst hn
        simp [modify, same]
      · by_cases ho : n = other
        · subst ho
          simp [modify, hn]
        · simp [modify, hn, ho, ih]

section Folds

variable {σ ι κ : Type} {f : σ → ι → σ} {h : σ → κ → σ}

theorem foldl_comm (commute : ∀ s i k, h (f s i) k = f (h s k) i) (is : List ι) (ks : List κ)
    (s : σ) : ks.foldl h (is.foldl f s) = is.foldl f (ks.foldl h s) := by
  induction ks generalizing s with
  | nil => rfl
  | cons k rest ih =>
    have inside : h (is.foldl f s) k = is.foldl f (h s k) :=
      (List.foldl_hom (h · k) fun t i => (commute t i k).symm).symm
    rw [List.foldl_cons, List.foldl_cons, inside, ih]

/-- Two walks over one list can be made as one. -/
theorem foldl_foldl {h : σ → ι → σ} (commute : ∀ s i j, h (f s i) j = f (h s j) i) (is : List ι)
    (s : σ) : is.foldl h (is.foldl f s) = is.foldl (fun s i => h (f s i) i) s := by
  induction is generalizing s with
  | nil => rfl
  | cons i rest ih =>
    have inside : h (rest.foldl f (f s i)) i = rest.foldl f (h (f s i) i) :=
      foldl_comm commute rest [i] (f s i)
    rw [List.foldl_cons, List.foldl_cons, inside, ih, List.foldl_cons]

end Folds

namespace Globals

/-- Lists under each key what several globals list, one after the other. -/
def join (gs : List Globals) : Globals :=
  ⟨gs.flatMap (·.api), gs.flatMap (·.function), gs.flatMap (·.simpleTable)⟩

@[simp] theorem names_join (gs : List Globals) (key : GlobalKey) :
    (join gs).names key = gs.flatMap (·.names key) := by
  cases key <;> rfl

end Globals

namespace Schema

variable (s : Schema) {names more : List String}

theorem relaxDefinition_comm :
    relaxDefinition more ∘ relaxDefinition names =
      relaxDefinition names ∘ relaxDefinition more := by
  funext d
  simp only [Function.comp_apply, relaxDefinition_append]
  refine congrFun (relaxDefinition_congr fun n => ?_) d
  simp [or_comm]

theorem modifyDefinition_id (name : String) : s.modifyDefinition name id = s := by
  obtain ⟨type, _ | definitions⟩ := s
  · rfl
  · simp [modifyDefinition, Members.modify_id]

theorem relaxResource_nil (resourceType : String) : s.relaxResource [] resourceType = s := by
  have hid : relaxDefinition [] = id := funext relaxDefinition_nil
  have same := s.modifyDefinition_id resourceType
  rwa [← hid] at same

theorem relaxResource_again (resourceType : String) :
    (s.relaxResource names resourceType).relaxResource more resourceType =
      s.relaxResource (names ++ more) resourceType := by
  have both : relaxDefinition more ∘ relaxDefinition names = relaxDefinition (names ++ more) :=
    funext (relaxDefinition_append names more)
  change (s.modifyDefinition resourceType (relaxDefinition names)).modifyDefinition resourceType
    (relaxDefinition more) = s.modifyDefinition resourceType (relaxDefinition (names ++ more))
  simp [modifyDefinition, Members.modify_modify, Function.comp_def, ← both]

theorem relaxResource_comm (resourceType other : String) :
    (s.relaxResource names resourceType).relaxResource more other =
      (s.relaxResource more other).relaxResource names resourceType := by
  change (s.modifyDefinition resourceType (relaxDefinition names)).modifyDefinition other
    (relaxDefinition more) = (s.modifyDefinition other (relaxDefinition more)).modifyDefinition
      resourceType (relaxDefinition names)
  simp only [modifyDefinition, Option.map_map]
  congr 2
  funext ds
  exact Members.modify_comm ds relaxDefinition_comm

variable (g h : Globals)

theorem relaxKey_eq (key : GlobalKey) : s.relaxKey g key =
    key.resourceTypes.foldl (fun s t => s.modifyDefinition t (relaxDefinition (g.names key))) s :=
  rfl

theorem relaxKey_comm (key other : GlobalKey) :
    (s.relaxKey g key).relaxKey h other = (s.relaxKey h other).relaxKey g key :=
  foldl_comm (fun s t u => s.relaxResource_comm t u) key.resourceTypes other.resourceTypes s

theorem relaxKey_again (key : GlobalKey) :
    (s.relaxKey g key).relaxKey h key = s.relaxKey (.join [g, h]) key := by
  have twice := foldl_foldl (f := fun s t => s.relaxResource (g.names key) t)
    (h := fun s t => s.relaxResource (h.names key) t)
    (fun s t u => s.relaxResource_comm t u) key.resourceTypes s
  simpa [relaxKey, relaxResource_again] using twice

theorem relax_again : (s.relax g).relax h = s.relax (.join [g, h]) := by
  have twice := foldl_foldl (fun s k l => s.relaxKey_comm g h k l) GlobalKey.all s
  simp only [relaxKey_again] at twice
  exact twice

/-- Relaxing looks only at which names are listed. -/
theorem relax_congr {g h : Globals} (same : ∀ key n, n ∈ g.names key ↔ n ∈ h.names key) :
    s.relax g = s.relax h := by
  have keys : relaxKey g = relaxKey h := by
    funext s key
    rw [relaxKey_eq, relaxKey_eq, relaxDefinition_congr (same key)]
  change GlobalKey.all.foldl (relaxKey g) s = GlobalKey.all.foldl (relaxKey h) s
  rw [keys]

theorem relax_nothing {g : Globals} (nothing : ∀ key, g.names key = []) : s.relax g = s := by
  have keys : relaxKey g = fun s _ => s := by
    funext s key
    change key.resourceTypes.foldl (fun s t => s.relaxResource (g.names key) t) s = s
    simp [nothing key, relaxResource_nil]
  change GlobalKey.all.foldl (relaxKey g) s = s
  rw [keys]
  rfl

theorem relax_undefined (undefined : s.definitions = none) : s.relax g = s := by
  obtain ⟨⟨definitions, frame⟩, defined, -⟩ := relax_relaxes g s
  rw [frame] at defined ⊢
  have hnone : definitions = none := by simpa [undefined] using defined
  rw [hnone, ← undefined]
  cases s
  rfl

end Schema

namespace ResolvedSchema

variable (s : ResolvedSchema)

/-- Where there is nothing to relax, relaxing would change nothing. -/
theorem relax_eq (g : Globals) : s.relax g = { s with schema := s.schema.relax g } := by
  by_cases early : (g.isEmpty || s.schema.definitions.isNone) = true
  · have same : s.schema.relax g = s.schema := by
      rcases (Bool.or_eq_true _ _).mp early with empty | undefined
      · refine s.schema.relax_nothing fun key => ?_
        have hkey : key ∈ GlobalKey.all := by cases key <;> decide
        exact List.isEmpty_iff.mp (List.all_eq_true.mp empty key hkey)
      · exact s.schema.relax_undefined g (Option.isNone_iff_eq_none.mp undefined)
    rw [same]
    simp [relax, relax?, early]
  · simp [relax, relax?, early]

theorem relax_congr {g h : Globals} (same : ∀ key n, n ∈ g.names key ↔ n ∈ h.names key) :
    s.relax g = s.relax h := by
  rw [relax_eq, relax_eq, s.schema.relax_congr same]

theorem foldl_relax_eq (ds : List Document) :
    ds.foldl (fun t d => t.relax d.globals) s = s.relax (.join (ds.map (·.globals))) := by
  induction ds generalizing s with
  | nil =>
    rw [relax_eq, s.schema.relax_nothing fun key => by simp]
    rfl
  | cons d rest ih =>
    rw [List.foldl_cons, ih, relax_eq, relax_eq, relax_eq, Schema.relax_again]
    congr 1
    exact s.schema.relax_congr fun key n => by simp

/-- A series of documents relaxes a schema as a single one does that lists, key by key, the names
of all of them in turn. So another series of the same documents, in whatever order and however
often each of them occurs, comes to the same. -/
theorem foldl_relax (ds : List Document) :
    (∀ d : Document, (∀ key, d.globals.names key = ds.flatMap (·.globals.names key)) →
      ds.foldl (fun t e => t.relax e.globals) s = s.relax d.globals) ∧
    ∀ es : List Document, (∀ d, d ∈ es ↔ d ∈ ds) →
      es.foldl (fun t e => t.relax e.globals) s = ds.foldl (fun t e => t.relax e.globals) s := by
  constructor
  · intro d joined
    rw [foldl_relax_eq]
    refine s.relax_congr fun key n => ?_
    rw [joined key, Globals.names_join, List.flatMap_map]
  · intro es members
    rw [foldl_relax_eq, foldl_relax_eq]
    refine s.relax_congr fun key n => ?_
    simp only [Globals.names_join, List.flatMap_map, List.mem_flatMap, members]

/-- Two documents and one without globals, and the same documents turned round, one of them
twice. -/
theorem foldl_relax_three :
    let listing (api function : List String) : Document :=
      { Document.ofType .sam with globals := ⟨api, function, []⟩ }
    let requiring (names : List String) : Schema :=
      { Schema.empty with properties := some [(resourcePropertiesKey,
        { Schema.empty with required := some names })] }
    let s : ResolvedSchema := ⟨{ Schema.empty with definitions := some [
      ("AWS::Serverless::Api", requiring ["Name", "StageName", "Auth"]),
      ("AWS::Serverless::Function", requiring ["Runtime"])] }, ["unresolved"]⟩
    let ds := [listing ["Name"] [], listing [] [], listing ["Auth", "Name"] ["Runtime"]]
    let d := listing ["Name", "Auth", "Name"] ["Runtime"]
    let es := [ds[2], ds[1], ds[2], ds[0]]
    (∀ key, d.globals.names key = ds.flatMap (·.globals.names key)) ∧
      (∀ e, e ∈ es ↔ e ∈ ds) ∧
      ds.foldl (fun t e => t.relax e.globals) s = s.relax d.globals ∧
      es.foldl (fun t e => t.relax e.globals) s = ds.foldl (fun t e => t.relax e.globals) s ∧
      (s.relax d.globals).schema.definition? "AWS::Serverless::Api" =
        some (requiring ["StageName"]) := by
  intro listing requiring s ds d es
  have joined : ∀ key, d.globals.names key = ds.flatMap (·.globals.names key) := by
    intro key
    cases key <;> rfl
  have members : ∀ e, e ∈ es ↔ e ∈ ds := by
    intro e
    simp only [es, ds, List.mem_cons, List.not_mem_nil, or_false, List.getElem_cons_zero,
      List.getElem_cons_succ]
    tauto
  obtain ⟨single, reordered⟩ := foldl_relax s ds
  exact ⟨joined, members, single d joined, reordered es members, rfl⟩

end ResolvedSchema

end TemplateLint
