import TemplateLint.Proofs.Schema.Composition
import TemplateLint.Proofs.Schema.Loading
import TemplateLint.Proofs.Schema.Numbers

/-!
# Schemas are read back from their text

The text of a schema that was loaded is loaded as the same schema: known and
other keywords, named schemas and their order are kept at every depth. Relaxing
takes away names only, so the same holds of every schema that comes of it.
-/

namespace TemplateLint

open Json (Reading LoadFault)

namespace Schema

/-! ## Relaxed schemas -/

section Relaxed

variable {n : Nat} {s : Schema}

theorem SoundAll.modify {ss : List (String × Schema)} (h : SoundAll n ss) (name : String)
    {f : Schema → Schema} (kept : ∀ {t}, Sound (n - 1) t → Sound (n - 1) (f t)) :
    SoundAll n (Members.modify ss name f) where
  room := h.room
  distinct := by
    rw [Members.names_modify]
    exact h.distinct
  sound := by
    intro m hm
    rcases Members.mem_modify hm with hm | ⟨k, hk, hm⟩
    · exact h.sound m hm
    · rw [hm]
      exact kept (h.sound k hk)

theorem Sound.dropRequired (h : Sound n s) (names : List String) :
    Sound n (s.dropRequired names) := by
  cases n with
  | zero => cases h
  | succ n =>
    apply h.change (agreeBut_copy (s.dropRequired names) s .required)
    intro v hv
    obtain ⟨left, hleft, rfl⟩ := Option.map_eq_some_iff.mp hv
    obtain ⟨required, hrequired, -⟩ := Option.map_eq_some_iff.mp hleft
    refine ⟨?_, Json.noConfusion⟩
    have stated : s.value? .required = some (Json.strings required) := by
      simp only [value?, hrequired, Option.map_some]
    have plain := ((sound_iff.mp h).1 .required _ stated).1
    cases plain
    refine .array fun v hv => ?_
    obtain ⟨name, -, rfl⟩ := List.mem_map.mp hv
    exact .string

theorem Sound.modifyProperty (h : Sound n s) (name : String) {f : Schema → Schema}
    (kept : ∀ {m t}, Sound m t → Sound m (f t)) : Sound n (s.modifyProperty name f) := by
  cases n with
  | zero => cases h
  | succ n =>
    apply h.change (agreeBut_copy (s.modifyProperty name f) s .properties)
    intro ss hss
    obtain ⟨old, hold, rfl⟩ := Option.map_eq_some_iff.mp hss
    exact ((sound_iff.mp h).1 .properties old hold).modify name kept

theorem Sound.modifyDefinition (h : Sound n s) (name : String) {f : Schema → Schema}
    (kept : ∀ {m t}, Sound m t → Sound m (f t)) : Sound n (s.modifyDefinition name f) := by
  cases n with
  | zero => cases h
  | succ n =>
    apply h.change (agreeBut_copy (s.modifyDefinition name f) s .definitions)
    intro ss hss
    obtain ⟨old, hold, rfl⟩ := Option.map_eq_some_iff.mp hss
    exact ((sound_iff.mp h).1 .definitions old hold).modify name kept

theorem Sound.relaxResource (h : Sound n s) (names : List String) (resourceType : String) :
    Sound n (s.relaxResource names resourceType) :=
  h.modifyDefinition resourceType fun sound =>
    sound.modifyProperty resourcePropertiesKey fun sound => sound.dropRequired names

/-- What every step keeps is kept by a series of them. -/
theorem Sound.foldl {ι : Type} {f : Schema → ι → Schema}
    (step : ∀ {s} i, Sound n s → Sound n (f s i)) (h : Sound n s) (is : List ι) :
    Sound n (is.foldl f s) := by
  induction is generalizing s with
  | nil => exact h
  | cons i rest ih => exact ih (step i h)

theorem Sound.relax (h : Sound n s) (g : Globals) : Sound n (s.relax g) :=
  Sound.foldl (fun key h => Sound.foldl (fun t h => h.relaxResource (g.names key) t) h _) h _

end Relaxed

/-! ## Keywords are read back -/

section Leaves

variable {n : Nat} {α : Type}

theorem reading_ne_null {v : Json} (h : v ≠ .null) : v.reading ≠ .null := by
  cases v <;> first | exact absurd rfl h | exact Reading.noConfusion

theorem optional_reading {v : Json} (h : v ≠ .null) {decode : Reading → Except LoadFault α} {a : α}
    (decoded : decode v.reading = .ok a) : v.reading.optional decode = .ok (some a) := by
  rw [Reading.optional_of_ne decode (reading_ne_null h), decoded]
  rfl

theorem oneForm_reading {v : Json} (plain : v.Plain n) (type : String) {form : Json → Option α}
    {a : α} (formed : form v = some a) : oneForm type form v.reading = .ok a := by
  simp only [oneForm, Reading.json_reading plain, bind, Except.bind, formed]
  rfl

theorem typeOfJson?_typeJson (t : SchemaType) : typeOfJson? (typeJson t) = some t := by
  cases t with
  | single name => rfl
  | multiple names =>
    have back : (names.map Json.string).mapM Json.string? = some names := by
      induction names with
      | nil => rfl
      | cons name rest ih =>
        rw [List.map_cons, List.mapM_cons, ih]
        rfl
    rw [typeJson, Json.strings, typeOfJson?, back]
    rfl

theorem boundOfReading_boundJson {b : ExclusiveBound} (plain : (boundJson b).Plain n) :
    boundOfReading (boundJson b).reading = .ok (some b) := by
  have formed : boundOfJson? (boundJson b) = some b := by
    cases b <;> rfl
  refine optional_reading ?_ (oneForm_reading plain _ formed)
  cases b <;> exact Json.noConfusion

theorem list?_strings (names : List String) :
    Reading.list? Reading.string? (Json.strings names).reading = .ok names := by
  have back : ((names.map Json.string).map Json.reading).mapM Reading.string? = .ok names := by
    rw [List.map_map]
    exact Json.mapM_map_eq_ok fun _ _ => rfl
  rw [Json.strings, Json.reading, Json.itemReadings_eq, Reading.list?, back]
  rfl

theorem list?_array {vs : List Json} (plain : (Json.array vs).Plain n) :
    Reading.list? Reading.json (Json.array vs).reading = .ok vs := by
  cases plain with
  | array parts =>
    have back : (vs.map Json.reading).mapM Reading.json = .ok vs :=
      Json.mapM_map_eq_ok fun v hv => Reading.json_reading (parts v hv)
    rw [Json.reading, Json.itemReadings_eq, Reading.list?, back]
    rfl

end Leaves

/-! ## Named schemas are read back -/

/-- A schema that is written as a value that can be read back, as the schema. -/
structure Restored (n : Nat) (s : Schema) : Prop where
  plain : s.toJson.Plain n
  read : ofReading s.toJson.reading = .ok s

theorem schemasOfMembers_restored {n : Nat} (done : List (String × Schema))
    {ss : List (String × Schema)}
    (distinct : (Members.names (done ++ ss)).Nodup) (restored : ∀ m ∈ ss, Restored n m.2) :
    schemasOfMembers done (ss.map fun m => (m.1, m.2.toJson.reading)) = .ok (done ++ ss) := by
  induction ss generalizing done with
  | nil => rw [List.map_nil, schemasOfMembers, List.append_nil]
  | cons m rest ih =>
    have hrest := fun k hk => restored k (List.mem_cons_of_mem m hk)
    have step : done ++ [m] ++ rest = done ++ m :: rest := List.append_assoc _ _ _
    rw [List.map_cons, schemasOfMembers, (restored m List.mem_cons_self).read]
    change schemasOfMembers (Members.put done m.1 m.2) _ = _
    have distinct' := step ▸ distinct
    rw [Members.put_of_not_mem (Members.not_mem_of_nodup distinct), ih _ distinct' hrest, step]

theorem namedOfReading_restored {n : Nat} {ss : List (String × Schema)}
    (distinct : (Members.names ss).Nodup) (restored : ∀ m ∈ ss, Restored n m.2) :
    (Json.object (schemasJson ss)).Plain (n + 1) ∧
      namedOfReading (Json.object (schemasJson ss)).reading = .ok (some ss) := by
  rw [schemasJson_eq]
  constructor
  · refine .object ?_ fun m hm => ?_
    · rw [Members.names, List.map_map]
      exact distinct
    · obtain ⟨k, hk, rfl⟩ := List.mem_map.mp hm
      exact (restored k hk).plain
  · have run := schemasOfMembers_restored [] distinct restored
    rw [Json.reading, Json.memberReadings_eq, List.map_map, namedOfReading]
    change (schemasOfMembers [] (ss.map fun m => (m.1, m.2.toJson.reading)) >>= _) = _
    rw [run]
    rfl

theorem itemsOfReading_restored {n : Nat} {s : Schema} (h : Restored n s) :
    itemsOfReading s.toJson.reading = .ok (some s) := by
  have read := h.read
  rw [toJson_eq, Json.reading] at read ⊢
  rw [ofReading] at read
  obtain ⟨t, loaded, closed⟩ := bind_eq_ok read
  rw [itemsOfReading, loaded, Reading.eq_of_closed closed]
  rfl

/-! ## Schemas are read back -/

/-- What a schema states for a keyword is taken up as it stands. -/
theorem take_value {n : Nat} {s : Schema} (leaves : s.Leaves n)
    (named : ∀ ss, s.definitions = some ss ∨ s.properties = some ss →
      (Json.object (schemasJson ss)).Plain n ∧
        namedOfReading (Json.object (schemasJson ss)).reading = .ok (some ss))
    (items : ∀ i, s.items = some i → Restored n i) {k : Keyword} {v : Json}
    (hv : s.value? k = some v) :
    v.Plain n ∧ ∀ t : Schema, t.take v.reading k = .ok (copy s t k) := by
  have taken : ∀ {α : Type} {x : Except LoadFault α} {a : α} (make : α → Schema), x = .ok a →
      (x >>= fun a => pure (make a)) = .ok (make a) := by
    intro α x a make h
    rw [h]
    rfl
  have leaf := leaves.value k v
  cases k
  case definitions =>
    obtain ⟨ss, hs, rfl⟩ := Option.map_eq_some_iff.mp hv
    obtain ⟨plain, read⟩ := named ss (.inl hs)
    exact ⟨plain, fun t => taken _ (by rw [read, hs])⟩
  case properties =>
    obtain ⟨ss, hs, rfl⟩ := Option.map_eq_some_iff.mp hv
    obtain ⟨plain, read⟩ := named ss (.inr hs)
    exact ⟨plain, fun t => taken _ (by rw [read, hs])⟩
  case items =>
    obtain ⟨i, hs, rfl⟩ := Option.map_eq_some_iff.mp hv
    exact ⟨(items i hs).plain, fun t => taken _ (by rw [itemsOfReading_restored (items i hs), hs])⟩
  all_goals
    obtain ⟨plain, present⟩ := leaf rfl hv
    refine ⟨plain, fun t => taken _ ?_⟩
  case const =>
    have hs : s.const = some v := hv
    rw [hs]
    exact optional_reading present (Reading.json_reading plain)
  all_goals
    obtain ⟨a, hs, rfl⟩ := Option.map_eq_some_iff.mp hv
    rw [hs]
  case type => exact optional_reading present (oneForm_reading plain _ (typeOfJson?_typeJson a))
  case required => exact optional_reading present (list?_strings a)
  case enum => exact optional_reading present (list?_array plain)
  case exclusiveMinimum => exact boundOfReading_boundJson plain
  case exclusiveMaximum => exact boundOfReading_boundJson plain
  all_goals exact optional_reading present rfl

theorem names_toJson {n : Nat} {s : Schema} (leaves : s.Leaves n) :
    (Members.names (s.stated Keyword.all ++ s.extra)).Nodup := by
  rw [Members.names, List.map_append]
  refine List.nodup_append.mpr ⟨?_, leaves.distinct, ?_⟩
  · have all : (Keyword.all.map Keyword.name).Nodup := by decide
    exact all.sublist (names_stated s Keyword.all)
  · intro name hname other hother
    obtain ⟨m, hm, rfl⟩ := List.mem_map.mp hname
    obtain ⟨k, hk, rfl⟩ := List.mem_map.mp hother
    obtain ⟨keyword, -, hkeyword, -⟩ := mem_stated hm
    intro same
    have none := (leaves.other k hk).1
    rw [← same, hkeyword, Keyword.ofName?_name] at none
    cases none

/-- A schema is restored when what it states for each keyword is. -/
theorem restored_of_values {n : Nat} {s : Schema} (leaves : s.Leaves n)
    (value : ∀ k v, s.value? k = some v →
      v.Plain n ∧ ∀ t : Schema, t.take v.reading k = .ok (copy s t k)) : Restored (n + 1) s where
  plain := by
    rw [toJson_eq]
    refine .object (names_toJson leaves) fun m hm => ?_
    rcases List.mem_append.mp hm with hm | hm
    · obtain ⟨k, -, -, hv⟩ := mem_stated hm
      exact (value k m.2 hv).1
    · exact (leaves.other m hm).2
  read := by
    have unset : ∀ k ∈ Keyword.all, copy empty empty k = empty := by
      intro k _
      cases k <;> rfl
    have once : Keyword.all.Nodup := by decide
    have restored := fun k (_ : k ∈ Keyword.all) v hv => (value k v hv).2
    have fresh : ∀ k ∈ Keyword.all, k ∉ [] := fun k _ => List.not_mem_nil
    obtain ⟨others, run⟩ := ofMembers_stated s (s.extra.map fun m => (m.1, m.2.reading)) once
      restored fresh unset
    have copied : Keyword.all.foldl (copy s) empty = { s with extra := [] } := by
      cases s
      rfl
    have kept := ofMembers_extra leaves.other others (t := { s with extra := [] }) leaves.distinct
    rw [toJson_eq, Json.reading, Json.memberReadings_eq, List.map_append, ofReading, run, copied,
      kept]
    cases s
    rfl

theorem Sound.restored {n : Nat} {s : Schema} (h : Sound n s) : Restored n s := by
  induction h with
  | @mk n s leaves room _ _ named items =>
    have hnamed : ∀ ss, s.definitions = some ss ∨ s.properties = some ss →
        (Json.object (schemasJson ss)).Plain n ∧
          namedOfReading (Json.object (schemasJson ss)).reading = .ok (some ss) := by
      intro ss hss
      -- the object of the named schemas is a container of its own
      obtain ⟨positive, distinct⟩ := room ss hss
      obtain ⟨n, rfl⟩ : ∃ k, n = k + 1 := ⟨n - 1, by omega⟩
      exact namedOfReading_restored distinct (named ss hss)
    exact restored_of_values leaves fun k v => take_value leaves hnamed items

/-- The text of a schema that can be read back holds its value, and is loaded as the schema. -/
theorem load_render {s : Schema} (h : Sound Reading.maxDepth s) (reals : s.toJson.RealsReadBack) :
    Json.load Reading.json s.render.toList = .ok s.toJson ∧
      ofJsonText s.render.toList = .ok s := by
  obtain ⟨plain, read⟩ := h.restored
  have text : s.render.toList = s.toJson.toText := String.toList_ofList
  rw [text]
  constructor
  · exact Json.load_toText plain reals (Reading.json_reading plain)
  · exact Json.load_toText plain reals read

end Schema

namespace ResolvedSchema

theorem sound_foldl_relax {n : Nat} {s : ResolvedSchema} (h : s.schema.Sound n)
    (ds : List Document) : (ds.foldl (fun t d => t.relax d.globals) s).schema.Sound n := by
  rw [foldl_relax_eq, relax_eq]
  exact h.relax _

theorem errors_foldl_relax (s : ResolvedSchema) (ds : List Document) :
    (ds.foldl (fun t d => t.relax d.globals) s).errors = s.errors := by
  rw [foldl_relax_eq, relax_eq]

theorem numbers_foldl_relax (s : ResolvedSchema) (ds : List Document) :
    (ds.foldl (fun t d => t.relax d.globals) s).schema.numbers ⊆ s.schema.numbers := by
  rw [foldl_relax_eq, relax_eq]
  exact Schema.numbers_relax _ _

/-- The text of a schema that was loaded, or of what comes of it when it is relaxed for any
documents, holds the value of the schema, and the schema is loaded again from it. Numbers that are
no integers are taken to be read back as they are written, those of the loaded schema only. -/
theorem ofJsonText_render_foldl_relax {text : List Char} {s : Schema}
    (loads : Schema.ofJsonText text = .ok s) (inverse : s.toJson.RealsReadBack)
    (ds : List Document) :
    let t := ds.foldl (fun t d => t.relax d.globals) (⟨s, []⟩ : ResolvedSchema)
    Json.load Json.Reading.json t.schema.render.toList = .ok t.schema.toJson ∧
      Schema.ofJsonText t.schema.render.toList = .ok t.schema ∧ t.errors = [] := by
  intro t
  have sound : t.schema.Sound Json.Reading.maxDepth :=
    sound_foldl_relax (Schema.sound_ofJsonText loads) ds
  have numbers : t.schema.numbers ⊆ s.numbers := numbers_foldl_relax ⟨s, []⟩ ds
  obtain ⟨holds, back⟩ := Schema.load_render sound fun x hx => inverse x (numbers hx)
  exact ⟨holds, back, errors_foldl_relax _ ds⟩

end ResolvedSchema

namespace Schema

/-- A schema for resources of one type, which are to state some names and hold no less than a
number, with null for another keyword. -/
def ofResource (minimum : Double) (names : List String) : Schema :=
  { empty with
    definitions := some [("AWS::Serverless::Api", { empty with
      properties := some [("Properties", { empty with
        required := some names
        minimum := some minimum
        extra := [("x", .null)] })] })] }

theorem ofJsonText_ofResource {x : Double} (plain : (Number.real x).Plain)
    (back : (Number.real x).ReadBack) :
    (ofResource x ["a"]).toJson.RealsReadBack ∧
      ofJsonText (ofResource x ["a"]).toJson.toText = .ok (ofResource x ["a"]) := by
  have shape : (ofResource x ["a"]).toJson =
      .object [("definitions", .object [("AWS::Serverless::Api",
        .object [("properties", .object [("Properties",
          .object [("required", .strings ["a"]), ("minimum", .number (.real x)),
            ("x", .null)])])])])] := rfl
  have reals : (ofResource x ["a"]).toJson.RealsReadBack := by
    have only : (ofResource x ["a"]).toJson.numbers = [.real x] := rfl
    intro y hy
    rw [only] at hy
    cases List.mem_singleton.mp hy
    exact back
  refine ⟨reals, Json.load_toText ?_ reals ?_⟩
  · rw [shape]
    refine .single (.single (.single (.single (.object (by simp [Members.names]) ?_))))
    simp only [List.forall_mem_cons, List.not_mem_nil, IsEmpty.forall_iff, implies_true, and_true]
    exact ⟨.array (List.forall_mem_singleton.mpr .string), .number plain, .null⟩
  · rw [shape]
    cbv

end Schema

/-- A schema with schemas in one another, a number that is no integer and null for another keyword,
relaxed once. -/
theorem ResolvedSchema.ofJsonText_render_foldl_relax_nested :
    let text := "\x7b\"definitions\":\x7b\"AWS::Serverless::Api\":\x7b\"properties\":" ++
      "\x7b\"Properties\":\x7b\"required\":[\"a\"],\"minimum\":0.5,\"x\":null\x7d\x7d\x7d\x7d\x7d"
    let d := { Document.ofType .sam with globals := ⟨["a"], [], []⟩ }
    let requiring := Schema.ofResource (.ofDecimal false 5 (-1))
    Schema.ofJsonText text.toList = .ok (requiring ["a"]) ∧
      (requiring ["a"]).toJson.RealsReadBack ∧
      (⟨requiring ["a"], []⟩ : ResolvedSchema).relax d.globals = ⟨requiring [], []⟩ ∧
      Schema.ofJsonText (requiring []).render.toList = .ok (requiring []) := by
  intro text d requiring
  have half : (Number.real (.ofDecimal false 5 (-1))).Plain :=
    .ofRounded (Double.rounded_ofDecimal _ _ _) (by decide +kernel)
  have literal : Decimal.Literal.ofText? (Json.numberText (.real (.ofDecimal false 5 (-1)))) =
      some ⟨false, ['0'], some ['5'], none⟩ := by
    decide +kernel
  have back := Reading.readBack_of_short half
    (Decimal.Literal.ofText?_eq_some_iff.mp literal) ⟨by decide +kernel, by decide +kernel⟩
  have written : text.toList = (requiring ["a"]).toJson.toText := by decide +kernel
  obtain ⟨inverse, loads⟩ := Schema.ofJsonText_ofResource half back
  rw [← written] at loads
  have relaxed : (⟨requiring ["a"], []⟩ : ResolvedSchema).relax d.globals = ⟨requiring [], []⟩ := by
    rfl
  have again := (ofJsonText_render_foldl_relax loads inverse [d]).2.1
  refine ⟨loads, inverse, relaxed, ?_⟩
  change Schema.ofJsonText ((⟨requiring ["a"], []⟩ : ResolvedSchema).relax
    d.globals).schema.render.toList = .ok ((⟨requiring ["a"], []⟩ : ResolvedSchema).relax
    d.globals).schema at again
  rw [relaxed] at again
  exact again

end TemplateLint
