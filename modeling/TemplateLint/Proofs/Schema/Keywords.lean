import TemplateLint.Proofs.Reading.Depths
import TemplateLint.Schema.Decoding

/-!
# Keywords one by one

A schema is written as what it states for each of its keywords, in a fixed
order, and is loaded by taking up one keyword after another. Taking up a
keyword changes nothing else, so what is loaded from the keywords of a schema
is the schema itself, provided that each of them is read back.
-/

namespace TemplateLint

open Json (Reading LoadFault)

namespace Json.Reading

/-! ## Decoding -/

theorem toJson_of_json {r : Reading} {v : Json} (h : r.json = .ok v) : r.toJson = .ok v := by
  unfold json at h
  cases denotes : r.toJson with
  | error fault =>
    rw [denotes] at h
    cases h
  | ok w =>
    rw [denotes] at h
    cases h
    rfl

theorem eq_of_closed {α : Type} {unclosed : Option TextFault} {a b : α}
    (h : closed unclosed a = .ok b) : a = b := by
  cases unclosed with
  | some fault => cases h
  | none => exact Except.ok.inj h

theorem json_reading {n : Nat} {v : Json} (h : v.Plain n) : v.reading.json = .ok v := by
  rw [json, toJson_reading h]
  rfl

theorem optional_of_ne {α : Type} (decode : Reading → Except LoadFault α) {r : Reading}
    (h : r ≠ .null) : r.optional decode = (decode r).map some := by
  cases r <;> first | rfl | exact absurd rfl h

/-- Null is read where null stands, and nowhere else. -/
theorem eq_null_iff {r : Reading} {c : Json} (h : r.toJson = .ok c) : r = .null ↔ c = .null := by
  cases r with
  | broken fault => cases h
  | array items unclosed =>
    obtain ⟨vs, -, h⟩ := bind_eq_ok h
    cases unclosed <;> cases h
    simp
  | object members unclosed =>
    obtain ⟨ms, -, h⟩ := bind_eq_ok h
    cases unclosed <;> cases h
    simp
  | _ =>
    cases h
    simp

theorem optional_eq_some {α : Type} {decode : Reading → Except LoadFault α} {r : Reading} {a : α}
    (h : r.optional decode = .ok (some a)) : r ≠ .null ∧ decode r = .ok a := by
  have differs : r ≠ .null := by
    rintro rfl
    cases h
  rw [optional_of_ne decode differs] at h
  obtain ⟨b, decoded, h⟩ := map_eq_ok h
  cases h
  exact ⟨differs, decoded⟩

theorem list?_eq_ok {α : Type} {item : Reading → Except LoadFault α} {r : Reading} {as : List α}
    (h : r.list? item = .ok as) : ∃ items, r = .array items none ∧ items.mapM item = .ok as := by
  cases r with
  | array items unclosed =>
    obtain ⟨bs, decoded, h⟩ := bind_eq_ok h
    cases unclosed with
    | some fault => cases h
    | none =>
      cases h
      exact ⟨items, rfl, decoded⟩
  | _ => cases h

end Json.Reading

namespace Schema

theorem oneForm_eq_ok {α : Type} {type : String} {form : Json → Option α} {r : Reading} {a : α}
    (h : oneForm type form r = .ok a) : ∃ v, r.toJson = .ok v ∧ form v = some a := by
  obtain ⟨v, denotes, h⟩ := bind_eq_ok h
  refine ⟨v, Reading.toJson_of_json denotes, ?_⟩
  cases formed : form v with
  | none =>
    rw [formed] at h
    cases h
  | some b =>
    rw [formed] at h
    cases h
    rfl

/-! ## The keywords -/

namespace Keyword

theorem ofName?_name (k : Keyword) : ofName? k.name = some k := by
  cases k <;> decide

/-- Whether the values of a keyword hold no schemas. -/
def isLeaf : Keyword → Bool
  | definitions | properties | items => false
  | _ => true

end Keyword

/-- What a schema states for a keyword. -/
def value? (s : Schema) : Keyword → Option Json
  | .type => s.type.map typeJson
  | .definitions => s.definitions.map fun ss => .object (schemasJson ss)
  | .properties => s.properties.map fun ss => .object (schemasJson ss)
  | .required => s.required.map Json.strings
  | .items => s.items.map toJson
  | .enum => s.enum.map .array
  | .const => s.const
  | .multipleOf => s.multipleOf.map doubleJson
  | .minimum => s.minimum.map doubleJson
  | .maximum => s.maximum.map doubleJson
  | .exclusiveMinimum => s.exclusiveMinimum.map boundJson
  | .exclusiveMaximum => s.exclusiveMaximum.map boundJson

/-- A schema that states the same for one keyword as another one. -/
def copy (s t : Schema) : Keyword → Schema
  | .type => { t with type := s.type }
  | .definitions => { t with definitions := s.definitions }
  | .properties => { t with properties := s.properties }
  | .required => { t with required := s.required }
  | .items => { t with items := s.items }
  | .enum => { t with enum := s.enum }
  | .const => { t with const := s.const }
  | .multipleOf => { t with multipleOf := s.multipleOf }
  | .minimum => { t with minimum := s.minimum }
  | .maximum => { t with maximum := s.maximum }
  | .exclusiveMinimum => { t with exclusiveMinimum := s.exclusiveMinimum }
  | .exclusiveMaximum => { t with exclusiveMaximum := s.exclusiveMaximum }

/-- Takes up what was read for a keyword. -/
def take (t : Schema) (r : Reading) : Keyword → Except LoadFault Schema
  | .type => do
    let v ← r.optional (oneForm "SchemaType" typeOfJson?)
    pure { t with type := v }
  | .definitions => do
    let v ← namedOfReading r
    pure { t with definitions := v }
  | .properties => do
    let v ← namedOfReading r
    pure { t with properties := v }
  | .required => do
    let v ← r.optional (Reading.list? Reading.string?)
    pure { t with required := v }
  | .items => do
    let v ← itemsOfReading r
    pure { t with items := v }
  | .enum => do
    let v ← r.optional (Reading.list? Reading.json)
    pure { t with enum := v }
  | .const => do
    let v ← r.optional Reading.json
    pure { t with const := v }
  | .multipleOf => do
    let v ← r.optional Reading.double?
    pure { t with multipleOf := v }
  | .minimum => do
    let v ← r.optional Reading.double?
    pure { t with minimum := v }
  | .maximum => do
    let v ← r.optional Reading.double?
    pure { t with maximum := v }
  | .exclusiveMinimum => do
    let v ← boundOfReading r
    pure { t with exclusiveMinimum := v }
  | .exclusiveMaximum => do
    let v ← boundOfReading r
    pure { t with exclusiveMaximum := v }

/-! ## Writing -/

/-- The members that state some of the keywords. -/
def stated (s : Schema) (ks : List Keyword) : List (String × Json) :=
  ks.flatMap fun k => written k.name id (s.value? k)

theorem written_map {α : Type} (name : String) (f : α → Json) (value : Option α) :
    written name f value = written name id (value.map f) := by
  cases value <;> rfl

theorem schemasJson_eq (ss : List (String × Schema)) :
    schemasJson ss = ss.map fun m => (m.1, m.2.toJson) := by
  induction ss with
  | nil => rw [schemasJson, List.map_nil]
  | cons m rest ih => rw [schemasJson, ih, List.map_cons]

theorem toJson_eq (s : Schema) : s.toJson = .object (s.stated Keyword.all ++ s.extra) := by
  have named : ∀ name ss, namedJson name ss =
      written name id (ss.map fun ss => .object (schemasJson ss)) := by
    intro name ss
    cases ss with
    | none => rw [namedJson]; rfl
    | some ss => rw [namedJson]; rfl
  have items : ∀ i, itemsJson i = written "items" id (i.map toJson) := by
    intro i
    cases i with
    | none => rw [itemsJson]; rfl
    | some i => rw [itemsJson]; rfl
  obtain ⟨⟩ := s
  rw [toJson]
  simp only [named, items, written_map _ typeJson, written_map _ Json.strings,
    written_map _ Json.array, written_map _ doubleJson, written_map _ boundJson]
  simp [stated, Keyword.all, value?, Keyword.name]

theorem mem_stated {s : Schema} {ks : List Keyword} {m : String × Json} (h : m ∈ s.stated ks) :
    ∃ k ∈ ks, m.1 = k.name ∧ s.value? k = some m.2 := by
  obtain ⟨k, hk, hm⟩ := List.mem_flatMap.mp h
  obtain ⟨v, hv, rfl⟩ := Option.map_eq_some_iff.mp (Option.mem_toList.mp hm)
  exact ⟨k, hk, rfl, hv⟩

theorem names_stated (s : Schema) (ks : List Keyword) :
    (Members.names (s.stated ks)).Sublist (ks.map Keyword.name) := by
  induction ks with
  | nil => exact .slnil
  | cons k rest ih =>
    rw [stated, List.flatMap_cons]
    cases s.value? k with
    | none => exact ih.cons _
    | some v => exact ih.cons_cons _

/-! ## Loading -/

section Steps

variable {seen : List Keyword} {s t : Schema} {name : String} {r : Reading}
  {rest : List (String × Reading)} {k : Keyword}

theorem ofMembers_keyword (hname : Keyword.ofName? name = some k) (fresh : k ∉ seen) :
    ofMembers seen t ((name, r) :: rest) =
      t.take r k >>= fun t => ofMembers (k :: seen) t rest := by
  rw [ofMembers, hname]
  dsimp only
  rw [if_neg fresh]
  cases k <;> simp only [take, bind_assoc, pure_bind]

theorem ofMembers_other (hname : Keyword.ofName? name = none) :
    ofMembers seen t ((name, r) :: rest) =
      r.json >>= fun v => ofMembers seen { t with extra := Members.put t.extra name v } rest := by
  rw [ofMembers, hname]

/-- One member is taken up, as a keyword that was not seen before or as another name. -/
theorem ofMembers_cases (h : ofMembers seen t ((name, r) :: rest) = .ok s) :
    (∃ k u, t.take r k = .ok u ∧ ofMembers (k :: seen) u rest = .ok s) ∨
      (Keyword.ofName? name = none ∧ ∃ v, r.toJson = .ok v ∧
        ofMembers seen { t with extra := Members.put t.extra name v } rest = .ok s) := by
  cases hname : Keyword.ofName? name with
  | none =>
    rw [ofMembers_other hname] at h
    obtain ⟨v, hv, h⟩ := bind_eq_ok h
    exact .inr ⟨rfl, v, Reading.toJson_of_json hv, h⟩
  | some k =>
    by_cases fresh : k ∈ seen
    · rw [ofMembers, hname] at h
      dsimp only at h
      rw [if_pos fresh] at h
      cases h
    · rw [ofMembers_keyword hname fresh] at h
      obtain ⟨u, hu, h⟩ := bind_eq_ok h
      exact .inl ⟨k, u, hu, h⟩

end Steps

/-- Two schemas that differ at most in what they state for one keyword. -/
structure AgreeBut (k : Keyword) (s t : Schema) : Prop where
  value : ∀ j, j ≠ k → t.value? j = s.value? j
  definitions : k ≠ .definitions → t.definitions = s.definitions
  properties : k ≠ .properties → t.properties = s.properties
  items : k ≠ .items → t.items = s.items
  extra : t.extra = s.extra

theorem agreeBut_copy (s t : Schema) (k : Keyword) : AgreeBut k t (copy s t k) := by
  cases k <;> constructor <;> first
    | exact fun _ => rfl
    | exact fun h => absurd rfl h
    | rfl
    | (intro j hj; cases j <;> first | rfl | exact absurd rfl hj)

theorem agreeBut_take {t u : Schema} {r : Reading} {k : Keyword} (h : t.take r k = .ok u) :
    AgreeBut k t u := by
  have copied : u = copy u t k := by
    cases k <;>
    · obtain ⟨v, -, h⟩ := bind_eq_ok h
      cases h
      rfl
  rw [copied]
  exact agreeBut_copy u t k

/-! ## Running over what is stated -/

theorem copy_of_none {s t : Schema} {k : Keyword} (h : s.value? k = none) :
    copy s t k = copy empty t k := by
  have unset : ∀ {α : Type} {f : α → Json} {o : Option α}, o.map f = none → o = none :=
    Option.map_eq_none_iff.mp
  cases k <;> first
    | (have h := unset h; simp only [copy, h, empty])
    | (have h : s.const = none := h; simp only [copy, h, empty])

theorem copy_comm (s t u : Schema) {j k : Keyword} (h : j ≠ k) :
    copy u (copy s t k) j = copy s (copy u t j) k := by
  cases j <;> cases k <;> first | rfl | exact absurd rfl h

/-- Keywords that are stated are taken up one by one. -/
theorem ofMembers_stated (s : Schema) (rest : List (String × Reading)) {ks : List Keyword}
    (distinct : ks.Nodup)
    (restored : ∀ k ∈ ks, ∀ v, s.value? k = some v →
      ∀ t : Schema, t.take v.reading k = .ok (copy s t k))
    {seen : List Keyword} (fresh : ∀ k ∈ ks, k ∉ seen)
    {t : Schema} (unset : ∀ k ∈ ks, copy empty t k = t) :
    ∃ others, ofMembers seen t ((s.stated ks).map (fun m => (m.1, m.2.reading)) ++ rest) =
      ofMembers others (ks.foldl (copy s) t) rest := by
  induction ks generalizing seen t with
  | nil => exact ⟨seen, rfl⟩
  | cons k ks ih =>
    obtain ⟨apart, distinct⟩ := List.nodup_cons.mp distinct
    have hrestored := fun j hj => restored j (List.mem_cons_of_mem k hj)
    have hunset : ∀ j ∈ ks, copy empty (copy s t k) j = copy s t k := by
      intro j hj
      have differs : j ≠ k := by
        rintro rfl
        exact apart hj
      rw [copy_comm s t empty differs, unset j (List.mem_cons_of_mem k hj)]
    rw [stated, List.flatMap_cons, List.foldl_cons]
    cases hv : s.value? k with
    | none =>
      -- nothing is read for it, and nothing was there before
      have same : copy s t k = t := by
        rw [copy_of_none hv, unset k List.mem_cons_self]
      rw [same] at hunset ⊢
      exact ih distinct hrestored (fun j hj => fresh j (List.mem_cons_of_mem k hj)) hunset
    | some v =>
      have hfresh : ∀ j ∈ ks, j ∉ k :: seen := by
        intro j hj hseen
        rcases List.mem_cons.mp hseen with rfl | hseen
        · exact apart hj
        · exact fresh j (List.mem_cons_of_mem k hj) hseen
      obtain ⟨others, run⟩ := ih distinct hrestored hfresh hunset
      refine ⟨others, ?_⟩
      rw [← run]
      change ofMembers seen t ((k.name, v.reading) :: (_ ++ rest)) = _
      rw [ofMembers_keyword (Keyword.ofName?_name k) (fresh k List.mem_cons_self),
        restored k List.mem_cons_self v hv]
      rfl

/-- Other names are kept in their order. -/
theorem ofMembers_extra {extra : List (String × Json)} {n : Nat}
    (other : ∀ m ∈ extra, Keyword.ofName? m.1 = none ∧ m.2.Plain n)
    (seen : List Keyword) {t : Schema} (distinct : (Members.names (t.extra ++ extra)).Nodup) :
    ofMembers seen t (extra.map fun m => (m.1, m.2.reading)) =
      .ok { t with extra := t.extra ++ extra } := by
  induction extra generalizing t with
  | nil =>
    cases t
    rw [List.map_nil, ofMembers]
    simp only [List.append_nil]
  | cons m rest ih =>
    obtain ⟨hname, plain⟩ := other m List.mem_cons_self
    have hother := fun k hk => other k (List.mem_cons_of_mem m hk)
    have step : ({ t with extra := t.extra ++ [m] } : Schema).extra ++ rest = t.extra ++ m :: rest :=
      List.append_assoc _ _ _
    rw [List.map_cons, ofMembers_other hname, Reading.json_reading plain]
    change ofMembers seen { t with extra := Members.put t.extra m.1 m.2 } _ = _
    have distinct' := step ▸ distinct
    rw [Members.put_of_not_mem (Members.not_mem_of_nodup distinct), ih hother distinct', step]

end Schema

end TemplateLint
