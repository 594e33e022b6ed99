import TemplateLint.Proofs.Acceptance

/-!
# Trees and the values they stand for

Some trees lose something when they are taken for a value: properties without
values, all but one of the properties that share a key, and the form of numbers
that are too large. Where nothing is lost, to check the tree is to ask whether
the value is accepted.
-/

namespace TemplateLint

namespace Members

variable {α : Type}

theorem put_of_not_mem {ms : List (String × α)} {name : String} (h : name ∉ names ms) (value : α) :
    put ms name value = ms ++ [(name, value)] := by
  induction ms with
  | nil => rfl
  | cons m rest ih =>
    obtain ⟨n, v⟩ := m
    obtain ⟨hn, hrest⟩ := not_or.mp (List.mem_cons.not.mp h)
    simp [put, Ne.symm hn, ih hrest]

/-- The next member has a name of its own. -/
theorem not_mem_of_nodup {done rest : List (String × α)} {m : String × α}
    (h : (names (done ++ m :: rest)).Nodup) : m.1 ∉ names done := by
  intro hm
  rw [names, List.map_append] at h
  exact (List.nodup_append.mp h).2.2 m.1 hm m.1 List.mem_cons_self rfl

theorem foldl_put (done ms : List (String × α)) (h : (names (done ++ ms)).Nodup) :
    ms.foldl (fun done (name, value) => put done name value) done = done ++ ms := by
  induction ms generalizing done with
  | nil => simp
  | cons m rest ih =>
    change rest.foldl _ (put done m.1 m.2) = _
    rw [put_of_not_mem (not_mem_of_nodup h), ih _ (by simpa using h), List.append_assoc]
    rfl

/-- Members whose names differ are kept as they stand. -/
theorem ofList_of_nodup {ms : List (String × α)} (h : (names ms).Nodup) : ofList ms = ms :=
  foldl_put [] ms h

end Members

theorem propertiesJson_eq (ps : List (PropertyOf Value)) :
    propertiesJson ps =
      ps.filterMap fun p => (p.value.bind Value.toJson?).map fun json => (p.key, json) := by
  induction ps with
  | nil => rfl
  | cons p rest ih =>
    obtain ⟨id, span, key, keySpan, _ | v⟩ := p
    · simpa [propertiesJson] using ih
    · cases hv : v.toJson? <;> simp [propertiesJson, hv, ih]

theorem itemsJson_eq (vs : List Value) : itemsJson vs = vs.map fun v => v.toJson?.getD .null := by
  induction vs with
  | nil => rfl
  | cons v rest ih => simp [itemsJson, ih]

/-- Properties whose values are converted keep their keys. -/
theorem names_propertiesJson {ps : List Property}
    (below : ∀ p ∈ ps, ∃ v json, p.value = some v ∧ v.toJson? = some json) :
    Members.names (propertiesJson ps) = ps.map (·.key) := by
  rw [propertiesJson_eq]
  induction ps with
  | nil => rfl
  | cons p rest ih =>
    obtain ⟨v, json, hv, hjson⟩ := below p List.mem_cons_self
    have hrest := ih fun q hq => below q (List.mem_cons_of_mem p hq)
    simp only [List.filterMap_cons, hv, Option.bind_some, hjson, Option.map_some, List.map_cons]
    exact congrArg (p.key :: ·) hrest

/-- Nothing of a node is lost in a value. -/
def Node.Plain : Node → Prop
  | .property p => p.value.isSome = true
  | .value (.object _ _ ps) => (ps.map (·.key)).Nodup
  | .value (.scalar _ _ (.number x isInteger)) => x.isNan = false ∧
      ∃ n : Number, numberJson? x isInteger = some (.number n) ∧ n.toDouble.Alike x ∧
        (isInteger = true ↔ ∃ i, n = .integer i)
  | .value _ => True

namespace Conformance

variable {s : Schema}

theorem problemsUnder_eq_nil {schema : Option Schema} {v : Value} :
    problemsUnder everyNode schema v = [] ↔
      ∀ t, schema = some t → problems everyNode t v = [] := by
  cases schema <;> simp [problemsUnder]

theorem problems_eq_nil {v : Value} : problems everyNode s v = [] ↔
    ownCauses s v = [] ∧
      ∀ x ∈ v.parts, ∀ t, s.below? x.1 = some t → problems everyNode t x.2 = [] := by
  rw [problems_eq rfl, List.append_eq_nil_iff, List.flatMap_eq_nil_iff]
  refine and_congr List.map_eq_nil_iff ?_
  exact forall_congr' fun x => forall_congr' fun _ => problemsUnder_eq_nil

/-- A value that goes by one name fits when it has no causes, if it is neither a number nor an
object. -/
theorem commonCauses_eq_nil_iff_fits {n : Node} {json : Json} {typeName : String}
    (h : n.toJson? = some json) (type : json.typeNames = [typeName])
    (number : ∀ x, json ≠ .number x) (object : ∀ ms, json ≠ .object ms) :
    commonCauses s typeName n = [] ↔ s.Fits json := by
  rw [commonCauses_eq_nil h]
  constructor
  · rintro ⟨htype, hvalue⟩
    refine ⟨fun t ht => ⟨typeName, htype t ht, by simp [type]⟩, hvalue, ?_, ?_⟩
    · exact fun x hx => False.elim (number x hx)
    · exact fun ms _ hms => False.elim (object ms hms)
  · rintro ⟨htype, hvalue, -, -⟩
    refine ⟨fun t ht => ?_, hvalue⟩
    obtain ⟨name, hname, hmem⟩ := htype t ht
    rw [type] at hmem
    exact List.mem_singleton.mp hmem ▸ hname

theorem numberType_mem_iff {t : SchemaType} {isInteger : Bool} {n : Number}
    (ht : s.type = some t) (written : isInteger = true ↔ ∃ i, n = .integer i) :
    numberType s isInteger ∈ t.names ↔ ∃ name ∈ t.names, name ∈ (Json.number n).typeNames := by
  have allows : s.allowsIntegers = t.names.contains "integer" := by
    simp [Schema.allowsIntegers, Schema.allowsType, ht]
  unfold numberType
  rw [allows]
  cases n with
  | integer i =>
    have htrue : isInteger = true := written.mpr ⟨i, rfl⟩
    have either : (∃ name ∈ t.names, name ∈ (Json.number (.integer i)).typeNames) ↔
        "integer" ∈ t.names ∨ "number" ∈ t.names := by
      simp [Json.typeNames, and_or_left, exists_or]
    rw [either]
    by_cases h : "integer" ∈ t.names <;> simp [htrue, h]
  | real x =>
    have hfalse : isInteger = false := by
      cases isInteger with
      | false => rfl
      | true =>
        obtain ⟨i, hi⟩ := written.mp rfl
        cases hi
    simp [Json.typeNames, hfalse]

theorem numberCauses_eq_nil {x : Double} {isInteger : Bool} {node : Node} {n : Number}
    (h : node.toJson? = some (.number n)) (hnan : x.isNan = false) (alike : n.toDouble.Alike x)
    (written : isInteger = true ↔ ∃ i, n = .integer i) :
    numberCauses s x isInteger node = [] ↔ s.Fits (.number n) := by
  unfold numberCauses
  rw [List.append_eq_nil_iff, commonCauses_eq_nil h, sizeCauses_eq_nil hnan]
  constructor
  · rintro ⟨⟨htype, hvalue⟩, hsize⟩
    refine ⟨fun t ht => (numberType_mem_iff ht written).mp (htype t ht), hvalue, ?_, ?_⟩
    · rintro _ ⟨⟩
      exact hsize.alike alike.symm
    · rintro _ _ ⟨⟩
  · rintro ⟨htype, hvalue, hsize, -⟩
    refine ⟨⟨fun t ht => (numberType_mem_iff ht written).mpr (htype t ht), hvalue⟩, ?_⟩
    exact (hsize n rfl).alike alike

theorem objectCauses_eq_nil {id : Nat} {span : Span} {ps : List Property}
    {members : List (String × Json)}
    (h : (Value.object id span ps).toJson? = some (.object members))
    (names : Members.names members = ps.map (·.key)) :
    ownCauses s (.object id span ps) = [] ↔ s.Fits (.object members) := by
  change commonCauses s "object" _ ++ missingCauses s ps = [] ↔ _
  rw [List.append_eq_nil_iff, missingCauses_eq_nil,
    commonCauses_eq_nil (n := .value (.object id span ps)) h]
  constructor
  · rintro ⟨⟨htype, hvalue⟩, hrequired⟩
    refine ⟨fun t ht => ⟨_, htype t ht, by simp [Json.typeNames]⟩, hvalue, ?_, ?_⟩
    · rintro _ ⟨⟩
    · rintro _ required ⟨⟩ hr
      rw [names]
      exact hrequired required hr
  · rintro ⟨htype, hvalue, -, hrequired⟩
    refine ⟨⟨fun t ht => ?_, hvalue⟩, fun required hr => ?_⟩
    · simpa [Json.typeNames] using htype t ht
    · rw [← names]
      exact hrequired members required rfl hr

/-- A tree stands for a value, and has problems with those schemas that do not accept it. -/
structure Denotes (v : Value) (json : Json) : Prop where
  stands : v.toJson? = some json
  conforms : ∀ s, problems everyNode s v = [] ↔ s.Accepts json

section Containers

variable {id : Nat} {span : Span}

theorem mem_propertiesJson {ps : List Property} {name : String} {json : Json} :
    (name, json) ∈ propertiesJson ps ↔
      ∃ p ∈ ps, ∃ v, p.value = some v ∧ v.toJson? = some json ∧ p.key = name := by
  rw [propertiesJson_eq, List.mem_filterMap]
  simp only [Option.map_eq_some_iff, Option.bind_eq_some_iff, Prod.mk.injEq]
  constructor
  · rintro ⟨p, hp, _, ⟨v, hv, hjson⟩, hname, rfl⟩
    exact ⟨p, hp, v, hv, hjson, hname⟩
  · rintro ⟨p, hp, v, hv, hjson, hname⟩
    exact ⟨p, hp, json, ⟨v, hv, hjson⟩, hname, rfl⟩

theorem exists_denotes_object {ps : List Property} (distinct : (ps.map (·.key)).Nodup)
    (below : ∀ p ∈ ps, ∃ v json, p.value = some v ∧ Denotes v json) :
    ∃ json, Denotes (.object id span ps) json := by
  have names := names_propertiesJson fun p hp => by
    obtain ⟨v, json, hv, hjson⟩ := below p hp
    exact ⟨v, json, hv, hjson.stands⟩
  have hjson : (Value.object id span ps).toJson? = some (.object (propertiesJson ps)) := by
    rw [Value.toJson?, Members.ofList_of_nodup]
    rw [names]
    exact distinct
  refine ⟨_, hjson, fun s => ?_⟩
  rw [problems_eq_nil, objectCauses_eq_nil hjson names, Schema.accepts_object]
  refine and_congr_right fun _ => ?_
  constructor
  · rintro hparts ⟨name, j⟩ hm t ht
    obtain ⟨p, hp, v, hv, hj, rfl⟩ := mem_propertiesJson.mp hm
    obtain ⟨w, k, hw, hk, hiff⟩ := below p hp
    cases hv.symm.trans hw
    cases hj.symm.trans hk
    exact (hiff t).mp (hparts _ (Value.part_of_property _ _ hp hv) t ht)
  · rintro hmembers ⟨segment, v⟩ hpart t ht
    obtain ⟨p, hp, he⟩ := List.mem_filterMap.mp hpart
    obtain ⟨w, hw, he⟩ := Option.map_eq_some_iff.mp he
    cases he
    obtain ⟨_, k, hv, hk, hiff⟩ := below p hp
    cases hw.symm.trans hv
    exact (hiff t).mpr (hmembers (p.key, k) (mem_propertiesJson.mpr ⟨p, hp, v, hw, hk, rfl⟩) t ht)

theorem exists_denotes_array {vs : List Value} (below : ∀ v ∈ vs, ∃ json, Denotes v json) :
    ∃ json, Denotes (.array id span vs) json := by
  have hjson : (Value.array id span vs).toJson? = some (.array (itemsJson vs)) := rfl
  refine ⟨_, hjson, fun s => ?_⟩
  rw [problems_eq_nil, Schema.accepts_array, itemsJson_eq]
  refine and_congr ?_ ?_
  · rw [← itemsJson_eq]
    exact commonCauses_eq_nil_iff_fits (n := .value (.array id span vs)) hjson rfl
      (by simp) (by simp)
  · constructor
    · intro hparts t ht json hm
      obtain ⟨v, hv, rfl⟩ := List.mem_map.mp hm
      obtain ⟨k, hk, hiff⟩ := below v hv
      obtain ⟨position, hpart⟩ := Value.part_of_item id span hv
      rw [hk]
      exact (hiff t).mp (hparts _ hpart t ht)
    · rintro hitems ⟨segment, v⟩ hpart t ht
      obtain ⟨⟨w, position⟩, hw, he⟩ := List.mem_map.mp hpart
      cases he
      have hv := List.fst_mem_of_mem_zipIdx hw
      obtain ⟨k, hk, hiff⟩ := below v hv
      have hm : k ∈ vs.map fun v => v.toJson?.getD .null :=
        List.mem_map.mpr ⟨v, hv, by rw [hk]; rfl⟩
      exact (hiff t).mpr (hitems t ht k hm)

theorem exists_denotes_scalar {content : Scalar}
    (plain : (Node.value (.scalar id span content)).Plain) :
    ∃ json, Denotes (.scalar id span content) json := by
  have alone : ∀ json : Json, (Value.scalar id span content).toJson? = some json →
      (∀ s, ownCauses s (.scalar id span content) = [] ↔ s.Accepts json) →
      ∃ json, Denotes (.scalar id span content) json := by
    intro json hjson hiff
    refine ⟨json, hjson, fun s => ?_⟩
    rw [problems_eq_nil, hiff s]
    simp [Value.parts]
  cases content with
  | string text =>
    refine alone (.string text) rfl fun s => ?_
    rw [Schema.Accepts]
    exact commonCauses_eq_nil_iff_fits (n := .value (.scalar id span (.string text))) rfl rfl
      (by simp) (by simp)
  | number x isInteger =>
    obtain ⟨hnan, n, hn, alike, written⟩ := plain
    refine alone (.number n) hn fun s => ?_
    rw [Schema.Accepts]
    change numberCauses s x isInteger (.value (.scalar id span (.number x isInteger))) = [] ↔ _
    exact numberCauses_eq_nil hn hnan alike written
  | boolean b =>
    refine alone (.boolean b) rfl fun s => ?_
    rw [Schema.Accepts]
    exact commonCauses_eq_nil_iff_fits (n := .value (.scalar id span (.boolean b))) rfl rfl
      (by simp) (by simp)
  | null =>
    refine alone .null rfl fun s => ?_
    rw [Schema.Accepts]
    exact commonCauses_eq_nil_iff_fits (n := .value (.scalar id span .null)) rfl rfl
      (by simp) (by simp)

end Containers

/-- A tree of which nothing is lost has problems with those schemas that do not accept its value. -/
theorem exists_denotes {v : Value} (plain : ∀ m ∈ (Node.value v).nodes, m.Plain) :
    ∃ json, Denotes v json := by
  have own := plain _ (Node.self_mem_nodes _)
  induction v using value_induction with
  | object id span ps ih =>
    refine exists_denotes_object own fun p hp => ?_
    have step : (Segment.key p.key, Node.property p) ∈ (Node.value (.object id span ps)).steps :=
      List.mem_map_of_mem hp
    have hvalue : p.value.isSome = true :=
      plain (.property p) ((Node.nodes_step_inside step).subset (Node.self_mem_nodes _))
    obtain ⟨v, hv⟩ := Option.isSome_iff_exists.mp hvalue
    have part := Value.part_of_property id span hp hv
    have inside := (Node.nodes_inside (Value.mem_nodes_part part)).subset
    have hplain : ∀ m ∈ (Node.value v).nodes, m.Plain := fun m hm => plain m (inside hm)
    obtain ⟨json, hjson⟩ := ih p hp v hv hplain (hplain _ (Node.self_mem_nodes _))
    exact ⟨v, json, hv, hjson⟩
  | array id span vs ih =>
    refine exists_denotes_array fun v hv => ?_
    obtain ⟨position, part⟩ := Value.part_of_item id span hv
    have inside := (Node.nodes_inside (Value.mem_nodes_part part)).subset
    have hplain : ∀ m ∈ (Node.value v).nodes, m.Plain := fun m hm => plain m (inside hm)
    exact ih v hv hplain (hplain _ (Node.self_mem_nodes _))
  | scalar id span content => exact exists_denotes_scalar own

end Conformance

end TemplateLint
