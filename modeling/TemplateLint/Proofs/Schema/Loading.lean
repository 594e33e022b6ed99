import TemplateLint.Proofs.Schema.Keywords

/-!
# Schemas that a text can hold

What is loaded from a text has distinct names, numbers that are finite and no
more schemas in one another than the text has containers. Nothing that it
states is null, and no other name is a keyword. The invariant holds of the empty
schema and is kept by every member that is taken up.
-/

namespace TemplateLint

open Json (Reading LoadFault)
open Json.Reading (Within)

namespace Json

/-- Numbers are made binary64 numbers that a text can hold. -/
theorem plain_toDouble {k : Number} (h : k.Plain) (n : Nat) :
    Plain n (.number (.real k.toDouble)) := by
  cases h with
  | integer low high =>
    obtain ⟨negative, units, finite, hu, hmax⟩ := Double.ofInt_finite low high
    rw [Number.toDouble, finite]
    exact .number (.real hu hmax)
  | real hu hmax => exact .number (.real hu hmax)

end Json

namespace Schema

section Leaves

variable {n : Nat} {r : Reading}

theorem typeJson_of_typeOfJson? {v : Json} {t : SchemaType} (h : typeOfJson? v = some t) :
    typeJson t = v := by
  have names : ∀ {items : List Json} {ss : List String}, items.mapM Json.string? = some ss →
      ss.map Json.string = items := by
    intro items ss h
    induction items generalizing ss with
    | nil =>
      cases h
      rfl
    | cons v rest ih =>
      rw [List.mapM_cons] at h
      obtain ⟨s, hs, h⟩ := Option.bind_eq_some_iff.mp h
      obtain ⟨ss, hss, h⟩ := Option.bind_eq_some_iff.mp h
      cases h
      cases v <;> cases hs
      rw [List.map_cons, ih hss]
  cases v with
  | string name =>
    cases h
    rfl
  | array items =>
    obtain ⟨ss, hss, rfl⟩ := Option.map_eq_some_iff.mp h
    rw [typeJson, Json.strings, names hss]
  | _ => cases h

theorem plain_type (within : Within n r) {t : SchemaType}
    (h : r.optional (oneForm "SchemaType" typeOfJson?) = .ok (some t)) :
    (typeJson t).Plain n ∧ typeJson t ≠ .null := by
  obtain ⟨-, h⟩ := Reading.optional_eq_some h
  obtain ⟨v, denotes, h⟩ := oneForm_eq_ok h
  have same := typeJson_of_typeOfJson? h
  refine ⟨?_, by cases t <;> exact Json.noConfusion⟩
  rw [same]
  exact within.plain denotes

theorem plain_bound (within : Within n r) {b : ExclusiveBound}
    (h : boundOfReading r = .ok (some b)) : (boundJson b).Plain n ∧ boundJson b ≠ .null := by
  obtain ⟨-, h⟩ := Reading.optional_eq_some h
  obtain ⟨v, denotes, h⟩ := oneForm_eq_ok h
  have plain := within.plain denotes
  cases plain with
  | boolean =>
    cases h
    exact ⟨.boolean, Json.noConfusion⟩
  | number plain =>
    cases h
    exact ⟨Json.plain_toDouble plain n, Json.noConfusion⟩
  | _ => cases h

theorem plain_double (within : Within n r) {x : Double}
    (h : r.optional Reading.double? = .ok (some x)) :
    (doubleJson x).Plain n ∧ doubleJson x ≠ .null := by
  obtain ⟨-, h⟩ := Reading.optional_eq_some h
  cases within with
  | number plain =>
    cases h
    exact ⟨Json.plain_toDouble plain n, Json.noConfusion⟩
  | _ => cases h

theorem plain_strings (within : Within n r) {names : List String}
    (h : r.optional (Reading.list? Reading.string?) = .ok (some names)) :
    (Json.strings names).Plain n ∧ Json.strings names ≠ .null := by
  obtain ⟨-, h⟩ := Reading.optional_eq_some h
  obtain ⟨items, rfl, -⟩ := Reading.list?_eq_ok h
  cases within
  refine ⟨.array fun v hv => ?_, Json.noConfusion⟩
  obtain ⟨s, -, rfl⟩ := List.mem_map.mp hv
  exact .string

theorem plain_enum (within : Within n r) {vs : List Json}
    (h : r.optional (Reading.list? Reading.json) = .ok (some vs)) :
    (Json.array vs).Plain n ∧ Json.array vs ≠ .null := by
  obtain ⟨-, h⟩ := Reading.optional_eq_some h
  obtain ⟨items, rfl, decoded⟩ := Reading.list?_eq_ok h
  cases within with
  | array parts =>
    refine ⟨.array fun v hv => ?_, Json.noConfusion⟩
    obtain ⟨r, hr, hv⟩ := Reading.exists_of_mapM decoded v hv
    exact (parts r hr).plain (Reading.toJson_of_json hv)

theorem plain_const (within : Within n r) {c : Json}
    (h : r.optional Reading.json = .ok (some c)) : c.Plain n ∧ c ≠ .null := by
  obtain ⟨differs, h⟩ := Reading.optional_eq_some h
  have denotes := Reading.toJson_of_json h
  exact ⟨within.plain denotes, fun hc => differs ((Reading.eq_null_iff denotes).mpr hc)⟩

/-- What is taken up for a keyword without schemas can be written, and is not null. -/
theorem plain_take (within : Within n r) {k : Keyword} (leaf : k.isLeaf = true) {t u : Schema}
    (h : t.take r k = .ok u) {v : Json} (hv : u.value? k = some v) : v.Plain n ∧ v ≠ .null := by
  cases k <;> try cases leaf
  all_goals
    obtain ⟨o, decoded, h⟩ := bind_eq_ok h
    cases h
  case const =>
    cases hv
    exact plain_const within decoded
  all_goals
    obtain ⟨a, rfl, rfl⟩ := Option.map_eq_some_iff.mp hv
  case type => exact plain_type within decoded
  case required => exact plain_strings within decoded
  case enum => exact plain_enum within decoded
  case multipleOf => exact plain_double within decoded
  case minimum => exact plain_double within decoded
  case maximum => exact plain_double within decoded
  case exclusiveMinimum => exact plain_bound within decoded
  case exclusiveMaximum => exact plain_bound within decoded

end Leaves

/-! ## The invariant -/

/-- What a schema states beside schemas can be read back. -/
structure Leaves (n : Nat) (s : Schema) : Prop where
  value : ∀ k v, k.isLeaf = true → s.value? k = some v → v.Plain n ∧ v ≠ .null
  distinct : (Members.names s.extra).Nodup
  other : ∀ m ∈ s.extra, Keyword.ofName? m.1 = none ∧ m.2.Plain n

/-- A schema that can be read back from an object with containers nested at most as deep as a
number says. -/
inductive Sound : Nat → Schema → Prop where
  | mk {n : Nat} {s : Schema} (leaves : s.Leaves n)
      (room : ∀ ss, s.definitions = some ss ∨ s.properties = some ss →
        0 < n ∧ (Members.names ss).Nodup)
      (named : ∀ ss, s.definitions = some ss ∨ s.properties = some ss →
        ∀ m ∈ ss, Sound (n - 1) m.2)
      (items : ∀ i, s.items = some i → Sound n i) : Sound (n + 1) s

/-- Named schemas that can be read back from an object. -/
structure SoundAll (n : Nat) (ss : List (String × Schema)) : Prop where
  room : 0 < n
  distinct : (Members.names ss).Nodup
  sound : ∀ m ∈ ss, Sound (n - 1) m.2

/-- The part of the invariant that is about one keyword. -/
def SoundAt (n : Nat) (s : Schema) : Keyword → Prop
  | .definitions => ∀ ss, s.definitions = some ss → SoundAll n ss
  | .properties => ∀ ss, s.properties = some ss → SoundAll n ss
  | .items => ∀ i, s.items = some i → Sound n i
  | k => ∀ v, s.value? k = some v → v.Plain n ∧ v ≠ .null

section Invariant

variable {n : Nat} {s t : Schema} {k : Keyword}

theorem sound_iff : Sound (n + 1) s ↔ (∀ k, SoundAt n s k) ∧ (Members.names s.extra).Nodup ∧
    ∀ m ∈ s.extra, Keyword.ofName? m.1 = none ∧ m.2.Plain n := by
  constructor
  · rintro ⟨leaves, room, named, items⟩
    refine ⟨fun k => ?_, leaves.distinct, leaves.other⟩
    cases k
    case definitions =>
      exact fun ss h => ⟨(room ss (.inl h)).1, (room ss (.inl h)).2, named ss (.inl h)⟩
    case properties =>
      exact fun ss h => ⟨(room ss (.inr h)).1, (room ss (.inr h)).2, named ss (.inr h)⟩
    case items => exact items
    all_goals exact fun v => leaves.value _ v rfl
  · rintro ⟨at_, distinct, other⟩
    have named : ∀ ss, s.definitions = some ss ∨ s.properties = some ss → SoundAll n ss := by
      rintro ss (h | h)
      · exact at_ .definitions ss h
      · exact at_ .properties ss h
    refine .mk ⟨fun k v leaf => ?_, distinct, other⟩
      (fun ss h => ⟨(named ss h).room, (named ss h).distinct⟩) (fun ss h => (named ss h).sound)
      (at_ .items)
    have hk := at_ k
    cases k <;> first | exact hk v | cases leaf

/-- The invariant is kept when a keyword is changed for one that keeps it. -/
theorem Sound.change (h : Sound (n + 1) s) (agree : AgreeBut k s t) (new : SoundAt n t k) :
    Sound (n + 1) t := by
  obtain ⟨old, distinct, other⟩ := sound_iff.mp h
  refine sound_iff.mpr ⟨fun j => ?_, agree.extra ▸ distinct, agree.extra ▸ other⟩
  by_cases same : j = k
  · rw [same]
    exact new
  · have hj := old j
    cases j
    case definitions => exact fun ss hs => hj ss (agree.definitions (Ne.symm same) ▸ hs)
    case properties => exact fun ss hs => hj ss (agree.properties (Ne.symm same) ▸ hs)
    case items => exact fun i hs => hj i (agree.items (Ne.symm same) ▸ hs)
    all_goals exact fun v hs => hj v (agree.value _ same ▸ hs)

theorem Sound.addOther (h : Sound (n + 1) s) {name : String} {v : Json}
    (hname : Keyword.ofName? name = none) (plain : v.Plain n) :
    Sound (n + 1) { s with extra := Members.put s.extra name v } := by
  obtain ⟨old, distinct, other⟩ := sound_iff.mp h
  refine sound_iff.mpr ⟨fun k => ?_, Members.nodup_put distinct name v, fun m hm => ?_⟩
  · have hk := old k
    cases k <;> exact hk
  · rcases Members.mem_put hm with hm | rfl
    · exact other m hm
    · exact ⟨hname, plain⟩

theorem sound_empty (n : Nat) : Sound (n + 1) empty := by
  refine sound_iff.mpr ⟨fun k => ?_, List.nodup_nil, fun m hm => absurd hm List.not_mem_nil⟩
  cases k <;>
  · intro v h
    cases h

end Invariant

/-! ## Loading -/

/-- What is loaded from what was read keeps the invariant. -/
structure Loads (n : Nat) (r : Reading) : Prop where
  schema : ∀ s, ofReading r = .ok s → Sound n s
  named : ∀ ss, namedOfReading r = .ok (some ss) → SoundAll n ss
  items : ∀ s, itemsOfReading r = .ok (some s) → Sound n s

section Loading

variable {n : Nat}

theorem soundAt_take {r : Reading} (within : Within n r) (loads : Loads n r) {k : Keyword}
    {t u : Schema} (h : t.take r k = .ok u) : SoundAt n u k := by
  have leaf := fun leaf v => plain_take within (k := k) leaf h (v := v)
  cases k
  case definitions =>
    obtain ⟨o, decoded, h⟩ := bind_eq_ok h
    cases h
    rintro ss rfl
    exact loads.named ss decoded
  case properties =>
    obtain ⟨o, decoded, h⟩ := bind_eq_ok h
    cases h
    rintro ss rfl
    exact loads.named ss decoded
  case items =>
    obtain ⟨o, decoded, h⟩ := bind_eq_ok h
    cases h
    rintro i rfl
    exact loads.items i decoded
  all_goals exact leaf rfl

theorem sound_ofMembers {members : List (String × Reading)}
    (parts : ∀ m ∈ members, Within n m.2 ∧ Loads n m.2) {seen : List Keyword} {s t : Schema}
    (sound : Sound (n + 1) t) (h : ofMembers seen t members = .ok s) : Sound (n + 1) s := by
  induction members generalizing seen t with
  | nil =>
    rw [ofMembers] at h
    cases h
    exact sound
  | cons m rest ih =>
    obtain ⟨within, loads⟩ := parts m List.mem_cons_self
    have hrest := fun k hk => parts k (List.mem_cons_of_mem m hk)
    rcases ofMembers_cases h with ⟨k, u, taken, h⟩ | ⟨hname, v, denotes, h⟩
    · exact ih hrest (sound.change (agreeBut_take taken) (soundAt_take within loads taken)) h
    · exact ih hrest (sound.addOther hname (within.plain denotes)) h

theorem sound_schemasOfMembers {members : List (String × Reading)}
    (parts : ∀ m ∈ members, Loads n m.2) {done ss : List (String × Schema)}
    (before : SoundAll (n + 1) done) (h : schemasOfMembers done members = .ok ss) :
    SoundAll (n + 1) ss := by
  induction members generalizing done with
  | nil =>
    rw [schemasOfMembers] at h
    cases h
    exact before
  | cons m rest ih =>
    rw [schemasOfMembers] at h
    obtain ⟨s, loaded, h⟩ := bind_eq_ok h
    have sound := (parts m List.mem_cons_self).schema s loaded
    refine ih (fun k hk => parts k (List.mem_cons_of_mem m hk)) ?_ h
    refine ⟨before.room, Members.nodup_put before.distinct m.1 s, fun k hk => ?_⟩
    rcases Members.mem_put hk with hk | rfl
    · exact before.sound k hk
    · exact sound

theorem loads_object {members : List (String × Reading)}
    (parts : ∀ m ∈ members, Within n m.2 ∧ Loads n m.2) :
    Loads (n + 1) (.object members none) where
  schema := by
    intro s h
    rw [ofReading] at h
    obtain ⟨t, loaded, h⟩ := bind_eq_ok h
    cases h
    exact sound_ofMembers parts (sound_empty n) loaded
  named := by
    intro ss h
    rw [namedOfReading] at h
    obtain ⟨t, loaded, h⟩ := bind_eq_ok h
    cases h
    have none : SoundAll (n + 1) [] :=
      ⟨n.succ_pos, List.nodup_nil, fun m hm => absurd hm List.not_mem_nil⟩
    exact sound_schemasOfMembers (fun m hm => (parts m hm).2) none loaded
  items := by
    intro s h
    rw [itemsOfReading] at h
    obtain ⟨t, loaded, h⟩ := bind_eq_ok h
    cases h
    exact sound_ofMembers parts (sound_empty n) loaded

theorem loads_unclosed (members : List (String × Reading)) (fault : Json.TextFault) :
    Loads n (.object members (some fault)) where
  schema := by
    intro s h
    rw [ofReading] at h
    obtain ⟨t, -, h⟩ := bind_eq_ok h
    cases h
  named := by
    intro s h
    rw [namedOfReading] at h
    obtain ⟨t, -, h⟩ := bind_eq_ok h
    cases h
  items := by
    intro s h
    rw [itemsOfReading] at h
    obtain ⟨t, -, h⟩ := bind_eq_ok h
    cases h

theorem loads_other {r : Reading} (h : ∀ members unclosed, r ≠ .object members unclosed) :
    Loads n r := by
  cases r with
  | object members unclosed => exact absurd rfl (h members unclosed)
  | _ => constructor <;> simp [ofReading, namedOfReading, itemsOfReading]

theorem loads_within {r : Reading} (within : Within n r) : Loads n r := by
  induction within with
  | object parts ih => exact loads_object fun m hm => ⟨parts m hm, ih m hm⟩
  | unclosedObject => exact loads_unclosed _ _
  | _ => exact loads_other fun _ _ => Reading.noConfusion

end Loading

/-- Every schema that is loaded from a text can be read back. -/
theorem sound_ofJsonText {text : List Char} {s : Schema} (h : ofJsonText text = .ok s) :
    Sound Reading.maxDepth s := by
  have within := Reading.within_ofText text
  obtain ⟨t, loaded, h⟩ := bind_eq_ok (x := ofReading (Reading.ofText text).1) h
  cases Reading.eq_of_closed h
  exact (loads_within within).schema s loaded

end Schema

end TemplateLint
