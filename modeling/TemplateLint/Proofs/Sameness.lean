import Mathlib.Data.List.Perm.Subperm
import TemplateLint.Proofs.Decimal.Integers
import TemplateLint.Schema
import TemplateLint.Tree

/-!
# Sameness of JSON values

Two objects are the same when they have equally many members and each member of
the one has a namesake with the same value in the other. Where no object repeats
a name the count makes this hold in both directions: the objects are looked up
alike. So sameness is an equivalence of such values. It goes past the order of
members, and past the exchange of a part for one that is the same.
-/

namespace TemplateLint

namespace Members

variable {α β : Type}

theorem mem_of_get? {ms : List (String × α)} {name : String} {value : α}
    (h : get? ms name = some value) : (name, value) ∈ ms := by
  induction ms with
  | nil => cases h
  | cons m rest ih =>
    obtain ⟨n, v⟩ := m
    unfold get? at h
    split at h
    · rename_i same
      cases same
      cases h
      exact List.mem_cons_self
    · exact List.mem_cons_of_mem _ (ih h)

theorem mem_names_of_get? {ms : List (String × α)} {name : String} {value : α}
    (h : get? ms name = some value) : name ∈ names ms :=
  List.mem_map_of_mem (f := Prod.fst) (mem_of_get? h)

theorem get?_of_mem {ms : List (String × α)} (distinct : (names ms).Nodup) {m : String × α}
    (h : m ∈ ms) : get? ms m.1 = some m.2 := by
  induction ms with
  | nil => cases h
  | cons k rest ih =>
    obtain ⟨n, v⟩ := k
    obtain ⟨fresh, distinct⟩ : n ∉ names rest ∧ (names rest).Nodup := List.nodup_cons.mp distinct
    rcases List.mem_cons.mp h with rfl | hm
    · simp [get?]
    · have differs : n ≠ m.1 := by
        rintro rfl
        exact fresh (List.mem_map_of_mem hm)
      rw [get?, if_neg differs]
      exact ih distinct hm

/-- Members with distinct names are found alike in any order. -/
theorem get?_perm {ms ns : List (String × α)} (distinct : (names ms).Nodup) (h : ms.Perm ns)
    (name : String) : get? ns name = get? ms name := by
  have others : (names ns).Nodup := (h.map Prod.fst).nodup_iff.mp distinct
  cases hget : get? ms name with
  | some value => exact get?_of_mem others (h.subset (mem_of_get? hget))
  | none =>
    rw [get?_eq_none_iff] at hget ⊢
    exact fun hname => hget ((h.map Prod.fst).symm.subset hname)

/-- A value in the list matters to its own name only. -/
theorem get?_exchange {front back : List (String × α)} {name other : String} {a b : α}
    (h : name ≠ other) : get? (front ++ (name, a) :: back) other =
      get? (front ++ (name, b) :: back) other := by
  induction front with
  | nil => simp [get?, h]
  | cons m rest ih =>
    obtain ⟨n, v⟩ := m
    simp only [List.cons_append, get?, ih]

/-- As many names, and each of the first among the second, make the second no more. -/
theorem names_subset_of_length {ms : List (String × α)} {ns : List (String × β)}
    (distinct : (names ms).Nodup) (length : ms.length = ns.length) (h : names ms ⊆ names ns) :
    names ns ⊆ names ms := by
  have count : (names ns).length ≤ (names ms).length := by simp [names, length]
  exact ((List.subperm_of_subset distinct h).perm_of_length_le count).symm.subset

end Members

namespace Schema

section Options

variable {α : Type} {same : α → α → Bool} {x y : Option α}

/-- A value that is there is the same only as one that is there. -/
theorem sameOption_some {a : α} :
    sameOption same (some a) y = true ↔ ∃ b, y = some b ∧ same a b = true := by
  cases y <;> simp [sameOption]

theorem sameOption_none : sameOption same none y = true ↔ y = none := by
  cases y <;> simp [sameOption]

theorem sameOption_cases (h : sameOption same x y = true) :
    (x = none ∧ y = none) ∨ ∃ a b, x = some a ∧ y = some b ∧ same a b = true := by
  cases x with
  | none => exact .inl ⟨rfl, sameOption_none.mp h⟩
  | some a =>
    obtain ⟨b, hy, hab⟩ := sameOption_some.mp h
    exact .inr ⟨a, b, rfl, hy, hab⟩

end Options

end Schema

namespace Json

open Schema (sameOption sameOption_some sameOption_none)

/-- A value without a repeated name in any of its objects and without a NaN for a number. -/
inductive Proper : Json → Prop where
  | null : Proper .null
  | boolean {value : Bool} : Proper (.boolean value)
  | number {value : Number} : value.toDouble ≠ .nan → Proper (.number value)
  | string {text : String} : Proper (.string text)
  | array {items : List Json} : (∀ v ∈ items, Proper v) → Proper (.array items)
  | object {members : List (String × Json)} : (Members.names members).Nodup →
      (∀ m ∈ members, Proper m.2) → Proper (.object members)

theorem proper_array {items : List Json} : (array items).Proper ↔ ∀ v ∈ items, v.Proper := by
  refine ⟨fun h => ?_, .array⟩
  cases h with
  | array below => exact below

theorem proper_object {members : List (String × Json)} : (object members).Proper ↔
    (Members.names members).Nodup ∧ ∀ m ∈ members, m.2.Proper := by
  refine ⟨fun h => ?_, fun h => .object h.1 h.2⟩
  cases h with
  | object distinct below => exact ⟨distinct, below⟩

/-! ## Parts -/

/-- The value one step below. -/
def part? : Json → Segment → Option Json
  | array items, .index position => items[position]?
  | object members, .key name => Members.get? members name
  | _, _ => none

/-- Whether two values are the same as far as can be told without their parts. -/
def sameKind : Json → Json → Bool
  | .null, .null => true
  | .boolean a, .boolean b => a == b
  | .number a, .number b => a.toDouble.sameValue b.toDouble
  | .string a, .string b => a == b
  | .array _, .array _ => true
  | .object _, .object _ => true
  | _, _ => false

/-- What two values have one step below is missing in both, or there and the same. -/
def SameParts (v w : Json) : Prop := ∀ s, sameOption same (v.part? s) (w.part? s) = true

namespace SameParts

variable {v w : Json} {s : Segment}

theorem found (h : SameParts v w) {a : Json} (ha : v.part? s = some a) :
    ∃ b, w.part? s = some b ∧ a.same b = true := by
  have hs := h s
  rwa [ha, sameOption_some] at hs

theorem missing (h : SameParts v w) (hv : v.part? s = none) : w.part? s = none := by
  have hs := h s
  rwa [hv, sameOption_none] at hs

end SameParts

theorem Proper.part {v w : Json} {s : Segment} (h : v.Proper) (hw : v.part? s = some w) :
    w.Proper := by
  cases h with
  | array below =>
    cases s with
    | key name => cases hw
    | index position => exact below w (List.mem_of_getElem? hw)
  | object _ below =>
    cases s with
    | key name => exact below _ (Members.mem_of_get? hw)
    | index position => cases hw
  | _ => cases hw

/-- The induction over values, without a case for arrays and objects. -/
theorem Proper.parts_induction {P : (v : Json) → v.Proper → Prop}
    (value : ∀ v (hv : v.Proper), (∀ s w (hw : v.part? s = some w), P w (hv.part hw)) → P v hv)
    {v : Json} (h : v.Proper) : P v h := by
  induction h with
  | null => exact value _ .null nofun
  | boolean => exact value _ .boolean nofun
  | number number => exact value _ (.number number) nofun
  | string => exact value _ .string nofun
  | array below ih =>
    refine value _ (.array below) fun s w hw => ?_
    cases s with
    | key name => cases hw
    | index position => exact ih w (List.mem_of_getElem? hw)
  | object distinct below ih =>
    refine value _ (.object distinct below) fun s w hw => ?_
    cases s with
    | key name => exact ih _ (Members.mem_of_get? hw)
    | index position => cases hw

theorem sameItems_iff {as bs : List Json} :
    sameItems as bs = true ↔ SameParts (array as) (array bs) := by
  induction as generalizing bs with
  | nil =>
    cases bs with
    | nil => exact ⟨fun _ s => by cases s <;> rfl, fun _ => rfl⟩
    | cons b bs => exact ⟨nofun, fun h => nomatch h (.index 0)⟩
  | cons a rest ih =>
    cases bs with
    | nil => exact ⟨nofun, fun h => nomatch h (.index 0)⟩
    | cons b bs =>
      rw [sameItems, Bool.and_eq_true, ih]
      constructor
      · rintro ⟨first, others⟩ s
        rcases s with name | _ | position
        · rfl
        · exact first
        · exact others (.index position)
      · intro h
        refine ⟨h (.index 0), fun s => ?_⟩
        cases s with
        | key name => rfl
        | index position => exact h (.index (position + 1))

theorem sameMembers_iff {as bs : List (String × Json)} : sameMembers as bs = true ↔
    ∀ m ∈ as, ∃ b, Members.get? bs m.1 = some b ∧ m.2.same b = true := by
  induction as with
  | nil => simp [sameMembers]
  | cons m rest ih =>
    obtain ⟨name, a⟩ := m
    rw [sameMembers, Bool.and_eq_true, ih, List.forall_mem_cons]
    cases Members.get? bs name <;> simp

section Objects

variable {as bs : List (String × Json)} (distinct : (Members.names as).Nodup)
  (others : (Members.names bs).Nodup)

include distinct

/-- Members are counted, so that those of the first object have namesakes in the second leaves no
name of the second over. -/
theorem sameParts_of_sameMembers (length : as.length = bs.length)
    (h : sameMembers as bs = true) : SameParts (object as) (object bs) := by
  have found := sameMembers_iff.mp h
  have back : Members.names bs ⊆ Members.names as := by
    refine Members.names_subset_of_length distinct length fun n hn => ?_
    obtain ⟨m, hm, rfl⟩ := List.mem_map.mp hn
    obtain ⟨b, hb, -⟩ := found m hm
    exact Members.mem_names_of_get? hb
  rintro (name | position)
  · change sameOption same (Members.get? as name) (Members.get? bs name) = true
    cases ha : Members.get? as name with
    | some a => exact sameOption_some.mpr (found _ (Members.mem_of_get? ha))
    | none =>
      rw [Members.get?_eq_none_iff] at ha
      rw [sameOption_none, Members.get?_eq_none_iff]
      exact fun hn => ha (back hn)
  · rfl

include others

theorem same_object_iff :
    (object as).same (object bs) = true ↔ SameParts (object as) (object bs) := by
  rw [same, Bool.and_eq_true, beq_iff_eq]
  refine ⟨fun h => sameParts_of_sameMembers distinct h.1 h.2, fun h => ?_⟩
  have named (name : String) : name ∈ Members.names as ↔ name ∈ Members.names bs := by
    rw [← not_iff_not, ← Members.get?_eq_none_iff, ← Members.get?_eq_none_iff]
    cases ha : Members.get? as name with
    | none => exact iff_of_true rfl (h.missing (s := .key name) ha)
    | some a =>
      obtain ⟨b, hb, -⟩ := h.found (s := .key name) ha
      exact iff_of_false nofun (Option.ne_none_iff_exists'.mpr ⟨b, hb⟩)
  -- the count comes from the names, since what is there in one is there in the other
  have perm : (Members.names as).Perm (Members.names bs) :=
    (List.perm_ext_iff_of_nodup distinct others).mpr named
  refine ⟨by simpa [Members.names] using perm.length_eq, sameMembers_iff.mpr fun m hm => ?_⟩
  exact h.found (s := .key m.1) (Members.get?_of_mem distinct hm)

end Objects

/-- Two values are the same if they are of one kind, and what is one step below them is the same. -/
theorem same_iff {v w : Json} (hv : v.Proper) (hw : w.Proper) :
    v.same w = true ↔ v.sameKind w = true ∧ SameParts v w := by
  cases hv with
  | object distinct =>
    cases hw with
    | object others => simp [same_object_iff distinct others, sameKind]
    | _ => simp [same, sameKind]
  | array =>
    cases hw with
    | array => simp [same, sameItems_iff, sameKind]
    | _ => simp [same, sameKind]
  | _ =>
    cases hw <;> simp [same, sameKind, SameParts, part?, sameOption]

/-! ## The equivalence -/

theorem sameKind_refl {v : Json} (h : v.Proper) : v.sameKind v = true := by
  cases h with
  | number number => exact Double.sameValue_iff.mpr ⟨number, .inl rfl⟩
  | _ => simp [sameKind]

theorem sameKind_comm (v w : Json) : v.sameKind w = w.sameKind v := by
  cases v <;> cases w <;> simp [sameKind, Double.sameValue_comm, eq_comm]

theorem sameKind_trans {u v w : Json} (huv : u.sameKind v = true) (hvw : v.sameKind w = true) :
    u.sameKind w = true := by
  cases u <;> cases v <;> try cases huv
  all_goals cases w <;> try cases hvw
  · rfl
  · exact (beq_iff_eq.mp huv) ▸ hvw
  · exact Double.sameValue_trans huv hvw
  · exact (beq_iff_eq.mp huv) ▸ hvw
  · rfl
  · rfl

theorem same_refl {v : Json} (h : v.Proper) : v.same v = true := by
  induction h using Proper.parts_induction with
  | value v hv ih =>
    refine (same_iff hv hv).mpr ⟨sameKind_refl hv, fun s => ?_⟩
    cases hs : v.part? s with
    | none => rfl
    | some w => exact ih s w hs

theorem same_symm {v w : Json} (hv : v.Proper) (hw : w.Proper) (h : v.same w = true) :
    w.same v = true := by
  induction hv using Proper.parts_induction generalizing w with
  | value v hv ih =>
    obtain ⟨kind, parts⟩ := (same_iff hv hw).mp h
    refine (same_iff hw hv).mpr ⟨by rwa [sameKind_comm], fun s => ?_⟩
    cases ha : v.part? s with
    | none =>
      rw [parts.missing ha]
      rfl
    | some a =>
      obtain ⟨b, hb, hab⟩ := parts.found ha
      rw [hb]
      exact ih s a ha (hw.part hb) hab

theorem same_trans {u v w : Json} (hu : u.Proper) (hv : v.Proper) (hw : w.Proper)
    (huv : u.same v = true) (hvw : v.same w = true) : u.same w = true := by
  induction hu using Proper.parts_induction generalizing v w with
  | value u hu ih =>
    obtain ⟨first, left⟩ := (same_iff hu hv).mp huv
    obtain ⟨second, right⟩ := (same_iff hv hw).mp hvw
    refine (same_iff hu hw).mpr ⟨sameKind_trans first second, fun s => ?_⟩
    cases ha : u.part? s with
    | none => exact sameOption_none.mpr (right.missing (left.missing ha))
    | some a =>
      obtain ⟨b, hb, hab⟩ := left.found ha
      obtain ⟨c, hc, hbc⟩ := right.found hb
      exact sameOption_some.mpr ⟨c, hc, ih s a ha (hv.part hb) (hw.part hc) hab hbc⟩

/-! ## Parts exchanged and members reordered -/

/-- A value with a hole in the place of one of the values below it. -/
inductive Context where
  | hole
  | item (front : List Json) (inner : Context) (back : List Json)
  | member (front : List (String × Json)) (name : String) (inner : Context)
    (back : List (String × Json))

def Context.fill : Context → Json → Json
  | hole, v => v
  | item front inner back, v => array (front ++ inner.fill v :: back)
  | member front name inner back, v => object (front ++ (name, inner.fill v) :: back)

/-- Values that differ in the order of members, in as many objects as may be. -/
inductive Reordered : Json → Json → Prop where
  | refl {v : Json} : Reordered v v
  | members {as bs : List (String × Json)} : as.Perm bs → Reordered (object as) (object bs)
  | inside (C : Context) {v w : Json} : Reordered v w → Reordered (C.fill v) (C.fill w)
  | trans {u v w : Json} : Reordered u v → Reordered v w → Reordered u w

/-- What is one step below is left alone, or exchanged for what is the same. -/
theorem same_of_parts {v w : Json} (hv : v.Proper) (hw : w.Proper) (kind : v.sameKind w = true)
    (parts : ∀ s, v.part? s = w.part? s ∨
      ∃ a b, v.part? s = some a ∧ w.part? s = some b ∧ a.same b = true) : v.same w = true := by
  refine (same_iff hv hw).mpr ⟨kind, fun s => ?_⟩
  rcases parts s with left | ⟨a, b, ha, hb, hab⟩
  · rw [← left]
    cases hs : v.part? s with
    | none => rfl
    | some u => exact same_refl (hv.part hs)
  · rw [ha, hb]
    exact hab

namespace Context

variable {C : Context} {v w : Json}

theorem proper_inner (h : (C.fill v).Proper) : v.Proper := by
  induction C with
  | hole => exact h
  | item front inner back ih => exact ih (proper_array.mp h _ (by simp))
  | member front name inner back ih => exact ih ((proper_object.mp h).2 (name, _) (by simp))

theorem proper_fill (h : (C.fill v).Proper) (hw : w.Proper) : (C.fill w).Proper := by
  induction C with
  | hole => exact hw
  | item front inner back ih =>
    rw [fill, proper_array, List.forall_mem_append, List.forall_mem_cons] at h ⊢
    obtain ⟨before, inside, after⟩ := h
    exact ⟨before, ih inside, after⟩
  | member front name inner back ih =>
    rw [fill, proper_object, List.forall_mem_append, List.forall_mem_cons] at h ⊢
    obtain ⟨distinct, before, inside, after⟩ := h
    exact ⟨by simpa [Members.names] using distinct, before, ih inside, after⟩

/-- A part exchanged for one that is the same leaves the value the same. -/
theorem same_fill (h : (C.fill v).Proper) (hw : w.Proper) (same : v.same w = true) :
    (C.fill v).same (C.fill w) = true := by
  have filled := proper_fill h hw
  induction C with
  | hole => exact same
  | item front inner back ih =>
    have inside := ih (proper_array.mp h _ (by simp)) (proper_array.mp filled _ (by simp))
    refine same_of_parts h filled rfl fun s => ?_
    rcases s with name | position
    · exact .inl rfl
    · by_cases here : position = front.length
      · subst here
        exact .inr ⟨_, _, by simp [part?, fill], by simp [part?, fill], inside⟩
      · refine .inl ?_
        change (front ++ inner.fill v :: back)[position]? =
          (front ++ inner.fill w :: back)[position]?
        rw [List.getElem?_append, List.getElem?_append, List.getElem?_cons, List.getElem?_cons]
        grind
  | member front name inner back ih =>
    obtain ⟨distinct, below⟩ := proper_object.mp h
    obtain ⟨distinct', below'⟩ := proper_object.mp filled
    have inside := ih (below (name, _) (by simp)) (below' (name, _) (by simp))
    refine same_of_parts h filled rfl fun s => ?_
    rcases s with other | position
    · by_cases here : name = other
      · subst here
        exact .inr ⟨_, _, Members.get?_of_mem distinct (m := (name, _)) (by simp),
          Members.get?_of_mem distinct' (m := (name, _)) (by simp), inside⟩
      · exact .inl (Members.get?_exchange here)
    · exact .inl rfl

end Context

namespace Reordered

theorem proper_and_same {v w : Json} (h : Reordered v w) (hv : v.Proper) :
    w.Proper ∧ v.same w = true := by
  induction h with
  | refl => exact ⟨hv, same_refl hv⟩
  | members perm =>
    obtain ⟨distinct, below⟩ := proper_object.mp hv
    have others := (perm.map Prod.fst).nodup_iff.mp distinct
    have proper := Proper.object others fun m hm => below m (perm.mem_iff.mpr hm)
    refine ⟨proper, same_of_parts hv proper rfl fun s => .inl ?_⟩
    cases s with
    | key name => exact (Members.get?_perm distinct perm name).symm
    | index position => rfl
  | inside C _ ih =>
    obtain ⟨hw, same⟩ := ih (Context.proper_inner hv)
    exact ⟨Context.proper_fill hv hw, Context.same_fill hv hw same⟩
  | trans _ _ left right =>
    obtain ⟨hm, first⟩ := left hv
    obtain ⟨hw, second⟩ := right hm
    exact ⟨hw, same_trans hv hm hw first second⟩

end Reordered

end Json

end TemplateLint
