import TemplateLint.Proofs.Reading.Texts

/-!
# What is read of a text

Whatever the text, its numbers are rounded, its integers fit in 64 bits and its
containers are nested at most as deep as is allowed. So a value that was read
is one that a text can hold, and its own text is read as the same value.
-/

namespace TemplateLint

namespace Double

/-- Integers of 64 bits are far from the largest number. -/
theorem ofInt_finite {i : Int} (low : -2 ^ 63 ≤ i) (high : i < 2 ^ 64) :
    ∃ negative units, ofInt i = .finite negative units ∧ Representable units ∧
      units ≤ maxUnits := by
  obtain ⟨k, hk⟩ := exists_unitsPerOne
  have hmax : 2 ^ 64 * unitsPerOne ≤ maxUnits := by decide +kernel
  have top : 2 ^ 64 * 2 ^ k = 2 ^ (53 + (11 + k)) := by ring
  have below : i.natAbs * 2 ^ k < 2 ^ (53 + (11 + k)) := by
    rw [← top]
    exact Nat.mul_lt_mul_of_pos_right (by omega) (Nat.two_pow_pos k)
  have small : roundQuotient (i.natAbs * unitsPerOne) 1 ≤ maxUnits := by
    obtain ⟨a, ha, rounded⟩ := exists_rounded (i.natAbs * 2 ^ k)
    refine Nat.le_trans ?_ hmax
    rw [hk, rounded, top, Nat.pow_add 2 53]
    exact Nat.mul_le_mul ha (Nat.pow_le_pow_right (by omega) (excessBits_le below))
  refine ⟨decide (i < 0), roundQuotient (i.natAbs * unitsPerOne) 1, ?_,
    representable_roundQuotient _ _, small⟩
  unfold ofInt ofQuotient
  exact if_neg (Nat.not_lt.mpr small)

end Double

namespace Members

variable {α : Type}

theorem mem_put {ms : List (String × α)} {name : String} {value : α} {m : String × α}
    (h : m ∈ put ms name value) : m ∈ ms ∨ m = (name, value) := by
  induction ms with
  | nil => exact .inr (List.mem_singleton.mp h)
  | cons k rest ih =>
    obtain ⟨n, v⟩ := k
    unfold put at h
    split at h
    · rename_i same
      subst same
      rcases List.mem_cons.mp h with rfl | h
      · exact .inr rfl
      · exact .inl (List.mem_cons_of_mem _ h)
    · rcases List.mem_cons.mp h with rfl | h
      · exact .inl List.mem_cons_self
      · exact (ih h).imp_left (List.mem_cons_of_mem _)

theorem nodup_put {ms : List (String × α)} (h : (names ms).Nodup) (name : String) (value : α) :
    (names (put ms name value)).Nodup := by
  induction ms with
  | nil => exact List.nodup_cons.mpr ⟨List.not_mem_nil, List.nodup_nil⟩
  | cons k rest ih =>
    obtain ⟨n, v⟩ := k
    obtain ⟨fresh, distinct⟩ := List.nodup_cons.mp h
    unfold put
    split
    · exact h
    · rename_i differs
      refine List.nodup_cons.mpr ⟨?_, ih distinct⟩
      intro hn
      obtain ⟨m, hm, rfl⟩ := List.mem_map.mp hn
      rcases mem_put hm with hm | rfl
      · exact fresh (List.mem_map.mpr ⟨m, hm, rfl⟩)
      · exact differs rfl

/-- What holds of the members that are added one by one holds of the list they make. -/
theorem ofList_spec {P : String × α → Prop} {ms : List (String × α)} (h : ∀ m ∈ ms, P m) :
    (names (ofList ms)).Nodup ∧ ∀ m ∈ ofList ms, P m := by
  have nothing : (names ([] : List (String × α))).Nodup ∧ ∀ m ∈ ([] : List (String × α)), P m :=
    ⟨List.nodup_nil, fun m hm => absurd hm List.not_mem_nil⟩
  refine List.foldlRecOn (motive := fun done => (names done).Nodup ∧ ∀ m ∈ done, P m) ms _
    nothing ?_
  rintro done ⟨distinct, hdone⟩ k hk
  refine ⟨nodup_put distinct k.1 k.2, fun m hm => ?_⟩
  rcases mem_put hm with hm | rfl
  · exact hdone m hm
  · exact h k hk

end Members

namespace Json.Reading

/-! ## Leaves -/

theorem plain_numberOf {l : Decimal.Literal} {k : Number} (h : numberOf l = .ok k) : k.Plain := by
  unfold numberOf at h
  simp only at h
  split at h
  · rename_i fits
    cases h
    exact .integer fits.2.1 fits.2.2.1
  · split at h
    · rename_i scaled
      cases h
      exact .ofRounded (scaled ▸ l.rounded_toScaled) rfl
    · cases h

theorem plain_readNumber {cs rest : List Char} {k : Number} (h : readNumber cs = .ok (k, rest)) :
    k.Plain := by
  unfold readNumber at h
  split at h
  · obtain ⟨n, number, h⟩ := map_eq_ok h
    cases h
    exact plain_numberOf number
  · cases h
  · cases h

/-! ## Containers -/

/-- What may be read, with closed containers in one another at most as deep as a number says. -/
inductive Within : Nat → Reading → Prop where
  | broken {n : Nat} {fault : TextFault} : Within n (.broken fault)
  | null {n : Nat} : Within n .null
  | boolean {n : Nat} {value : Bool} : Within n (.boolean value)
  | number {n : Nat} {value : Number} : value.Plain → Within n (.number value)
  | string {n : Nat} {value : String} : Within n (.string value)
  | array {n : Nat} {items : List Reading} : (∀ r ∈ items, Within n r) →
      Within (n + 1) (.array items none)
  | object {n : Nat} {members : List (String × Reading)} : (∀ m ∈ members, Within n m.2) →
      Within (n + 1) (.object members none)
  | unclosedArray {n : Nat} {items : List Reading} {fault : TextFault} :
      Within n (.array items (some fault))
  | unclosedObject {n : Nat} {members : List (String × Reading)} {fault : TextFault} :
      Within n (.object members (some fault))

theorem within_leaf {α : Type} {n : Nat} {make : α → Reading}
    {x : Except TextFault (α × List Char)} (h : ∀ a rest, x = .ok (a, rest) → Within n (make a)) :
    Within n (leaf make x).1 := by
  cases x with
  | error fault => exact .broken
  | ok a => exact h a.1 a.2 rfl

theorem within_array {n : Nat} {items : List Reading} (h : ∀ r ∈ items, Within n r)
    (unclosed : Option TextFault) : Within (n + 1) (.array items unclosed) := by
  cases unclosed with
  | none => exact .array h
  | some fault => exact .unclosedArray

theorem within_object {n : Nat} {members : List (String × Reading)}
    (h : ∀ m ∈ members, Within n m.2) (unclosed : Option TextFault) :
    Within (n + 1) (.object members unclosed) := by
  cases unclosed with
  | none => exact .object h
  | some fault => exact .unclosedObject

/-- What the functions that read a text give, whatever the number of steps. -/
structure Bounded (fuel : Nat) : Prop where
  value : ∀ depth cs, Within depth (readValue fuel depth cs).1
  items : ∀ depth first cs, ∀ r ∈ (readItems fuel depth first cs).1, Within depth r
  members : ∀ depth first cs, ∀ m ∈ (readMembers fuel depth first cs).1, Within depth m.2

variable {fuel : Nat}

theorem Bounded.readValue (h : Bounded fuel) (depth : Nat) (cs : List Char) :
    Within depth (readValue (fuel + 1) depth cs).1 := by
  rw [Reading.readValue]
  split
  · exact .broken
  · exact within_leaf fun _ _ _ => .null
  · exact within_leaf fun _ _ _ => .boolean
  · exact within_leaf fun _ _ _ => .boolean
  · exact within_leaf fun _ _ _ => .string
  · cases depth with
    | zero => exact .unclosedArray
    | succ depth => exact within_array (h.items depth true _) _
  · cases depth with
    | zero => exact .unclosedObject
    | succ depth => exact within_object (h.members depth true _) _
  · split
    · exact within_leaf fun _ _ number => .number (plain_readNumber number)
    · exact .broken

theorem Bounded.readItems (h : Bounded fuel) (depth : Nat) (first : Bool) (cs : List Char) :
    ∀ r ∈ (readItems (fuel + 1) depth first cs).1, Within depth r := by
  rw [Reading.readItems]
  rcases nextItem first cs with fault | ⟨_ | rest, after⟩
  · exact fun r hr => absurd hr List.not_mem_nil
  · exact fun r hr => absurd hr List.not_mem_nil
  · have item := h.value depth rest
    dsimp only
    generalize Reading.readValue fuel depth rest = read at item ⊢
    obtain ⟨r, _ | rest⟩ := read
    · exact List.forall_mem_singleton.mpr item
    · exact List.forall_mem_cons.mpr ⟨item, h.items depth false rest⟩

theorem Bounded.readMembers (h : Bounded fuel) (depth : Nat) (first : Bool) (cs : List Char) :
    ∀ m ∈ (readMembers (fuel + 1) depth first cs).1, Within depth m.2 := by
  rw [Reading.readMembers]
  rcases nextMember first cs with fault | ⟨_ | rest, after⟩
  · exact fun m hm => absurd hm List.not_mem_nil
  · exact fun m hm => absurd hm List.not_mem_nil
  · dsimp only
    rcases readQuoted rest with fault | ⟨name, rest⟩
    · exact fun m hm => absurd hm List.not_mem_nil
    dsimp only
    rcases readColon rest with fault | rest
    · exact List.forall_mem_singleton.mpr Within.broken
    have value := h.value depth rest
    dsimp only
    generalize Reading.readValue fuel depth rest = read at value ⊢
    obtain ⟨r, _ | rest⟩ := read
    · exact List.forall_mem_singleton.mpr value
    · exact List.forall_mem_cons.mpr ⟨value, h.members depth false rest⟩

theorem bounded (fuel : Nat) : Bounded fuel := by
  induction fuel with
  | zero =>
    constructor
    · exact fun depth cs => .broken
    · exact fun depth first cs r hr => absurd hr List.not_mem_nil
    · exact fun depth first cs m hm => absurd hm List.not_mem_nil
  | succ fuel ih => exact ⟨ih.readValue, ih.readItems, ih.readMembers⟩

theorem within_ofText (cs : List Char) : Within maxDepth (ofText cs).1 := by
  have value := (bounded (2 * cs.length + 2)).value maxDepth cs
  unfold ofText
  generalize readValue (2 * cs.length + 2) maxDepth cs = read at value ⊢
  obtain ⟨r, _ | rest⟩ := read
  · exact value
  · exact value

/-! ## Values -/

theorem exists_of_mapM {ε α β : Type} {f : α → Except ε β} {as : List α} {bs : List β}
    (h : as.mapM f = .ok bs) : ∀ b ∈ bs, ∃ a ∈ as, f a = .ok b := by
  induction as generalizing bs with
  | nil =>
    cases h
    exact fun b hb => absurd hb List.not_mem_nil
  | cons a rest ih =>
    rw [List.mapM_cons] at h
    obtain ⟨c, hc, h⟩ := bind_eq_ok h
    obtain ⟨cs, hcs, h⟩ := bind_eq_ok h
    cases h
    refine List.forall_mem_cons.mpr ⟨⟨a, List.mem_cons_self, hc⟩, fun b hb => ?_⟩
    obtain ⟨d, hd, hb⟩ := ih hcs b hb
    exact ⟨d, List.mem_cons_of_mem a hd, hb⟩

theorem exists_of_toMembers {members : List (String × Reading)} {ms : List (String × Json)}
    (h : toMembers members = .ok ms) : ∀ m ∈ ms, ∃ r ∈ members, r.2.toJson = .ok m.2 := by
  induction members generalizing ms with
  | nil =>
    cases h
    exact fun m hm => absurd hm List.not_mem_nil
  | cons k rest ih =>
    obtain ⟨name, r⟩ := k
    rw [toMembers] at h
    obtain ⟨v, hv, h⟩ := bind_eq_ok h
    obtain ⟨vs, hvs, h⟩ := bind_eq_ok h
    cases h
    refine List.forall_mem_cons.mpr ⟨⟨_, List.mem_cons_self, hv⟩, fun m hm => ?_⟩
    obtain ⟨d, hd, hm⟩ := ih hvs m hm
    exact ⟨d, List.mem_cons_of_mem _ hd, hm⟩

/-- A value that was read is one that a text can hold. -/
theorem Within.plain {n : Nat} {r : Reading} (within : Within n r) {v : Json}
    (h : r.toJson = .ok v) : v.Plain n := by
  induction within generalizing v with
  | broken => cases h
  | null =>
    cases h
    exact .null
  | boolean =>
    cases h
    exact .boolean
  | number plain =>
    cases h
    exact .number plain
  | string =>
    cases h
    exact .string
  | array _ ih =>
    obtain ⟨vs, items, h⟩ := bind_eq_ok h
    cases h
    rw [toItems_eq] at items
    refine .array fun v hv => ?_
    obtain ⟨r, hr, hv⟩ := exists_of_mapM items v hv
    exact ih r hr hv
  | object _ ih =>
    rename_i n members _
    obtain ⟨ms, read, h⟩ := bind_eq_ok h
    cases h
    have parts : ∀ m ∈ ms, m.2.Plain n := by
      intro m hm
      obtain ⟨r, hr, hm⟩ := exists_of_toMembers read m hm
      exact ih r hr hm
    obtain ⟨distinct, plain⟩ := Members.ofList_spec parts
    exact .object distinct plain
  | unclosedArray =>
    obtain ⟨vs, -, h⟩ := bind_eq_ok h
    cases h
  | unclosedObject =>
    obtain ⟨ms, -, h⟩ := bind_eq_ok h
    cases h

end Json.Reading

end TemplateLint
