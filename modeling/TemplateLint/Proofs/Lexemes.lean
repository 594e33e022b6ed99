import Mathlib.Data.List.Infix
import TemplateLint.Lexeme

/-!
# Where lexemes stand

The lexemes of a text stand side by side and make up the whole text, so each of
them begins and ends between two characters. A token begins with a character
of one byte, and there is a place between characters right behind it.
-/

namespace TemplateLint

/-- An offset between two characters of a text, or at one of its ends. -/
def Boundary (source : List Char) (offset : Nat) : Prop :=
  ∃ before after, source = before ++ after ∧ offset = Lexeme.byteLength before

/-- A span of a text that cuts no character in two. -/
structure Span.Within (source : List Char) (s : Span) : Prop where
  start : Boundary source s.start
  stop : Boundary source s.stop
  forward : s.start ≤ s.stop
  inside : s.stop ≤ Lexeme.byteLength source

namespace Lexeme

@[simp] theorem byteLength_nil : byteLength [] = 0 := rfl

@[simp] theorem byteLength_cons (c : Char) (cs : List Char) :
    byteLength (c :: cs) = c.utf8Size + byteLength cs := rfl

@[simp] theorem byteLength_append (a b : List Char) :
    byteLength (a ++ b) = byteLength a + byteLength b := by
  induction a with
  | nil => simp
  | cons c rest ih =>
    rw [List.cons_append, byteLength_cons, byteLength_cons, ih, Nat.add_assoc]

theorem byteLength_pos {text : List Char} (h : text ≠ []) : 0 < byteLength text := by
  cases text with
  | nil => exact (h rfl).elim
  | cons c rest =>
    have := Char.utf8Size_pos c
    rw [byteLength_cons]
    omega

end Lexeme

theorem Boundary.le {source : List Char} {offset : Nat} (h : Boundary source offset) :
    offset ≤ Lexeme.byteLength source := by
  obtain ⟨before, after, rfl, rfl⟩ := h
  simp

theorem boundary_zero (source : List Char) : Boundary source 0 := ⟨[], source, rfl, rfl⟩

theorem boundary_end (source : List Char) : Boundary source (Lexeme.byteLength source) :=
  ⟨source, [], (List.append_nil source).symm, rfl⟩

theorem Span.Within.of_boundaries {source : List Char} {start stop : Nat}
    (hstart : Boundary source start) (hstop : Boundary source stop) (h : start ≤ stop) :
    Span.Within source ⟨start, stop⟩ := ⟨hstart, hstop, h, hstop.le⟩

namespace Lexeme

/-! ## Tiling -/

/-- Lexemes that stand side by side from an offset on. -/
def Tiles {κ : Type} : Nat → List (Lexeme κ) → Prop
  | _, [] => True
  | offset, l :: rest =>
    l.span = .ofLength offset (byteLength l.text) ∧ Tiles (offset + byteLength l.text) rest

theorem listFrom_pending (offset k : Nat) (cs : List Char) :
    listFrom offset k cs = listFrom (offset + byteLength (cs.take k)) 0 (cs.drop k) := by
  induction cs generalizing offset k with
  | nil => simp [listFrom]
  | cons c rest ih =>
    cases k with
    | zero => simp
    | succ k =>
      simp only [listFrom, List.take_succ_cons, List.drop_succ_cons, byteLength_cons]
      rw [ih, Nat.add_assoc]

/-- The first lexeme of a text, and the lexemes behind it. -/
theorem listFrom_cons (offset : Nat) (c : Char) (rest : List Char) :
    listFrom offset 0 (c :: rest) =
      ⟨(longest c rest).1, (c :: rest).take (longest c rest).2,
        .ofLength offset (byteLength ((c :: rest).take (longest c rest).2))⟩ ::
      listFrom (offset + byteLength ((c :: rest).take (longest c rest).2)) 0
        ((c :: rest).drop (longest c rest).2) := by
  obtain ⟨n, hn⟩ : ∃ n, (longest c rest).2 = n + 1 := ⟨_, (Nat.succ_pred_eq_of_pos
    (longest_pos c rest)).symm⟩
  rw [listFrom]
  simp only [hn, Nat.add_sub_cancel, List.take_succ_cons, List.drop_succ_cons, byteLength_cons]
  rw [listFrom_pending, Nat.add_assoc]

/-- A lexeme as it is cut off the front of a text. -/
def IsLongest (l : Lexeme (Option Token)) : Prop :=
  ∃ c rest, l.kind = (longest c rest).1 ∧ l.text = (c :: rest).take (longest c rest).2

/-- The lexemes of a text make up the text, side by side. -/
theorem listFrom_spec (offset : Nat) (cs : List Char) :
    (listFrom offset 0 cs).flatMap (·.text) = cs ∧ Tiles offset (listFrom offset 0 cs) ∧
      ∀ l ∈ listFrom offset 0 cs, IsLongest l := by
  induction hn : cs.length using Nat.strongRecOn generalizing offset cs with
  | ind n ih =>
    cases cs with
    | nil => simp [listFrom, Tiles]
    | cons c rest =>
      have hpos := longest_pos c rest
      have shorter : ((c :: rest).drop (longest c rest).2).length < n := by
        rw [← hn, List.length_drop, List.length_cons]
        omega
      obtain ⟨htext, htiles, hcut⟩ := ih _ shorter
        (offset + byteLength ((c :: rest).take (longest c rest).2)) _ rfl
      rw [listFrom_cons]
      refine ⟨?_, ⟨rfl, htiles⟩, ?_⟩
      · rw [List.flatMap_cons, htext, List.take_append_drop]
      · intro l hl
        rcases List.mem_cons.mp hl with rfl | hl
        · exact ⟨c, rest, rfl, rfl⟩
        · exact hcut l hl

section Tiling

variable {κ : Type} {offset : Nat} {ls : List (Lexeme κ)}

theorem Tiles.span {before after : List (Lexeme κ)} {l : Lexeme κ}
    (h : Tiles offset (before ++ l :: after)) :
    l.span = .ofLength (offset + byteLength (before.flatMap (·.text))) (byteLength l.text) := by
  induction before generalizing offset with
  | nil => simpa using h.1
  | cons k before ih =>
    have := ih h.2
    simpa [Nat.add_assoc] using this

theorem Tiles.start_le (h : Tiles offset ls) : ∀ l ∈ ls, offset ≤ l.span.start := by
  intro l hl
  obtain ⟨before, after, rfl⟩ := List.append_of_mem hl
  rw [h.span]
  exact Nat.le_add_right _ _

theorem Tiles.pairwise (h : Tiles offset ls) :
    ls.Pairwise fun a b => a.span.stop ≤ b.span.start := by
  induction ls generalizing offset with
  | nil => exact List.Pairwise.nil
  | cons l rest ih =>
    refine List.pairwise_cons.mpr ⟨fun k hk => ?_, ih h.2⟩
    rw [h.1]
    exact h.2.start_le k hk

end Tiling

/-! ## Places of tokens -/

/-- The characters that begin a token take one byte each. -/
theorem utf8Size_of_longest {c : Char} {rest : List Char} {token : Token}
    (h : (longest c rest).1 = some token) : c.utf8Size = 1 := by
  unfold longest at h
  split at h
  all_goals try rfl
  split at h
  · rename_i hb
    simp only [isBlank, Bool.or_eq_true, beq_iff_eq] at hb
    rcases hb with ((rfl | rfl) | rfl) | rfl <;> rfl
  · split at h
    · rename_i hd
      simp only [Char.isDigit, Bool.and_eq_true, decide_eq_true_eq] at hd
      exact Char.utf8Size_eq_one_iff.mpr (UInt32.le_trans hd.2 (by decide))
    · cases h

/-- Where a token stands in a text: between characters, with its first character a byte long. -/
structure Placed {κ : Type} (source : List Char) (l : Lexeme κ) : Prop where
  start : Boundary source l.span.start
  next : Boundary source (l.span.start + 1)
  stop : Boundary source l.span.stop
  nonempty : l.span.start + 1 ≤ l.span.stop

/-- A lexeme of a text begins and ends between characters, and is not empty. -/
theorem of_mem_ofText {source : List Char} {l : Lexeme (Option Token)} (h : l ∈ ofText source) :
    l.span.Within source ∧ (l.kind.isSome = true → l.Placed source) := by
  obtain ⟨htext, htiles, hcut⟩ := listFrom_spec 0 source
  obtain ⟨c, rest, hkind, hcs⟩ := hcut l h
  obtain ⟨before, after, hs⟩ := List.append_of_mem h
  rw [ofText] at hs
  rw [hs] at htext htiles
  have hspan := htiles.span
  obtain ⟨n, hn⟩ : ∃ n, (longest c rest).2 = n + 1 :=
    ⟨_, (Nat.succ_pred_eq_of_pos (longest_pos c rest)).symm⟩
  rw [hn, List.take_succ_cons] at hcs
  rw [List.flatMap_append, List.flatMap_cons] at htext
  have hstart : l.span.start = byteLength (before.flatMap (·.text)) := by
    simp [hspan, Span.ofLength]
  have hstop : l.span.stop = l.span.start + byteLength l.text := by simp [hspan, Span.ofLength]
  have start : Boundary source l.span.start := ⟨_, _, htext.symm, hstart⟩
  have stop : Boundary source l.span.stop :=
    ⟨before.flatMap (·.text) ++ l.text, after.flatMap (·.text), by rw [← htext]; simp,
      by rw [hstop, hstart, byteLength_append]⟩
  have hlen : l.span.start + c.utf8Size ≤ l.span.stop := by
    rw [hstop, hcs, byteLength_cons]
    omega
  refine ⟨⟨start, stop, by omega, stop.le⟩, fun hsome => ?_⟩
  obtain ⟨token, htoken⟩ := Option.isSome_iff_exists.mp hsome
  have hc := utf8Size_of_longest (hkind.symm.trans htoken)
  refine ⟨start, ⟨before.flatMap (·.text) ++ [c], rest.take n ++ after.flatMap (·.text), ?_, ?_⟩,
    stop, by omega⟩
  · rw [← htext, hcs]
    simp
  · rw [hstart, byteLength_append, byteLength_cons, hc, byteLength_nil]

theorem pairwise_ofText (source : List Char) :
    (ofText source).Pairwise fun a b => a.span.stop ≤ b.span.start :=
  (listFrom_spec 0 source).2.1.pairwise

/-- The tokens that count for the tree of a text. -/
def tokens (source : List Char) : List (Lexeme Token) := (ofText source).filterMap significant?

theorem significant?_eq_some {l : Lexeme (Option Token)} {t : Lexeme Token}
    (h : significant? l = some t) : l.kind = some t.kind ∧ l.span = t.span ∧ l.text = t.text := by
  unfold significant? at h
  split at h
  · cases h
  · cases h
  · cases h
    exact ⟨by assumption, rfl, rfl⟩

theorem placed_of_mem_tokens {source : List Char} {t : Lexeme Token} (h : t ∈ tokens source) :
    t.Placed source := by
  obtain ⟨l, hl, hs⟩ := List.mem_filterMap.mp h
  obtain ⟨hkind, hspan, -⟩ := significant?_eq_some hs
  have hp := (of_mem_ofText hl).2 (by simp [hkind])
  exact ⟨hspan ▸ hp.start, hspan ▸ hp.next, hspan ▸ hp.stop, hspan ▸ hp.nonempty⟩

theorem pairwise_tokens (source : List Char) :
    (tokens source).Pairwise fun a b => a.span.stop ≤ b.span.start := by
  refine List.pairwise_filterMap.mpr ((pairwise_ofText source).imp ?_)
  intro a b hab t ht u hu
  rw [← (significant?_eq_some ht).2.1, ← (significant?_eq_some hu).2.1]
  exact hab

end Lexeme

end TemplateLint
