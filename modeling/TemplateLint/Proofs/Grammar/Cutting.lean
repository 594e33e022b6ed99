import Mathlib.Data.Nat.Count
import TemplateLint.Proofs.Builder.Moving
import TemplateLint.Proofs.Grammar.Lexing

/-!
# Texts with parts cut out

Characters are cut out of a text by their offsets. What is left keeps its order
and moves to the front, by as many bytes as are cut in front of it. Where no
token is cut in two, what is left is spelled by the tokens that are left.
-/

namespace TemplateLint

/-- An offset lies in one of some spans. -/
def Span.covers (spans : List Span) (offset : Nat) : Bool :=
  spans.any fun s => decide (s.start ≤ offset ∧ offset < s.stop)

theorem Span.covers_iff {spans : List Span} {offset : Nat} :
    covers spans offset = true ↔ ∃ s ∈ spans, s.start ≤ offset ∧ offset < s.stop := by
  simp [covers]

theorem Span.covers_eq_false {spans : List Span} {offset : Nat} :
    covers spans offset = false ↔ ∀ s ∈ spans, s.start ≤ offset → s.stop ≤ offset := by
  simp [covers]

namespace Lexeme

variable (cut : Nat → Bool)

/-- What is left of a text that begins at an offset. -/
def without (offset : Nat) : List Char → List Char
  | [] => []
  | c :: rest =>
    if cut offset then without (offset + c.utf8Size) rest
    else c :: without (offset + c.utf8Size) rest

/-- How many of the bytes in front of an offset are left. -/
def placeLeft (offset : Nat) : Nat := Nat.count (fun x => cut x = false) offset

/-- No offset of a stretch is cut. -/
def Kept (start stop : Nat) : Prop := ∀ x, start ≤ x → x < stop → cut x = false

/-- All offsets of a stretch are cut. -/
def Cut (start stop : Nat) : Prop := ∀ x, start ≤ x → x < stop → cut x = true

variable {cut} {start n : Nat}

theorem placeLeft_zero : placeLeft cut 0 = 0 := Nat.count_zero _

theorem placeLeft_mono : Monotone (placeLeft cut) := Nat.count_monotone _

theorem placeLeft_lt {start stop : Nat} (left : cut start = false) (h : start < stop) :
    placeLeft cut start < placeLeft cut stop :=
  Nat.count_strict_mono left h

theorem placeLeft_of_kept (h : Kept cut start (start + n)) :
    placeLeft cut (start + n) = placeLeft cut start + n := by
  have all : Nat.count (fun k => cut (start + k) = false) n = n :=
    Nat.count_of_forall fun {k} hk => h (start + k) (by omega) (by omega)
  unfold placeLeft
  rw [Nat.count_add, all]

theorem placeLeft_of_cut (h : Cut cut start (start + n)) :
    placeLeft cut (start + n) = placeLeft cut start := by
  have none : Nat.count (fun k => cut (start + k) = false) n = 0 :=
    Nat.count_iff_forall_not.mpr fun {k} hk => by simp [h (start + k) (by omega) (by omega)]
  unfold placeLeft
  rw [Nat.count_add, none, Nat.add_zero]

theorem without_append (offset : Nat) (a b : List Char) :
    without cut offset (a ++ b) =
      without cut offset a ++ without cut (offset + byteLength a) b := by
  induction a generalizing offset with
  | nil => rfl
  | cons c a ih =>
    rw [List.cons_append, without, without, ih, byteLength_cons, ← Nat.add_assoc]
    split <;> rfl

theorem without_of_kept {offset : Nat} {text : List Char}
    (h : Kept cut offset (offset + byteLength text)) : without cut offset text = text := by
  induction text generalizing offset with
  | nil => rfl
  | cons c rest ih =>
    have hpos := Char.utf8Size_pos c
    rw [byteLength_cons] at h
    have first := h offset (Nat.le_refl _) (by omega)
    rw [without, first, ih fun x hlow hhigh => h x (by omega) (by omega)]
    rfl

theorem without_of_cut {offset : Nat} {text : List Char}
    (h : Cut cut offset (offset + byteLength text)) : without cut offset text = [] := by
  induction text generalizing offset with
  | nil => rfl
  | cons c rest ih =>
    have hpos := Char.utf8Size_pos c
    rw [byteLength_cons] at h
    have first := h offset (Nat.le_refl _) (by omega)
    rw [without, first, ih fun x hlow hhigh => h x (by omega) (by omega)]
    rfl

theorem utf8Size_of_isBlank {c : Char} (h : isBlank c = true) : c.utf8Size = 1 := by
  simp only [isBlank, Bool.or_eq_true, beq_iff_eq] at h
  rcases h with ((rfl | rfl) | rfl) | rfl <;> rfl

/-- A token that is left, in its place in what is left. -/
def leftToken (cut : Nat → Bool) (t : Lexeme Token) : Option (Lexeme Token) :=
  if cut t.span.start then none else some (t.move (placeLeft cut))

end Lexeme

open Lexeme (byteLength without placeLeft Kept Cut leftToken)

/-- Where every token is either left as a whole or cut out as a whole, what is left is spelled by
the tokens that are left. -/
theorem Spelled.without {cut : Nat → Bool} {offset : Nat} {cs : List Char}
    {ts : List (Lexeme Token)} (h : Spelled offset cs ts)
    (whole : ∀ t ∈ ts, Kept cut t.span.start t.span.stop ∨ Cut cut t.span.start t.span.stop) :
    Spelled (placeLeft cut offset) (without cut offset cs) (ts.filterMap (leftToken cut)) := by
  induction h with
  | nil => exact .nil
  | @blank offset c cs ts hc tail ih =>
    have inner := ih whole
    have hsize := Lexeme.utf8Size_of_isBlank hc
    rw [Lexeme.without]
    cases hcut : cut offset with
    | true =>
      have place : placeLeft cut (offset + c.utf8Size) = placeLeft cut offset := by
        refine Lexeme.placeLeft_of_cut fun x hlow hhigh => ?_
        rw [show x = offset by omega, hcut]
      rw [place] at inner
      exact inner
    | false =>
      have place : placeLeft cut (offset + c.utf8Size) = placeLeft cut offset + c.utf8Size := by
        refine Lexeme.placeLeft_of_kept fun x hlow hhigh => ?_
        rw [show x = offset by omega, hcut]
      rw [place] at inner
      exact .blank hc inner
  | @token offset t cs rest ts hcs well hspan tail ih =>
    obtain ⟨own, others⟩ := List.forall_mem_cons.mp whole
    have inner := ih others
    have hpos : 0 < byteLength t.text := by
      obtain ⟨c, more, htext, -⟩ := well.head
      exact Lexeme.byteLength_pos (by rw [htext]; exact List.cons_ne_nil _ _)
    have hstart : t.span.start = offset := by rw [hspan]; rfl
    have hstop : t.span.stop = offset + byteLength t.text := by rw [hspan]; rfl
    rw [hstart, hstop] at own
    rw [hcs, Lexeme.without_append]
    rcases own with kept | cutOut
    · have left : leftToken cut t = some (t.move (placeLeft cut)) := by
        rw [leftToken, hstart, kept offset (Nat.le_refl _) (by omega)]
        rfl
      have place := Lexeme.placeLeft_of_kept kept
      rw [place] at inner
      rw [Lexeme.without_of_kept kept, List.filterMap_cons_some left]
      refine .token (t := t.move (placeLeft cut)) rfl ?_ ?_ inner
      · cases well with
        | fixed h => exact .fixed h
        | string hkind literal => exact .string hkind literal
        | number hkind writes => exact .number hkind writes
      · change Span.move _ t.span = _
        rw [Span.move, hstart, hstop, place]
        rfl
    · have gone : leftToken cut t = none := by
        rw [leftToken, hstart, cutOut offset (Nat.le_refl _) (by omega)]
        rfl
      rw [Lexeme.placeLeft_of_cut cutOut] at inner
      rw [Lexeme.without_of_cut cutOut, List.filterMap_cons_none gone]
      exact inner

end TemplateLint
