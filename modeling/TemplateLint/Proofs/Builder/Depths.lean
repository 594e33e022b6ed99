import TemplateLint.Proofs.Builder.Levels
import TemplateLint.Proofs.Tree.Heights

/-!
# Depths of a builder's states

A container is opened only where a level is left for it, and the place that its
value goes to is kept with the levels left there. So what has been put together
is never higher than the levels left at its place, whatever the tokens are, and
the tree that comes of it is of no more than all the levels. The depth of a
state is the number of containers open in it.
-/

namespace TemplateLint

theorem Value.Within.of_some {n : Nat} {v : Value} (h : v.Within n) :
    ∀ w, some v = some w → w.Within n := by
  rintro w ⟨⟩
  exact h

namespace Builder

/-! ## Levels left -/

def OpenObject.Within (n : Nat) (o : OpenObject) : Prop :=
  ∀ p ∈ o.properties, ∀ v, p.value = some v → v.Within n

def OpenArray.Within (n : Nat) (a : OpenArray) : Prop := ∀ v ∈ a.items, v.Within n

/-- Where the open containers go, the innermost first, with the levels left at the first place. Each
place further out has a level more, and outermost are all levels. -/
inductive Stacked : Nat → List Place → Prop where
  | root : Stacked maxDepth [.root]
  | property {n : Nat} {o : OpenObject} {p : OpenProperty} {rest : List Place} : o.Within n →
      Stacked (n + 1) rest → Stacked n (.property o p :: rest)
  | item {n : Nat} {a : OpenArray} {rest : List Place} : a.Within n →
      Stacked (n + 1) rest → Stacked n (.item a :: rest)

/-- A number of levels is left for what is expected of the next token. -/
def Focus.Fits (n : Nat) (stack : List Place) : Focus → Prop
  | .start => Stacked n (.root :: stack)
  | .key o => o.Within n ∧ Stacked (n + 1) stack
  | .colon o _ => o.Within n ∧ Stacked (n + 1) stack
  | .propertyValue o _ => o.Within n ∧ Stacked (n + 1) stack
  | .propertyEnd o => o.Within n ∧ Stacked (n + 1) stack
  | .objectRecovery o => o.Within n ∧ Stacked (n + 1) stack
  | .item a => a.Within n ∧ Stacked (n + 1) stack
  | .itemEnd a => a.Within n ∧ Stacked (n + 1) stack
  | .arrayRecovery a => a.Within n ∧ Stacked (n + 1) stack
  | .skip _ _ place => Stacked n (place :: stack)
  | .done root _ => Stacked n (.root :: stack) ∧ ∀ v, root = some v → v.Within n

structure State.Leveled (s : State) : Prop where
  counted : s.depth = s.stack.length
  fits : ∃ n, s.focus.Fits n s.stack

theorem OpenObject.Within.close {n : Nat} {o : OpenObject} (h : o.Within n) (stop : Nat) :
    (o.close stop).Within (n + 1) :=
  .object fun p hp => h p (List.mem_reverse.mp hp)

theorem OpenArray.Within.close {n : Nat} {a : OpenArray} (h : a.Within n) (stop : Nat) :
    (a.close stop).Within (n + 1) :=
  .array fun v hv => h v (List.mem_reverse.mp hv)

theorem OpenObject.Within.add {n : Nat} {o : OpenObject} (h : o.Within n) (p : OpenProperty)
    {value : Option Value} (hv : ∀ v, value = some v → v.Within n) (stop : Nat) :
    (o.add (p.close value stop)).Within n :=
  List.forall_mem_cons.mpr ⟨hv, h⟩

theorem OpenArray.Within.add {n : Nat} {a : OpenArray} (h : a.Within n) {v : Value}
    (hv : v.Within n) : (a.add v).Within n :=
  List.forall_mem_cons.mpr ⟨hv, h⟩

/-- The levels used and the levels left make up all of them; every place but the root is in an open
container. -/
theorem Stacked.counts {n : Nat} {stack : List Place} (h : Stacked n stack) :
    stack.length + n = maxDepth + 1 ∧ (stack.flatMap Place.opened).length + 1 = stack.length := by
  induction h with
  | root => exact ⟨Nat.add_comm 1 maxDepth, rfl⟩
  | property _ _ ih =>
    simp only [List.length_cons, List.flatMap_cons, List.length_append, Place.opened,
      List.length_nil]
    omega
  | item _ _ ih =>
    simp only [List.length_cons, List.flatMap_cons, List.length_append, Place.opened,
      List.length_nil]
    omega

theorem Stacked.fits_receive {n : Nat} {place : Place} {stack : List Place}
    (h : Stacked n (place :: stack)) {value : Option Value}
    (hv : ∀ v, value = some v → v.Within n) (stop : Nat) :
    (place.receive value stop).Fits n stack := by
  cases h with
  | root => exact ⟨.root, hv⟩
  | @property _ o p _ ho hrest => exact ⟨ho.add p hv stop, hrest⟩
  | item ha hrest =>
    cases value with
    | none => exact ⟨ha, hrest⟩
    | some v => exact ⟨ha.add (hv v rfl), hrest⟩

/-! ## One token -/

section Step

variable {t : Lexeme Token} {s : State} {n : Nat}

theorem closeContainer_leveled (hdepth : s.depth = s.stack.length) (hs : Stacked (n + 1) s.stack)
    {v : Value} (hv : v.Within (n + 1)) (stop : Nat) : (s.closeContainer v stop).Leveled := by
  obtain ⟨focus, stack, depth, nextId, lastEnd, faults⟩ := s
  cases stack with
  | nil => cases hs
  | cons place rest =>
    refine ⟨?_, n + 1, hs.fits_receive hv.of_some stop⟩
    change depth - 1 = rest.length
    change depth = rest.length + 1 at hdepth
    omega

section Object

variable {o : OpenObject} (ho : o.Within n) (hdepth : s.depth = s.stack.length)
  (hs : Stacked (n + 1) s.stack)

include ho hdepth hs

theorem recoverObject_leveled : (recoverObject o t s).Leveled := by
  unfold recoverObject
  split
  · exact closeContainer_leveled hdepth hs (ho.close _) _
  · exact ⟨hdepth, n, ho, hs⟩
  · exact ⟨hdepth, n, ho, hs⟩

theorem endProperty_leveled : (endProperty o t s).Leveled := by
  unfold endProperty
  split
  · exact recoverObject_leveled ho hdepth hs
  · exact recoverObject_leveled (s := s.report _ _) ho hdepth hs

theorem beginProperty_leveled : (beginProperty o t s).Leveled := by
  have key (text : String) (fault : Option Fault) : State.Leveled
      { s.reportAny fault t.span with
        focus := .colon o ⟨s.nextId, text, t.span⟩, nextId := s.nextId + 1 } := by
    rw [reportAny_eq]
    exact ⟨hdepth, n, ho, hs⟩
  unfold beginProperty
  split
  · exact recoverObject_leveled ho hdepth hs
  · exact key _ _
  · exact key _ _
  · exact recoverObject_leveled (s := s.report _ _) ho hdepth hs

theorem beginColon_leveled (p : OpenProperty) : (beginColon o p t s).Leveled := by
  unfold beginColon
  split
  · exact ⟨hdepth, n, ho, hs⟩
  · exact endProperty_leveled (s := s.report _ _) (ho.add p (by nofun) _) hdepth hs

end Object

section Array

variable {a : OpenArray} (ha : a.Within n) (hdepth : s.depth = s.stack.length)
  (hs : Stacked (n + 1) s.stack)

include ha hdepth hs

theorem recoverArray_leveled : (recoverArray a t s).Leveled := by
  unfold recoverArray
  split
  · exact closeContainer_leveled hdepth hs (ha.close _) _
  · exact ⟨hdepth, n, ha, hs⟩
  · exact ⟨hdepth, n, ha, hs⟩

theorem endItem_leveled : (endItem a t s).Leveled := by
  unfold endItem
  split
  · exact recoverArray_leveled ha hdepth hs
  · exact recoverArray_leveled (s := s.report _ _) ha hdepth hs

end Array

section Value

variable {place : Place} (hdepth : s.depth = s.stack.length) (hs : Stacked n (place :: s.stack))

include hdepth hs

theorem refuse_leveled : (refuse place t s).Leveled := by
  rcases place with _ | ⟨o, p⟩ | a
  · exact ⟨hdepth, n, hs, nofun⟩
  · cases hs with
    | property ho hrest => exact endProperty_leveled (ho.add p (by nofun) _) hdepth hrest
  · cases hs with
    | item ha hrest => exact recoverArray_leveled ha hdepth hrest

/-- A container is opened only where a level is left for it. -/
theorem openContainer_leveled (room : ¬ maxDepth ≤ s.depth) {focus : Focus}
    (fits : ∀ m, Stacked (m + 1) (place :: s.stack) → focus.Fits m (place :: s.stack)) :
    (s.openContainer place focus).Leveled := by
  have levels := hs.counts.1
  rw [List.length_cons] at levels
  -- the places use up one level more than is open, the root's own
  obtain ⟨m, rfl⟩ : ∃ m, n = m + 1 := ⟨n - 1, by omega⟩
  exact ⟨congrArg (· + 1) hdepth, m, fits m hs⟩

theorem beginValue_leveled : (beginValue place t s).Leveled := by
  unfold beginValue
  split
  · rename_i content fault hscalar
    rw [reportAny_eq]
    exact ⟨hdepth, n, hs.fits_receive Value.Within.scalar.of_some _⟩
  · split
    · split
      · exact ⟨hdepth, n, hs⟩
      · exact openContainer_leveled hdepth hs ‹_› fun m hm => ⟨nofun, hm⟩
    · split
      · exact ⟨hdepth, n, hs⟩
      · exact openContainer_leveled hdepth hs ‹_› fun m hm => ⟨nofun, hm⟩
    · exact ⟨hdepth, n, hs.fits_receive (by nofun) _⟩
    · exact refuse_leveled (s := s.report _ _) hdepth hs

theorem skipToken_leveled (start nesting : Nat) :
    (skipToken start nesting place t (s.withFocus (.skip start nesting place))).Leveled := by
  unfold skipToken
  split
  · exact ⟨hdepth, n, hs⟩
  · exact ⟨hdepth, n, hs⟩
  · exact ⟨hdepth, n, hs.fits_receive (by nofun) _⟩
  · exact ⟨hdepth, n, hs.fits_receive (by nofun) _⟩
  · exact ⟨hdepth, n, hs⟩
  · exact ⟨hdepth, n, hs⟩
  · exact ⟨hdepth, n, hs⟩

end Value

theorem step_leveled (h : s.Leveled) : (step s t).Leveled := by
  have acts : (act t s).Leveled := by
    obtain ⟨focus, stack, depth, nextId, lastEnd, faults⟩ := s
    obtain ⟨hdepth, n, fits⟩ := h
    cases focus with
    | start => exact beginValue_leveled hdepth fits
    | key o => exact beginProperty_leveled fits.1 hdepth fits.2
    | colon o p => exact beginColon_leveled fits.1 hdepth fits.2 p
    | propertyValue o p => exact beginValue_leveled hdepth (.property fits.1 fits.2)
    | propertyEnd o => exact endProperty_leveled fits.1 hdepth fits.2
    | objectRecovery o => exact recoverObject_leveled fits.1 hdepth fits.2
    | item a =>
      simp only [act]
      split
      · exact recoverArray_leveled fits.1 hdepth fits.2
      · exact beginValue_leveled hdepth (.item fits.1 fits.2)
    | itemEnd a => exact endItem_leveled fits.1 hdepth fits.2
    | arrayRecovery a => exact recoverArray_leveled fits.1 hdepth fits.2
    | skip start nesting place =>
      exact skipToken_leveled (s := ⟨.start, stack, depth, nextId, lastEnd, faults⟩) hdepth fits
        start nesting
    | done root trailing => exact ⟨hdepth, n, fits⟩
  exact ⟨acts.counted, acts.fits⟩

end Step

/-! ## Whole texts -/

theorem run_leveled (ts : List (Lexeme Token)) : (run ts).Leveled := by
  induction ts using List.reverseRecOn with
  | nil => exact ⟨rfl, maxDepth, .root⟩
  | append_singleton ts t ih =>
    rw [run_snoc]
    exact step_leveled ih

theorem State.Leveled.depth_eq {s : State} (h : s.Leveled) :
    s.depth = s.opened.length ∧ s.depth ≤ maxDepth := by
  obtain ⟨hdepth, n, fits⟩ := h
  obtain ⟨focus, stack, depth, nextId, lastEnd, faults⟩ := s
  have within {m : Nat} (hs : Stacked (m + 1) stack) (b : BracketKind × Span) :
      depth = (b :: stack.flatMap Place.opened).length ∧ depth ≤ maxDepth := by
    have counts := hs.counts
    change depth = stack.length at hdepth
    rw [List.length_cons]
    omega
  have around {place : Place} (hs : Stacked n (place :: stack)) :
      depth = (place.opened ++ stack.flatMap Place.opened).length ∧ depth ≤ maxDepth := by
    have counts := hs.counts
    change depth = stack.length at hdepth
    rw [List.length_cons, List.flatMap_cons] at counts
    omega
  cases focus with
  | start => exact around fits
  | skip start nesting place => exact around fits
  | done root trailing => exact around fits.1
  | _ => exact within fits.2 _

section Ending

variable {n stop : Nat} {eof : Span} {stack : List Place}

theorem unwind_within (hs : Stacked n stack) {value : Option Value}
    (hv : ∀ v, value = some v → v.Within n) (faults : List PlacedFault) :
    ∀ root, (unwind stop eof value faults stack).1 = some root → root.Within maxDepth := by
  induction hs generalizing value faults with
  | root => exact hv
  | @property n o p rest ho _ ih =>
    exact ih ((ho.add p hv stop).close stop).of_some _
  | @item n a rest ha _ ih =>
    cases value with
    | some w =>
      exact ih ((ha.add (hv w rfl)).close stop).of_some _
    | none =>
      exact ih (ha.close stop).of_some _

theorem finish_within {s : State} (h : s.Leveled) :
    ∀ root, (finish eof s).1 = some root → root.Within maxDepth := by
  obtain ⟨focus, stack, depth, nextId, lastEnd, faults⟩ := s
  obtain ⟨-, n, fits⟩ := h
  have closed {m : Nat} {v : Value} (hv : v.Within m) (hs : Stacked m stack)
      (faults : List PlacedFault) :
      ∀ root, (unwind lastEnd eof (some v) faults stack).1 = some root → root.Within maxDepth :=
    unwind_within hs hv.of_some faults
  cases focus with
  | start => nofun
  | key o => exact closed (fits.1.close _) fits.2 _
  | colon o p => exact unwind_within (.property fits.1 fits.2) (by nofun) _
  | propertyValue o p => exact unwind_within (.property fits.1 fits.2) (by nofun) _
  | propertyEnd o => exact closed (fits.1.close _) fits.2 _
  | objectRecovery o => exact closed (fits.1.close _) fits.2 _
  | item a => exact closed (fits.1.close _) fits.2 _
  | itemEnd a => exact closed (fits.1.close _) fits.2 _
  | arrayRecovery a => exact closed (fits.1.close _) fits.2 _
  | skip start nesting place => exact unwind_within fits (by nofun) _
  | done root trailing =>
    obtain ⟨hs, hv⟩ := fits
    cases hs
    exact hv

/-- The tree of any text is of no more than all the levels. -/
theorem build_within (source : List Char) :
    ∀ root, (build source).1 = some root → root.Within maxDepth :=
  finish_within (run_leveled (Lexeme.tokens source))

end Ending

end Builder

end TemplateLint
