import TemplateLint.Proofs.Descent.Actions

/-!
# Readings and the builder

A state of a reading shows a state of the builder, once it is said what the
builder is in the middle of. What a reading does step by step is right if the
builder, fed with the tokens that are still ahead, comes to the same end before
and after: the same root with the same faults.
-/

namespace TemplateLint.Descent

open Builder (Focus Place OpenObject OpenArray act finish unwind)
open Lexeme (tokens)

variable {source : List Char} {s s' s'' : State} {t : Lexeme Token} {rest : List (Lexeme Token)}

/-! ## Going on in a text -/

theorem nextKind?_of_cons (hs : s.ahead = t :: rest) : s.nextKind? = some t.kind := by
  rw [State.nextKind?, hs]
  rfl

theorem nextSpan_of_cons (hs : s.ahead = t :: rest) : s.nextSpan = t.span := by
  rw [State.nextSpan, hs]
  rfl

theorem nextKind?_of_nil (hs : s.ahead = []) : s.nextKind? = none := by
  rw [State.nextKind?, hs]
  rfl

theorem nextSpan_of_nil (hs : s.ahead = []) : s.nextSpan = s.eof := by
  rw [State.nextSpan, hs]
  rfl

/-- Behind the next token there are fewer ahead. -/
theorem length_lt_of_cons (hs : s.ahead = t :: rest) : rest.length < s.ahead.length := by
  rw [hs]
  exact Nat.lt_succ_self _

/-- A token of a kind that is next. -/
theorem exists_of_nextKind? {kind : Token} (h : s.nextKind? = some kind) :
    ∃ t rest, s.ahead = t :: rest ∧ t.kind = kind := by
  obtain ⟨t, ht, hkind⟩ := Option.map_eq_some_iff.mp h
  obtain ⟨rest, hs⟩ := List.head?_eq_some_iff.mp ht
  exact ⟨t, rest, hs, hkind⟩

namespace State

/-- What has been read and what is ahead make up the tokens of a text. -/
def Of (source : List Char) (s : State) : Prop :=
  s.source = source ∧ ∃ behind, tokens source = behind ++ s.ahead ∧ s.latest = behind.getLast?

/-- Where the token that was read last ended, or the start of the text. -/
def lastEnd (s : State) : Nat := s.lastEnd?.getD 0

theorem Of.mem (h : s.Of source) (hs : s.ahead = t :: rest) : t ∈ tokens s.source := by
  obtain ⟨rfl, behind, htokens, -⟩ := h
  rw [htokens, hs]
  simp

theorem Of.pass (h : s.Of source) (hs : s.ahead = t :: rest) : (s.pass t rest).Of source := by
  obtain ⟨hsource, behind, htokens, -⟩ := h
  refine ⟨hsource, behind ++ [t], ?_, ?_⟩
  · rw [htokens, hs]
    simp [State.pass]
  · simp [State.pass]

theorem Of.start_le_stop (h : s.Of source) (hs : s.ahead = t :: rest) :
    t.span.start ≤ t.span.stop :=
  Nat.le_of_succ_le (Lexeme.placed_of_mem_tokens (h.mem hs)).nonempty

theorem Of.lastEnd_le (h : s.Of source) (hs : s.ahead = t :: rest) :
    ∀ e ∈ s.lastEnd?, e ≤ t.span.start := by
  obtain ⟨hsource, behind, htokens, hlatest⟩ := h
  intro e he
  obtain ⟨u, hu, rfl⟩ := Option.map_eq_some_iff.mp he
  have ordered := Lexeme.pairwise_tokens source
  rw [htokens, hs] at ordered
  rw [hlatest] at hu
  exact (List.pairwise_append.mp ordered).2.2 u (List.mem_of_getLast? hu) t (by simp)

end State

/-- The second state is further on in the text than the first, with nodes added. -/
structure Onward (source : List Char) (s s' : State) (rows : List Row) : Prop where
  of : s'.Of source
  ahead : s'.ahead.length ≤ s.ahead.length
  latest : ∀ e ∈ s.lastEnd?, ∃ e' ∈ s'.lastEnd?, e ≤ e'
  rows : s'.rows = s.rows ++ rows
  depth : s'.depth = s.depth

namespace Onward

variable {rows more : List Row} {fault : Fault} {span : Span}

theorem refl (h : s.Of source) : Onward source s s [] :=
  ⟨h, Nat.le_refl _, fun e he => ⟨e, he, Nat.le_refl _⟩, (List.append_nil _).symm, rfl⟩

theorem trans (h : Onward source s s' rows) (h' : Onward source s' s'' more) :
    Onward source s s'' (rows ++ more) where
  of := h'.of
  ahead := Nat.le_trans h'.ahead h.ahead
  latest := by
    intro e he
    obtain ⟨e', he', hle⟩ := h.latest e he
    obtain ⟨e'', he'', hle'⟩ := h'.latest e' he'
    exact ⟨e'', he'', Nat.le_trans hle hle'⟩
  rows := by rw [h'.rows, h.rows, List.append_assoc]
  depth := h'.depth.trans h.depth

theorem report (h : Onward source s s' rows) : Onward source s (s'.report fault span) rows :=
  ⟨h.of, h.ahead, h.latest, h.rows, h.depth⟩

theorem reportAny {fault : Option Fault} (h : Onward source s s' rows) :
    Onward source s (s'.reportAny fault span) rows :=
  ⟨h.of, h.ahead, h.latest, h.rows, h.depth⟩

theorem pass (h : s.Of source) (hs : s.ahead = t :: rest) :
    Onward source s (s.pass t rest) [] where
  of := h.pass hs
  ahead := by simp [State.pass, hs]
  latest := fun e he =>
    ⟨t.span.stop, rfl, Nat.le_trans (h.lastEnd_le hs e he) (h.start_le_stop hs)⟩
  rows := (List.append_nil _).symm
  depth := rfl

theorem add (h : Onward source s s' rows) (row : Row) :
    Onward source s (s'.add row) (rows ++ [row]) :=
  ⟨h.of, h.ahead, h.latest, by simp [State.add, h.rows], h.depth⟩

/-- Where a token has been read that ends at some offset, the last one ends there or behind it. -/
theorem lastEnd_eq (h : Onward source s s' rows) {e : Nat} (he : e ∈ s.lastEnd?)
    (default : Nat) : s'.lastEnd?.getD default = s'.lastEnd ∧ e ≤ s'.lastEnd := by
  obtain ⟨e', he', hle⟩ := h.latest e he
  have he' : s'.lastEnd? = some e' := he'
  simp [State.lastEnd, he', hle]

end Onward

/-! ## The builder's states -/

/-- The state of the builder that is in the middle of something. -/
def machine (focus : Focus) (stack : List Place) (s : State) : Builder.State :=
  ⟨focus, stack, s.depth, s.rows.length, s.lastEnd, s.faults⟩

/-- What the builder makes of the tokens ahead. -/
def ending (focus : Focus) (stack : List Place) (s : State) : Option Value × List PlacedFault :=
  finish s.eof (s.ahead.foldl Builder.step (machine focus stack s))

section Ending

variable {focus focus' : Focus} {stack stack' : List Place}

theorem ending_of_step (hs : s.ahead = t :: rest) (hs' : s'.ahead = rest)
    (hsource : s'.source = s.source)
    (h : Builder.step (machine focus stack s) t = machine focus' stack' s') :
    ending focus stack s = ending focus' stack' s' := by
  unfold ending State.eof
  rw [hs, List.foldl_cons, h, hs', hsource]

/-- A token that is taken and changes only what the builder is in the middle of. -/
theorem ending_of_pass (hs : s.ahead = t :: rest)
    (h : act t (machine focus stack s) = machine focus' stack' s) :
    ending focus stack s = ending focus' stack' (s.pass t rest) := by
  refine ending_of_step hs rfl rfl ?_
  rw [Builder.step, h]
  rfl

theorem ending_of_nil (hs : s.ahead = []) :
    ending focus stack s = finish s.eof (machine focus stack s) := by
  unfold ending
  rw [hs, List.foldl_nil]

/-- Where no token is read, it is enough that the next one has the same effect. -/
theorem ending_of_act (hs : s'.ahead = s.ahead) (hsource : s'.source = s.source)
    (next : ∀ t rest, s.ahead = t :: rest →
      act t (machine focus stack s) = act t (machine focus' stack' s'))
    (last : s.ahead = [] →
      finish s.eof (machine focus stack s) = finish s.eof (machine focus' stack' s')) :
    ending focus stack s = ending focus' stack' s' := by
  unfold ending State.eof
  rw [hs, hsource]
  cases hahead : s.ahead with
  | nil => exact last hahead
  | cons t rest =>
    rw [List.foldl_cons, List.foldl_cons, Builder.step, Builder.step, next t rest hahead]

end Ending

/-! ## Containers -/

/-- A container that is being read. -/
inductive Container where
  | object (o : OpenObject)
  | array (a : OpenArray)

namespace Container

def opening : Container → Span
  | object o => o.opening
  | array a => a.opening

def closer : Container → Token
  | object _ => .closeBrace
  | array _ => .closeBracket

/-- What is expected behind a part. -/
def behindPart : Container → Expectation
  | object _ => .propertyEnd
  | array _ => .itemEnd

/-- Where a part is expected, or the end of the container. -/
def atPart : Container → Focus
  | object o => .key o
  | array a => .item a

def atEnd : Container → Focus
  | object o => .propertyEnd o
  | array a => .itemEnd a

def atRecovery : Container → Focus
  | object o => .objectRecovery o
  | array a => .arrayRecovery a

def close (stop : Nat) : Container → Value
  | object o => o.close stop
  | array a => a.close stop

end Container

/-- What the builder makes of the tokens ahead once a container has ended. -/
def closed (c : Container) (place : Place) (stack : List Place) (s : State) :
    Option Value × List PlacedFault :=
  ending (place.receive (some (c.close s.lastEnd)) s.lastEnd) stack (s.withDepth (s.depth - 1))

variable {c : Container} {place : Place} {stack : List Place}

/-- At the end of the text a place that has received its value is like one that waits for it. -/
theorem finish_receive (eof : Span) (value : Option Value) (depth nextId stop : Nat)
    (faults : List PlacedFault) :
    finish eof ⟨place.receive value stop, stack, depth, nextId, stop, faults⟩ =
      unwind stop eof value faults (place :: stack) := by
  rcases place with _ | ⟨o, p⟩ | a
  · rfl
  · rfl
  · cases value <;> rfl

theorem closed_nil (hs : s.ahead = []) : closed c place stack s =
    unwind s.lastEnd s.eof (some (c.close s.lastEnd)) s.faults (place :: stack) := by
  have left : (s.withDepth (s.depth - 1)).ahead = [] := hs
  exact (ending_of_nil left).trans (finish_receive ..)

theorem ending_atRecovery_nil (hs : s.ahead = []) :
    ending c.atRecovery (place :: stack) s = closed c place stack s := by
  rw [ending_of_nil hs, closed_nil hs]
  cases c <;> rfl

/-- The end of the text is reported where a part should end. -/
theorem finish_atEnd (eof : Span) :
    finish eof (machine c.atEnd stack s) = finish eof (machine c.atRecovery stack
      (s.report (.expected c.behindPart none c.opening) eof)) := by
  cases c <;> rfl

theorem act_atRecovery_comma (h : t.kind = .comma) :
    act t (machine c.atRecovery stack s) = machine c.atPart stack s := by
  cases c with
  | object o =>
    change Builder.recoverObject o t _ = _
    rw [Builder.recoverObject, h]
    rfl
  | array a =>
    change Builder.recoverArray a t _ = _
    rw [Builder.recoverArray, h]
    rfl

theorem act_atRecovery_closer (h : t.kind = c.closer) :
    act t (machine c.atRecovery (place :: stack) s) =
      machine (place.receive (some (c.close t.span.stop)) t.span.stop) stack
        (s.withDepth (s.depth - 1)) := by
  cases c with
  | object o =>
    change Builder.recoverObject o t _ = _
    rw [Builder.recoverObject, h]
    rfl
  | array a =>
    change Builder.recoverArray a t _ = _
    rw [Builder.recoverArray, h]
    rfl

theorem act_atRecovery_other (hcomma : t.kind ≠ .comma) (hcloser : t.kind ≠ c.closer) :
    act t (machine c.atRecovery stack s) = machine c.atRecovery stack s := by
  cases c with
  | object o =>
    change Builder.recoverObject o t _ = _
    unfold Builder.recoverObject
    split
    · exact absurd ‹_› hcloser
    · exact absurd ‹_› hcomma
    · rfl
  | array a =>
    change Builder.recoverArray a t _ = _
    unfold Builder.recoverArray
    split
    · exact absurd ‹_› hcloser
    · exact absurd ‹_› hcomma
    · rfl

theorem act_atEnd_of_mem (h : t.kind = .comma ∨ t.kind = c.closer) :
    act t (machine c.atEnd stack s) = act t (machine c.atRecovery stack s) := by
  cases c with
  | object o => exact if_pos h
  | array a => exact if_pos h

/-- Where a part should end, all but a comma and the end of the container is reported. -/
theorem act_atEnd_other (hcomma : t.kind ≠ .comma) (hcloser : t.kind ≠ c.closer) :
    act t (machine c.atEnd stack s) = act t (machine c.atRecovery stack
      (s.report (.expected c.behindPart (some t.kind) c.opening) t.span)) := by
  cases c with
  | object o => exact if_neg (not_or.mpr ⟨hcomma, hcloser⟩)
  | array a => exact if_neg (not_or.mpr ⟨hcomma, hcloser⟩)

/-- A closing token ends a container wherever a part is expected. -/
theorem act_atPart_closer (h : t.kind = c.closer) :
    act t (machine c.atPart stack s) = act t (machine c.atRecovery stack s) := by
  cases c with
  | object o =>
    have hkind : t.kind = .closeBrace := h
    change Builder.beginProperty o t _ = _
    rw [Builder.beginProperty, hkind]
    rfl
  | array a => exact if_pos h

/-- A container ends with its closing token. -/
theorem ending_closer {focus : Focus} (hs : s.ahead = t :: rest) (h : t.kind = c.closer)
    (hfocus : act t (machine focus (place :: stack) s) =
      act t (machine c.atRecovery (place :: stack) s)) :
    ending focus (place :: stack) s = closed c place stack (s.pass t rest) := by
  refine ending_of_step hs rfl rfl ?_
  rw [Builder.step, hfocus, act_atRecovery_closer h]
  rfl

/-- Where a part should end and does not, the container goes on behind what can be skipped. -/
theorem ending_atEnd_other (hcomma : s.nextKind? ≠ some .comma)
    (hcloser : s.nextKind? ≠ some c.closer) :
    ending c.atEnd stack s = ending c.atRecovery stack
      (s.report (.expected c.behindPart s.nextKind? c.opening) s.nextSpan) := by
  refine ending_of_act rfl rfl (fun t rest hs => ?_) fun hs => ?_
  · rw [nextKind?_of_cons hs] at hcomma hcloser ⊢
    rw [nextSpan_of_cons hs]
    exact act_atEnd_other (fun h => hcomma (congrArg some h)) fun h => hcloser (congrArg some h)
  · rw [nextKind?_of_nil hs, nextSpan_of_nil hs]
    exact finish_atEnd s.eof

end TemplateLint.Descent
