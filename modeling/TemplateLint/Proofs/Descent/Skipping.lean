import TemplateLint.Proofs.Descent.Machine

/-!
# Loops over tokens

A loop ends if each of its turns leaves it or takes at least one token. That is
shown once for all loops, with whatever the turns keep up. The loops that skip
tokens come first: the way to the next comma, and the way through a container
that is nested too deep.
-/

namespace TemplateLint.Descent

open Builder (Place act)

variable {source : List Char} {s s' : State} {t : Lexeme Token} {rest : List (Lexeme Token)}

/-! ## Turns -/

/-- A loop whose turns leave it or take a token comes to an end, with what its turns keep up, if it
may take more turns than there are tokens. -/
theorem loop_runs {α β : Type} {turn : β → Action (Turn α β)} {I : β → State → Prop}
    {P : α → State → Prop}
    (step : ∀ b s, I b s → Runs (turn b) s fun x s' => match x with
      | .leave a => P a s'
      | .again b' => I b' s' ∧ s'.ahead.length < s.ahead.length) {limit : Nat} (b : β)
    (hlimit : s.ahead.length < limit) (h : I b s) : Runs (loop turn limit b) s P := by
  induction limit generalizing b s with
  | zero => exact absurd hlimit (Nat.not_lt_zero _)
  | succ limit ih =>
    refine (step b s h).bind fun x s' hx => ?_
    cases x with
    | leave a => exact runs_pure hx
    | again b' => exact ih b' (Nat.lt_of_lt_of_le hx.2 (Nat.le_of_lt_succ hlimit)) hx.1

/-! ## To the next comma -/

theorem recoverTurn_nil {close : Token} (hs : s.ahead = []) :
    recoverTurn close s = some (.ok (.leave false, s)) := by
  rw [recoverTurn, peek_bind, hs]
  rfl

theorem recoverTurn_closer {close : Token} (hs : s.ahead = t :: rest) (h : t.kind = close) :
    recoverTurn close s = some (.ok (.leave true, s)) := by
  rw [recoverTurn, peek_bind, hs, List.head?_cons]
  simp only [if_pos h]
  rfl

theorem recoverTurn_comma {close : Token} (hs : s.ahead = t :: rest) (hclose : t.kind ≠ close)
    (h : t.kind = .comma) : recoverTurn close s = some (.ok (.leave true, s.pass t rest)) := by
  rw [recoverTurn, peek_bind, hs, List.head?_cons]
  simp only [if_neg hclose]
  rw [bind_of_ok (bump_of_cons hs), if_pos h]
  rfl

theorem recoverTurn_other {close : Token} (hs : s.ahead = t :: rest) (hclose : t.kind ≠ close)
    (h : t.kind ≠ .comma) : recoverTurn close s = some (.ok (.again (), s.pass t rest)) := by
  rw [recoverTurn, peek_bind, hs, List.head?_cons]
  simp only [if_neg hclose]
  rw [bind_of_ok (bump_of_cons hs), if_neg h]
  rfl

/-- After a comma or in front of the closing token a container goes on, and at the end of the text
it ends. -/
theorem recover_runs (h : s.Of source) (c : Container) {limit : Nat}
    (hlimit : s.ahead.length < limit) :
    Runs (recover limit c.closer) s fun found s' => Onward source s s' [] ∧
      if found then
        (s.nextKind? ≠ some c.closer → s'.ahead.length < s.ahead.length) ∧
          ∀ stack, ending c.atRecovery stack s = ending c.atPart stack s'
      else ∀ place stack, ending c.atRecovery (place :: stack) s = closed c place stack s' := by
  -- No token may have been taken so far, but then the first turn is still to come.
  let I : Unit → State → Prop := fun _ s' => Onward source s s' [] ∧
    (s'.ahead.length < s.ahead.length ∨ s'.ahead = s.ahead) ∧
    ∀ stack, ending c.atRecovery stack s = ending c.atRecovery stack s'
  have start : I () s := ⟨.refl h, Or.inr rfl, fun _ => rfl⟩
  refine loop_runs ?_ () hlimit start
  rintro _ s' ⟨honward, hmoved, hending⟩
  cases hs : s'.ahead with
  | nil =>
    refine ⟨_, _, recoverTurn_nil hs, honward, fun place stack => ?_⟩
    rw [hending, ending_atRecovery_nil hs]
  | cons t rest =>
    have hpass := honward.trans (.pass honward.of hs)
    have shorter : rest.length < s.ahead.length := by
      have hlength := honward.ahead
      rw [hs, List.length_cons] at hlength
      omega
    by_cases hcloser : t.kind = c.closer
    · refine ⟨_, _, recoverTurn_closer hs hcloser, honward, fun hnext => ?_, fun stack => ?_⟩
      · refine hmoved.resolve_right fun hsame => hnext ?_
        rw [← hcloser]
        exact nextKind?_of_cons (hsame.symm.trans hs)
      · rw [hending]
        refine ending_of_act rfl rfl (fun u more hu => ?_) fun hnil => ?_
        · cases hs.symm.trans hu
          exact (act_atPart_closer hcloser).symm
        · cases hs.symm.trans hnil
    · by_cases hcomma : t.kind = .comma
      · refine ⟨_, _, recoverTurn_comma hs hcloser hcomma, hpass, fun _ => shorter, fun stack => ?_⟩
        rw [hending]
        exact ending_of_pass hs (act_atRecovery_comma hcomma)
      · refine ⟨_, _, recoverTurn_other hs hcloser hcomma,
          ⟨hpass, Or.inl shorter, fun stack => ?_⟩, Nat.lt_succ_self _⟩
        rw [hending]
        exact ending_of_pass hs (act_atRecovery_other hcomma hcloser)

/-! ## Through a container -/

section Skip

variable {nesting start n : Nat} {place : Place} {stack : List Place}

theorem skipTurn_nil (hs : s.ahead = []) :
    skipTurn nesting s = some (.ok (.leave (), s)) := by
  rw [skipTurn, bind_of_ok (bump_of_nil hs)]
  rfl

theorem skipTurn_opening (hs : s.ahead = t :: rest)
    (h : t.kind = .openBrace ∨ t.kind = .openBracket) :
    skipTurn nesting s = some (.ok (.again (nesting + 1), s.pass t rest)) := by
  rw [skipTurn, bind_of_ok (bump_of_cons hs)]
  rcases h with h | h
  · simp only [h]
    rfl
  · simp only [h]
    rfl

theorem skipTurn_closing (hs : s.ahead = t :: rest)
    (h : t.kind = .closeBrace ∨ t.kind = .closeBracket) : skipTurn nesting s =
      some (.ok (nestingAfter nesting, s.pass t rest)) := by
  rw [skipTurn, bind_of_ok (bump_of_cons hs)]
  rcases h with h | h
  · simp only [h]
    rfl
  · simp only [h]
    rfl

theorem skipTurn_other (hs : s.ahead = t :: rest)
    (hopening : ¬(t.kind = .openBrace ∨ t.kind = .openBracket))
    (hclosing : ¬(t.kind = .closeBrace ∨ t.kind = .closeBracket)) :
    skipTurn nesting s = some (.ok (.again nesting, s.pass t rest)) := by
  rw [skipTurn, bind_of_ok (bump_of_cons hs)]
  have other : ∀ a : Turn Unit Nat,
      (pure a : Action (Turn Unit Nat)) (s.pass t rest) = some (.ok (a, s.pass t rest)) :=
    fun _ => rfl
  rw [← other]
  refine congrFun ?_ _
  dsimp only
  split
  · exact absurd (Or.inl ‹_›) hopening
  · exact absurd (Or.inr ‹_›) hopening
  · exact absurd (Or.inl ‹_›) hclosing
  · exact absurd (Or.inr ‹_›) hclosing
  · rfl

theorem act_skip_opening (h : t.kind = .openBrace ∨ t.kind = .openBracket) :
    act t (machine (.skip start n place) stack s) =
      machine (.skip start (n + 1) place) stack s := by
  change Builder.skipToken start n place t _ = _
  unfold Builder.skipToken
  rcases h with h | h
  · rw [h]
    rfl
  · rw [h]
    rfl

theorem act_skip_closing (h : t.kind = .closeBrace ∨ t.kind = .closeBracket) :
    act t (machine (.skip start (n + 1) place) stack s) =
      machine (.skip start n place) stack s := by
  change Builder.skipToken start (n + 1) place t _ = _
  unfold Builder.skipToken
  rcases h with h | h
  · rw [h]
    rfl
  · rw [h]
    rfl

theorem act_skip_last (h : t.kind = .closeBrace ∨ t.kind = .closeBracket) :
    act t (machine (.skip start 0 place) stack s) =
      machine (place.receive none t.span.stop) stack
        (s.report .nestingTooDeep ⟨start, t.span.stop⟩) := by
  change Builder.skipToken start 0 place t _ = _
  unfold Builder.skipToken
  rcases h with h | h
  · rw [h]
    rfl
  · rw [h]
    rfl

theorem act_skip_other (hopening : ¬(t.kind = .openBrace ∨ t.kind = .openBracket))
    (hclosing : ¬(t.kind = .closeBrace ∨ t.kind = .closeBracket)) :
    act t (machine (.skip start n place) stack s) = machine (.skip start n place) stack s := by
  change Builder.skipToken start n place t _ = _
  unfold Builder.skipToken
  split
  · exact absurd (Or.inl ‹_›) hopening
  · exact absurd (Or.inr ‹_›) hopening
  · exact absurd (Or.inl ‹_›) hclosing
  · exact absurd (Or.inr ‹_›) hclosing
  · exact absurd (Or.inl ‹_›) hclosing
  · exact absurd (Or.inr ‹_›) hclosing
  · rfl

/-- What the builder makes of a container nested too deep that has been skipped. -/
def skipped (start : Nat) (place : Place) (stack : List Place) (s : State) :
    Option Value × List PlacedFault :=
  ending (place.receive none s.lastEnd) stack (s.report .nestingTooDeep ⟨start, s.lastEnd⟩)

theorem ending_skip_nil (hs : s.ahead = []) :
    ending (.skip start n place) stack s = skipped start place stack s := by
  have left : (s.report .nestingTooDeep ⟨start, s.lastEnd⟩).ahead = [] := hs
  rw [skipped, ending_of_nil hs, ending_of_nil left]
  exact (finish_receive ..).symm

/-- One turn takes a token, if there is one, and counts the containers as the builder does. -/
theorem skipTurn_runs (h : s.Of source) (nesting : Nat) :
    Runs (skipTurn nesting) s fun x s' => Onward source s s' [] ∧
      (s.ahead ≠ [] → s'.ahead.length < s.ahead.length) ∧
      match x with
      | .leave () => ∀ n start place stack, nesting = n + 1 →
          ending (.skip start n place) stack s = skipped start place stack s'
      | .again nesting' => s.ahead ≠ [] ∧ ∀ n start place stack, nesting = n + 1 →
          ∃ n', nesting' = n' + 1 ∧
            ending (.skip start n place) stack s = ending (.skip start n' place) stack s' := by
  cases hs : s.ahead with
  | nil =>
    refine ⟨_, _, skipTurn_nil hs, .refl h, fun hne => absurd rfl hne, ?_⟩
    exact fun _ _ _ _ _ => ending_skip_nil hs
  | cons t rest =>
    have hpass := Onward.pass h hs
    have shorter : (t :: rest) ≠ [] → (s.pass t rest).ahead.length < (t :: rest).length :=
      fun _ => Nat.lt_succ_self _
    by_cases hopening : t.kind = .openBrace ∨ t.kind = .openBracket
    · refine ⟨_, _, skipTurn_opening hs hopening, hpass, shorter, List.cons_ne_nil _ _, ?_⟩
      rintro n start place stack rfl
      exact ⟨n + 1, rfl, ending_of_pass hs (act_skip_opening hopening)⟩
    · by_cases hclosing : t.kind = .closeBrace ∨ t.kind = .closeBracket
      · refine ⟨_, _, skipTurn_closing hs hclosing, hpass, shorter, ?_⟩
        by_cases hlast : nesting - 1 = 0
        · rw [show nestingAfter nesting = .leave () from if_pos hlast]
          rintro n start place stack rfl
          obtain rfl : n = 0 := by omega
          refine ending_of_step hs rfl rfl ?_
          rw [Builder.step, act_skip_last hclosing]
          rfl
        · rw [show nestingAfter nesting = .again (nesting - 1) from if_neg hlast]
          refine ⟨List.cons_ne_nil _ _, ?_⟩
          rintro n start place stack rfl
          obtain ⟨k, rfl⟩ : ∃ k, n = k + 1 := ⟨n - 1, by omega⟩
          exact ⟨k, rfl, ending_of_pass hs (act_skip_closing hclosing)⟩
      · refine ⟨_, _, skipTurn_other hs hopening hclosing, hpass, shorter,
          List.cons_ne_nil _ _, ?_⟩
        rintro n start place stack rfl
        exact ⟨n, rfl, ending_of_pass hs (act_skip_other hopening hclosing)⟩

theorem loop_skipTurn_runs (h : s.Of source) {limit : Nat} (hlimit : s.ahead.length < limit)
    (nesting : Nat) : Runs (loop skipTurn limit nesting) s fun _ s' => Onward source s s' [] ∧
      ∀ n start place stack, nesting = n + 1 →
        ending (.skip start n place) stack s = skipped start place stack s' := by
  let I : Nat → State → Prop := fun nesting' s' => Onward source s s' [] ∧
    ∀ n start place stack, nesting = n + 1 → ∃ n', nesting' = n' + 1 ∧
      ending (.skip start n place) stack s = ending (.skip start n' place) stack s'
  have begin : I nesting s := ⟨.refl h, fun n _ _ _ hn => ⟨n, hn, rfl⟩⟩
  refine loop_runs ?_ nesting hlimit begin
  rintro nesting' s' ⟨honward, hending⟩
  refine (skipTurn_runs honward.of nesting').mono fun x s'' ⟨hpass, shorter, hx⟩ => ?_
  have hpass := honward.trans hpass
  cases x with
  | leave a =>
    refine ⟨hpass, fun n start place stack hn => ?_⟩
    obtain ⟨n', hn', hsame⟩ := hending n start place stack hn
    rw [hsame, hx n' start place stack hn']
  | again k =>
    refine ⟨⟨hpass, fun n start place stack hn => ?_⟩, shorter hx.1⟩
    obtain ⟨n', hn', hsame⟩ := hending n start place stack hn
    obtain ⟨m, hm, hnext⟩ := hx.2 n' start place stack hn'
    exact ⟨m, hm, hsame.trans hnext⟩

/-- A container that is nested too deep is skipped as the builder skips it. -/
theorem skipContainer_runs (h : s.Of source) (hs : s.ahead = t :: rest)
    (hopening : t.kind = .openBrace ∨ t.kind = .openBracket) {limit : Nat}
    (hlimit : s.ahead.length < limit) :
    Runs (skipContainer limit) s fun span s' => Onward source s s' [] ∧
      s'.ahead.length < s.ahead.length ∧ span = ⟨t.span.start, s'.lastEnd⟩ ∧
      ∀ place stack, ending (.skip t.span.start 0 place) stack (s.pass t rest) =
        skipped t.span.start place stack s' := by
  have opened : Onward source s (s.pass t rest) [] := .pass h hs
  obtain ⟨turns, rfl⟩ : ∃ turns, limit = turns + 1 := ⟨limit - 1, by omega⟩
  have hturns : (s.pass t rest).ahead.length < turns := by
    rw [hs] at hlimit
    exact Nat.lt_of_succ_lt_succ hlimit
  -- The count of open containers starts at one for the builder: it has taken the opening token.
  have first : loop skipTurn (turns + 1) 0 s = loop skipTurn turns 1 (s.pass t rest) := by
    rw [loop, bind_of_ok (skipTurn_opening hs hopening)]
  obtain ⟨_, s', hrun, honward, hending⟩ := loop_skipTurn_runs opened.of hturns 1
  obtain ⟨hlast, hle⟩ := honward.lastEnd_eq (e := t.span.stop) rfl t.span.start
  unfold skipContainer
  rw [runs_get_bind, nextSpan_of_cons hs, runs_bind_of_ok (first.trans hrun), runs_lastEnd_bind,
    hlast]
  refine ⟨_, _, range_eq (Nat.le_trans (h.start_le_stop hs) hle), ?_, ?_, rfl, ?_⟩
  · exact opened.trans honward
  · exact Nat.lt_of_le_of_lt honward.ahead (length_lt_of_cons hs)
  · exact fun place stack => hending 0 t.span.start place stack rfl

end Skip

end TemplateLint.Descent
