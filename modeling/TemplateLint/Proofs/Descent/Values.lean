import TemplateLint.Proofs.Descent.Containers

/-!
# Values read by descent

A value is read where the builder waits for one, with the same effect: its node
and those below it are added, and the place that waited has received it. A
value that cannot be read is left out on both sides. What is read takes at
least one token, and what is not read takes one too, unless that token is for
an enclosing container.
-/

namespace TemplateLint.Descent

open Builder (Focus Place act beginValue)

variable {source : List Char} {s s' : State} {t : Lexeme Token} {rest : List (Lexeme Token)}
  {read : Reader} {limit : Nat}

/-! ## Values in the builder -/

/-- Where a value is expected. -/
def awaited : Place → Focus
  | .root => .start
  | .property o p => .propertyValue o p
  | .item a => .item a

/-- An array ends where its closing token is found in place of an item. -/
def Awaits (place : Place) (s : State) : Prop :=
  ∀ a, place = .item a → s.nextKind? ≠ some .closeBracket

section Builder

variable {place : Place} {stack : List Place}

theorem act_awaited (h : Awaits place s) (hs : s.ahead = t :: rest) :
    act t (machine (awaited place) stack s) =
      beginValue place t (machine (awaited place) stack s) := by
  rcases place with _ | ⟨o, p⟩ | a
  · rfl
  · rfl
  · have kind : t.kind ≠ .closeBracket := by
      have next := h a rfl
      rw [nextKind?_of_cons hs] at next
      exact fun hkind => next (congrArg some hkind)
    exact if_neg kind

theorem refuse_eq (place : Place) (t : Lexeme Token) (b : Builder.State) :
    Builder.refuse place t b = act t (b.withFocus (place.receive none b.lastEnd)) := by
  cases place <;> rfl

theorem machine_add (focus : Focus) (stack : List Place) (row : Row) :
    machine focus stack (s.add row) =
      ⟨focus, stack, s.depth, s.rows.length + 1, s.lastEnd, s.faults⟩ := by
  unfold machine
  rw [show (s.add row).rows.length = s.rows.length + 1 from List.length_append]
  rfl

theorem ending_scalar (h : Awaits place s) (hs : s.ahead = t :: rest) {content : Scalar}
    {fault : Option Fault} (hscalar : Builder.scalar? t = some (content, fault))
    (parent : Option Nat) (segment : Option Segment) :
    ending (awaited place) stack s =
      ending (place.receive (some (.scalar s.rows.length t.span content)) t.span.stop) stack
        (((s.pass t rest).reportAny fault t.span).add
          ⟨parent, segment, t.span, .scalar content⟩) := by
  refine ending_of_step hs rfl rfl ?_
  rw [Builder.step, act_awaited h hs, beginValue, hscalar, machine_add]
  cases fault <;> rfl

theorem ending_tooDeep (h : Awaits place s) (hs : s.ahead = t :: rest)
    (hscalar : Builder.scalar? t = none) (hopening : t.kind = .openBrace ∨ t.kind = .openBracket)
    (hdepth : maxDepth ≤ s.depth) :
    ending (awaited place) stack s =
      ending (.skip t.span.start 0 place) stack (s.pass t rest) := by
  refine ending_of_pass hs ?_
  rw [act_awaited h hs, beginValue, hscalar]
  rcases hopening with hkind | hkind
  · simp only [hkind]
    exact if_pos hdepth
  · simp only [hkind]
    exact if_pos hdepth

theorem ending_opening (h : Awaits place s) (hs : s.ahead = t :: rest)
    (hscalar : Builder.scalar? t = none) (hopening : t.kind = .openBrace ∨ t.kind = .openBracket)
    (hdepth : ¬maxDepth ≤ s.depth) (parent : Option Nat) (segment : Option Segment) :
    ending (awaited place) stack s =
      ending (Container.empty t.kind s.rows.length t.span).atPart (place :: stack)
        (opened parent segment t rest s) := by
  refine ending_of_step hs rfl rfl ?_
  have room : ¬maxDepth ≤ (machine (awaited place) stack s).depth := hdepth
  rw [Builder.step, act_awaited h hs, beginValue, hscalar, opened, machine_add]
  rcases hopening with hkind | hkind
  · simp only [hkind, if_neg room]
    rfl
  · simp only [hkind, if_neg room]
    rfl

theorem ending_colon (h : Awaits place s) (hs : s.ahead = t :: rest) (hkind : t.kind = .colon) :
    ending (awaited place) stack s = ending (place.receive none t.span.stop) stack
      ((s.report (.expectedValue (some t.kind)) t.span).pass t rest) := by
  refine ending_of_step hs rfl rfl ?_
  have hscalar : Builder.scalar? t = none := by rw [Builder.scalar?, hkind]
  rw [Builder.step, act_awaited h hs, beginValue, hscalar]
  simp only [hkind]
  rfl

theorem ending_refused (h : Awaits place s) (hs : s.ahead = t :: rest)
    (hkind : t.kind = .closeBrace ∨ t.kind = .closeBracket ∨ t.kind = .comma) :
    ending (awaited place) stack s = ending (place.receive none s.lastEnd) stack
      (s.report (.expectedValue (some t.kind)) t.span) := by
  refine ending_of_act rfl rfl (fun u more hu => ?_) fun hnil => ?_
  · cases hs.symm.trans hu
    have hscalar : Builder.scalar? t = none := by
      rcases hkind with hkind | hkind | hkind <;> rw [Builder.scalar?, hkind]
    rw [act_awaited h hs, beginValue, hscalar]
    rcases hkind with hkind | hkind | hkind
    · simp only [hkind]
      exact refuse_eq ..
    · simp only [hkind]
      exact refuse_eq ..
    · simp only [hkind]
      exact refuse_eq ..
  · cases hs.symm.trans hnil

end Builder

/-! ## Values -/

/-- A value has been read, or left out, as the builder reads it where a place waits for it. -/
def ValueRead (source : List Char) (parent : Option Nat) (segment : Option Segment) (s : State)
    (id : Option Nat) (s' : State) : Prop :=
  ∃ v : Option Value, id = v.map Value.id ∧
    Onward source s s' ((v.map fun v => nodeRows parent segment (.value v)).getD []) ∧
    (s'.ahead.length < s.ahead.length ∨ v = none ∧ s'.ahead = s.ahead) ∧
    ∀ place stack, Awaits place s →
      ending (awaited place) stack s = ending (place.receive v s'.lastEnd) stack s'

theorem kind_of_scalar?_eq_none (h : scalar? t = none) (ht : t.kind ≠ .whitespace) :
    (t.kind = .openBrace ∨ t.kind = .openBracket) ∨ t.kind = .colon ∨
      t.kind = .closeBrace ∨ t.kind = .closeBracket ∨ t.kind = .comma := by
  unfold scalar? at h
  cases hkind : t.kind <;> simp_all

theorem container_runs (h : s.Of source) (hs : s.ahead = t :: rest)
    (hopening : t.kind = .openBrace ∨ t.kind = .openBracket) (hscalar : Builder.scalar? t = none)
    (parent : Option Nat) (segment : Option Segment)
    (hlimit : s.ahead.length < limit)
    (parts : ∀ c s', s'.Of source → s'.ahead.length < s.ahead.length →
      Runs (c.readParts read limit c.partIds) s' (Finished source c s')) :
    Runs (container read limit t.kind parent segment) s (ValueRead source parent segment s) := by
  rw [container, runs_get_bind]
  by_cases hdepth : maxDepth ≤ s.depth
  · rw [if_pos hdepth]
    refine (skipContainer_runs h hs hopening hlimit).bind ?_
    rintro _ s' ⟨honward, shorter, rfl, hskipped⟩
    rw [runs_report_bind]
    refine runs_pure ⟨none, rfl, honward.report, Or.inl shorter, fun place stack hawaits => ?_⟩
    rw [ending_tooDeep hawaits hs hscalar hopening hdepth, hskipped]
    rfl
  · rw [if_neg hdepth]
    have whole := readContainer_runs h hs parent segment parts
    have found : Runs
        (readContainer read limit t.kind parent segment >>= fun id => pure (some id)) s
        (ValueRead source parent segment s) := by
      refine whole.bind ?_
      rintro _ s' ⟨v, rfl, honward, shorter, hending⟩
      refine runs_pure ⟨some v, rfl, honward, Or.inl shorter, fun place stack hawaits => ?_⟩
      rw [ending_opening hawaits hs hscalar hopening hdepth parent segment, hending]
    rcases hopening with hkind | hkind
    · rw [hkind] at found ⊢
      rw [if_pos rfl, object_eq]
      exact found
    · rw [hkind] at found ⊢
      rw [if_neg (by decide), array_eq]
      exact found

/-- A value is read if the parts of containers are that hold fewer tokens. -/
theorem valueBy_runs (h : s.Of source) (hs : s.ahead = t :: rest)
    (parent : Option Nat) (segment : Option Segment) (hlimit : s.ahead.length < limit)
    (parts : ∀ c s', s'.Of source → s'.ahead.length < s.ahead.length →
      Runs (c.readParts read limit c.partIds) s' (Finished source c s')) :
    Runs (valueBy read limit parent segment) s (ValueRead source parent segment s) := by
  have shorter := length_lt_of_cons hs
  have passed := Onward.pass h hs
  rw [valueBy, runs_peek_bind, hs, List.head?_cons]
  dsimp only
  cases hscalar : scalar? t with
  | some read =>
    dsimp only
    rw [runs_bind_of_ok (bump_of_cons hs)]
    obtain ⟨content, fault, hbuilder, hread⟩ :=
      scalar?_eq_some (s := s.pass t rest) hscalar (h.mem hs)
    rw [runs_bind_of_ok hread, runs_alloc_bind]
    exact runs_pure ⟨some (.scalar s.rows.length t.span content), rfl, passed.reportAny.add _,
      Or.inl shorter, fun place stack hawaits =>
        ending_scalar hawaits hs hbuilder parent segment⟩
  | none =>
    dsimp only
    have hbuilder := scalar?_eq_none hscalar
    rcases kind_of_scalar?_eq_none hscalar (Lexeme.kind_ne_whitespace (h.mem hs)) with
      hopening | hkind | hkind
    · have run := container_runs h hs hopening hbuilder parent segment hlimit parts
      rcases hopening with hkind | hkind
      · simp only [hkind] at run ⊢
        exact run
      · simp only [hkind] at run ⊢
        exact run
    · have taken : Runs (reportExpectedValue >>= fun _ => bump >>= fun _ => pure none) s
          (ValueRead source parent segment s) := by
        have reported : Onward source s (s.report (.expectedValue (some t.kind)) t.span) [] :=
          (Onward.refl h).report
        have ahead : (s.report (.expectedValue (some t.kind)) t.span).ahead = t :: rest := hs
        rw [runs_reportExpectedValue_bind, nextKind?_of_cons hs, nextSpan_of_cons hs,
          runs_bind_of_ok (bump_of_cons ahead)]
        exact runs_pure ⟨none, rfl, reported.trans (.pass reported.of ahead), Or.inl shorter,
          fun place stack hawaits => ending_colon hawaits hs hkind⟩
      simp only [hkind]
      exact taken
    · have refused : Runs (reportExpectedValue >>= fun _ => pure none) s
          (ValueRead source parent segment s) := by
        rw [runs_reportExpectedValue_bind, nextKind?_of_cons hs, nextSpan_of_cons hs]
        exact runs_pure ⟨none, rfl, (Onward.refl h).report, Or.inr ⟨rfl, rfl⟩,
          fun place stack hawaits => ending_refused hawaits hs hkind⟩
      rcases hkind with hkind | hkind | hkind
      · simp only [hkind]
        exact refused
      · simp only [hkind]
        exact refused
      · simp only [hkind]
        exact refused

end TemplateLint.Descent
