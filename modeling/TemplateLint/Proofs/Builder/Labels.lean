import TemplateLint.Proofs.Builder.Offsets

/-!
# Labels of faults

A fault is shown at the token that does not fit, or at all that has been read
since an earlier token, and beside it at the token that opened the context. So
a state remembers spans of tokens, and where a skipped container or trailing
content begins. What is true of those spans, and stays true when a span is
stretched to the end of a token, is true of the labels of all faults.
-/

namespace TemplateLint

/-- The spans of the labels under which a fault is shown. -/
def PlacedFault.spans (f : PlacedFault) : List Span := f.diagnostic.labels.map Label.span

namespace Builder

theorem expected_spans (what : Expectation) (found : Option Token) (context span : Span) :
    (PlacedFault.mk (.expected what found context) span).spans = [span, context] := rfl

/-- A fault without a context is shown in one place. -/
theorem plain_spans {P : Span → Prop} {fault : Fault} {span : Span} (h : fault.context? = none)
    (hs : P span) : ∀ q ∈ (PlacedFault.mk fault span).spans, P q := by
  simpa [PlacedFault.spans, PlacedFault.diagnostic, h] using hs

def Place.spans : Place → List Span
  | .root => []
  | .property o p => [o.opening, p.keySpan]
  | .item a => [a.opening]

def Focus.spans : Focus → List Span
  | .start => []
  | .key o => [o.opening]
  | .colon o p => [o.opening, p.keySpan]
  | .propertyValue o p => [o.opening, p.keySpan]
  | .propertyEnd o => [o.opening]
  | .objectRecovery o => [o.opening]
  | .item a => [a.opening]
  | .itemEnd a => [a.opening]
  | .arrayRecovery a => [a.opening]
  | .skip first _ place => .point first :: place.spans
  | .done _ trailing => trailing.toList

/-- Whatever a state shows or may come to show has a property. -/
structure State.Marks (P : Span → Prop) (s : State) : Prop where
  focus : ∀ q ∈ s.focus.spans, P q
  stack : ∀ place ∈ s.stack, ∀ q ∈ place.spans, P q
  faults : ∀ f ∈ s.faults, ∀ q ∈ f.spans, P q

/-- A token's own span has a property, and spans that are stretched to its end keep it. -/
structure Bears (P : Span → Prop) (t : Lexeme Token) : Prop where
  token : P t.span
  point : P (.point t.span.start)
  stretch : ∀ q, P q → P ⟨q.start, t.span.stop⟩

theorem Place.spans_receive (place : Place) (value : Option Value) (stop : Nat) :
    (place.receive value stop).spans ⊆ place.spans := by
  rcases place with _ | ⟨o, p⟩ | a
  · simp [receive, Focus.spans]
  · simp [receive, Focus.spans, spans, OpenObject.add]
  · cases value <;> simp [receive, Focus.spans, spans, OpenArray.add]

namespace State.Marks

variable {P Q : Span → Prop} {s : State}

theorem mono (h : s.Marks P) (himp : ∀ q, P q → Q q) : s.Marks Q where
  focus := fun q hq => himp q (h.focus q hq)
  stack := fun place hp q hq => himp q (h.stack place hp q hq)
  faults := fun f hf q hq => himp q (h.faults f hf q hq)

theorem withFocus (h : s.Marks P) {focus : Focus} (hf : ∀ q ∈ focus.spans, P q) :
    (s.withFocus focus).Marks P := ⟨hf, h.stack, h.faults⟩

theorem report (h : s.Marks P) {fault : Fault} {span : Span}
    (hf : ∀ q ∈ (PlacedFault.mk fault span).spans, P q) : (s.report fault span).Marks P where
  focus := h.focus
  stack := h.stack
  faults := by
    intro f hm
    rcases List.mem_cons.mp hm with rfl | hm
    · exact hf
    · exact h.faults f hm

/-- A place goes on with what it remembers. -/
theorem receive (h : s.Marks P) {place : Place} (hp : ∀ q ∈ place.spans, P q)
    (value : Option Value) (stop : Nat) : (s.withFocus (place.receive value stop)).Marks P :=
  h.withFocus fun q hq => hp q (place.spans_receive value stop hq)

theorem closeContainer (h : s.Marks P) (v : Value) (stop : Nat) :
    (s.closeContainer v stop).Marks P := by
  obtain ⟨focus, stack, depth, nextId, lastEnd, faults⟩ := s
  cases stack with
  | nil => exact h.withFocus (by simp [Focus.spans])
  | cons place rest =>
    refine ⟨fun q hq => ?_, fun p hp => h.stack p (List.mem_cons_of_mem place hp), h.faults⟩
    exact h.stack place List.mem_cons_self q (place.spans_receive (some v) stop hq)

end State.Marks

section Step

variable {P : Span → Prop} {t : Lexeme Token} {s : State}

theorem trail_marks (ht : Bears P t) (h : s.Marks P) {root : Option Value} {trailing : Option Span}
    (htrail : ∀ q ∈ trailing, P q) : (trail root trailing t s).Marks P := by
  refine h.withFocus fun q hq => ?_
  obtain rfl : q = ⟨(trailing.getD t.span).start, t.span.stop⟩ := by simpa [Focus.spans] using hq
  refine ht.stretch _ ?_
  cases trailing with
  | none => exact ht.token
  | some q => exact htrail q rfl

theorem recoverObject_marks (h : s.Marks P) {o : OpenObject} (ho : P o.opening) :
    (recoverObject o t s).Marks P := by
  unfold recoverObject
  split
  · exact h.closeContainer _ _
  · exact h.withFocus (by simpa [Focus.spans] using ho)
  · exact h.withFocus (by simpa [Focus.spans] using ho)

theorem recoverArray_marks (h : s.Marks P) {a : OpenArray} (ha : P a.opening) :
    (recoverArray a t s).Marks P := by
  unfold recoverArray
  split
  · exact h.closeContainer _ _
  · exact h.withFocus (by simpa [Focus.spans] using ha)
  · exact h.withFocus (by simpa [Focus.spans] using ha)

/-- What does not fit is reported at the token, and beside it at the context. -/
theorem reportExpected_marks (ht : Bears P t) (h : s.Marks P) {context : Span} (hc : P context)
    (what : Expectation) (found : Option Token) :
    (s.report (.expected what found context) t.span).Marks P :=
  h.report (by simpa [expected_spans] using ⟨ht.token, hc⟩)

theorem reportAny_marks (ht : Bears P t) (h : s.Marks P) (fault : Option Fault)
    (hf : ∀ f ∈ fault, f.context? = none) : (s.reportAny fault t.span).Marks P := by
  cases fault with
  | none => exact h
  | some f => exact h.report (plain_spans (hf f rfl) ht.token)

theorem endProperty_marks (ht : Bears P t) (h : s.Marks P) {o : OpenObject} (ho : P o.opening) :
    (endProperty o t s).Marks P := by
  unfold endProperty
  split
  · exact recoverObject_marks h ho
  · exact recoverObject_marks (reportExpected_marks ht h ho _ _) ho

theorem endItem_marks (ht : Bears P t) (h : s.Marks P) {a : OpenArray} (ha : P a.opening) :
    (endItem a t s).Marks P := by
  unfold endItem
  split
  · exact recoverArray_marks h ha
  · exact recoverArray_marks (reportExpected_marks ht h ha _ _) ha

theorem refuse_marks (ht : Bears P t) (h : s.Marks P) {place : Place}
    (hp : ∀ q ∈ place.spans, P q) : (refuse place t s).Marks P := by
  rcases place with _ | ⟨o, p⟩ | a
  · exact trail_marks ht h (by simp)
  · exact endProperty_marks ht h (hp o.opening (by simp [Place.spans]))
  · exact recoverArray_marks h (hp a.opening (by simp [Place.spans]))

theorem context_stringText (t : Lexeme Token) : ∀ f ∈ (stringText t).2, f.context? = none := by
  intro f hf
  unfold stringText at hf
  split at hf
  · cases hf
    rfl
  · split at hf <;> cases hf
    rfl

theorem context_scalar {content : Scalar} {fault : Option Fault}
    (h : scalar? t = some (content, fault)) : ∀ f ∈ fault, f.context? = none := by
  intro f hf
  unfold scalar? at h
  split at h <;> try cases h
  · exact context_stringText t f hf
  · exact context_stringText t f hf
  · have hn : (numberScalar t).2 = fault := by simpa using congrArg Prod.snd (Option.some.inj h)
    unfold numberScalar at hn
    grind [Fault.context?]
  all_goals cases hf

theorem beginValue_marks (ht : Bears P t) (h : s.Marks P) {place : Place}
    (hp : ∀ q ∈ place.spans, P q) : (beginValue place t s).Marks P := by
  have skips : (s.withFocus (.skip t.span.start 0 place)).Marks P :=
    h.withFocus (by simpa [Focus.spans] using ⟨ht.point, hp⟩)
  have opens : ∀ focus : Focus, focus.spans = [t.span] → (s.openContainer place focus).Marks P := by
    intro focus hf
    refine ⟨?_, ?_, h.faults⟩
    · intro q hq
      change q ∈ focus.spans at hq
      rw [hf] at hq
      exact List.mem_singleton.mp hq ▸ ht.token
    · intro p hm
      rcases List.mem_cons.mp hm with rfl | hm
      · exact hp
      · exact h.stack p hm
  have reports : (s.report (.expectedValue (some t.kind)) t.span).Marks P :=
    reportAny_marks ht h (some _) (by simp [Fault.context?])
  unfold beginValue
  split
  · rename_i content fault hscalar
    have hr := reportAny_marks ht h _ (context_scalar hscalar)
    exact ⟨(hr.receive hp _ _).focus, hr.stack, hr.faults⟩
  · split
    · split
      · exact skips
      · exact opens _ rfl
    · split
      · exact skips
      · exact opens _ rfl
    · exact reports.receive hp _ _
    · exact refuse_marks ht reports hp

theorem beginProperty_marks (ht : Bears P t) (h : s.Marks P) {o : OpenObject}
    (ho : P o.opening) : (beginProperty o t s).Marks P := by
  have hr := reportAny_marks ht h _ (context_stringText t)
  have key : (Focus.colon o ⟨s.nextId, (stringText t).1, t.span⟩).spans = [o.opening, t.span] := rfl
  unfold beginProperty
  split
  · exact recoverObject_marks h ho
  · exact ⟨by simpa [key] using ⟨ho, ht.token⟩, hr.stack, hr.faults⟩
  · exact ⟨by simpa [key] using ⟨ho, ht.token⟩, hr.stack, hr.faults⟩
  · exact recoverObject_marks (reportExpected_marks ht h ho _ _) ho

theorem beginColon_marks (ht : Bears P t) (h : s.Marks P) {o : OpenObject} {p : OpenProperty}
    (ho : P o.opening) (hk : P p.keySpan) : (beginColon o p t s).Marks P := by
  unfold beginColon
  split
  · exact h.withFocus (by simpa [Focus.spans] using ⟨ho, hk⟩)
  · exact endProperty_marks ht (reportExpected_marks ht h hk _ _) ho

theorem skipToken_marks (ht : Bears P t) (h : s.Marks P) {start nesting : Nat} {place : Place}
    (hstart : P (.point start)) (hp : ∀ q ∈ place.spans, P q) :
    (skipToken start nesting place t s).Marks P := by
  have goes : ∀ n, (s.withFocus (.skip start n place)).Marks P := by
    intro n
    exact h.withFocus (by simpa [Focus.spans] using ⟨hstart, hp⟩)
  have whole : P ⟨start, t.span.stop⟩ := ht.stretch _ hstart
  have reports : (s.report .nestingTooDeep ⟨start, t.span.stop⟩).Marks P :=
    h.report (plain_spans rfl whole)
  unfold skipToken
  split
  · exact goes _
  · exact goes _
  · exact reports.receive hp _ _
  · exact reports.receive hp _ _
  · exact goes _
  · exact goes _
  · exact h

theorem step_marks (ht : Bears P t) (h : s.Marks P) : (step s t).Marks P := by
  have acts : (act t s).Marks P := by
    have hf := h.focus
    unfold act
    split
    all_goals rename_i he; rw [he] at hf; simp only [Focus.spans, List.mem_cons, List.not_mem_nil,
      or_false, forall_eq_or_imp, forall_eq] at hf
    · exact beginValue_marks ht h (by simp [Place.spans])
    · exact beginProperty_marks ht h hf
    · exact beginColon_marks ht h hf.1 hf.2
    · exact beginValue_marks ht h (by simpa [Place.spans] using hf)
    · exact endProperty_marks ht h hf
    · exact recoverObject_marks h hf
    · split
      · exact recoverArray_marks h hf
      · exact beginValue_marks ht h (by simpa [Place.spans] using hf)
    · exact endItem_marks ht h hf
    · exact recoverArray_marks h hf
    · exact skipToken_marks ht h hf.1 hf.2
    · exact trail_marks ht h (by simpa using hf)
  exact ⟨acts.focus, acts.stack, acts.faults⟩

end Step

/-! ## Whole texts -/

section Texts

variable {P : Span → Prop} {eof : Span}

theorem unwind_labels (heof : P eof) (stop : Nat) (value : Option Value)
    {faults : List PlacedFault} (hfaults : ∀ f ∈ faults, ∀ q ∈ f.spans, P q) {stack : List Place}
    (hstack : ∀ place ∈ stack, ∀ q ∈ place.spans, P q) :
    ∀ f ∈ (unwind stop eof value faults stack).2, ∀ q ∈ f.spans, P q := by
  have more : ∀ {context : Span} {what : Expectation} {fs : List PlacedFault}, P context →
      (∀ f ∈ fs, ∀ q ∈ f.spans, P q) →
      ∀ f ∈ ⟨.expected what none context, eof⟩ :: fs, ∀ q ∈ f.spans, P q := by
    intro context what fs hc hfs
    simpa [expected_spans] using ⟨⟨heof, hc⟩, hfs⟩
  induction stack generalizing value faults with
  | nil => exact hfaults
  | cons place rest ih =>
    have hrest : ∀ p ∈ rest, ∀ q ∈ p.spans, P q :=
      fun p hp => hstack p (List.mem_cons_of_mem place hp)
    have hplace := hstack place List.mem_cons_self
    rcases place with _ | ⟨o, p⟩ | a
    · exact hfaults
    · exact ih _ (more (hplace o.opening (by simp [Place.spans])) hfaults) hrest
    · cases value with
      | some v => exact ih _ (more (hplace a.opening (by simp [Place.spans])) hfaults) hrest
      | none => exact ih _ hfaults hrest

theorem finish_labels (heof : P eof) {s : State} (h : s.Marks P)
    (hlast : ∀ q ∈ s.focus.spans, P ⟨q.start, s.lastEnd⟩) :
    ∀ f ∈ (finish eof s).2, ∀ q ∈ f.spans, P q := by
  obtain ⟨focus, stack, depth, nextId, lastEnd, faults⟩ := s
  obtain ⟨hfocus, hstack, hfaults⟩ := h
  have unwinds : ∀ (value : Option Value) (fs : List PlacedFault) {places : List Place},
      (∀ f ∈ fs, ∀ q ∈ f.spans, P q) → (∀ place ∈ places, ∀ q ∈ place.spans, P q) →
      ∀ f ∈ (unwind lastEnd eof value (fs ++ faults) places).2, ∀ q ∈ f.spans, P q := by
    intro value fs places hfs hplaces
    refine unwind_labels heof lastEnd value (fun f hf => ?_) hplaces
    exact (List.mem_append.mp hf).elim (hfs f) (hfaults f)
  have waits : ∀ {place : Place}, (∀ q ∈ place.spans, P q) →
      ∀ p ∈ place :: stack, ∀ q ∈ p.spans, P q := by
    intro place hp p hm
    rcases List.mem_cons.mp hm with rfl | hm
    · exact hp
    · exact hstack p hm
  cases focus with
  | start => exact hfaults
  | key o =>
    exact unwinds _ _ (by simpa [expected_spans, Focus.spans, heof] using hfocus) hstack
  | colon o p =>
    refine unwinds _ _ ?_ (waits hfocus)
    simpa [expected_spans, heof] using hfocus p.keySpan (by simp [Focus.spans])
  | propertyValue o p =>
    exact unwinds _ [_] (List.forall_mem_singleton.mpr (plain_spans rfl heof)) (waits hfocus)
  | propertyEnd o =>
    exact unwinds _ _ (by simpa [expected_spans, Focus.spans, heof] using hfocus) hstack
  | objectRecovery o => exact unwinds _ [] (by simp) hstack
  | item a =>
    exact unwinds _ _ (by simpa [expected_spans, Focus.spans, heof] using hfocus) hstack
  | itemEnd a =>
    exact unwinds _ _ (by simpa [expected_spans, Focus.spans, heof] using hfocus) hstack
  | arrayRecovery a => exact unwinds _ [] (by simp) hstack
  | skip start nesting place =>
    refine unwinds _ [_] ?_ (waits fun q hq => hfocus q (List.mem_cons_of_mem _ hq))
    refine List.forall_mem_singleton.mpr (plain_spans rfl ?_)
    exact hlast (.point start) List.mem_cons_self
  | done root trailing =>
    intro f hf
    rcases List.mem_append.mp hf with hf | hf
    · cases trailing with
      | none => cases hf
      | some span =>
        cases List.mem_singleton.mp hf
        exact plain_spans rfl (hfocus span (by simp [Focus.spans]))
    · exact hfaults f hf

end Texts

/-- A span of the text that is not behind an offset. -/
def Passed (source : List Char) (stop : Nat) (q : Span) : Prop := q.Within source ∧ q.stop ≤ stop

theorem Passed.stretch {source : List Char} {stop : Nat} {q : Span} (h : Passed source stop q)
    (hstop : Boundary source stop) : Passed source stop ⟨q.start, stop⟩ := by
  have hle : q.start ≤ stop := Nat.le_trans h.1.forward h.2
  exact ⟨.of_boundaries h.1.start hstop hle, Nat.le_refl _⟩

theorem bears_passed {source : List Char} {t : Lexeme Token} (ht : t.Placed source) :
    Bears (Passed source t.span.stop) t where
  token := ⟨.of_boundaries ht.start ht.stop (Nat.le_of_succ_le ht.nonempty), Nat.le_refl _⟩
  point := ⟨.of_boundaries ht.start ht.start (Nat.le_refl _), Nat.le_of_succ_le ht.nonempty⟩
  stretch := fun _ hq => hq.stretch ht.stop

theorem run_marks {source : List Char} {ts : List (Lexeme Token)}
    (placed : ∀ t ∈ ts, t.Placed source)
    (ordered : ts.Pairwise fun a b => a.span.stop ≤ b.span.start) :
    (run ts).Marks (Passed source (run ts).lastEnd) := by
  induction ts using List.reverseRecOn with
  | nil => constructor <;> simp [run, State.initial, Focus.spans]
  | append_singleton ts t ih =>
    obtain ⟨hts, -, hlast⟩ := List.pairwise_append.mp ordered
    have ht := placed t (by simp)
    have hrun := ih (fun u hu => placed u (by simp [hu])) hts
    have hle : (run ts).lastEnd ≤ t.span.start :=
      run_lastEnd_le fun u hu => hlast u hu t (by simp)
    rw [run_snoc]
    refine step_marks (bears_passed ht) (hrun.mono fun q hq => ⟨hq.1, ?_⟩)
    exact Nat.le_trans hq.2 (Nat.le_trans hle (Nat.le_of_succ_le ht.nonempty))

/-- All labels of the faults of a text lie within the text. -/
theorem build_labels (source : List Char) :
    ∀ f ∈ (build source).2, ∀ q ∈ f.spans, q.Within source := by
  have placed : ∀ t ∈ Lexeme.tokens source, t.Placed source :=
    fun _ ht => Lexeme.placed_of_mem_tokens ht
  have ordered := Lexeme.pairwise_tokens source
  have hmarks := run_marks placed ordered
  have hboundary := (run_ordered placed ordered).boundary
  intro f hf
  rcases List.mem_append.mp hf with hf | hf
  · obtain ⟨l, hl, hlf⟩ := List.mem_filterMap.mp hf
    split at hlf
    · cases hlf
      intro q hq
      cases List.mem_singleton.mp hq
      exact (Lexeme.of_mem_ofText hl).1
    · cases hlf
  · refine finish_labels ?_ (hmarks.mono fun q hq => hq.1) ?_ f (List.mem_reverse.mp hf)
    · exact .of_boundaries (boundary_end source) (boundary_end source) (Nat.le_refl _)
    · intro q hq
      exact ((hmarks.focus q hq).stretch hboundary).1

end Builder

end TemplateLint
