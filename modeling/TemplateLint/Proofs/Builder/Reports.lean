import TemplateLint.Proofs.Builder.Offsets
import TemplateLint.Proofs.Faults

/-!
# Where faults are reported

The faults that a token adds are reported at one offset, where the token begins. Only a container
nested too deep and trailing content are reported at an earlier token, the one where they begin; up
to their end nothing else is reported. So the faults of a text come in the order of the source. A
number literal is reported where it is given its number as a node, and nowhere else.
-/

namespace TemplateLint

namespace Builder

/-- Where that began which is passed over, and reported as a whole once it has ended. -/
def Focus.since? : Focus → Option Nat
  | .skip first _ _ => some first
  | .done _ trailing => trailing.map Span.start
  | _ => none

/-- The span of a token that is taken for a number and is none. -/
def malformed? (t : Lexeme Token) : Option Span :=
  match scalar? t with
  | some (_, some (.invalidNumber _)) => some t.span
  | _ => none

/-- A token adds faults, all reported at an offset. A malformed number is among them if the token
is given a number. -/
structure ReportsAt (t : Lexeme Token) (start : Nat) (s s' : State) : Prop where
  faults : ∃ fs, s'.faults = fs ++ s.faults ∧
    (∀ f ∈ fs, f.span.start = start ∧ f.fault ≠ .unknownCharacter) ∧
    fs.filterMap PlacedFault.malformed? =
      if s'.nextId = s.nextId then [] else (malformed? t).toList
  since : ∀ x, s'.focus.since? = some x → x = start

@[simp] theorem Place.since?_receive (place : Place) (value : Option Value) (stop : Nat) :
    (place.receive value stop).since? = none := by
  rcases place with _ | ⟨o, p⟩ | a
  · rfl
  · rfl
  · cases value <;> rfl

theorem malformed?_of_scalar {t : Lexeme Token} {content : Scalar} {fault : Option Fault}
    (h : scalar? t = some (content, fault)) :
    (malformed? t).toList = (fault.map (PlacedFault.mk · t.span)).toList.filterMap
      PlacedFault.malformed? := by
  unfold malformed?
  rw [h]
  cases fault with
  | none => rfl
  | some fault => cases fault <;> rfl

theorem malformed?_of_scalar_none {t : Lexeme Token} (h : scalar? t = none) :
    malformed? t = none := by
  unfold malformed?
  rw [h]

/-- What is wrong with a value's own token, if anything. -/
theorem fault_of_scalar {t : Lexeme Token} {content : Scalar} {fault : Fault}
    (h : scalar? t = some (content, some fault)) :
    fault = .unterminatedString ∨ fault = .invalidString ∨
      t.kind = .number ∧ fault = .invalidNumber t.text := by
  have text (content : Scalar) (h : some (Scalar.string (stringText t).1, (stringText t).2) =
      some (content, some fault)) : fault = .unterminatedString ∨ fault = .invalidString := by
    have hs : (stringText t).2 = some fault := congrArg Prod.snd (Option.some.inj h)
    unfold stringText at hs
    split at hs
    · cases hs
      exact .inl rfl
    · split at hs <;> cases hs
      exact .inr rfl
  unfold scalar? at h
  split at h
  · exact (text content h).elim .inl fun h => .inr (.inl h)
  · exact (text content h).elim .inl fun h => .inr (.inl h)
  · rename_i hkind
    have hn : (numberScalar t).2 = some fault := congrArg Prod.snd (Option.some.inj h)
    refine .inr (.inr ⟨hkind, ?_⟩)
    unfold numberScalar at hn
    split at hn
    · cases hn
      rfl
    · split at hn <;> cases hn
      rfl
  all_goals cases h

/-! ## One token -/

namespace ReportsAt

variable {t : Lexeme Token} {start : Nat} {s s' : State}

/-- A step that reports nothing. -/
theorem silent (hf : s'.faults = s.faults) (hn : s'.nextId = s.nextId)
    (since : ∀ x, s'.focus.since? = some x → x = start) : ReportsAt t start s s' :=
  ⟨⟨[], hf, by simp, by simp [hn]⟩, since⟩

/-- A fault at the offset may be reported first. -/
theorem of_report {fault : Fault} {span : Span} (h : ReportsAt t start (s.report fault span) s')
    (hf : fault.ofStructure = true) (hstart : span.start = start) : ReportsAt t start s s' := by
  obtain ⟨⟨fs, hfs, places, hmalformed⟩, since⟩ := h
  refine ⟨⟨fs ++ [⟨fault, span⟩], by simp [hfs, State.report], ?_, ?_⟩, since⟩
  · intro f hm
    rcases List.mem_append.mp hm with hm | hm
    · exact places f hm
    · cases List.mem_singleton.mp hm
      exact ⟨hstart, Fault.ne_unknown_of_structure hf⟩
  · have none : [PlacedFault.mk fault span].filterMap PlacedFault.malformed? = [] := by
      rw [List.filterMap_cons_none (PlacedFault.malformed?_of_structure hf)]
      rfl
    rw [List.filterMap_append, none, List.append_nil, hmalformed]
    rfl

/-- A token is given a number, and what is wrong with it is reported. -/
theorem of_scalar {content : Scalar} {fault : Option Fault} {focus : Focus}
    (h : scalar? t = some (content, fault)) (hfocus : focus.since? = none) :
    ReportsAt t t.span.start s
      { s.reportAny fault t.span with focus := focus, nextId := s.nextId + 1 } := by
  rw [reportAny_eq]
  refine ⟨⟨(fault.map (⟨·, t.span⟩)).toList, rfl, ?_, ?_⟩, ?_⟩
  · intro f hf
    obtain ⟨k, rfl, rfl⟩ := Option.map_eq_some_iff.mp (Option.mem_toList.mp hf)
    refine ⟨rfl, ?_⟩
    rcases fault_of_scalar h with rfl | rfl | ⟨-, rfl⟩ <;> exact nofun
  · rw [if_neg (Nat.succ_ne_self _), malformed?_of_scalar h]
  · intro x hx
    change focus.since? = some x at hx
    rw [hfocus] at hx
    cases hx

end ReportsAt

section Step

variable {t : Lexeme Token} {s : State}

theorem closeContainer_reports (v : Value) (stop start : Nat) :
    ReportsAt t start s (s.closeContainer v stop) := by
  obtain ⟨focus, stack, depth, nextId, lastEnd, faults⟩ := s
  cases stack with
  | nil => exact .silent rfl rfl (by simp [State.closeContainer, State.withFocus, Focus.since?])
  | cons place rest => exact .silent rfl rfl (by simp [State.closeContainer])

theorem recoverObject_reports (o : OpenObject) (start : Nat) :
    ReportsAt t start s (recoverObject o t s) := by
  unfold recoverObject
  split
  · exact closeContainer_reports _ _ _
  · exact .silent rfl rfl nofun
  · exact .silent rfl rfl nofun

theorem recoverArray_reports (a : OpenArray) (start : Nat) :
    ReportsAt t start s (recoverArray a t s) := by
  unfold recoverArray
  split
  · exact closeContainer_reports _ _ _
  · exact .silent rfl rfl nofun
  · exact .silent rfl rfl nofun

theorem endProperty_reports (o : OpenObject) : ReportsAt t t.span.start s (endProperty o t s) := by
  unfold endProperty
  split
  · exact recoverObject_reports o _
  · exact (recoverObject_reports o _).of_report rfl rfl

theorem endItem_reports (a : OpenArray) : ReportsAt t t.span.start s (endItem a t s) := by
  unfold endItem
  split
  · exact recoverArray_reports a _
  · exact (recoverArray_reports a _).of_report rfl rfl

theorem trail_reports (root : Option Value) (trailing : Option Span) :
    ReportsAt t (trailing.getD t.span).start s (trail root trailing t s) := by
  refine .silent rfl rfl fun x hx => ?_
  cases hx
  rfl

theorem refuse_reports (place : Place) : ReportsAt t t.span.start s (refuse place t s) := by
  rcases place with _ | ⟨o, p⟩ | a
  · exact trail_reports none none
  · exact endProperty_reports _
  · exact recoverArray_reports a _

theorem beginValue_reports (place : Place) : ReportsAt t t.span.start s (beginValue place t s) := by
  unfold beginValue
  split
  · rename_i content fault hscalar
    exact .of_scalar hscalar (place.since?_receive _ _)
  · rename_i hscalar
    have skips : ReportsAt t t.span.start s (s.withFocus (.skip t.span.start 0 place)) := by
      refine .silent rfl rfl fun x hx => ?_
      cases hx
      rfl
    have opens (focus : Focus) (hfocus : focus.since? = none) :
        ReportsAt t t.span.start s (s.openContainer place focus) := by
      refine ⟨⟨[], rfl, by simp, ?_⟩, ?_⟩
      · simp [State.openContainer, malformed?_of_scalar_none hscalar]
      · simp [State.openContainer, hfocus]
    split
    · split
      · exact skips
      · exact opens _ rfl
    · split
      · exact skips
      · exact opens _ rfl
    · have receives : ReportsAt t t.span.start (s.report (.expectedValue (some t.kind)) t.span)
          ((s.report (.expectedValue (some t.kind)) t.span).withFocus
            (place.receive none t.span.stop)) :=
        .silent rfl rfl (by simp [State.withFocus])
      exact receives.of_report rfl rfl
    · exact (refuse_reports place).of_report rfl rfl

theorem beginProperty_reports (o : OpenObject) :
    ReportsAt t t.span.start s (beginProperty o t s) := by
  have key (h : t.kind = .string ∨ t.kind = .unterminatedString) :
      ReportsAt t t.span.start s { s.reportAny (stringText t).2 t.span with
        focus := .colon o ⟨s.nextId, (stringText t).1, t.span⟩, nextId := s.nextId + 1 } := by
    have text : scalar? t = some (.string (stringText t).1, (stringText t).2) := by
      rcases h with h | h <;> simp [scalar?, h]
    exact .of_scalar text rfl
  unfold beginProperty
  split
  · exact recoverObject_reports o _
  · exact key (.inl ‹_›)
  · exact key (.inr ‹_›)
  · exact (recoverObject_reports o _).of_report rfl rfl

theorem beginColon_reports (o : OpenObject) (p : OpenProperty) :
    ReportsAt t t.span.start s (beginColon o p t s) := by
  unfold beginColon
  split
  · exact .silent rfl rfl nofun
  · exact (endProperty_reports _).of_report rfl rfl

/-- A container nested too deep is reported where it began. -/
theorem skipToken_reports (start nesting : Nat) (place : Place) :
    ReportsAt t start s
      (skipToken start nesting place t (s.withFocus (.skip start nesting place))) := by
  have goes (n : Nat) : ReportsAt t start s (s.withFocus (.skip start n place)) := by
    refine .silent rfl rfl fun x hx => ?_
    cases hx
    rfl
  have ends : ReportsAt t start s ((s.report .nestingTooDeep ⟨start, t.span.stop⟩).withFocus
      (place.receive none t.span.stop)) := by
    have receives : ReportsAt t start (s.report .nestingTooDeep ⟨start, t.span.stop⟩)
        ((s.report .nestingTooDeep ⟨start, t.span.stop⟩).withFocus
          (place.receive none t.span.stop)) :=
      .silent rfl rfl (by simp [State.withFocus])
    exact receives.of_report rfl rfl
  unfold skipToken
  split
  · exact goes _
  · exact goes _
  · exact ends
  · exact ends
  · exact goes _
  · exact goes _
  · exact goes _

/-- A token reports where it begins, or where that began which it belongs to. -/
theorem step_reports : ReportsAt t (s.focus.since?.getD t.span.start) s (step s t) := by
  have acts : ReportsAt t (s.focus.since?.getD t.span.start) s (act t s) := by
    obtain ⟨focus, stack, depth, nextId, lastEnd, faults⟩ := s
    cases focus with
    | start => exact beginValue_reports .root
    | key o => exact beginProperty_reports o
    | colon o p => exact beginColon_reports o p
    | propertyValue o p => exact beginValue_reports (.property o p)
    | propertyEnd o => exact endProperty_reports o
    | objectRecovery o => exact recoverObject_reports o _
    | item a =>
      simp only [act]
      split
      · exact recoverArray_reports a _
      · exact beginValue_reports (.item a)
    | itemEnd a => exact endItem_reports a
    | arrayRecovery a => exact recoverArray_reports a _
    | skip start nesting place => exact skipToken_reports start nesting place
    | done root trailing =>
      have same : (Focus.done root trailing).since?.getD t.span.start =
          (trailing.getD t.span).start := by
        cases trailing <;> rfl
      rw [same]
      exact trail_reports root trailing
  exact ⟨acts.faults, acts.since⟩

end Step

/-! ## All tokens -/

/-- The faults so far, the latest first, stand in the order of the source up to an offset; behind
the start of what is being passed over there are none. -/
structure State.Reported (offset : Nat) (s : State) : Prop where
  ordered : s.faults.Pairwise fun f g => g.span.start ≤ f.span.start
  behind : ∀ f ∈ s.faults, f.span.start ≤ s.focus.since?.getD offset
  since : ∀ x, s.focus.since? = some x → x ≤ offset
  known : ∀ f ∈ s.faults, f.fault ≠ .unknownCharacter

namespace State.Reported

variable {s s' : State} {t : Lexeme Token} {a b : Nat}

theorem mono (h : s.Reported a) (hab : a ≤ b) : s.Reported b := by
  obtain ⟨ordered, behind, since, known⟩ := h
  refine ⟨ordered, fun f hf => ?_, fun x hx => Nat.le_trans (since x hx) hab, known⟩
  have hfa := behind f hf
  cases hx : s.focus.since? with
  | none =>
    rw [hx] at hfa
    exact Nat.le_trans hfa hab
  | some x =>
    rw [hx] at hfa
    exact hfa

theorem since_le (h : s.Reported a) : s.focus.since?.getD a ≤ a := by
  cases hx : s.focus.since? with
  | none => exact Nat.le_refl a
  | some x => exact h.since x hx

/-- What is added at the offset at which a token reports comes behind all that was there. -/
theorem reports (h : s.Reported a) (hr : ReportsAt t (s.focus.since?.getD a) s s') :
    s'.Reported a := by
  obtain ⟨⟨fs, hfs, places, -⟩, since⟩ := hr
  have behind : ∀ f ∈ s'.faults, f.span.start ≤ s.focus.since?.getD a := by
    intro f hf
    rw [hfs] at hf
    rcases List.mem_append.mp hf with hf | hf
    · exact Nat.le_of_eq (places f hf).1
    · exact h.behind f hf
  refine ⟨?_, fun f hf => ?_, fun x hx => ?_, fun f hf => ?_⟩
  · rw [hfs]
    refine List.pairwise_append.mpr ⟨?_, h.ordered, fun f hf g hg => ?_⟩
    · refine List.pairwise_of_forall_mem_list fun f hf g hg => ?_
      rw [(places f hf).1, (places g hg).1]
    · rw [(places f hf).1]
      exact h.behind g hg
  · cases hx : s'.focus.since? with
    | none => exact Nat.le_trans (behind f hf) h.since_le
    | some x => exact since x hx ▸ behind f hf
  · exact since x hx ▸ h.since_le
  · rw [hfs] at hf
    rcases List.mem_append.mp hf with hf | hf
    · exact (places f hf).2
    · exact h.known f hf

end State.Reported

theorem run_reported {source : List Char} {ts : List (Lexeme Token)}
    (placed : ∀ t ∈ ts, t.Placed source)
    (ordered : ts.Pairwise fun a b => a.span.stop ≤ b.span.start) :
    (run ts).Reported (run ts).lastEnd := by
  induction ts using List.reverseRecOn with
  | nil => constructor <;> simp [run, State.initial, Focus.since?]
  | append_singleton ts t ih =>
    obtain ⟨hts, -, hlast⟩ := List.pairwise_append.mp ordered
    have hrun := ih (fun u hu => placed u (by simp [hu])) hts
    have hle : (run ts).lastEnd ≤ t.span.start :=
      run_lastEnd_le fun u hu => hlast u hu t (by simp)
    have hstep := (hrun.mono hle).reports (t := t) step_reports
    rw [run_snoc]
    exact hstep.mono (Nat.le_of_succ_le (placed t (by simp)).nonempty)

/-! ## The end of the text -/

/-- Open containers are reported at the end of the text. -/
theorem unwind_reports_atEnd (stop : Nat) (eof : Span) (value : Option Value)
    (faults : List PlacedFault) (stack : List Place) :
    ∃ fs, (unwind stop eof value faults stack).2 = fs ++ faults ∧
      ∀ f ∈ fs, f.span = eof ∧ f.fault.ofStructure = true := by
  induction stack generalizing value faults with
  | nil => exact ⟨[], rfl, by simp⟩
  | cons place rest ih =>
    have more (v : Option Value) (what : Expectation) (context : Span) :
        ∃ fs, (unwind stop eof v (⟨.expected what none context, eof⟩ :: faults) rest).2 =
          fs ++ faults ∧ ∀ f ∈ fs, f.span = eof ∧ f.fault.ofStructure = true := by
      obtain ⟨fs, hfs, places⟩ := ih v (⟨.expected what none context, eof⟩ :: faults)
      refine ⟨fs ++ [⟨.expected what none context, eof⟩], by simp [hfs], fun f hf => ?_⟩
      rcases List.mem_append.mp hf with hf | hf
      · exact places f hf
      · cases List.mem_singleton.mp hf
        exact ⟨rfl, rfl⟩
    rcases place with _ | ⟨o, p⟩ | a
    · exact ⟨[], rfl, by simp⟩
    · exact more _ _ _
    · cases value with
      | some v => exact more _ _ _
      | none => exact ih _ _

/-- The end of the text is reported behind all that is in it, and first of all what is being passed
over then. -/
theorem finish_reports {eof : Span} {s : State} (h : s.Reported eof.start) :
    ∃ fs, (finish eof s).2 = fs ++ s.faults ∧
      (fs ++ s.faults).Pairwise (fun f g => g.span.start ≤ f.span.start) ∧
      ∀ f ∈ fs, f.fault.ofStructure = true := by
  obtain ⟨focus, stack, depth, nextId, lastEnd, faults⟩ := s
  have between := h.since_le
  obtain ⟨ordered, behind, -, -⟩ := h
  -- `fs` holds what is reported of the focus itself, one fault at most
  have unwinds (value : Option Value) (fs : List PlacedFault) (places : List Place)
      (hlen : fs.length ≤ 1) (hfs : ∀ f ∈ fs, focus.since?.getD eof.start ≤ f.span.start ∧
        f.span.start ≤ eof.start ∧ f.fault.ofStructure = true) :
      ∃ gs, (unwind lastEnd eof value (fs ++ faults) places).2 = gs ++ faults ∧
        (gs ++ faults).Pairwise (fun f g => g.span.start ≤ f.span.start) ∧
        ∀ f ∈ gs, f.fault.ofStructure = true := by
    obtain ⟨ends, hends, atEnd⟩ := unwind_reports_atEnd lastEnd eof value (fs ++ faults) places
    have single : fs.Pairwise fun f g => g.span.start ≤ f.span.start := by
      match fs, hlen with
      | [], _ => exact List.Pairwise.nil
      | [f], _ => exact List.pairwise_singleton _ f
    have inner : (fs ++ faults).Pairwise fun f g => g.span.start ≤ f.span.start :=
      List.pairwise_append.mpr ⟨single, ordered, fun f hf g hg =>
        Nat.le_trans (behind g hg) (hfs f hf).1⟩
    have below : ∀ g ∈ fs ++ faults, g.span.start ≤ eof.start := by
      intro g hg
      rcases List.mem_append.mp hg with hg | hg
      · exact (hfs g hg).2.1
      · exact Nat.le_trans (behind g hg) between
    refine ⟨ends ++ fs, by rw [hends, List.append_assoc], ?_, fun f hf => ?_⟩
    · rw [List.append_assoc]
      refine List.pairwise_append.mpr ⟨?_, inner, fun f hf g hg => ?_⟩
      · refine List.pairwise_of_forall_mem_list fun f hf g hg => ?_
        rw [(atEnd f hf).1, (atEnd g hg).1]
      · rw [(atEnd f hf).1]
        exact below g hg
    · rcases List.mem_append.mp hf with hf | hf
      · exact (atEnd f hf).2
      · exact (hfs f hf).2.2
  have ending (value : Option Value) (fault : Fault) (places : List Place)
      (hf : fault.ofStructure = true) := unwinds value [⟨fault, eof⟩] places (Nat.le_refl 1)
    (List.forall_mem_singleton.mpr ⟨between, Nat.le_refl _, hf⟩)
  cases focus with
  | start => exact ⟨[], rfl, ordered, by simp⟩
  | key o => exact ending _ _ _ rfl
  | colon o p => exact ending _ _ _ rfl
  | propertyValue o p => exact ending _ _ _ rfl
  | propertyEnd o => exact ending _ _ _ rfl
  | objectRecovery o => exact unwinds _ [] _ (Nat.zero_le 1) (by simp)
  | item a => exact ending _ _ _ rfl
  | itemEnd a => exact ending _ _ _ rfl
  | arrayRecovery a => exact unwinds _ [] _ (Nat.zero_le 1) (by simp)
  | skip start nesting place =>
    exact unwinds _ [⟨.nestingTooDeep, ⟨start, lastEnd⟩⟩] _ (Nat.le_refl 1)
      (List.forall_mem_singleton.mpr ⟨Nat.le_refl _, between, rfl⟩)
  | done root trailing =>
    cases trailing with
    | none => exact ⟨[], rfl, ordered, by simp⟩
    | some span =>
      refine ⟨[⟨.trailingContent, span⟩], rfl, List.pairwise_cons.mpr ⟨behind, ordered⟩, ?_⟩
      exact List.forall_mem_singleton.mpr rfl

end Builder

end TemplateLint
