import TemplateLint.Proofs.Builder.Events
import TemplateLint.Proofs.Lexemes

/-!
# Whole runs of the builder

What one token does to the events of a state is done by all tokens of a text,
and the end of the text only ends what is still open. So the events of the tree
are those of the run with a few ends behind them, and what the steps keep of
them holds of the tree: the numbers, the order of offsets and the absence of
faults.
-/

namespace TemplateLint.Builder

/-! ## The end of the text -/

/-- The events that the end of a text adds. -/
inductive Closes (stop : Nat) : Event → Prop where
  | propertyEnd (hasValue : Bool) : Closes stop (.propertyEnd hasValue stop)
  | objectEnd : Closes stop (.objectEnd stop)
  | arrayEnd : Closes stop (.arrayEnd stop)

/-- Events of a text without faults: properties have values, and scalars are what one of the
tokens stands for. -/
def Faultless (ts : List (Lexeme Token)) : Event → Prop
  | .propertyEnd hasValue _ => hasValue = true
  | .scalar _ _ content => ∃ t ∈ ts, scalar? t = some (content, none)
  | _ => True

/-- The end of a text closes what is open. -/
structure Closing (stop : Nat) (before : List Event) (faults : List PlacedFault)
    (final : Option Value × List PlacedFault) : Prop where
  closes : ∃ es fs, valueEvents final.1 = before ++ es ∧ final.2 = fs ++ faults ∧
    (∀ e ∈ es, Closes stop e) ∧ (fs = [] → ∀ e ∈ es, Faultless [] e)

/-- Ends and faults that come first. -/
theorem Closing.prepend {stop : Nat} {before : List Event} {faults : List PlacedFault}
    {final : Option Value × List PlacedFault} (es : List Event) (fs : List PlacedFault)
    (hes : ∀ e ∈ es, Closes stop e)
    (hclean : fs = [] → ∀ e ∈ es, Faultless [] e)
    (h : Closing stop (before ++ es) (fs ++ faults) final) : Closing stop before faults final := by
  obtain ⟨ks, gs, he, hf, hk, hkclean⟩ := h
  refine ⟨es ++ ks, gs ++ fs, by simp [he], by simp [hf], ?_, ?_⟩
  · intro e hm
    exact (List.mem_append.mp hm).elim (hes e) (hk e)
  · intro hnil e hm
    obtain ⟨hgs, hfs⟩ := List.append_eq_nil_iff.mp hnil
    exact (List.mem_append.mp hm).elim (hclean hfs e) (hkclean hgs e)

theorem unwind_closing (stop : Nat) (eof : Span) (value : Option Value)
    (faults : List PlacedFault) {stack : List Place} (hs : RootedStack stack) :
    Closing stop (stackEvents stack ++ valueEvents value) faults
      (unwind stop eof value faults stack) := by
  induction stack generalizing value faults with
  | nil => exact False.elim hs
  | cons place rest ih =>
    rcases place with _ | ⟨o, p⟩ | a
    · cases hs
      exact ⟨[], [], by simp [unwind, stackEvents, Place.events], rfl, by simp, by simp⟩
    · refine .prepend [.propertyEnd value.isSome stop, .objectEnd stop]
        [⟨.expected .propertyEnd none o.opening, eof⟩] ?_ (by simp) ?_
      · simp [Closes.propertyEnd, Closes.objectEnd]
      · simpa [unwind, stackEvents, Place.events, OpenObject.events_close, OpenObject.events_add]
          using ih (some ((o.add (p.close value stop)).close stop))
            (⟨.expected .propertyEnd none o.opening, eof⟩ :: faults) hs
    · cases value with
      | some v =>
        refine .prepend [.arrayEnd stop] [⟨.expected .itemEnd none a.opening, eof⟩] ?_ (by simp) ?_
        · simp [Closes.arrayEnd]
        · simpa [unwind, stackEvents, Place.events, OpenArray.events_close, OpenArray.events_add]
            using ih (some ((a.add v).close stop))
              (⟨.expected .itemEnd none a.opening, eof⟩ :: faults) hs
      | none =>
        refine .prepend [.arrayEnd stop] [] ?_ (by simp [Faultless]) ?_
        · simp [Closes.arrayEnd]
        · simpa [unwind, stackEvents, Place.events, OpenArray.events_close]
            using ih (some (a.close stop)) faults hs

theorem finish_closing (eof : Span) {s : State} (hs : s.Rooted) :
    Closing s.lastEnd s.events s.faults (finish eof s) := by
  obtain ⟨focus, stack, depth, nextId, lastEnd, faults⟩ := s
  have waits : ∀ (place : Place) (fs : List PlacedFault), RootedStack (place :: stack) →
      Closing lastEnd (stackEvents stack ++ place.events) faults
        (unwind lastEnd eof none (fs ++ faults) (place :: stack)) := by
    intro place fs hr
    refine .prepend [] fs (by simp) (by simp) ?_
    simpa [stackEvents] using unwind_closing lastEnd eof none (fs ++ faults) hr
  have closesObject : ∀ (o : OpenObject) (fs : List PlacedFault), RootedStack stack →
      Closing lastEnd (stackEvents stack ++ o.events) faults
        (unwind lastEnd eof (some (o.close lastEnd)) (fs ++ faults) stack) := by
    intro o fs hr
    refine .prepend [.objectEnd lastEnd] fs ?_ (by simp [Faultless]) ?_
    · simp [Closes.objectEnd]
    · simpa [OpenObject.events_close] using
        unwind_closing lastEnd eof (some (o.close lastEnd)) (fs ++ faults) hr
  have closesArray : ∀ (a : OpenArray) (fs : List PlacedFault), RootedStack stack →
      Closing lastEnd (stackEvents stack ++ a.events) faults
        (unwind lastEnd eof (some (a.close lastEnd)) (fs ++ faults) stack) := by
    intro a fs hr
    refine .prepend [.arrayEnd lastEnd] fs ?_ (by simp [Faultless]) ?_
    · simp [Closes.arrayEnd]
    · simpa [OpenArray.events_close] using
        unwind_closing lastEnd eof (some (a.close lastEnd)) (fs ++ faults) hr
  cases focus with
  | start =>
    cases hs
    exact ⟨[], [], rfl, rfl, by simp, by simp⟩
  | key o => exact closesObject o [_] hs
  | colon o p => exact waits (.property o p) [_] hs
  | propertyValue o p => exact waits (.property o p) [_] hs
  | propertyEnd o => exact closesObject o [_] hs
  | objectRecovery o => exact closesObject o [] hs
  | item a => exact closesArray a [_] hs
  | itemEnd a => exact closesArray a [_] hs
  | arrayRecovery a => exact closesArray a [] hs
  | skip start nesting place => exact waits place [_] hs
  | done root trailing =>
    cases hs
    exact ⟨[], _, by simp [State.events, stackEvents, Focus.events, finish], rfl, by simp, by simp⟩

/-! ## All tokens of a text -/

theorem run_snoc (ts : List (Lexeme Token)) (t : Lexeme Token) :
    run (ts ++ [t]) = step (run ts) t := by
  simp [run]

theorem run_rooted (ts : List (Lexeme Token)) : (run ts).Rooted := by
  induction ts using List.reverseRecOn with
  | nil => rfl
  | append_singleton ts t ih =>
    rw [run_snoc]
    exact (step_advance ih).rooted

theorem Clean.faultless {ts : List (Lexeme Token)} {t : Lexeme Token} {e : Event} (ht : t ∈ ts)
    (h : Clean t e) : Faultless ts e := by
  cases e with
  | propertyEnd hasValue stop => exact h
  | scalar id span content => exact ⟨t, ht, h⟩
  | _ => trivial

theorem Faultless.mono {ts us : List (Lexeme Token)} {e : Event} (hsub : ts ⊆ us)
    (h : Faultless ts e) : Faultless us e := by
  cases e with
  | propertyEnd hasValue stop => exact h
  | scalar id span content =>
    obtain ⟨t, ht, hc⟩ := h
    exact ⟨t, hsub ht, hc⟩
  | _ => trivial

theorem run_faultless {ts : List (Lexeme Token)} (h : (run ts).faults = []) :
    ∀ e ∈ (run ts).events, Faultless ts e := by
  induction ts using List.reverseRecOn with
  | nil =>
    intro e he
    cases he
  | append_singleton ts t ih =>
    rw [run_snoc] at h ⊢
    obtain ⟨es, fs, -, hevents, hfaults, -, hclean⟩ := (step_advance (t := t) (run_rooted ts)).adds
    rw [hfaults] at h
    obtain ⟨hfs, hrest⟩ := List.append_eq_nil_iff.mp h
    intro e he
    rw [hevents] at he
    rcases List.mem_append.mp he with he | he
    · exact (ih hrest e he).mono (List.subset_append_left ts [t])
    · exact (hclean hfs e he).faultless (by simp)

/-- The events of the tree of a text are those of the run, with the ends of what was open. -/
theorem build_events (source : List Char) :
    ∃ es, valueEvents (build source).1 = (run (Lexeme.tokens source)).events ++ es ∧
      (∀ e ∈ es, Closes (run (Lexeme.tokens source)).lastEnd e) ∧
      ((build source).2 = [] → (run (Lexeme.tokens source)).faults = [] ∧
        ∀ e ∈ es, Faultless [] e) := by
  obtain ⟨es, fs, he, hf, hcloses, hclean⟩ := finish_closing
    (.point (Lexeme.byteLength source)) (run_rooted (Lexeme.tokens source))
  refine ⟨es, he, hcloses, fun hnone => ?_⟩
  have hfaults := (List.append_eq_nil_iff.mp hnone).2
  rw [List.reverse_eq_nil_iff] at hfaults
  obtain ⟨hfs, hrun⟩ := List.append_eq_nil_iff.mp (hf.symm.trans hfaults)
  exact ⟨hrun, hclean hfs⟩

/-- A text without faults is a tree of complete properties and of what its tokens stand for. -/
theorem build_faultless {source : List Char} (h : (build source).2 = []) :
    ∀ e ∈ valueEvents (build source).1, Faultless (Lexeme.tokens source) e := by
  obtain ⟨es, he, -, hnone⟩ := build_events source
  obtain ⟨hrun, hends⟩ := hnone h
  intro e hm
  rw [he] at hm
  rcases List.mem_append.mp hm with hm | hm
  · exact run_faultless hrun e hm
  · exact (hends e hm).mono (List.nil_subset _)

end TemplateLint.Builder
