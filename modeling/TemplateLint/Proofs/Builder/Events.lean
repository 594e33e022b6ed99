import TemplateLint.Proofs.Tree.Events
import TemplateLint.Tree.Builder

/-!
# Trees being read, as events

The events of a state are those of the part of the tree that has been read. A
token adds events at the end and takes none away: it may end a property that is
left without a value, then stand for a node or end a container, and then end
the property whose value is complete. What a whole run preserves follows from
this description of one step.
-/

namespace TemplateLint.Builder

def OpenObject.events (o : OpenObject) : List Event :=
  .objectStart o.id o.opening.start :: propertyEvents o.properties.reverse

def OpenArray.events (a : OpenArray) : List Event :=
  .arrayStart a.id a.opening.start :: itemEvents a.items.reverse

def OpenProperty.event (p : OpenProperty) : Event := .key p.id p.keySpan.start p.key p.keySpan

def Place.events : Place → List Event
  | .root => []
  | .property o p => o.events ++ [p.event]
  | .item a => a.events

/-- What ends with the value that a place receives. -/
def Place.ends (hasValue : Bool) (stop : Nat) : Place → List Event
  | .property _ _ => [.propertyEnd hasValue stop]
  | _ => []

def stackEvents : List Place → List Event
  | [] => []
  | place :: rest => stackEvents rest ++ place.events

def Focus.events : Focus → List Event
  | .start => []
  | .key o => o.events
  | .colon o p => o.events ++ [p.event]
  | .propertyValue o p => o.events ++ [p.event]
  | .propertyEnd o => o.events
  | .objectRecovery o => o.events
  | .item a => a.events
  | .itemEnd a => a.events
  | .arrayRecovery a => a.events
  | .skip _ _ place => place.events
  | .done root _ => valueEvents root

/-- The events of what has been read, from the outermost container to the innermost. -/
def State.events (s : State) : List Event := stackEvents s.stack ++ s.focus.events

/-- The root waits at the bottom of a stack, and nowhere else. -/
def RootedStack : List Place → Prop
  | [] => False
  | .root :: rest => rest = []
  | _ :: rest => RootedStack rest

/-- Outside the root value no container is open. -/
def Focus.Rooted (stack : List Place) : Focus → Prop
  | .start => stack = []
  | .done _ _ => stack = []
  | .skip _ _ place => RootedStack (place :: stack)
  | _ => RootedStack stack

def State.Rooted (s : State) : Prop := s.focus.Rooted s.stack

/-! ## Events of what is put together -/

theorem OpenObject.events_close (o : OpenObject) (stop : Nat) :
    (o.close stop).events = o.events ++ [.objectEnd stop] := rfl

theorem OpenArray.events_close (a : OpenArray) (stop : Nat) :
    (a.close stop).events = a.events ++ [.arrayEnd stop] := rfl

theorem OpenObject.events_add (o : OpenObject) (p : OpenProperty) (value : Option Value)
    (stop : Nat) : (o.add (p.close value stop)).events =
      o.events ++ (p.event :: (valueEvents value ++ [.propertyEnd value.isSome stop])) := by
  simp [OpenObject.events, OpenObject.add, OpenProperty.close, OpenProperty.event,
    Node.propertyEvents_eq, Node.events, Node.first, Node.last]

theorem OpenArray.events_add (a : OpenArray) (v : Value) :
    (a.add v).events = a.events ++ v.events := by
  simp [OpenArray.events, OpenArray.add, Node.itemEvents_eq]

theorem Place.events_receive (place : Place) (value : Option Value) (stop : Nat) :
    (place.receive value stop).events =
      place.events ++ (valueEvents value ++ place.ends value.isSome stop) := by
  rcases place with _ | ⟨o, p⟩ | a
  · simp [receive, Focus.events, events, ends]
  · simp [receive, Focus.events, events, ends, OpenObject.events_add]
  · cases value <;> simp [receive, Focus.events, events, ends, OpenArray.events_add]

theorem Place.rooted_receive {place : Place} {stack : List Place}
    (h : RootedStack (place :: stack)) (value : Option Value) (stop : Nat) :
    (place.receive value stop).Rooted stack := by
  rcases place with _ | ⟨o, p⟩ | a
  · exact h
  · exact h
  · cases value <;> exact h

/-! ## What a token adds -/

/-- A token stands for an event by itself: a node with the next number, or the end of one. -/
inductive Stands (t : Lexeme Token) (id : Nat) : Event → Prop where
  | objectStart : Stands t id (.objectStart id t.span.start)
  | arrayStart : Stands t id (.arrayStart id t.span.start)
  | scalar {content : Scalar} {fault : Option Fault} : scalar? t = some (content, fault) →
      Stands t id (.scalar id t.span content)
  | key : Stands t id (.key id t.span.start (stringText t).1 t.span)
  | objectEnd : Stands t id (.objectEnd t.span.stop)
  | arrayEnd : Stands t id (.arrayEnd t.span.stop)

/-- The events that a token adds when the one before it ended at an offset and the next node has
a number. -/
inductive Adds (t : Lexeme Token) (lastEnd id : Nat) : List Event → Prop where
  | nothing : Adds t lastEnd id []
  | ends (hasValue : Bool) : Adds t lastEnd id [.propertyEnd hasValue t.span.stop]
  | stands {e : Event} : Stands t id e → Adds t lastEnd id [e]
  | completes {e : Event} (hasValue : Bool) : Stands t id e →
      Adds t lastEnd id [e, .propertyEnd hasValue t.span.stop]
  | leaves {es : List Event} : Adds t lastEnd id es →
      Adds t lastEnd id (.propertyEnd false lastEnd :: es)

/-- What holds of every event that a token can add. -/
theorem Adds.forall {t : Lexeme Token} {lastEnd id : Nat} {es : List Event} {P : Event → Prop}
    (h : Adds t lastEnd id es) (stands : ∀ e, Stands t id e → P e)
    (ends : ∀ hasValue stop, P (.propertyEnd hasValue stop)) : ∀ e ∈ es, P e := by
  induction h with
  | nothing =>
    intro e he
    cases he
  | ends hasValue => exact List.forall_mem_singleton.mpr (ends hasValue _)
  | stands he => exact List.forall_mem_singleton.mpr (stands _ he)
  | completes hasValue he =>
    refine List.forall_mem_cons.mpr ⟨stands _ he, ?_⟩
    exact List.forall_mem_singleton.mpr (ends hasValue _)
  | leaves _ ih => exact List.forall_mem_cons.mpr ⟨ends false _, ih⟩

/-- Events of a text without faults: properties have values, and scalars are as their tokens
say. -/
def Clean (t : Lexeme Token) : Event → Prop
  | .propertyEnd hasValue _ => hasValue = true
  | .scalar _ _ content => scalar? t = some (content, none)
  | _ => True

/-- One token's work on a state whose events so far are given. -/
structure Advance (t : Lexeme Token) (before : List Event) (s s' : State) : Prop where
  rooted : s'.Rooted
  adds : ∃ es fs, Adds t s.lastEnd s.nextId es ∧ s'.events = before ++ es ∧
    s'.faults = fs ++ s.faults ∧ s'.nextId = s.nextId + (es.filterMap Event.id?).length ∧
    (fs = [] → ∀ e ∈ es, Clean t e)

theorem adds_stands_ends {t : Lexeme Token} {lastEnd id : Nat} {e : Event} (he : Stands t id e)
    (place : Place) (hasValue : Bool) :
    Adds t lastEnd id (e :: place.ends hasValue t.span.stop) := by
  rcases place with _ | ⟨o, p⟩ | a
  · exact .stands he
  · exact .completes hasValue he
  · exact .stands he

theorem adds_ends {t : Lexeme Token} {lastEnd id : Nat} (place : Place) (hasValue : Bool) :
    Adds t lastEnd id (place.ends hasValue t.span.stop) := by
  rcases place with _ | ⟨o, p⟩ | a
  · exact .nothing
  · exact .ends hasValue
  · exact .nothing

theorem clean_ends {t : Lexeme Token} {stop : Nat} {place : Place} {e : Event}
    (he : e ∈ place.ends true stop) : Clean t e := by
  rcases place with _ | ⟨o, p⟩ | a
  · cases he
  · cases List.mem_singleton.mp he
    rfl
  · cases he

theorem filterMap_id_ends (place : Place) (hasValue : Bool) (stop : Nat) :
    (place.ends hasValue stop).filterMap Event.id? = [] := by
  rcases place with _ | ⟨o, p⟩ | a <;> rfl

theorem reportAny_eq (fault : Option Fault) (span : Span) (s : State) : s.reportAny fault span =
    { s with faults := (fault.map (⟨·, span⟩)).toList ++ s.faults } := by
  cases fault <;> rfl

namespace Advance

variable {t : Lexeme Token} {before : List Event} {s s' : State}

/-- A step that adds no events. -/
theorem silent (hr : s'.Rooted) (he : s'.events = before) (hf : s'.faults = s.faults)
    (hn : s'.nextId = s.nextId) : Advance t before s s' :=
  ⟨hr, [], [], .nothing, by simp [he], by simp [hf], by simp [hn], by simp⟩

/-- A fault reported on the way makes any further step good. -/
theorem of_report {fault : Fault} {span : Span} (h : Advance t before (s.report fault span) s') :
    Advance t before s s' := by
  obtain ⟨hr, es, fs, hadds, he, hf, hn, -⟩ := h
  exact ⟨hr, es, fs ++ [⟨fault, span⟩], hadds, he, by simp [hf, State.report], hn, by simp⟩

/-- A fault is reported and a property is left without a value. -/
theorem of_leave {o : OpenObject} {p : OpenProperty} {fault : Fault} {span : Span}
    (h : Advance t (before ++ (o.add (p.close none s.lastEnd)).events) (s.report fault span) s') :
    Advance t (before ++ (o.events ++ [p.event])) s s' := by
  obtain ⟨hr, es, fs, hadds, he, hf, hn, -⟩ := h
  refine ⟨hr, _, fs ++ [⟨fault, span⟩], .leaves hadds, ?_, by simp [hf, State.report], ?_, by simp⟩
  · simp [he, OpenObject.events_add]
  · rw [hn, List.filterMap_cons_none rfl]
    rfl

end Advance

/-! ## One step -/

section Step

variable {t : Lexeme Token} {s : State}

/-- The end of a container completes the value that the place below it waits for. -/
theorem closeContainer_advance {v : Value} {inner : List Event} {e : Event}
    (hv : v.events = inner ++ [e]) (he : Stands t s.nextId e) (hid : e.id? = none)
    (hclean : Clean t e) (hs : RootedStack s.stack) :
    Advance t (stackEvents s.stack ++ inner) s (s.closeContainer v t.span.stop) := by
  obtain ⟨focus, stack, depth, nextId, lastEnd, faults⟩ := s
  cases stack with
  | nil => exact False.elim hs
  | cons place rest =>
    refine ⟨Place.rooted_receive hs _ _, _, [], adds_stands_ends he place true, ?_, rfl, ?_, ?_⟩
    · change stackEvents rest ++ (place.receive (some v) t.span.stop).events = _
      rw [Place.events_receive, valueEvents_some, hv, stackEvents]
      simp
    · rw [List.filterMap_cons_none hid, filterMap_id_ends]
      rfl
    · intro _ k hk
      rcases List.mem_cons.mp hk with rfl | hk
      · exact hclean
      · exact clean_ends hk

theorem recoverObject_advance (o : OpenObject) (hs : RootedStack s.stack) :
    Advance t (stackEvents s.stack ++ o.events) s (recoverObject o t s) := by
  unfold recoverObject
  split
  · exact closeContainer_advance (o.events_close _) .objectEnd rfl trivial hs
  · exact .silent hs rfl rfl rfl
  · exact .silent hs rfl rfl rfl

theorem recoverArray_advance (a : OpenArray) (hs : RootedStack s.stack) :
    Advance t (stackEvents s.stack ++ a.events) s (recoverArray a t s) := by
  unfold recoverArray
  split
  · exact closeContainer_advance (a.events_close _) .arrayEnd rfl trivial hs
  · exact .silent hs rfl rfl rfl
  · exact .silent hs rfl rfl rfl

theorem endProperty_advance (o : OpenObject) (hs : RootedStack s.stack) :
    Advance t (stackEvents s.stack ++ o.events) s (endProperty o t s) := by
  unfold endProperty
  split
  · exact recoverObject_advance o hs
  · exact .of_report (recoverObject_advance (s := s.report _ _) o hs)

theorem endItem_advance (a : OpenArray) (hs : RootedStack s.stack) :
    Advance t (stackEvents s.stack ++ a.events) s (endItem a t s) := by
  unfold endItem
  split
  · exact recoverArray_advance a hs
  · exact .of_report (recoverArray_advance (s := s.report _ _) a hs)

theorem trail_advance (root : Option Value) (trailing : Option Span) (hs : s.stack = []) :
    Advance t (stackEvents s.stack ++ valueEvents root) s (trail root trailing t s) :=
  .silent hs rfl rfl rfl

/-- A place receives nothing, and a fault says why. -/
theorem receive_none_advance {place : Place} {fault : Fault} {span : Span}
    (hs : RootedStack (place :: s.stack)) :
    Advance t (stackEvents s.stack ++ place.events) s
      ((s.report fault span).withFocus (place.receive none t.span.stop)) := by
  refine ⟨Place.rooted_receive hs _ _, _, [⟨fault, span⟩], adds_ends place false, ?_, rfl, ?_,
    by simp⟩
  · change stackEvents s.stack ++ (place.receive none t.span.stop).events = _
    rw [Place.events_receive]
    simp
  · rw [filterMap_id_ends]
    rfl

theorem refuse_advance {place : Place} {fault : Fault} {span : Span}
    (hs : RootedStack (place :: s.stack)) :
    Advance t (stackEvents s.stack ++ place.events) s (refuse place t (s.report fault span)) := by
  rcases place with _ | ⟨o, p⟩ | a
  · exact .of_report (trail_advance (s := s.report _ _) none none hs)
  · exact .of_leave (endProperty_advance (s := s.report _ _) _ hs)
  · exact .of_report (recoverArray_advance (s := s.report _ _) a hs)

theorem beginValue_advance (place : Place) (hs : RootedStack (place :: s.stack)) :
    Advance t (stackEvents s.stack ++ place.events) s (beginValue place t s) := by
  unfold beginValue
  split
  · rename_i content fault hscalar
    rw [reportAny_eq]
    refine ⟨Place.rooted_receive hs _ _, _, (fault.map (⟨·, t.span⟩)).toList,
      adds_stands_ends (.scalar hscalar) place true, ?_, ?_, ?_, ?_⟩
    · change stackEvents s.stack ++ (place.receive (some _) t.span.stop).events = _
      rw [Place.events_receive, valueEvents_some, Value.events]
      simp
    · rfl
    · have hid : (Event.scalar s.nextId t.span content).id? = some s.nextId := rfl
      rw [List.filterMap_cons_some hid, filterMap_id_ends]
      rfl
    · intro hf k hk
      rcases List.mem_cons.mp hk with rfl | hk
      · cases fault with
        | none => exact hscalar
        | some fault => cases hf
      · exact clean_ends hk
  · have opens : ∀ (focus : Focus) (e : Event), focus.events = [e] → Stands t s.nextId e →
        e.id? = some s.nextId → Clean t e → focus.Rooted (place :: s.stack) →
        Advance t (stackEvents s.stack ++ place.events) s (s.openContainer place focus) := by
      intro focus e hf he hid hclean hr
      refine ⟨hr, [e], [], .stands he, ?_, rfl, ?_, by simpa using hclean⟩
      · change stackEvents (place :: s.stack) ++ focus.events = _
        rw [hf, stackEvents]
      · rw [List.filterMap_cons_some hid]
        rfl
    split
    · split
      · exact .silent hs rfl rfl rfl
      · exact opens _ _ rfl .objectStart rfl trivial hs
    · split
      · exact .silent hs rfl rfl rfl
      · exact opens _ _ rfl .arrayStart rfl trivial hs
    · exact receive_none_advance hs
    · exact refuse_advance hs

theorem beginProperty_advance (o : OpenObject) (hs : RootedStack s.stack) :
    Advance t (stackEvents s.stack ++ o.events) s (beginProperty o t s) := by
  have key : Advance t (stackEvents s.stack ++ o.events) s
      { s.reportAny (stringText t).2 t.span with
        focus := .colon o ⟨s.nextId, (stringText t).1, t.span⟩
        nextId := s.nextId + 1 } := by
    rw [reportAny_eq]
    refine ⟨hs, _, _, .stands .key, (List.append_assoc ..).symm, rfl, rfl, fun _ k hk => ?_⟩
    cases List.mem_singleton.mp hk
    trivial
  unfold beginProperty
  split
  · exact recoverObject_advance o hs
  · exact key
  · exact key
  · exact .of_report (recoverObject_advance (s := s.report _ _) o hs)

theorem beginColon_advance (o : OpenObject) (p : OpenProperty) (hs : RootedStack s.stack) :
    Advance t (stackEvents s.stack ++ (o.events ++ [p.event])) s (beginColon o p t s) := by
  unfold beginColon
  split
  · exact .silent hs rfl rfl rfl
  · exact .of_leave (endProperty_advance (s := s.report _ _) _ hs)

theorem skipToken_advance {start nesting : Nat} {place : Place}
    (hf : s.focus = .skip start nesting place) (hs : RootedStack (place :: s.stack)) :
    Advance t (stackEvents s.stack ++ place.events) s (skipToken start nesting place t s) := by
  have stays : Advance t (stackEvents s.stack ++ place.events) s s := by
    refine .silent ?_ ?_ rfl rfl
    · rw [State.Rooted, hf]
      exact hs
    · rw [State.events, hf]
      rfl
  unfold skipToken
  split
  · exact .silent hs rfl rfl rfl
  · exact .silent hs rfl rfl rfl
  · exact receive_none_advance hs
  · exact receive_none_advance hs
  · exact .silent hs rfl rfl rfl
  · exact .silent hs rfl rfl rfl
  · exact stays

/-- Every token advances the tree: nothing that has been read is lost. -/
theorem step_advance (hs : s.Rooted) : Advance t s.events s (step s t) := by
  have acts : Advance t s.events s (act t s) := by
    unfold act State.events
    unfold State.Rooted at hs
    split
    all_goals rename_i hf; rw [hf] at hs ⊢
    · exact beginValue_advance .root hs
    · exact beginProperty_advance _ hs
    · exact beginColon_advance _ _ hs
    · exact beginValue_advance (.property _ _) hs
    · exact endProperty_advance _ hs
    · exact recoverObject_advance _ hs
    · split
      · exact recoverArray_advance _ hs
      · exact beginValue_advance (.item _) hs
    · exact endItem_advance _ hs
    · exact recoverArray_advance _ hs
    · exact skipToken_advance hf hs
    · exact trail_advance _ _ hs
  exact ⟨acts.rooted, acts.adds⟩

end Step

end TemplateLint.Builder
