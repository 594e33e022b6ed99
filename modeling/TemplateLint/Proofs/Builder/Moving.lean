import TemplateLint.Proofs.Lexemes
import TemplateLint.Proofs.Tree.Moving

/-!
# Moved tokens

Nothing that is built from tokens is decided by where they stand: a step that
takes a moved token in a moved state leads to the moved state. So the tokens of
a text may be moved anywhere, each by itself; the tree moves with them, and what
is reported is the same but for its places.
-/

namespace TemplateLint

variable (f : Nat → Nat)

def Lexeme.move {κ : Type} (t : Lexeme κ) : Lexeme κ := { t with span := t.span.move f }

def Fault.move : Fault → Fault
  | expected what found context => expected what found (context.move f)
  | fault => fault

def PlacedFault.move (p : PlacedFault) : PlacedFault := ⟨p.fault.move f, p.span.move f⟩

namespace Builder

def OpenObject.move (o : OpenObject) : OpenObject :=
  ⟨o.id, o.opening.move f, o.properties.map (PropertyOf.move f)⟩

def OpenArray.move (a : OpenArray) : OpenArray :=
  ⟨a.id, a.opening.move f, a.items.map (Value.move f)⟩

def OpenProperty.move (p : OpenProperty) : OpenProperty := ⟨p.id, p.key, p.keySpan.move f⟩

def Place.move : Place → Place
  | root => root
  | property o p => property (o.move f) (p.move f)
  | item a => item (a.move f)

def Focus.move : Focus → Focus
  | start => start
  | key o => key (o.move f)
  | colon o p => colon (o.move f) (p.move f)
  | propertyValue o p => propertyValue (o.move f) (p.move f)
  | propertyEnd o => propertyEnd (o.move f)
  | objectRecovery o => objectRecovery (o.move f)
  | item a => item (a.move f)
  | itemEnd a => itemEnd (a.move f)
  | arrayRecovery a => arrayRecovery (a.move f)
  | skip first nesting place => skip (f first) nesting (place.move f)
  | done root trailing => done (root.map (Value.move f)) (trailing.map (Span.move f))

def State.move (s : State) : State :=
  ⟨s.focus.move f, s.stack.map (Place.move f), s.depth, s.nextId, f s.lastEnd,
    s.faults.map (PlacedFault.move f)⟩

variable {f}

/-! ## Values and containers -/

@[simp] theorem close_move (o : OpenObject) (stop : Nat) :
    (o.move f).close (f stop) = (o.close stop).move f := by
  simp [OpenObject.move, OpenObject.close, Span.move]

@[simp] theorem closeArray_move (a : OpenArray) (stop : Nat) :
    (a.move f).close (f stop) = (a.close stop).move f := by
  simp [OpenArray.move, OpenArray.close, Span.move]

@[simp] theorem add_move (o : OpenObject) (p : OpenProperty) (value : Option Value) (stop : Nat) :
    (o.move f).add ((p.move f).close (value.map (Value.move f)) (f stop)) =
      (o.add (p.close value stop)).move f := rfl

@[simp] theorem addItem_move (a : OpenArray) (v : Value) :
    (a.move f).add (v.move f) = (a.add v).move f := rfl

@[simp] theorem receive_move (place : Place) (value : Option Value) (stop : Nat) :
    (place.move f).receive (value.map (Value.move f)) (f stop) =
      (place.receive value stop).move f := by
  rcases place with _ | ⟨o, p⟩ | a
  · rfl
  · rfl
  · cases value <;> rfl

/-! ## One token -/

section Step

variable (t : Lexeme Token) (s : State)

theorem stringText_move : stringText (t.move f) = stringText t := rfl

theorem scalar?_move : scalar? (t.move f) = scalar? t := rfl

/-- What is wrong with a string has no place but its own. -/
theorem fault_move_of_stringText {text : String} {fault : Fault}
    (h : stringText t = (text, some fault)) : fault.move f = fault := by
  unfold stringText at h
  split at h
  · cases h
    rfl
  · split at h <;> cases h
    rfl

theorem fault_move_of_scalar? {content : Scalar} {fault : Fault}
    (h : scalar? t = some (content, some fault)) : fault.move f = fault := by
  have ofNumber : ∀ {content fault}, numberScalar t = (content, some fault) →
      fault.move f = fault := by
    intro content fault hn
    simp only [numberScalar] at hn
    split at hn
    · cases hn
      rfl
    · split at hn <;> cases hn
      rfl
  unfold scalar? at h
  split at h
  · exact fault_move_of_stringText t (Prod.ext rfl (Prod.mk.inj (Option.some.inj h)).2)
  · exact fault_move_of_stringText t (Prod.ext rfl (Prod.mk.inj (Option.some.inj h)).2)
  · exact ofNumber (Option.some.inj h)
  all_goals cases h

/-- A token that names or makes a value, whatever is wrong with it. -/
theorem take_move (fault : Option Fault) (plain : ∀ g ∈ fault, g.move f = g) (span : Span)
    (focus : Focus) (nextId : Nat) :
    State.move f { s.reportAny fault span with focus := focus, nextId := nextId } =
      { (s.move f).reportAny fault (span.move f) with focus := focus.move f, nextId := nextId } := by
  cases fault with
  | none => rfl
  | some g =>
    have hg := plain g rfl
    simp [State.reportAny, State.report, State.move, PlacedFault.move, hg]

theorem closeContainer_move (v : Value) (stop : Nat) :
    (s.closeContainer v stop).move f = (s.move f).closeContainer (v.move f) (f stop) := by
  obtain ⟨focus, _ | ⟨place, stack⟩, depth, nextId, lastEnd, faults⟩ := s
  · rfl
  · have received := receive_move (f := f) place (some v) stop
    simp only [State.closeContainer, State.move, List.map_cons, ← received]
    rfl

theorem recoverObject_move (o : OpenObject) :
    (recoverObject o t s).move f = recoverObject (o.move f) (t.move f) (s.move f) := by
  unfold recoverObject
  rw [show (t.move f).kind = t.kind from rfl]
  split
  · rw [closeContainer_move, ← close_move]
    rfl
  · rfl
  · rfl

theorem recoverArray_move (a : OpenArray) :
    (recoverArray a t s).move f = recoverArray (a.move f) (t.move f) (s.move f) := by
  unfold recoverArray
  rw [show (t.move f).kind = t.kind from rfl]
  split
  · rw [closeContainer_move, ← closeArray_move]
    rfl
  · rfl
  · rfl

theorem endProperty_move (o : OpenObject) :
    (endProperty o t s).move f = endProperty (o.move f) (t.move f) (s.move f) := by
  unfold endProperty
  rw [show (t.move f).kind = t.kind from rfl]
  split
  · exact recoverObject_move t s o
  · exact recoverObject_move t _ o

theorem endItem_move (a : OpenArray) :
    (endItem a t s).move f = endItem (a.move f) (t.move f) (s.move f) := by
  unfold endItem
  rw [show (t.move f).kind = t.kind from rfl]
  split
  · exact recoverArray_move t s a
  · exact recoverArray_move t _ a

theorem trail_move (root : Option Value) (trailing : Option Span) :
    (trail root trailing t s).move f =
      trail (root.map (Value.move f)) (trailing.map (Span.move f)) (t.move f) (s.move f) := by
  cases trailing <;> rfl

theorem refuse_move (place : Place) :
    (refuse place t s).move f = refuse (place.move f) (t.move f) (s.move f) := by
  rcases place with _ | ⟨o, p⟩ | a
  · exact trail_move t s none none
  · exact endProperty_move t s _
  · exact recoverArray_move t s a

theorem beginValue_move (place : Place) :
    (beginValue place t s).move f = beginValue (place.move f) (t.move f) (s.move f) := by
  unfold beginValue
  rw [scalar?_move, show (t.move f).kind = t.kind from rfl]
  cases h : scalar? t with
  | some result =>
    obtain ⟨content, fault⟩ := result
    have plain : ∀ g ∈ fault, g.move f = g := by
      intro g hg
      cases hg
      exact fault_move_of_scalar? t h
    have received := receive_move (f := f) place (some (.scalar s.nextId t.span content)) t.span.stop
    simp only [Option.map_some, Value.move_scalar] at received
    exact (take_move s fault plain t.span _ _).trans (by rw [← received]; rfl)
  | none =>
    have depth : (s.move f).depth = s.depth := rfl
    simp only [depth]
    split
    · split <;> rfl
    · split <;> rfl
    · have received := receive_move (f := f) place none t.span.stop
      simp only [State.move, State.report, State.withFocus, ← received]
      rfl
    · exact refuse_move t _ place

theorem beginProperty_move (o : OpenObject) :
    (beginProperty o t s).move f = beginProperty (o.move f) (t.move f) (s.move f) := by
  have named : State.move f
      { s.reportAny (stringText t).2 t.span with
        focus := .colon o ⟨s.nextId, (stringText t).1, t.span⟩, nextId := s.nextId + 1 } =
      { (s.move f).reportAny (stringText t).2 (t.span.move f) with
        focus := .colon (o.move f) ⟨s.nextId, (stringText t).1, t.span.move f⟩
        nextId := s.nextId + 1 } := by
    refine take_move s _ ?_ t.span _ _
    intro g hg
    exact fault_move_of_stringText t (Prod.ext rfl hg)
  unfold beginProperty
  rw [stringText_move, show (t.move f).kind = t.kind from rfl]
  split
  · exact recoverObject_move t s o
  · exact named
  · exact named
  · exact recoverObject_move t _ o

theorem beginColon_move (o : OpenObject) (p : OpenProperty) :
    (beginColon o p t s).move f = beginColon (o.move f) (p.move f) (t.move f) (s.move f) := by
  unfold beginColon
  rw [show (t.move f).kind = t.kind from rfl]
  split
  · rfl
  · exact endProperty_move t _ _

theorem skipToken_move (start nesting : Nat) (place : Place) :
    (skipToken start nesting place t s).move f =
      skipToken (f start) nesting (place.move f) (t.move f) (s.move f) := by
  have refused : ((s.report .nestingTooDeep ⟨start, t.span.stop⟩).withFocus
      (place.receive none t.span.stop)).move f =
      ((s.move f).report .nestingTooDeep ⟨f start, f t.span.stop⟩).withFocus
        ((place.move f).receive none (f t.span.stop)) := by
    have received := receive_move (f := f) place none t.span.stop
    rw [show (none : Option Value) = (none : Option Value).map (Value.move f) from rfl, received]
    rfl
  unfold skipToken
  rw [show (t.move f).kind = t.kind from rfl]
  split
  case h_3 | h_4 => exact refused
  all_goals rfl

theorem act_move : (act t s).move f = act (t.move f) (s.move f) := by
  obtain ⟨focus, stack, depth, nextId, lastEnd, faults⟩ := s
  cases focus with
  | start => exact beginValue_move t _ .root
  | key o => exact beginProperty_move t _ o
  | colon o p => exact beginColon_move t _ o p
  | propertyValue o p => exact beginValue_move t _ (.property o p)
  | propertyEnd o => exact endProperty_move t _ o
  | objectRecovery o => exact recoverObject_move t _ o
  | item a =>
    simp only [act]
    rw [apply_ite (State.move f), recoverArray_move, beginValue_move]
    rfl
  | itemEnd a => exact endItem_move t _ a
  | arrayRecovery a => exact recoverArray_move t _ a
  | skip start nesting place => exact skipToken_move t _ start nesting place
  | done root trailing => exact trail_move t _ root trailing

theorem step_move : (step s t).move f = step (s.move f) (t.move f) := by
  unfold step
  rw [← act_move]
  rfl

end Step

/-! ## Whole runs -/

theorem foldl_step_move (ts : List (Lexeme Token)) (s : State) :
    (ts.foldl step s).move f = (ts.map (Lexeme.move f)).foldl step (s.move f) := by
  induction ts generalizing s with
  | nil => rfl
  | cons t rest ih => rw [List.foldl_cons, List.map_cons, List.foldl_cons, ih, step_move]

theorem unwind_move (stop : Nat) (eof : Span) (value : Option Value) (faults : List PlacedFault)
    (stack : List Place) :
    unwind (f stop) (eof.move f) (value.map (Value.move f)) (faults.map (PlacedFault.move f))
        (stack.map (Place.move f)) =
      ((unwind stop eof value faults stack).1.map (Value.move f),
        (unwind stop eof value faults stack).2.map (PlacedFault.move f)) := by
  induction stack generalizing value faults with
  | nil => rfl
  | cons place rest ih =>
    rcases place with _ | ⟨o, p⟩ | a
    · rfl
    · have closed := ih (some ((o.add (p.close value stop)).close stop))
        (⟨.expected .propertyEnd none o.opening, eof⟩ :: faults)
      rw [Option.map_some, ← close_move, ← add_move] at closed
      exact closed
    · cases value with
      | none =>
        have closed := ih (some (a.close stop)) faults
        rw [Option.map_some, ← closeArray_move] at closed
        exact closed
      | some v =>
        have closed := ih (some ((a.add v).close stop))
          (⟨.expected .itemEnd none a.opening, eof⟩ :: faults)
        rw [Option.map_some, ← closeArray_move, ← addItem_move] at closed
        exact closed

theorem finish_move (eof : Span) (s : State) :
    finish (eof.move f) (s.move f) =
      ((finish eof s).1.map (Value.move f), (finish eof s).2.map (PlacedFault.move f)) := by
  obtain ⟨focus, stack, depth, nextId, lastEnd, faults⟩ := s
  -- an open object or array is closed first, and then what is around it
  have objectClosed : ∀ (o : OpenObject) (fs : List PlacedFault),
      unwind (f lastEnd) (eof.move f) (some ((o.move f).close (f lastEnd)))
          ((fs ++ faults).map (PlacedFault.move f)) (stack.map (Place.move f)) =
        ((unwind lastEnd eof (some (o.close lastEnd)) (fs ++ faults) stack).1.map (Value.move f),
          (unwind lastEnd eof (some (o.close lastEnd)) (fs ++ faults) stack).2.map
            (PlacedFault.move f)) := by
    intro o fs
    rw [← unwind_move, Option.map_some, close_move]
  have arrayClosed : ∀ (a : OpenArray) (fs : List PlacedFault),
      unwind (f lastEnd) (eof.move f) (some ((a.move f).close (f lastEnd)))
          ((fs ++ faults).map (PlacedFault.move f)) (stack.map (Place.move f)) =
        ((unwind lastEnd eof (some (a.close lastEnd)) (fs ++ faults) stack).1.map (Value.move f),
          (unwind lastEnd eof (some (a.close lastEnd)) (fs ++ faults) stack).2.map
            (PlacedFault.move f)) := by
    intro a fs
    rw [← unwind_move, Option.map_some, closeArray_move]
  cases focus with
  | start => rfl
  | key o => exact objectClosed o [⟨.expected .propertyKey none o.opening, eof⟩]
  | colon o p =>
    exact unwind_move lastEnd eof none (⟨.expected .colon none p.keySpan, eof⟩ :: faults)
      (.property o p :: stack)
  | propertyValue o p =>
    exact unwind_move lastEnd eof none (⟨.expectedValue none, eof⟩ :: faults)
      (.property o p :: stack)
  | propertyEnd o => exact objectClosed o [⟨.expected .propertyEnd none o.opening, eof⟩]
  | objectRecovery o => exact objectClosed o []
  | item a => exact arrayClosed a [⟨.expected .itemOrEnd none a.opening, eof⟩]
  | itemEnd a => exact arrayClosed a [⟨.expected .itemEnd none a.opening, eof⟩]
  | arrayRecovery a => exact arrayClosed a []
  | skip start nesting place =>
    exact unwind_move lastEnd eof none (⟨.nestingTooDeep, ⟨start, lastEnd⟩⟩ :: faults)
      (place :: stack)
  | done root trailing => cases trailing <;> rfl

end Builder

end TemplateLint
