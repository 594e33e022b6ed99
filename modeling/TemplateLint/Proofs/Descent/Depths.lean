import TemplateLint.Proofs.Descent.Actions

/-!
# Depths of a reading

A reading counts the containers that it is in. Whatever it meets, and whichever
way it ends, an object or an array counts itself when it is entered and no more
when it is left, and everything else leaves the count alone. So a reading does
not change when every value checks that the count is the number of calls around
it, before and after.
-/

namespace TemplateLint.Descent

/-- From states of one depth two actions do the same, and end at another depth if they end. -/
def Tracks {α : Type} (d e : Nat) (m m' : Action α) : Prop :=
  ∀ s : State, s.depth = d → m s = m' s ∧ ∀ a s', m' s = some (.ok (a, s')) → s'.depth = e

/-- From states of one depth an action ends at another, if it ends. -/
def Shifts {α : Type} (d e : Nat) (m : Action α) : Prop :=
  ∀ (s : State) (a : α) (s' : State), s.depth = d → m s = some (.ok (a, s')) → s'.depth = e

section Rules

variable {α β : Type} {d e k : Nat} {m m' : Action α} {f f' : α → Action β}

theorem bind_of_none {s : State} (h : m s = none) : (m >>= f) s = none := by
  change (ExceptT.bind (m s) fun x => f x.1 x.2) = none
  rw [h]
  rfl

theorem bind_of_error {s : State} {breach : Breach} (h : m s = some (.error breach)) :
    (m >>= f) s = some (.error breach) := by
  change (ExceptT.bind (m s) fun x => f x.1 x.2) = _
  rw [h]
  rfl

theorem Tracks.shifts (h : Tracks d e m m') : Shifts d e m' :=
  fun s a s' hs hm => (h s hs).2 a s' hm

theorem tracks_pure (a : α) : Tracks d d (pure a) (pure a) := by
  intro s hs
  refine ⟨rfl, fun a' s' h => ?_⟩
  cases h
  exact hs

theorem tracks_throw (breach : Breach) : Tracks d e (throw breach : Action α) (throw breach) :=
  fun _ _ => ⟨rfl, nofun⟩

theorem tracks_tooLong : Tracks d e (tooLong : Action α) tooLong := fun _ _ => ⟨rfl, nofun⟩

theorem tracks_modify {change : State → State} (h : ∀ s, s.depth = d → (change s).depth = e) :
    Tracks d e (modify change) (modify change) := by
  intro s hs
  refine ⟨rfl, fun a s' hm => ?_⟩
  cases hm
  exact h s hs

theorem Tracks.bind (hm : Tracks d e m m') (hf : ∀ a, Tracks e k (f a) (f' a)) :
    Tracks d k (m >>= f) (m' >>= f') := by
  intro s hs
  obtain ⟨same, ends⟩ := hm s hs
  cases hr : m' s with
  | none =>
    rw [bind_of_none hr, bind_of_none (same.trans hr)]
    exact ⟨rfl, nofun⟩
  | some r =>
    rcases r with breach | ⟨a, s'⟩
    · rw [bind_of_error hr, bind_of_error (same.trans hr)]
      exact ⟨rfl, nofun⟩
    · rw [bind_of_ok hr, bind_of_ok (same.trans hr)]
      exact hf a s' (ends a s' hr)

/-- What an action does may depend on the state that it starts from. -/
theorem tracks_get_bind {g g' : State → Action β}
    (h : ∀ s, s.depth = d → Tracks d e (g s) (g' s)) : Tracks d e (get >>= g) (get >>= g') :=
  fun s hs => h s hs s hs

/-- Turns that leave the depth alone make a loop that does, however many there are. -/
theorem tracks_loop {turn turn' : β → Action (Turn α β)} (h : ∀ b, Tracks d d (turn b) (turn' b))
    (limit : Nat) (b : β) : Tracks d d (loop turn limit b) (loop turn' limit b) := by
  induction limit generalizing b with
  | zero => exact tracks_tooLong
  | succ limit ih =>
    refine (h b).bind fun x => ?_
    cases x with
    | leave a => exact tracks_pure a
    | again b => exact ih b

end Rules

/-! ## Steps -/

section Steps

variable {d : Nat}

theorem tracks_peek : Tracks d d peek peek := tracks_get_bind fun _ _ => tracks_pure _

theorem tracks_bump : Tracks d d bump bump := by
  refine tracks_get_bind fun s _ => ?_
  split
  · exact tracks_pure _
  · exact .bind (tracks_modify fun _ h => h) fun _ => tracks_pure _

theorem tracks_eat (kind : Token) : Tracks d d (eat kind) (eat kind) := by
  refine tracks_get_bind fun s _ => ?_
  split
  · exact tracks_bump.bind fun _ => tracks_pure _
  · exact tracks_pure _

theorem tracks_lastEnd (default : Nat) : Tracks d d (lastEnd default) (lastEnd default) :=
  tracks_get_bind fun _ _ => tracks_pure _

theorem tracks_report (fault : Fault) (span : Span) :
    Tracks d d (report fault span) (report fault span) := tracks_modify fun _ h => h

theorem tracks_reportExpected (what : Expectation) (context : Span) :
    Tracks d d (reportExpected what context) (reportExpected what context) :=
  tracks_get_bind fun _ _ => tracks_report _ _

theorem tracks_reportExpectedValue : Tracks d d reportExpectedValue reportExpectedValue :=
  tracks_get_bind fun _ _ => tracks_report _ _

theorem tracks_range (start stop : Nat) : Tracks d d (range start stop) (range start stop) := by
  unfold range
  split
  · exact tracks_pure _
  · exact tracks_throw _

theorem tracks_slice (text : List Char) (start stop : Nat) :
    Tracks d d (slice text start stop) (slice text start stop) := by
  unfold slice
  split
  · exact tracks_pure _
  · exact tracks_throw _

theorem tracks_alloc (parent : Option Nat) (segment : Option Segment) (span : Span)
    (content : Content) :
    Tracks d d (alloc parent segment span content) (alloc parent segment span content) :=
  tracks_get_bind fun _ _ => .bind (tracks_modify fun _ h => h) fun _ => tracks_pure _

theorem tracks_complete (id start stop : Nat) (change : Content → Content) :
    Tracks d d (complete id start stop change) (complete id start stop change) := by
  refine tracks_get_bind fun s _ => ?_
  split
  · exact tracks_throw _
  · exact (tracks_range _ _).bind fun _ => tracks_modify fun _ h => h

theorem tracks_enter : Tracks d (d + 1) enter enter :=
  tracks_get_bind fun _ hs => tracks_modify fun _ _ => congrArg (· + 1) hs

theorem tracks_leave : Tracks (d + 1) d leave leave := by
  refine tracks_get_bind fun s hs => ?_
  rw [hs]
  exact tracks_modify fun _ _ => rfl

/-! ## Skipping and scalars -/

theorem tracks_recover (limit : Nat) (close : Token) :
    Tracks d d (recover limit close) (recover limit close) := by
  refine tracks_loop (fun _ => tracks_peek.bind fun next => ?_) limit ()
  split
  · exact tracks_pure _
  · split
    · exact tracks_pure _
    · refine tracks_bump.bind fun _ => ?_
      split
      · exact tracks_pure _
      · exact tracks_pure _

theorem tracks_skipTurn (nesting : Nat) : Tracks d d (skipTurn nesting) (skipTurn nesting) := by
  refine tracks_bump.bind fun next => ?_
  split
  · exact tracks_pure _
  · split <;> exact tracks_pure _

theorem tracks_skipContainer (limit : Nat) :
    Tracks d d (skipContainer limit) (skipContainer limit) :=
  tracks_get_bind fun _ _ => (tracks_loop tracks_skipTurn limit 0).bind fun _ =>
    (tracks_lastEnd _).bind fun _ => tracks_range _ _

theorem tracks_stringText (t : Lexeme Token) : Tracks d d (stringText t) (stringText t) := by
  refine tracks_get_bind fun s _ => (tracks_slice _ _ _).bind fun text => ?_
  split
  · exact (tracks_report _ _).bind fun _ => (tracks_slice _ _ _).bind fun _ => tracks_pure _
  · split
    · exact tracks_pure _
    · exact (tracks_report _ _).bind fun _ => (tracks_slice _ _ _).bind fun _ => tracks_pure _

theorem tracks_number (t : Lexeme Token) : Tracks d d (number t) (number t) := by
  refine tracks_get_bind fun s _ => (tracks_slice _ _ _).bind fun text => ?_
  split
  · exact tracks_pure _
  · exact (tracks_report _ _).bind fun _ => tracks_pure _

theorem tracks_scalar? {t : Lexeme Token} {read : Action Scalar} (h : scalar? t = some read) :
    Tracks d d read read := by
  unfold scalar? at h
  split at h <;> cases h
  · exact (tracks_stringText t).bind fun _ => tracks_pure _
  · exact (tracks_stringText t).bind fun _ => tracks_pure _
  · exact tracks_number t
  · exact tracks_pure _
  · exact tracks_pure _
  · exact tracks_pure _

/-! ## Containers -/

theorem tracks_openContainer (opening : Token) (parent : Option Nat) (segment : Option Segment)
    (content : Content) : Tracks d (d + 1) (openContainer opening parent segment content)
      (openContainer opening parent segment content) := by
  refine tracks_bump.bind fun next => ?_
  split
  · exact tracks_throw _
  · exact tracks_enter.bind fun _ => (tracks_alloc _ _ _ _).bind fun _ => tracks_pure _

theorem tracks_closeContainer (id : Nat) (opening : Span) (content : Content) :
    Tracks (d + 1) d (closeContainer id opening content) (closeContainer id opening content) :=
  (tracks_lastEnd _).bind fun _ => (tracks_complete _ _ _ _).bind fun _ =>
    tracks_leave.bind fun _ => tracks_pure _

theorem tracks_resume {β : Type} (limit : Nat) (close : Token) (parts : β) :
    Tracks d d (resume limit close parts) (resume limit close parts) := by
  refine (tracks_recover limit close).bind fun found => ?_
  split <;> exact tracks_pure _

theorem tracks_endPart {β : Type} (limit : Nat) (what : Expectation) (close : Token)
    (opening : Span) (parts : β) : Tracks d d (endPart limit what close opening parts)
      (endPart limit what close opening parts) := by
  refine (tracks_eat _).bind fun comma => ?_
  split
  · exact tracks_pure _
  · refine (tracks_eat _).bind fun closed => ?_
    split
    · exact tracks_pure _
    · exact (tracks_reportExpected _ _).bind fun _ => tracks_resume _ _ _

end Steps

section Parts

variable {d : Nat} {read read' : Reader}
  (h : ∀ parent segment, Tracks d d (read parent segment) (read' parent segment))

include h

theorem tracks_propertyValue (id : Nat) (key : String) (keySpan : Span) :
    Tracks d d (propertyValue read id key keySpan) (propertyValue read' id key keySpan) := by
  refine (tracks_eat _).bind fun colon => ?_
  split
  · refine tracks_peek.bind fun next => ?_
    split
    · exact tracks_reportExpectedValue.bind fun _ => tracks_pure _
    · split
      · exact tracks_reportExpectedValue.bind fun _ => tracks_pure _
      · exact h _ _
  · exact (tracks_reportExpected _ _).bind fun _ => tracks_pure _

theorem tracks_property (object : Nat) :
    Tracks d d (property read object) (property read' object) := by
  refine tracks_bump.bind fun next => ?_
  split
  · exact tracks_throw _
  · exact (tracks_stringText _).bind fun _ => (tracks_alloc _ _ _ _).bind fun _ =>
      (tracks_propertyValue h _ _ _).bind fun _ => (tracks_lastEnd _).bind fun _ =>
        (tracks_complete _ _ _ _).bind fun _ => tracks_pure _

theorem tracks_objectTurn (limit id : Nat) (opening : Span) (properties : List Nat) :
    Tracks d d (objectTurn read limit id opening properties)
      (objectTurn read' limit id opening properties) := by
  have unread : Tracks d d
      (reportExpected .propertyKey opening >>= fun _ => resume limit .closeBrace properties)
      (reportExpected .propertyKey opening >>= fun _ => resume limit .closeBrace properties) :=
    (tracks_reportExpected _ _).bind fun _ => tracks_resume _ _ _
  refine (tracks_eat _).bind fun closed => ?_
  split
  · exact tracks_pure _
  · refine tracks_peek.bind fun next => ?_
    split
    · split
      · exact (tracks_property h _).bind fun _ => tracks_endPart _ _ _ _ _
      · exact unread
    · exact unread

theorem tracks_arrayTurn (limit id : Nat) (opening : Span) (items : List Nat) :
    Tracks d d (arrayTurn read limit id opening items)
      (arrayTurn read' limit id opening items) := by
  refine (tracks_eat _).bind fun closed => ?_
  split
  · exact tracks_pure _
  · refine tracks_peek.bind fun next => ?_
    split
    · exact (tracks_reportExpected _ _).bind fun _ => tracks_pure _
    · refine (h _ _).bind fun v => ?_
      split
      · exact tracks_endPart _ _ _ _ _
      · exact tracks_resume _ _ _

end Parts

section Values

variable {d : Nat} {read read' : Reader}
  (h : ∀ parent segment, Tracks (d + 1) (d + 1) (read parent segment) (read' parent segment))

include h

theorem tracks_object (limit : Nat) (parent : Option Nat) (segment : Option Segment) :
    Tracks d d (object read limit parent segment) (object read' limit parent segment) :=
  (tracks_openContainer _ _ _ _).bind fun _ =>
    (tracks_loop (tracks_objectTurn h limit _ _) limit []).bind fun _ => tracks_closeContainer _ _ _

theorem tracks_array (limit : Nat) (parent : Option Nat) (segment : Option Segment) :
    Tracks d d (array read limit parent segment) (array read' limit parent segment) :=
  (tracks_openContainer _ _ _ _).bind fun _ =>
    (tracks_loop (tracks_arrayTurn h limit _ _) limit []).bind fun _ => tracks_closeContainer _ _ _

theorem tracks_container (limit : Nat) (opening : Token) (parent : Option Nat)
    (segment : Option Segment) : Tracks d d (container read limit opening parent segment)
      (container read' limit opening parent segment) := by
  refine tracks_get_bind fun s _ => ?_
  split
  · exact (tracks_skipContainer _).bind fun _ => (tracks_report _ _).bind fun _ => tracks_pure _
  · split
    · exact (tracks_object h _ _ _).bind fun _ => tracks_pure _
    · exact (tracks_array h _ _ _).bind fun _ => tracks_pure _

/-- A value leaves the depth as it was if the values in it do, which are one deeper. -/
theorem tracks_valueBy (limit : Nat) (parent : Option Nat) (segment : Option Segment) :
    Tracks d d (valueBy read limit parent segment) (valueBy read' limit parent segment) := by
  refine tracks_peek.bind fun next => ?_
  split
  · exact tracks_reportExpectedValue.bind fun _ => tracks_pure _
  · split
    · exact tracks_bump.bind fun _ => (tracks_scalar? ‹_›).bind fun _ =>
        (tracks_alloc _ _ _ _).bind fun _ => tracks_pure _
    · split
      · exact tracks_container h _ _ _ _
      · exact tracks_container h _ _ _ _
      · exact tracks_throw _
      · exact tracks_reportExpectedValue.bind fun _ => tracks_bump.bind fun _ => tracks_pure _
      · exact tracks_reportExpectedValue.bind fun _ => tracks_pure _

end Values

/-! ## Calls -/

/-- Breaks the reading off unless the depth is a given number. -/
def check (calls : Nat) : Action Unit := do
  if (← get).depth = calls then pure () else throw .unbalanced

/-- Reads a value, given the number of calls for objects and arrays that are in progress, and checks
before and after every value that this number is the depth. -/
def counted : Nat → Nat → Reader
  | _, 0 => fun _ _ => tooLong
  | calls, limit + 1 => fun parent segment => do
    check calls
    let v ← valueBy (counted (calls + 1) limit) (limit + 1) parent segment
    check calls
    pure v

theorem tracks_check (calls : Nat) : Tracks calls calls (check calls) (pure ()) := by
  intro s hs
  refine ⟨?_, fun a s' h => ?_⟩
  · rw [check, get_bind, if_pos hs]
  · cases h
    exact hs

/-- No check fails, and the depth is the same again behind every value. -/
theorem tracks_counted (calls limit : Nat) (parent : Option Nat) (segment : Option Segment) :
    Tracks calls calls (counted calls limit parent segment) (value limit parent segment) := by
  induction limit generalizing calls parent segment with
  | zero => exact tracks_tooLong
  | succ limit ih =>
    -- checks that pass are nothing, so the plain reading is written with nothing in their places
    have passed : Tracks calls calls (counted calls (limit + 1) parent segment)
        (pure () >>= fun _ => valueBy (value limit) (limit + 1) parent segment >>= fun v =>
          pure () >>= fun _ => pure v) :=
      (tracks_check calls).bind fun _ => (tracks_valueBy (ih (calls + 1)) _ _ _).bind fun _ =>
        (tracks_check calls).bind fun _ => tracks_pure _
    simpa only [pure_bind, bind_pure, value] using passed

/-- While values are read within a limit, the depth is the number of calls for objects and arrays
that are in progress. -/
structure CountsCalls (limit : Nat) : Prop where
  entered : ∀ d opening parent segment content,
    Shifts d (d + 1) (openContainer opening parent segment content)
  objectTurn : ∀ d turns id opening properties,
    Shifts d d (objectTurn (value limit) turns id opening properties)
  arrayTurn : ∀ d turns id opening items,
    Shifts d d (arrayTurn (value limit) turns id opening items)
  left : ∀ d id opening content, Shifts (d + 1) d (closeContainer id opening content)
  value : ∀ d parent segment, Shifts d d (value limit parent segment)
  /-- The checks make no difference, wherever a value is read. -/
  counted : ∀ (s : State) parent segment,
    counted s.depth limit parent segment s = Descent.value limit parent segment s

theorem countsCalls (limit : Nat) : CountsCalls limit where
  entered _ _ _ _ _ := (tracks_openContainer _ _ _ _).shifts
  objectTurn d _ _ _ _ := (tracks_objectTurn (tracks_counted d limit) _ _ _ _).shifts
  arrayTurn d _ _ _ _ := (tracks_arrayTurn (tracks_counted d limit) _ _ _ _).shifts
  left _ _ _ _ := (tracks_closeContainer _ _ _).shifts
  value d parent segment := (tracks_counted d limit parent segment).shifts
  counted s parent segment := (tracks_counted s.depth limit parent segment s rfl).1

end TemplateLint.Descent
