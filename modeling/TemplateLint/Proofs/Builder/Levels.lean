import TemplateLint.Proofs.Brackets
import TemplateLint.Proofs.Builder.Runs

/-!
# Containers open and ended

A state holds containers that are still open, from the innermost to the
outermost, and containers that have ended, with all of their spans. A token
opens a container, ends the innermost one, or leaves them as they are, and it
is told by the brackets which of these it does. Within a container nested too
deep only the brackets count.
-/

namespace TemplateLint

namespace Node

/-- The kind and the span of a node that stands in brackets. -/
def container? : Node → Option (BracketKind × Span)
  | value (.object _ span _) => some (.brace, span)
  | value (.array _ span _) => some (.square, span)
  | _ => none

/-- The containers among a node and all that is below it. -/
def containers (n : Node) : List (BracketKind × Span) := n.nodes.filterMap container?

theorem containers_eq (n : Node) :
    n.containers = n.container?.toList ++ n.steps.flatMap fun x => x.2.containers := by
  unfold containers
  rw [nodes_eq, List.filterMap_cons, List.filterMap_flatMap]
  cases n.container? <;> rfl

theorem containers_property (p : Property) : (property p).containers =
    (p.value.map fun v => (value v).containers).getD [] := by
  rw [containers_eq]
  cases hv : p.value <;> simp [container?, steps, hv]

@[simp] theorem containers_scalar (id : Nat) (span : Span) (content : Scalar) :
    (value (.scalar id span content)).containers = [] := by
  rw [containers_eq]
  rfl

end Node

namespace Builder

/-! ## What a state holds -/

def OpenObject.ended (o : OpenObject) : List (BracketKind × Span) :=
  o.properties.flatMap fun p => (Node.property p).containers

def OpenArray.ended (a : OpenArray) : List (BracketKind × Span) :=
  a.items.flatMap fun v => (Node.value v).containers

/-- The container that a place is in, with the span of the bracket that opens it. -/
def Place.opened : Place → List (BracketKind × Span)
  | .root => []
  | .property o _ => [(.brace, o.opening)]
  | .item a => [(.square, a.opening)]

def Place.ended : Place → List (BracketKind × Span)
  | .root => []
  | .property o _ => o.ended
  | .item a => a.ended

def Focus.opened : Focus → List (BracketKind × Span)
  | .start => []
  | .key o => [(.brace, o.opening)]
  | .colon o _ => [(.brace, o.opening)]
  | .propertyValue o _ => [(.brace, o.opening)]
  | .propertyEnd o => [(.brace, o.opening)]
  | .objectRecovery o => [(.brace, o.opening)]
  | .item a => [(.square, a.opening)]
  | .itemEnd a => [(.square, a.opening)]
  | .arrayRecovery a => [(.square, a.opening)]
  | .skip _ _ place => place.opened
  | .done _ _ => []

def Focus.ended : Focus → List (BracketKind × Span)
  | .start => []
  | .key o => o.ended
  | .colon o _ => o.ended
  | .propertyValue o _ => o.ended
  | .propertyEnd o => o.ended
  | .objectRecovery o => o.ended
  | .item a => a.ended
  | .itemEnd a => a.ended
  | .arrayRecovery a => a.ended
  | .skip _ _ place => place.ended
  | .done root _ => (root.map fun v => (Node.value v).containers).getD []

/-- How many brackets are open within a container nested too deep, its own among them. -/
def Focus.skipped : Focus → Nat
  | .skip _ nesting _ => nesting + 1
  | _ => 0

/-- Whether tokens are being passed over up to a comma or the end of a container. -/
def Focus.recovers : Focus → Bool
  | .objectRecovery _ => true
  | .arrayRecovery _ => true
  | _ => false

def State.opened (s : State) : List (BracketKind × Span) :=
  s.focus.opened ++ s.stack.flatMap Place.opened

def State.ended (s : State) : List (BracketKind × Span) :=
  s.focus.ended ++ s.stack.flatMap Place.ended

/-! ## Receiving and closing -/

theorem OpenObject.ended_add (o : OpenObject) (p : OpenProperty) (value : Option Value)
    (stop : Nat) : (o.add (p.close value stop)).ended =
      (value.map fun v => (Node.value v).containers).getD [] ++ o.ended := by
  simp [ended, add, Node.containers_property, OpenProperty.close]

theorem OpenObject.containers_close (o : OpenObject) (stop : Nat) :
    (Node.value (o.close stop)).containers ⊆ (.brace, ⟨o.opening.start, stop⟩) :: o.ended := by
  intro c hc
  rw [Node.containers_eq] at hc
  simpa [Node.container?, Node.steps, close, ended] using hc

theorem OpenArray.containers_close (a : OpenArray) (stop : Nat) :
    (Node.value (a.close stop)).containers ⊆ (.square, ⟨a.opening.start, stop⟩) :: a.ended := by
  intro c hc
  rw [Node.containers_eq] at hc
  refine (List.mem_append.mp hc).elim (fun h => ?_) (fun h => ?_)
  · exact List.mem_cons.mpr (.inl (by simpa [Node.container?, close] using h))
  · obtain ⟨⟨segment, m⟩, hm, hcm⟩ := List.mem_flatMap.mp h
    obtain ⟨⟨v, i⟩, hv, he⟩ := List.mem_map.mp hm
    cases he
    have hmem := List.mem_reverse.mp (List.fst_mem_of_mem_zipIdx hv)
    exact List.mem_cons_of_mem _ (List.mem_flatMap.mpr ⟨v, hmem, hcm⟩)

section Receiving

variable (place : Place) (value : Option Value) (stop : Nat)

@[simp] theorem Place.opened_receive : (place.receive value stop).opened = place.opened := by
  rcases place with _ | ⟨o, p⟩ | a
  · rfl
  · rfl
  · cases value <;> rfl

@[simp] theorem Place.skipped_receive : (place.receive value stop).skipped = 0 := by
  rcases place with _ | ⟨o, p⟩ | a
  · rfl
  · rfl
  · cases value <;> rfl

@[simp] theorem Place.ended_receive : (place.receive value stop).ended =
    (value.map fun v => (Node.value v).containers).getD [] ++ place.ended := by
  rcases place with _ | ⟨o, p⟩ | a
  · exact (List.append_nil _).symm
  · exact o.ended_add p value stop
  · cases value <;> rfl

end Receiving

/-! ## What a token does -/

/-- How a token changes the number of brackets open within a container nested too deep. -/
inductive Skips (t : Lexeme Token) : Nat → Nat → Prop where
  | opening {n : Nat} {b : BracketKind} : t.kind.opening? = some b → Skips t n (n + 1)
  | closing {n : Nat} {b : BracketKind} : t.kind.closing? = some b → Skips t (n + 1) n
  | other {n : Nat} : t.kind.opening? = none → t.kind.closing? = none → Skips t (n + 1) (n + 1)

/-- What a token does where containers are open, brackets are skipped and containers have ended. -/
inductive Effect (t : Lexeme Token) (opened : List (BracketKind × Span)) (skipped : Nat)
    (ended : List (BracketKind × Span)) (s : State) : Prop where
  /-- It opens a container. -/
  | opens {b : BracketKind} (bracket : t.kind.opening? = some b) (before : skipped = 0)
      (after : s.focus.skipped = 0) (inner : s.opened = (b, t.span) :: opened)
      (same : s.ended ⊆ ended)
  /-- It ends the innermost container, which is of its kind. -/
  | closes {b : BracketKind} {opening : Span} (bracket : t.kind.closing? = some b)
      (before : skipped = 0) (after : s.focus.skipped = 0)
      (inner : opened = (b, opening) :: s.opened)
      (more : s.ended ⊆ (b, ⟨opening.start, t.span.stop⟩) :: ended)
  /-- It leaves the containers as they are. Only recovery passes over an opening bracket within a
  container, and nothing passes over a closing bracket of the container's kind. -/
  | passes (before : skipped = 0) (after : s.focus.skipped = 0) (same : s.opened = opened)
      (ends : s.ended ⊆ ended)
      (opening : ∀ b, t.kind.opening? = some b → opened = [] ∨ s.focus.recovers = true)
      (closing : ∀ b span outer, opened = (b, span) :: outer → t.kind.closing? ≠ some b)
  /-- It belongs to a container nested too deep. -/
  | skips (same : s.opened = opened) (ends : s.ended ⊆ ended)
      (brackets : Skips t skipped s.focus.skipped)

/-- A token that is a value on its own is no bracket. -/
theorem brackets_scalar {t : Lexeme Token} {content : Scalar} {fault : Option Fault}
    (h : scalar? t = some (content, fault)) :
    t.kind.opening? = none ∧ t.kind.closing? = none := by
  cases hk : t.kind <;> simp [scalar?, hk] at h <;> exact ⟨rfl, rfl⟩

theorem stack_reportAny (fault : Option Fault) (span : Span) (s : State) :
    (s.reportAny fault span).stack = s.stack := by
  rw [reportAny_eq]

section Step

variable {t : Lexeme Token} {s : State}

/-- A token that is no bracket and leaves the containers as they are. -/
theorem Effect.plain {opened ended : List (BracketKind × Span)}
    (noOpening : t.kind.opening? = none) (noClosing : t.kind.closing? = none)
    (after : s.focus.skipped = 0) (same : s.opened = opened) (ends : s.ended ⊆ ended) :
    Effect t opened 0 ended s := by
  refine .passes rfl after same ends ?_ ?_
  · intro b h
    rw [noOpening] at h
    cases h
  · intro b span outer _ h
    rw [noClosing] at h
    cases h

theorem closeContainer_effect {b : BracketKind} {opening : Span} {ended : List (BracketKind × Span)}
    {v : Value} (bracket : t.kind.closing? = some b)
    (hv : (Node.value v).containers ⊆ (b, ⟨opening.start, t.span.stop⟩) :: ended)
    (hs : RootedStack s.stack) :
    Effect t ((b, opening) :: s.stack.flatMap Place.opened) 0
      (ended ++ s.stack.flatMap Place.ended) (s.closeContainer v t.span.stop) := by
  obtain ⟨focus, stack, depth, nextId, lastEnd, faults⟩ := s
  cases stack with
  | nil => exact False.elim hs
  | cons place rest =>
    have inner : (b, opening) :: (place :: rest).flatMap Place.opened = (b, opening) ::
        (place.receive (some v) t.span.stop).opened ++ rest.flatMap Place.opened := by simp
    refine .closes bracket rfl (place.skipped_receive _ _) inner ?_
    intro c hc
    simp only [State.closeContainer, State.ended, Place.ended_receive, Option.map_some,
      Option.getD_some, List.append_assoc] at hc
    rcases List.mem_append.mp hc with hc | hc
    · exact List.mem_append_left _ (hv hc)
    · exact List.mem_cons_of_mem _ (List.mem_append_right _ hc)

theorem recoverObject_effect (o : OpenObject) (hs : RootedStack s.stack) :
    Effect t ((.brace, o.opening) :: s.stack.flatMap Place.opened) 0
      (o.ended ++ s.stack.flatMap Place.ended) (recoverObject o t s) := by
  unfold recoverObject
  split
  · rename_i hk
    exact closeContainer_effect (by rw [hk]; rfl) (o.containers_close t.span.stop) hs
  · rename_i hk
    exact .plain (by rw [hk]; rfl) (by rw [hk]; rfl) rfl rfl (List.Subset.refl _)
  · rename_i hbrace hcomma
    refine .passes rfl rfl rfl (List.Subset.refl _) (fun b _ => .inr rfl) ?_
    intro b span outer ho hb
    cases ho
    exact hbrace (Token.eq_closeBrace hb)

theorem recoverArray_effect (a : OpenArray) (hs : RootedStack s.stack) :
    Effect t ((.square, a.opening) :: s.stack.flatMap Place.opened) 0
      (a.ended ++ s.stack.flatMap Place.ended) (recoverArray a t s) := by
  unfold recoverArray
  split
  · rename_i hk
    exact closeContainer_effect (by rw [hk]; rfl) (a.containers_close t.span.stop) hs
  · rename_i hk
    exact .plain (by rw [hk]; rfl) (by rw [hk]; rfl) rfl rfl (List.Subset.refl _)
  · rename_i hsquare hcomma
    refine .passes rfl rfl rfl (List.Subset.refl _) (fun b _ => .inr rfl) ?_
    intro b span outer ho hb
    cases ho
    exact hsquare (Token.eq_closeBracket hb)

theorem endProperty_effect (o : OpenObject) (hs : RootedStack s.stack) :
    Effect t ((.brace, o.opening) :: s.stack.flatMap Place.opened) 0
      (o.ended ++ s.stack.flatMap Place.ended) (endProperty o t s) := by
  unfold endProperty
  split
  · exact recoverObject_effect o hs
  · exact recoverObject_effect (s := s.report _ _) o hs

theorem endItem_effect (a : OpenArray) (hs : RootedStack s.stack) :
    Effect t ((.square, a.opening) :: s.stack.flatMap Place.opened) 0
      (a.ended ++ s.stack.flatMap Place.ended) (endItem a t s) := by
  unfold endItem
  split
  · exact recoverArray_effect a hs
  · exact recoverArray_effect (s := s.report _ _) a hs

/-- Behind the root no container is open. -/
theorem trail_effect (root : Option Value) (trailing : Option Span) (hs : s.stack = []) :
    Effect t (s.stack.flatMap Place.opened) 0
      ((root.map fun v => (Node.value v).containers).getD [] ++ s.stack.flatMap Place.ended)
      (trail root trailing t s) := by
  have outside : s.stack.flatMap Place.opened = [] := by rw [hs, List.flatMap_nil]
  refine .passes rfl rfl rfl (List.Subset.refl _) (fun b _ => .inl outside) ?_
  intro b span outer h
  rw [outside] at h
  cases h

theorem refuse_effect {place : Place} (hs : RootedStack (place :: s.stack)) :
    Effect t (place.opened ++ s.stack.flatMap Place.opened) 0
      (place.ended ++ s.stack.flatMap Place.ended) (refuse place t s) := by
  rcases place with _ | ⟨o, p⟩ | a
  · exact trail_effect none none hs
  · have same : (o.add (p.close none s.lastEnd)).ended = o.ended := o.ended_add p none s.lastEnd
    have effect := endProperty_effect (t := t) (o.add (p.close none s.lastEnd)) hs
    rw [same] at effect
    exact effect
  · exact recoverArray_effect a hs

theorem beginValue_effect (place : Place) (hs : RootedStack (place :: s.stack)) :
    Effect t (place.opened ++ s.stack.flatMap Place.opened) 0
      (place.ended ++ s.stack.flatMap Place.ended) (beginValue place t s) := by
  have skips {b : BracketKind} (hb : t.kind.opening? = some b) :
      Effect t (place.opened ++ s.stack.flatMap Place.opened) 0
        (place.ended ++ s.stack.flatMap Place.ended)
        (s.withFocus (.skip t.span.start 0 place)) :=
    .skips rfl (List.Subset.refl _) (.opening hb)
  unfold beginValue
  split
  · rename_i content fault hscalar
    obtain ⟨noOpening, noClosing⟩ := brackets_scalar hscalar
    refine .plain noOpening noClosing (place.skipped_receive _ _) ?_ ?_
    · simp [State.opened, stack_reportAny]
    · simp [State.ended, stack_reportAny]
  · split
    · rename_i hk
      split
      · exact skips (by rw [hk]; rfl)
      · refine .opens (by rw [hk]; rfl) rfl rfl rfl ?_
        simp [State.openContainer, State.ended, Focus.ended, OpenObject.ended]
    · rename_i hk
      split
      · exact skips (by rw [hk]; rfl)
      · refine .opens (by rw [hk]; rfl) rfl rfl rfl ?_
        simp [State.openContainer, State.ended, Focus.ended, OpenArray.ended]
    · rename_i hk
      refine .plain (by rw [hk]; rfl) (by rw [hk]; rfl) (place.skipped_receive _ _) ?_ ?_
      · simp [State.opened, State.withFocus, State.report]
      · simp [State.ended, State.withFocus, State.report]
    · exact refuse_effect (s := s.report _ _) hs

theorem beginProperty_effect (o : OpenObject) (hs : RootedStack s.stack) :
    Effect t ((.brace, o.opening) :: s.stack.flatMap Place.opened) 0
      (o.ended ++ s.stack.flatMap Place.ended) (beginProperty o t s) := by
  have key (noOpening : t.kind.opening? = none) (noClosing : t.kind.closing? = none) :
      Effect t ((.brace, o.opening) :: s.stack.flatMap Place.opened) 0
        (o.ended ++ s.stack.flatMap Place.ended)
        { s.reportAny (stringText t).2 t.span with
          focus := .colon o ⟨s.nextId, (stringText t).1, t.span⟩, nextId := s.nextId + 1 } := by
    refine .plain noOpening noClosing rfl ?_ ?_
    · simp [State.opened, Focus.opened, stack_reportAny]
    · simp [State.ended, Focus.ended, stack_reportAny]
  unfold beginProperty
  split
  · exact recoverObject_effect o hs
  · rename_i hk
    exact key (by rw [hk]; rfl) (by rw [hk]; rfl)
  · rename_i hk
    exact key (by rw [hk]; rfl) (by rw [hk]; rfl)
  · exact recoverObject_effect (s := s.report _ _) o hs

theorem beginColon_effect (o : OpenObject) (p : OpenProperty) (hs : RootedStack s.stack) :
    Effect t ((.brace, o.opening) :: s.stack.flatMap Place.opened) 0
      (o.ended ++ s.stack.flatMap Place.ended) (beginColon o p t s) := by
  unfold beginColon
  split
  · rename_i hk
    exact .plain (by rw [hk]; rfl) (by rw [hk]; rfl) rfl rfl (List.Subset.refl _)
  · have left : RootedStack (.property o p :: (s.report (.expected .colon (some t.kind) p.keySpan)
        t.span).stack) := hs
    exact refuse_effect left

theorem skipToken_effect (start nesting : Nat) (place : Place) :
    Effect t (place.opened ++ s.stack.flatMap Place.opened) (nesting + 1)
      (place.ended ++ s.stack.flatMap Place.ended)
      (skipToken start nesting place t (s.withFocus (.skip start nesting place))) := by
  have ends {b : BracketKind} (hb : t.kind.closing? = some b) :
      Effect t (place.opened ++ s.stack.flatMap Place.opened) 1
        (place.ended ++ s.stack.flatMap Place.ended)
        ((s.report .nestingTooDeep ⟨start, t.span.stop⟩).withFocus
          (place.receive none t.span.stop)) := by
    refine .skips ?_ ?_ ?_
    · simp [State.opened, State.withFocus, State.report]
    · simp [State.ended, State.withFocus, State.report]
    · simpa [State.withFocus] using Skips.closing hb
  unfold skipToken
  split
  · rename_i hk
    exact .skips rfl (List.Subset.refl _) (.opening (by rw [hk]; rfl))
  · rename_i hk
    exact .skips rfl (List.Subset.refl _) (.opening (by rw [hk]; rfl))
  · rename_i hk
    exact ends (by rw [hk]; rfl)
  · rename_i hk
    exact ends (by rw [hk]; rfl)
  · rename_i hk
    exact .skips rfl (List.Subset.refl _) (.closing (by rw [hk]; rfl))
  · rename_i hk
    exact .skips rfl (List.Subset.refl _) (.closing (by rw [hk]; rfl))
  · rename_i n _ _ hbrace hsquare hbraces hsquares hbraces' hsquares'
    have noOpening : t.kind.opening? = none := by
      cases hk : t.kind <;> first | rfl | exact (hbrace hk).elim | exact (hsquare hk).elim
    have noClosing : t.kind.closing? = none := by
      cases hk : t.kind <;> cases n <;> first
        | rfl
        | exact (hbraces hk rfl).elim
        | exact (hsquares hk rfl).elim
        | exact (hbraces' _ hk rfl).elim
        | exact (hsquares' _ hk rfl).elim
    exact .skips rfl (List.Subset.refl _) (.other noOpening noClosing)

/-- Every token has one of these effects on what a state holds. -/
theorem step_effect (hs : s.Rooted) : Effect t s.opened s.focus.skipped s.ended (step s t) := by
  have acts : Effect t s.opened s.focus.skipped s.ended (act t s) := by
    obtain ⟨focus, stack, depth, nextId, lastEnd, faults⟩ := s
    cases focus with
    | start => exact beginValue_effect .root hs
    | key o => exact beginProperty_effect o hs
    | colon o p => exact beginColon_effect o p hs
    | propertyValue o p => exact beginValue_effect (.property o p) hs
    | propertyEnd o => exact endProperty_effect o hs
    | objectRecovery o => exact recoverObject_effect o hs
    | item a =>
      simp only [act]
      split
      · exact recoverArray_effect a hs
      · exact beginValue_effect (.item a) hs
    | itemEnd a => exact endItem_effect a hs
    | arrayRecovery a => exact recoverArray_effect a hs
    | skip start nesting place =>
      exact skipToken_effect (s := ⟨.start, stack, depth, nextId, lastEnd, faults⟩)
        start nesting place
    | done root trailing =>
      cases hs
      exact trail_effect root trailing rfl
  cases acts with
  | opens bracket before after inner same => exact .opens bracket before after inner same
  | closes bracket before after inner more => exact .closes bracket before after inner more
  | passes before after same ends opening closing =>
    exact .passes before after same ends opening closing
  | skips same ends brackets => exact .skips same ends brackets

end Step

end Builder

end TemplateLint
