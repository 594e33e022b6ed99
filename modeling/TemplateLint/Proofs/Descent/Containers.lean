import TemplateLint.Proofs.Descent.Skipping
import TemplateLint.Proofs.Tree.Nodes

/-!
# Containers read by descent

Objects and arrays are read alike: the container is given its number, a loop
reads one part after the other, and the container is completed with the numbers
of its parts. So what a reading adds to the nodes are the rows of the entries of
the tree, and the builder has the same container in the end.
-/

namespace TemplateLint

/-- What a node is, with the nodes below it by their numbers. -/
def Node.content : Node → Descent.Content
  | value (.object _ _ properties) => .object (properties.map (·.id))
  | value (.array _ _ items) => .array (items.map Value.id)
  | value (.scalar _ _ content) => .scalar content
  | property p => .property p.key p.keySpan (p.value.map Value.id)

def Entry.row (e : Entry) : Descent.Row := ⟨e.parent, e.segment, e.node.span, e.node.content⟩

namespace Descent

open Builder (Focus Place OpenObject OpenArray)

variable {source : List Char} {s s' : State} {t : Lexeme Token} {rest : List (Lexeme Token)}

/-! ## Rows -/

/-- The rows of a node and of all that is below it. -/
def nodeRows (parent : Option Nat) (segment : Option Segment) (n : Node) : List Row :=
  (n.entries parent segment).map Entry.row

/-- The rows of what stands one step below a node. -/
def partRows (owner : Nat) (parts : List (Segment × Node)) : List Row :=
  parts.flatMap fun x => nodeRows (some owner) (some x.1) x.2

theorem nodeRows_eq (parent : Option Nat) (segment : Option Segment) (n : Node) :
    nodeRows parent segment n =
      ⟨parent, segment, n.span, n.content⟩ :: partRows n.id n.steps := by
  unfold nodeRows partRows
  rw [Node.entries_eq, List.map_cons, List.map_flatMap]
  rfl

@[simp] theorem partRows_append (owner : Nat) (parts more : List (Segment × Node)) :
    partRows owner (parts ++ more) = partRows owner parts ++ partRows owner more :=
  List.flatMap_append

theorem partRows_singleton (owner : Nat) (s : Segment) (n : Node) :
    partRows owner [(s, n)] = nodeRows (some owner) (some s) n := List.append_nil _

namespace Container

def id : Container → Nat
  | object o => o.id
  | array a => a.id

/-- What has been read of a container. -/
def parts (c : Container) : List (Segment × Node) := (Node.value (c.close 0)).steps

def partIds (c : Container) : List Nat := c.parts.map (·.2.id)

def content : Container → List Nat → Content
  | object _ => .object
  | array _ => .array

/-- The container before anything of it was read. -/
def blank : Container → Container
  | object o => .object { o with properties := [] }
  | array a => .array { a with items := [] }

/-- A container that begins with a token. -/
def empty (kind : Token) (id : Nat) (opening : Span) : Container :=
  if kind = .openBrace then .object ⟨id, opening, []⟩ else .array ⟨id, opening, []⟩

/-- The rows of a container that has ended. -/
theorem rows_close (c : Container) (stop : Nat) (parent : Option Nat) (segment : Option Segment) :
    nodeRows parent segment (.value (c.close stop)) =
      ⟨parent, segment, ⟨c.opening.start, stop⟩, c.content c.partIds⟩ ::
        partRows c.id c.parts := by
  have content : (Node.value (c.close stop)).content = c.content c.partIds := by
    cases c with
    | object o => exact congrArg Content.object (Node.children_eq_steps (.value (o.close stop)))
    | array a => exact congrArg Content.array (Node.children_eq_steps (.value (a.close stop)))
  rw [nodeRows_eq, content]
  cases c <;> rfl

theorem id_close (c : Container) (stop : Nat) : (c.close stop).id = c.id := by
  cases c <;> rfl

/-- The second container is the first with more parts. -/
structure Grows (c c' : Container) (more : List (Segment × Node)) : Prop where
  blank : c'.blank = c.blank
  parts : c'.parts = c.parts ++ more

namespace Grows

variable {c c' c'' : Container} {more still : List (Segment × Node)}

theorem refl (c : Container) : Grows c c [] := ⟨rfl, (List.append_nil _).symm⟩

theorem trans (h : Grows c c' more) (h' : Grows c' c'' still) : Grows c c'' (more ++ still) :=
  ⟨h'.blank.trans h.blank, by rw [h'.parts, h.parts, List.append_assoc]⟩

/-- What does not depend on the parts stays as it is. -/
theorem same {β : Type} {f : Container → β} (h : Grows c c' more)
    (hf : ∀ c : Container, f c.blank = f c) : f c' = f c := by
  rw [← hf c', h.blank, hf c]

theorem id (h : Grows c c' more) : c'.id = c.id := h.same fun c => by cases c <;> rfl

theorem opening (h : Grows c c' more) : c'.opening = c.opening :=
  h.same fun c => by cases c <;> rfl

theorem content (h : Grows c c' more) : c'.content = c.content :=
  h.same fun c => by cases c <;> rfl

theorem partIds (h : Grows c c' more) : c'.partIds = c.partIds ++ more.map (·.2.id) := by
  rw [Container.partIds, h.parts, List.map_append]
  rfl

theorem property (o : OpenObject) (p : Property) :
    Grows (.object o) (.object (o.add p)) [(.key p.key, .property p)] where
  blank := rfl
  parts := by
    simp [Container.parts, Container.close, OpenObject.close, OpenObject.add, Node.steps]

theorem item (a : OpenArray) (v : Value) :
    Grows (.array a) (.array (a.add v)) [(.index a.items.length, .value v)] where
  blank := rfl
  parts := by
    simp [Container.parts, Container.close, OpenArray.close, OpenArray.add, Node.steps,
      List.zipIdx_append]

end Grows

end Container

/-! ## Behind a part -/

/-- A turn goes on with a container, or leaves it, as the builder does from a focus on. -/
def Resumed {β : Type} (source : List Char) (c : Container) (focus : Focus) (parts : β)
    (s : State) (x : Turn β β) (s' : State) : Prop :=
  Onward source s s' [] ∧ match x with
    | .leave b => b = parts ∧
        ∀ place stack, ending focus (place :: stack) s = closed c place stack s'
    | .again b => b = parts ∧ (s.nextKind? ≠ some c.closer → s'.ahead.length < s.ahead.length) ∧
        ∀ stack, ending focus stack s = ending c.atPart stack s'

theorem resume_runs {β : Type} (h : s.Of source) (c : Container) {limit : Nat}
    (hlimit : s.ahead.length < limit) (parts : β) :
    Runs (resume limit c.closer parts) s (Resumed source c c.atRecovery parts s) := by
  unfold resume
  refine (recover_runs h c hlimit).bind fun found s' ⟨honward, hfound⟩ => ?_
  cases found with
  | true => exact runs_pure ⟨honward, rfl, hfound⟩
  | false => exact runs_pure ⟨honward, rfl, hfound⟩

theorem endPart_runs {β : Type} (h : s.Of source) (c : Container) {limit : Nat}
    (hlimit : s.ahead.length < limit) (parts : β) :
    Runs (endPart limit c.behindPart c.closer c.opening parts) s
      (Resumed source c c.atEnd parts s) := by
  unfold endPart
  by_cases hcomma : s.nextKind? = some .comma
  · obtain ⟨t, rest, hs, hkind⟩ := exists_of_nextKind? hcomma
    rw [runs_bind_of_ok (eat_of_cons hs hkind), if_pos rfl]
    refine runs_pure ⟨.pass h hs, rfl, fun _ => length_lt_of_cons hs, fun stack => ?_⟩
    exact ending_of_pass hs ((act_atEnd_of_mem (Or.inl hkind)).trans (act_atRecovery_comma hkind))
  · rw [runs_bind_of_ok (eat_of_ne hcomma), if_neg Bool.false_ne_true]
    by_cases hcloser : s.nextKind? = some c.closer
    · obtain ⟨t, rest, hs, hkind⟩ := exists_of_nextKind? hcloser
      rw [runs_bind_of_ok (eat_of_cons hs hkind), if_pos rfl]
      refine runs_pure ⟨.pass h hs, rfl, fun place stack => ?_⟩
      exact ending_closer hs hkind (act_atEnd_of_mem (Or.inr hkind))
    · rw [runs_bind_of_ok (eat_of_ne hcloser), if_neg Bool.false_ne_true,
        runs_reportExpected_bind]
      have reported : Onward source s
          (s.report (.expected c.behindPart s.nextKind? c.opening) s.nextSpan) [] :=
        (Onward.refl h).report
      refine (resume_runs reported.of c hlimit parts).mono fun x s' ⟨honward, hx⟩ => ?_
      refine ⟨reported.trans honward, ?_⟩
      cases x with
      | leave b =>
        refine ⟨hx.1, fun place stack => ?_⟩
        rw [ending_atEnd_other hcomma hcloser, hx.2]
      | again b =>
        refine ⟨hx.1, hx.2.1, fun stack => ?_⟩
        rw [ending_atEnd_other hcomma hcloser, hx.2.2]

/-! ## Part by part -/

/-- A turn reads parts of a container, and then goes on with the container or leaves it. -/
def Turned (source : List Char) (c : Container) (s : State) (x : Turn (List Nat) (List Nat))
    (s' : State) : Prop :=
  ∃ c' more, c.Grows c' more ∧ Onward source s s' (partRows c.id more) ∧ match x with
    | .leave ids => ids = c'.partIds ∧
        ∀ place stack, ending c.atPart (place :: stack) s = closed c' place stack s'
    | .again ids => ids = c'.partIds ∧ s'.ahead.length < s.ahead.length ∧
        ∀ stack, ending c.atPart stack s = ending c'.atPart stack s'

/-- The loop over the parts of a container has come to its end. -/
def Finished (source : List Char) (c : Container) (s : State) (ids : List Nat) (s' : State) :
    Prop :=
  ∃ c' more, c.Grows c' more ∧ Onward source s s' (partRows c.id more) ∧ ids = c'.partIds ∧
    ∀ place stack, ending c.atPart (place :: stack) s = closed c' place stack s'

section Parts

variable (read : Reader) (limit : Nat)

def Container.turn : Container → List Nat → Action (Turn (List Nat) (List Nat))
  | object o => objectTurn read limit o.id o.opening
  | array a => arrayTurn read limit a.id a.opening

/-- Reads all parts of a container. -/
def Container.readParts (c : Container) : List Nat → Action (List Nat) :=
  loop (c.turn read limit) limit

end Parts

variable {read : Reader} {limit : Nat}

/-- If each turn reads parts of the container, so does the whole loop. -/
theorem readParts_runs {c : Container} (h : s.Of source) (hlimit : s.ahead.length < limit)
    (turn : ∀ c' s', s'.Of source → s'.ahead.length ≤ s.ahead.length →
      Runs (c'.turn read limit c'.partIds) s' (Turned source c' s')) :
    Runs (c.readParts read limit c.partIds) s (Finished source c s) := by
  let I : List Nat → State → Prop := fun ids s' => ∃ c' more, c.Grows c' more ∧
    Onward source s s' (partRows c.id more) ∧ ids = c'.partIds ∧
    ∀ stack, ending c.atPart stack s = ending c'.atPart stack s'
  have begin : I c.partIds s := ⟨c, [], .refl c, .refl h, rfl, fun _ => rfl⟩
  refine loop_runs ?_ c.partIds hlimit begin
  rintro _ s' ⟨c', more, hgrows, honward, rfl, hending⟩
  have same : c'.turn read limit = c.turn read limit := hgrows.same fun c => by cases c <;> rfl
  rw [← same]
  refine (turn c' s' honward.of honward.ahead).mono ?_
  rintro x s'' ⟨c'', still, hgrows', honward', hx⟩
  have grows := hgrows.trans hgrows'
  have onward := honward.trans honward'
  rw [hgrows.id, ← partRows_append] at onward
  cases x with
  | leave ids =>
    refine ⟨c'', _, grows, onward, hx.1, fun place stack => ?_⟩
    rw [hending, hx.2]
  | again ids =>
    refine ⟨⟨c'', _, grows, onward, hx.1, fun stack => ?_⟩, hx.2.1⟩
    rw [hending, hx.2.2]

/-! ## Whole containers -/

/-- Reads a container from its opening token on. -/
def readContainer (read : Reader) (limit : Nat) (kind : Token) (parent : Option Nat)
    (segment : Option Segment) : Action Nat := do
  let (id, opening) ← openContainer kind parent segment
    ((Container.empty kind 0 ⟨0, 0⟩).content [])
  let ids ← (Container.empty kind id opening).readParts read limit []
  closeContainer id opening ((Container.empty kind id opening).content ids)

theorem object_eq (parent : Option Nat) (segment : Option Segment) :
    object read limit parent segment = readContainer read limit .openBrace parent segment := rfl

theorem array_eq (parent : Option Nat) (segment : Option Segment) :
    array read limit parent segment = readContainer read limit .openBracket parent segment := rfl

theorem openContainer_eq (hs : s.ahead = t :: rest) (kind : Token) (parent : Option Nat)
    (segment : Option Segment) (content : Content) :
    openContainer kind parent segment content s =
      some (.ok ((s.rows.length, t.span),
        ((s.pass t rest).withDepth (s.depth + 1)).add ⟨parent, segment, t.span, content⟩)) := by
  rw [openContainer, bind_of_ok (bump_of_cons hs)]
  rfl

theorem closeContainer_eq {id depth : Nat} {opening : Span} {content : Content} {row : Row}
    (hrow : s.rows[id]? = some row) (hend : s.lastEnd?.getD opening.stop = s.lastEnd)
    (hle : opening.start ≤ s.lastEnd) (hdepth : s.depth = depth + 1) :
    closeContainer id opening content s =
      some (.ok (id, (s.set id ⟨row.parent, row.segment, ⟨opening.start, s.lastEnd⟩,
        content⟩).withDepth depth)) := by
  have left : (s.set id ⟨row.parent, row.segment, ⟨opening.start, s.lastEnd⟩, content⟩).depth =
      depth + 1 := hdepth
  rw [closeContainer, lastEnd_bind, hend, bind_of_ok (complete_eq hrow hle),
    bind_of_ok (leave_eq left)]
  rfl

namespace Container

theorem empty_eq (kind : Token) (id : Nat) (opening : Span) :
    (empty kind id opening).id = id ∧ (empty kind id opening).opening = opening ∧
      (empty kind id opening).parts = [] := by
  unfold empty
  split <;> exact ⟨rfl, rfl, rfl⟩

end Container

/-- Completing a node changes nothing for the builder. -/
theorem ending_set (focus : Focus) (stack : List Place) (id : Nat) (row : Row) :
    ending focus stack (s.set id row) = ending focus stack s := by
  unfold ending machine
  rw [show (s.set id row).rows.length = s.rows.length from List.length_set]
  rfl

/-- The state behind the token that opens a container. -/
def opened (parent : Option Nat) (segment : Option Segment) (t : Lexeme Token)
    (rest : List (Lexeme Token)) (s : State) : State :=
  ((s.pass t rest).withDepth (s.depth + 1)).add
    ⟨parent, segment, t.span, (Container.empty t.kind 0 ⟨0, 0⟩).content []⟩

/-- A container whose parts have been read is completed as the builder ends it. -/
theorem closeContainer_runs (h : s.Of source) (hs : s.ahead = t :: rest) {parent : Option Nat}
    {segment : Option Segment} {ids : List Nat}
    (parts : Finished source (Container.empty t.kind s.rows.length t.span)
      (opened parent segment t rest s) ids s') :
    Runs (closeContainer s.rows.length t.span
        ((Container.empty t.kind s.rows.length t.span).content ids)) s' fun id s'' =>
      ∃ v : Value, id = v.id ∧ Onward source s s'' (nodeRows parent segment (.value v)) ∧
        s''.ahead.length < s.ahead.length ∧ ∀ place stack,
          ending (Container.empty t.kind s.rows.length t.span).atPart (place :: stack)
              (opened parent segment t rest s) =
            ending (place.receive (some v) s''.lastEnd) stack s'' := by
  obtain ⟨hid, hopening, hparts⟩ := Container.empty_eq t.kind s.rows.length t.span
  obtain ⟨c', more, hgrows, honward, rfl, hending⟩ := parts
  obtain ⟨hend, hle⟩ := honward.lastEnd_eq (e := t.span.stop) rfl t.span.stop
  obtain ⟨begin, hbegin⟩ : ∃ row : Row, s'.rows =
      s.rows ++ ⟨parent, segment, row.span, row.content⟩ :: partRows s.rows.length more := by
    refine ⟨⟨parent, segment, t.span, (Container.empty t.kind 0 ⟨0, 0⟩).content []⟩, ?_⟩
    rw [honward.rows, hid, opened, State.add, List.append_assoc]
    rfl
  have row : s'.rows[s.rows.length]? = some ⟨parent, segment, begin.span, begin.content⟩ := by
    rw [hbegin]
    simp
  have shorter := Nat.lt_of_le_of_lt honward.ahead (length_lt_of_cons hs)
  have before := Onward.pass h hs
  refine ⟨_, _, closeContainer_eq row hend (Nat.le_trans (h.start_le_stop hs) hle) honward.depth,
    c'.close s'.lastEnd, ?_, ⟨honward.of, Nat.le_of_lt shorter, ?_, ?_, rfl⟩, shorter, ?_⟩
  · rw [Container.id_close, hgrows.id, hid]
  · intro e he
    obtain ⟨e', he', hle'⟩ := before.latest e he
    obtain ⟨e'', he'', hle''⟩ := honward.latest e' he'
    exact ⟨e'', he'', Nat.le_trans hle' hle''⟩
  · change s'.rows.set s.rows.length _ = _
    rw [hbegin, Container.rows_close, hgrows.parts, hparts, hgrows.id, hid, hgrows.opening,
      hopening, hgrows.content]
    simp
  · intro place stack
    have depth : s'.depth - 1 = s.depth := by
      rw [honward.depth]
      rfl
    rw [hending place stack, closed, depth]
    exact (ending_set ..).symm

/-- A container that begins with the next token is read to its end, if its parts are. -/
theorem readContainer_runs (h : s.Of source) (hs : s.ahead = t :: rest)
    (parent : Option Nat) (segment : Option Segment)
    (parts : ∀ c s', s'.Of source → s'.ahead.length < s.ahead.length →
      Runs (c.readParts read limit c.partIds) s' (Finished source c s')) :
    Runs (readContainer read limit t.kind parent segment) s fun id s' => ∃ v : Value, id = v.id ∧
      Onward source s s' (nodeRows parent segment (.value v)) ∧
      s'.ahead.length < s.ahead.length ∧ ∀ place stack,
        ending (Container.empty t.kind s.rows.length t.span).atPart (place :: stack)
            (opened parent segment t rest s) =
          ending (place.receive (some v) s'.lastEnd) stack s' := by
  have of : (opened parent segment t rest s).Of source := h.pass hs
  have noIds : (Container.empty t.kind s.rows.length t.span).partIds = [] := by
    rw [Container.partIds, (Container.empty_eq t.kind s.rows.length t.span).2.2, List.map_nil]
  have read := parts (.empty t.kind s.rows.length t.span) _ of (length_lt_of_cons hs)
  rw [noIds] at read
  unfold readContainer
  rw [runs_bind_of_ok (openContainer_eq hs ..)]
  exact read.bind fun ids s' hparts => closeContainer_runs h hs hparts

end Descent

end TemplateLint
