import TemplateLint.Proofs.Builder.Numbering
import TemplateLint.Proofs.Descent.Parts

/-!
# Texts read by descent

Reading a text by descent always comes to an end and is never broken off: each
turn of a loop leaves the loop or takes at least one token, whatever stands in
the text, so no loop takes more turns than there are tokens, but for the last.
The nodes, numbered as they were met, are the entries of the document that is
built token by token, with the same faults, and there are no more of them than
tokens.
-/

namespace TemplateLint.Descent

open Builder (finish)
open Lexeme (tokens)

variable {source : List Char} {s s' : State} {t u : Lexeme Token} {rest : List (Lexeme Token)}
  {levels turns : Nat}

/-! ## Turns -/

/-- A turn comes to an outcome; if it does not leave its loop, it takes a token of the text. -/
def Progresses {α β : Type} (source : List Char) (turn : Action (Turn α β)) (s : State) : Prop :=
  Runs turn s fun x s' => s'.Of source ∧ ∀ b, x = .again b → s'.ahead.length < s.ahead.length

theorem recoverTurn_progresses (h : s.Of source) (close : Token) :
    Progresses source (recoverTurn close) s := by
  cases hs : s.ahead with
  | nil => exact ⟨_, _, recoverTurn_nil hs, h, nofun⟩
  | cons t rest =>
    by_cases hclose : t.kind = close
    · exact ⟨_, _, recoverTurn_closer hs hclose, h, nofun⟩
    · by_cases hcomma : t.kind = .comma
      · exact ⟨_, _, recoverTurn_comma hs hclose hcomma, h.pass hs, nofun⟩
      · exact ⟨_, _, recoverTurn_other hs hclose hcomma, h.pass hs,
          fun _ _ => length_lt_of_cons hs⟩

theorem skipTurn_progresses (h : s.Of source) (nesting : Nat) :
    Progresses source (skipTurn nesting) s := by
  refine (skipTurn_runs h nesting).mono fun x s' ⟨honward, shorter, hx⟩ => ⟨honward.of, ?_⟩
  rintro b rfl
  exact shorter hx.1

theorem Container.turn_progresses (c : Container) (h : s.Of source)
    (hlevels : s.ahead.length < levels) (hturns : s.ahead.length < turns) :
    Progresses source (c.turn (value levels) turns c.partIds) s := by
  refine (turn_runs h c hturns (reads_value hlevels)).mono ?_
  rintro x s' ⟨c', more, -, honward, hx⟩
  refine ⟨honward.of, ?_⟩
  rintro b rfl
  exact hx.2.1

theorem objectTurn_progresses (h : s.Of source) (hlevels : s.ahead.length < levels)
    (hturns : s.ahead.length < turns) (id : Nat) (opening : Span) (properties : List Nat) :
    Progresses source (objectTurn (value levels) turns id opening properties) s := by
  -- Any numbers are those of properties that may have been read.
  let before := properties.map fun k => (⟨k, opening, "", opening, none⟩ : Property)
  let c : Container := .object ⟨id, opening, before.reverse⟩
  have ids : c.partIds = properties := by
    refine (Node.children_eq_steps (.value (c.close 0))).symm.trans ?_
    simp [c, before, Container.close, Builder.OpenObject.close, Node.children, Function.comp_def]
  have turn := c.turn_progresses h hlevels hturns
  rw [ids] at turn
  exact turn

theorem arrayTurn_progresses (h : s.Of source) (hlevels : s.ahead.length < levels)
    (hturns : s.ahead.length < turns) (id : Nat) (opening : Span) (items : List Nat) :
    Progresses source (arrayTurn (value levels) turns id opening items) s := by
  let before := items.map fun k => Value.scalar k opening .null
  let c : Container := .array ⟨id, opening, before.reverse⟩
  have ids : c.partIds = items := by
    refine (Node.children_eq_steps (.value (c.close 0))).symm.trans ?_
    simp [c, before, Container.close, Builder.OpenArray.close, Node.children, Value.id,
      Function.comp_def]
  have turn := c.turn_progresses h hlevels hturns
  rw [ids] at turn
  exact turn

/-! ## Behind the root -/

theorem State.Of.start_le_stop_of_mem (h : s.Of source) (hs : s.ahead = t :: rest)
    (hu : u ∈ s.ahead) : t.span.start ≤ u.span.stop := by
  have first := h.start_le_stop hs
  rw [hs] at hu
  rcases List.mem_cons.mp hu with rfl | hu
  · exact first
  · obtain ⟨hsource, behind, htokens, -⟩ := h
    have ordered := Lexeme.pairwise_tokens source
    have placed : u ∈ tokens source := by
      rw [htokens, hs]
      exact List.mem_append_right behind (List.mem_cons_of_mem t hu)
    rw [htokens, hs] at ordered
    have next := List.rel_of_pairwise_cons (List.pairwise_append.mp ordered).2.1 hu
    have nonempty := (Lexeme.placed_of_mem_tokens placed).nonempty
    omega

/-- Behind the root all that is left is one piece of trailing content. -/
theorem finish_trailing (eof : Span) (v : Option Value) (ts : List (Lexeme Token)) (q : Span)
    {b : Builder.State} (hb : b.focus = .done v (some q)) :
    finish eof (ts.foldl Builder.step b) =
      (v, ⟨.trailingContent, ⟨q.start, (ts.getLast?.map (·.span.stop)).getD q.stop⟩⟩ ::
        b.faults) := by
  induction ts generalizing b q with
  | nil =>
    rw [List.foldl_nil, finish, hb]
    rfl
  | cons t ts ih =>
    have step : Builder.step b t =
        { b.withFocus (.done v (some ⟨q.start, t.span.stop⟩)) with lastEnd := t.span.stop } := by
      rw [Builder.step, Builder.act, hb]
      rfl
    rw [List.foldl_cons, ih ⟨q.start, t.span.stop⟩ (by rw [step]; rfl), step, List.getLast?_cons]
    cases ts.getLast? <;> rfl

theorem reportTrailing_runs (h : s.Of source) (v : Option Value) :
    Runs reportTrailing s fun _ s' => s'.rows = s.rows ∧
      ending (.done v none) [] s = (v, s'.faults) := by
  unfold reportTrailing
  rw [runs_peek_bind]
  cases hs : s.ahead with
  | nil =>
    rw [List.head?_nil]
    refine runs_pure ⟨rfl, ?_⟩
    rw [ending_of_nil hs]
    rfl
  | cons t rest =>
    obtain ⟨last, hlast⟩ : ∃ last, (t :: rest).getLast? = some last :=
      ⟨_, List.getLast?_cons⟩
    have ordered : t.span.start ≤ last.span.stop := by
      refine h.start_le_stop_of_mem hs ?_
      rw [hs]
      exact List.mem_of_getLast? hlast
    rw [List.head?_cons]
    dsimp only
    rw [runs_get_bind, hs, hlast]
    dsimp only [Option.map_some, Option.getD_some]
    rw [runs_bind_of_ok (range_eq ordered)]
    refine ⟨_, _, rfl, rfl, ?_⟩
    rw [ending, hs, List.foldl_cons]
    refine (finish_trailing s.eof v rest t.span rfl).trans ?_
    rw [List.getLast?_cons] at hlast
    cases hlast
    cases rest.getLast? <;> rfl

/-! ## Whole texts -/

theorem initial_of (source : List Char) : (State.initial source).Of source :=
  ⟨rfl, [], rfl, rfl⟩

/-- The root is read with all that is below it, as the builder reads it. -/
theorem root_runs {limit : Nat} (hlimit : (tokens source).length < limit) :
    Runs (root limit) (.initial source) fun id s' => ∃ v : Option Value, id = v.map Value.id ∧
      s'.rows = (v.map fun v => nodeRows none none (.value v)).getD [] ∧
      finish (.point (Lexeme.byteLength source)) (Builder.run (tokens source)) =
        (v, s'.faults) := by
  have of := initial_of source
  have run : finish (.point (Lexeme.byteLength source)) (Builder.run (tokens source)) =
      ending .start [] (.initial source) := rfl
  rw [run, root, runs_get_bind]
  cases hs : (State.initial source).ahead with
  | nil =>
    change Runs (reportTrailing >>= fun _ => pure none) _ _
    refine (reportTrailing_runs of none).bind ?_
    rintro _ s' ⟨hrows, hending⟩
    refine runs_pure ⟨none, rfl, hrows, ?_⟩
    rw [← hending, ending_of_nil hs, ending_of_nil hs]
    rfl
  | cons t rest =>
    change Runs (value limit none none >>= fun id => reportTrailing >>= fun _ => pure id) _ _
    refine (reads_value hlimit _ _ _ none none of hs (Nat.le_refl _)).bind ?_
    rintro _ s' ⟨v, rfl, honward, -, hvalue⟩
    refine (reportTrailing_runs honward.of v).bind ?_
    rintro _ s'' ⟨hrows, hending⟩
    refine runs_pure ⟨v, rfl, ?_, ?_⟩
    · rw [hrows, honward.rows]
      rfl
    · exact (hvalue .root [] nofun).trans hending

/-- The root, a row for each node and the faults, as they are built token by token. -/
def built (source : List Char) : Outcome where
  root := (Builder.build source).1.map Value.id
  rows := ((Builder.build source).1.map fun v => nodeRows none none (.value v)).getD []
  faults := (Builder.build source).2

theorem parse_eq {limit : Nat} (hlimit : (tokens source).length < limit) :
    parse limit source = some (.ok (built source)) := by
  obtain ⟨_, s, hrun, v, rfl, hrows, hfinish⟩ := root_runs hlimit
  have build : Builder.build source = (v, unknownCharacters source ++ s.faults.reverse) := by
    change ((finish _ (Builder.run (tokens source))).1,
      _ ++ (finish _ (Builder.run (tokens source))).2.reverse) = _
    rw [hfinish]
    rfl
  have outcome : (root limit).run (.initial source) = some (.ok (v.map Value.id, s)) := hrun
  rw [parse, outcome, built, build]
  simp only [hrows]

theorem rows_built (source : List Char) :
    (built source).rows = (Document.parse source).1.entries.map Entry.row := by
  rw [built, Document.entries, Document.root_parse]
  cases (Builder.build source).1 <;> rfl

/-- A text is read to its end whatever it is. In every state on the way, each turn of each loop
comes to an outcome, with a token less ahead if the loop goes on. So no loop takes more turns than
there are tokens, but for the last, and nothing breaks the reading off. There are at most as many
nodes as tokens; they are those of the document, with the same faults. -/
theorem parse_returns (source : List Char) :
    (State.initial source).Of source ∧
    (∀ s : State, s.Of source →
      (∀ levels turns, s.ahead.length < levels → s.ahead.length < turns → ∀ id opening ids,
        Progresses source (objectTurn (value levels) turns id opening ids) s ∧
          Progresses source (arrayTurn (value levels) turns id opening ids) s) ∧
      (∀ close, Progresses source (recoverTurn close) s) ∧
      ∀ nesting, Progresses source (skipTurn nesting) s) ∧
    ∃ out : Outcome,
      (∀ limit, (tokens source).length < limit → parse limit source = some (.ok out)) ∧
      out.rows.length ≤ (tokens source).length ∧
      out.root = (Document.parse source).1.root.map Value.id ∧
      out.rows = (Document.parse source).1.entries.map Entry.row ∧
      out.faults.map PlacedFault.diagnostic = (Document.parse source).2 := by
  refine ⟨initial_of source, fun s h => ⟨?_, recoverTurn_progresses h, skipTurn_progresses h⟩, ?_⟩
  · intro levels turns hlevels hturns id opening ids
    exact ⟨objectTurn_progresses h hlevels hturns id opening ids,
      arrayTurn_progresses h hlevels hturns id opening ids⟩
  · have numbered :
        (Document.parse source).1.entries.length = (Builder.run (tokens source)).nextId := by
      simpa using congrArg List.length (Document.ids_parse source)
    refine ⟨built source, fun limit hlimit => parse_eq hlimit, ?_, rfl, rows_built source, rfl⟩
    rw [rows_built, List.length_map, numbered]
    exact Builder.run_nextId_le (tokens source)

end TemplateLint.Descent
