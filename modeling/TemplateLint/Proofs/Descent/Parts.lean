import TemplateLint.Proofs.Descent.Values

/-!
# Parts of containers read by descent

A turn of the loop over an object reads a property, or what stands in its place
is reported and skipped; a turn of the loop over an array does the same with an
item. Either way the turn leaves the loop or takes a token: a value that is left
to an enclosing container is skipped, unless it ends the container at hand.
-/

namespace TemplateLint.Descent

open Builder (Focus Place OpenObject OpenArray OpenProperty)

variable {source : List Char} {s s' : State} {t : Lexeme Token} {rest : List (Lexeme Token)}
  {read : Reader} {limit n m : Nat}

/-- Values are read, or left out, as the builder reads them, wherever a token is ahead and no more
tokens than a number. -/
def Reads (source : List Char) (n : Nat) (read : Reader) : Prop :=
  ∀ s t rest parent segment, State.Of source s → s.ahead = t :: rest → s.ahead.length ≤ n →
    Runs (read parent segment) s (ValueRead source parent segment s)

theorem Reads.mono (h : Reads source n read) (hle : m ≤ n) : Reads source m read :=
  fun s t rest parent segment hof hs hm => h s t rest parent segment hof hs (Nat.le_trans hm hle)

/-! ## Properties -/

/-- What has been read behind a key makes the same property in the builder. -/
def PropertyRead (source : List Char) (owner : Nat) (key : String) (keySpan : Span) (s : State)
    (id : Option Nat) (s' : State) : Prop :=
  ∃ v : Option Value, id = v.map Value.id ∧
    Onward source s s'
      ((v.map fun v => nodeRows (some owner) (some (.key key)) (.value v)).getD []) ∧
    ∀ (o : OpenObject) (p : OpenProperty) (stack : List Place), p.keySpan = keySpan →
      ending (.colon o p) stack s = ending (.propertyEnd (o.add (p.close v s'.lastEnd))) stack s'

theorem ending_noColon {o : OpenObject} {p : OpenProperty} {stack : List Place}
    (h : s.nextKind? ≠ some .colon) : ending (.colon o p) stack s =
      ending (.propertyEnd (o.add (p.close none s.lastEnd))) stack
        (s.report (.expected .colon s.nextKind? p.keySpan) s.nextSpan) := by
  refine ending_of_act rfl rfl (fun t rest hs => ?_) fun hs => ?_
  · have kind := nextKind?_of_cons hs
    rw [kind, nextSpan_of_cons hs]
    exact if_neg fun hcolon => h (kind.trans (congrArg some hcolon))
  · rw [nextKind?_of_nil hs, nextSpan_of_nil hs]
    rfl

theorem ending_noValue {o : OpenObject} {p : OpenProperty} {stack : List Place}
    (hs : s.ahead = []) : ending (.propertyValue o p) stack s =
      ending (.propertyEnd (o.add (p.close none s.lastEnd))) stack
        (s.report (.expectedValue none) s.eof) := by
  refine ending_of_act rfl rfl (fun t rest hcons => ?_) fun _ => rfl
  cases hs.symm.trans hcons

theorem propertyValue_runs (h : s.Of source) (owner : Nat) (key : String) (keySpan : Span)
    (reads : Reads source s.ahead.length read) :
    Runs (propertyValue read owner key keySpan) s (PropertyRead source owner key keySpan s) := by
  rw [propertyValue]
  by_cases hcolon : s.nextKind? = some .colon
  · obtain ⟨t, rest, hs, hkind⟩ := exists_of_nextKind? hcolon
    have passed := Onward.pass h hs
    have expected : ∀ (o : OpenObject) (p : OpenProperty) stack,
        ending (.colon o p) stack s = ending (.propertyValue o p) stack (s.pass t rest) :=
      fun o p stack => ending_of_pass hs (if_pos hkind)
    rw [runs_bind_of_ok (eat_of_cons hs hkind), if_pos rfl, runs_peek_bind]
    cases hahead : (s.pass t rest).ahead with
    | nil =>
      rw [List.head?_nil]
      dsimp only
      rw [runs_reportExpectedValue_bind, nextKind?_of_nil hahead, nextSpan_of_nil hahead]
      refine runs_pure ⟨none, rfl, passed.report, ?_⟩
      rintro o p stack rfl
      rw [expected, ending_noValue hahead]
      rfl
    | cons u more =>
      rw [List.head?_cons]
      dsimp only
      have awaits : ∀ o p, Awaits (.property o p) (s.pass t rest) := fun o p a ha => by cases ha
      by_cases hend : u.kind = .comma ∨ u.kind = .closeBrace
      · rw [if_pos hend, runs_reportExpectedValue_bind, nextKind?_of_cons hahead,
          nextSpan_of_cons hahead]
        refine runs_pure ⟨none, rfl, passed.report, ?_⟩
        rintro o p stack rfl
        exact (expected o p stack).trans (ending_refused (awaits o p) hahead (by tauto))
      · rw [if_neg hend]
        have whole := reads _ _ _ (some owner) (some (.key key)) passed.of hahead passed.ahead
        refine whole.mono ?_
        rintro _ s' ⟨v, rfl, honward, -, hending⟩
        refine ⟨v, rfl, passed.trans honward, ?_⟩
        rintro o p stack rfl
        exact (expected o p stack).trans (hending (.property o p) stack (awaits o p))
  · rw [runs_bind_of_ok (eat_of_ne hcolon), if_neg Bool.false_ne_true, runs_reportExpected_bind]
    refine runs_pure ⟨none, rfl, (Onward.refl h).report, ?_⟩
    rintro o p stack rfl
    exact ending_noColon hcolon

/-- The rows of a property: its own, then those of its value. -/
theorem nodeRows_property (owner : Nat) (p : Property) :
    nodeRows (some owner) (some (.key p.key)) (.property p) =
      ⟨some owner, some (.key p.key), p.span, .property p.key p.keySpan (p.value.map Value.id)⟩ ::
        ((p.value.map fun v =>
          nodeRows (some p.id) (some (.key p.key)) (.value v)).getD []) := by
  obtain ⟨id, span, key, keySpan, _ | v⟩ := p <;> rfl

/-- The state behind the key of a property. -/
def keyed (owner : Nat) (key : String) (fault : Option Fault) (t : Lexeme Token)
    (rest : List (Lexeme Token)) (s : State) : State :=
  ((s.pass t rest).reportAny fault t.span).add
    ⟨some owner, some (.key key), t.span, .property key t.span none⟩

section Key

variable {owner : Nat} {key : String} {fault : Option Fault}

theorem keyed_onward (h : s.Of source) (hs : s.ahead = t :: rest) :
    Onward source s (keyed owner key fault t rest s)
      [⟨some owner, some (.key key), t.span, .property key t.span none⟩] :=
  (Onward.pass h hs).reportAny.add _

/-- A key gives its property the next number. -/
theorem ending_key {o : OpenObject} {stack : List Place} (hs : s.ahead = t :: rest)
    (hkey : t.kind = .string ∨ t.kind = .unterminatedString)
    (htext : Builder.stringText t = (key, fault)) : ending (.key o) stack s =
      ending (.colon o ⟨s.rows.length, key, t.span⟩) stack (keyed owner key fault t rest s) := by
  refine ending_of_step hs rfl rfl ?_
  change { Builder.beginProperty o t _ with lastEnd := t.span.stop } = _
  rw [Builder.beginProperty, keyed, machine_add]
  rcases hkey with hkind | hkind
  · simp only [hkind, htext]
    cases fault <;> rfl
  · simp only [hkind, htext]
    cases fault <;> rfl

end Key

theorem property_runs (h : s.Of source) (hs : s.ahead = t :: rest)
    (hkey : t.kind = .string ∨ t.kind = .unterminatedString) (owner : Nat)
    (reads : Reads source s.ahead.length read) :
    Runs (property read owner) s fun id s' => ∃ p : Property, id = p.id ∧
      Onward source s s' (nodeRows (some owner) (some (.key p.key)) (.property p)) ∧
      s'.ahead.length < s.ahead.length ∧
      ∀ o stack, ending (.key o) stack s = ending (.propertyEnd (o.add p)) stack s' := by
  obtain ⟨key, fault, htext⟩ : ∃ key fault, Builder.stringText t = (key, fault) := ⟨_, _, rfl⟩
  have text := stringText_eq (s := s.pass t rest) (h.mem hs) hkey
  have alloc : (alloc (some owner) (some (.key key)) t.span (.property key t.span none))
      ((s.pass t rest).reportAny fault t.span) =
        some (.ok (s.rows.length, keyed owner key fault t rest s)) := rfl
  have before : Onward source s (keyed owner key fault t rest s) _ := keyed_onward h hs
  rw [htext] at text
  rw [property, runs_bind_of_ok (bump_of_cons hs)]
  dsimp only
  rw [runs_bind_of_ok text, runs_bind_of_ok alloc]
  have fewer := reads.mono before.ahead
  refine (propertyValue_runs before.of s.rows.length key t.span fewer).bind ?_
  rintro _ s' ⟨v, rfl, honward, hending⟩
  obtain ⟨hend, hle⟩ := honward.lastEnd_eq (e := t.span.stop) rfl t.span.stop
  have onward := before.trans honward
  have row : s'.rows[s.rows.length]? =
      some ⟨some owner, some (.key key), t.span, .property key t.span none⟩ := by
    rw [onward.rows]
    simp
  rw [runs_lastEnd_bind, hend,
    runs_bind_of_ok (complete_eq row (Nat.le_trans (h.start_le_stop hs) hle))]
  refine runs_pure ⟨⟨s.rows.length, ⟨t.span.start, s'.lastEnd⟩, key, t.span, v⟩, rfl,
    ⟨onward.of, onward.ahead, onward.latest, ?_, onward.depth⟩, ?_, fun o stack => ?_⟩
  · change s'.rows.set s.rows.length _ = _
    rw [onward.rows, nodeRows_property]
    simp
  · exact Nat.lt_of_le_of_lt honward.ahead (length_lt_of_cons hs)
  · rw [ending_set, ending_key hs hkey htext, hending o ⟨s.rows.length, key, t.span⟩ stack rfl]
    rfl

/-! ## Turns -/

/-- What a turn has read, and then how it goes on. -/
theorem Turned.of_resumed {c c' : Container} {more : List (Segment × Node)} {focus : Focus}
    {x : Turn (List Nat) (List Nat)} {s'' : State} (hgrows : c.Grows c' more)
    (honward : Onward source s s' (partRows c.id more))
    (hprogress : s'.nextKind? = some c'.closer → s'.ahead.length < s.ahead.length)
    (hending : ∀ stack, ending c.atPart stack s = ending focus stack s')
    (hresumed : Resumed source c' focus c'.partIds s' x s'') : Turned source c s x s'' := by
  obtain ⟨honward', hx⟩ := hresumed
  have onward := honward.trans honward'
  rw [List.append_nil] at onward
  refine ⟨c', more, hgrows, onward, ?_⟩
  cases x with
  | leave ids => exact ⟨hx.1, fun place stack => (hending _).trans (hx.2 place stack)⟩
  | again ids =>
    refine ⟨hx.1, ?_, fun stack => (hending stack).trans (hx.2.2 stack)⟩
    by_cases hcloser : s'.nextKind? = some c'.closer
    · exact Nat.lt_of_le_of_lt honward'.ahead (hprogress hcloser)
    · exact Nat.lt_of_lt_of_le (hx.2.1 hcloser) honward.ahead

/-- The closing token ends a container in place of a part. -/
theorem Turned.of_closer {c : Container} (h : s.Of source) (hs : s.ahead = t :: rest)
    (hkind : t.kind = c.closer) :
    Turned source c s (.leave c.partIds) (s.pass t rest) :=
  ⟨c, [], .refl c, .pass h hs, rfl, fun _ _ => ending_closer hs hkind (act_atPart_closer hkind)⟩

theorem ending_noKey {o : OpenObject} {stack : List Place}
    (hcloser : s.nextKind? ≠ some .closeBrace) (hstring : s.nextKind? ≠ some .string)
    (hunterminated : s.nextKind? ≠ some .unterminatedString) :
    ending (.key o) stack s = ending (.objectRecovery o) stack
      (s.report (.expected .propertyKey s.nextKind? o.opening) s.nextSpan) := by
  refine ending_of_act rfl rfl (fun t rest hs => ?_) fun hs => ?_
  · rw [nextKind?_of_cons hs] at hcloser hstring hunterminated ⊢
    rw [nextSpan_of_cons hs]
    change Builder.beginProperty o t _ = _
    unfold Builder.beginProperty
    split
    · exact absurd (congrArg some ‹_›) hcloser
    · exact absurd (congrArg some ‹_›) hstring
    · exact absurd (congrArg some ‹_›) hunterminated
    · rfl
  · rw [nextKind?_of_nil hs, nextSpan_of_nil hs]
    rfl

theorem objectTurn_runs (h : s.Of source) (o : OpenObject) (hlimit : s.ahead.length < limit)
    (reads : Reads source s.ahead.length read) :
    Runs (objectTurn read limit o.id o.opening (Container.object o).partIds) s
      (Turned source (.object o) s) := by
  rw [objectTurn]
  by_cases hcloser : s.nextKind? = some .closeBrace
  · obtain ⟨t, rest, hs, hkind⟩ := exists_of_nextKind? hcloser
    rw [runs_bind_of_ok (eat_of_cons hs hkind), if_pos rfl]
    exact runs_pure (.of_closer h hs hkind)
  · rw [runs_bind_of_ok (eat_of_ne hcloser), if_neg Bool.false_ne_true, runs_peek_bind]
    have skip : s.nextKind? ≠ some .string → s.nextKind? ≠ some .unterminatedString →
        Runs (reportExpected .propertyKey o.opening >>= fun _ =>
            resume limit .closeBrace (Container.object o).partIds) s
          (Turned source (.object o) s) := by
      intro hstring hunterminated
      rw [runs_reportExpected_bind]
      have reported : Onward source s
          (s.report (.expected .propertyKey s.nextKind? o.opening) s.nextSpan) [] :=
        (Onward.refl h).report
      refine (resume_runs reported.of (.object o) hlimit _).mono fun x s' hresumed => ?_
      exact .of_resumed (.refl _) reported (fun hnext => absurd hnext hcloser)
        (fun _ => ending_noKey hcloser hstring hunterminated) hresumed
    cases hs : s.ahead with
    | nil =>
      rw [List.head?_nil]
      have next := nextKind?_of_nil hs
      exact skip (by rw [next]; exact nofun) (by rw [next]; exact nofun)
    | cons t rest =>
      rw [List.head?_cons]
      have next := nextKind?_of_cons hs
      dsimp only
      by_cases hkey : t.kind = .string ∨ t.kind = .unterminatedString
      · rw [if_pos hkey]
        refine (property_runs h hs hkey o.id reads).bind ?_
        rintro _ s' ⟨p, rfl, honward, hlt, hending⟩
        have grows := Container.Grows.property o p
        rw [← partRows_singleton] at honward
        rw [show (Container.object o).partIds ++ [p.id] = (Container.object (o.add p)).partIds from
          grows.partIds.symm]
        have hlimit' := Nat.lt_trans hlt hlimit
        refine (endPart_runs honward.of (.object (o.add p)) hlimit' _).mono fun x s'' hresumed => ?_
        exact .of_resumed grows honward (fun _ => hlt) (hending o) hresumed
      · rw [if_neg hkey]
        rw [next] at skip
        exact skip (fun hkind => hkey (Or.inl (Option.some.inj hkind)))
          fun hkind => hkey (Or.inr (Option.some.inj hkind))

theorem ending_noItem {a : OpenArray} {place : Place} {stack : List Place} (hs : s.ahead = []) :
    ending (.item a) (place :: stack) s = closed (.array a) place stack
      (s.report (.expected .itemOrEnd none a.opening) s.eof) := by
  have left : (s.report (.expected .itemOrEnd none a.opening) s.eof).ahead = [] := hs
  rw [ending_of_nil hs, closed_nil left]
  rfl

theorem arrayTurn_runs (h : s.Of source) (a : OpenArray) (hlimit : s.ahead.length < limit)
    (reads : Reads source s.ahead.length read) :
    Runs (arrayTurn read limit a.id a.opening (Container.array a).partIds) s
      (Turned source (.array a) s) := by
  have length : (Container.array a).partIds.length = a.items.length := by
    simp [Container.partIds, Container.parts, Container.close, OpenArray.close, Node.steps]
  rw [arrayTurn]
  by_cases hcloser : s.nextKind? = some .closeBracket
  · obtain ⟨t, rest, hs, hkind⟩ := exists_of_nextKind? hcloser
    rw [runs_bind_of_ok (eat_of_cons hs hkind), if_pos rfl]
    exact runs_pure (.of_closer h hs hkind)
  · rw [runs_bind_of_ok (eat_of_ne hcloser), if_neg Bool.false_ne_true, runs_peek_bind]
    cases hs : s.ahead with
    | nil =>
      rw [List.head?_nil]
      dsimp only
      rw [runs_reportExpected_bind, nextKind?_of_nil hs, nextSpan_of_nil hs]
      exact runs_pure ⟨_, [], .refl _, (Onward.refl h).report, rfl,
        fun place stack => ending_noItem hs⟩
    | cons t rest =>
      rw [List.head?_cons]
      dsimp only
      rw [length]
      have whole := reads _ _ _ (some a.id) (some (.index a.items.length)) h hs (Nat.le_refl _)
      refine whole.bind ?_
      rintro _ s' ⟨v, rfl, honward, hprogress, hending⟩
      have awaits : Awaits (.item a) s := fun b hb => hcloser
      have hlimit' := Nat.lt_of_le_of_lt honward.ahead hlimit
      cases v with
      | none =>
        refine (resume_runs honward.of (.array a) hlimit' _).mono fun x s'' hresumed => ?_
        refine .of_resumed (.refl _) honward (fun hnext => ?_)
          (fun stack => hending (.item a) stack awaits) hresumed
        -- Where no token was taken, the next one is not the closing one: the turn began with that.
        refine hprogress.resolve_right fun hsame => hcloser ?_
        have same : s'.nextKind? = s.nextKind? := by
          rw [State.nextKind?, State.nextKind?, hsame.2]
        exact same.symm.trans hnext
      | some v =>
        have grows := Container.Grows.item a v
        have honward : Onward source s s' (partRows a.id [(.index a.items.length, .value v)]) := by
          rw [partRows_singleton]
          exact honward
        have shorter := hprogress.resolve_right fun hnone => Option.some_ne_none v hnone.1
        dsimp only [Option.map_some]
        rw [show (Container.array a).partIds ++ [v.id] = (Container.array (a.add v)).partIds from
          grows.partIds.symm]
        refine (endPart_runs honward.of (.array (a.add v)) hlimit' _).mono fun x s'' hresumed => ?_
        exact .of_resumed grows honward (fun _ => shorter)
          (fun stack => hending (.item a) stack awaits) hresumed

/-! ## All values -/

theorem turn_runs (h : s.Of source) (c : Container) (hlimit : s.ahead.length < limit)
    (reads : Reads source s.ahead.length read) :
    Runs (c.turn read limit c.partIds) s (Turned source c s) := by
  cases c with
  | object o => exact objectTurn_runs h o hlimit reads
  | array a => exact arrayTurn_runs h a hlimit reads

/-- Values are read if the limit is above the number of tokens that are ahead. -/
theorem reads_value (hlimit : n < limit) : Reads source n (value limit) := by
  -- A container takes a token before its parts, so fewer are ahead of the values in it.
  induction limit generalizing n with
  | zero => exact absurd hlimit (Nat.not_lt_zero n)
  | succ limit ih =>
    intro s t rest parent segment hof hs hn
    refine valueBy_runs hof hs parent segment (Nat.lt_of_le_of_lt hn hlimit) ?_
    intro c s' hof' hlt
    refine readParts_runs hof' (by omega) fun c' s'' hof'' hle => ?_
    exact turn_runs hof'' c' (by omega) (ih (by omega))

end TemplateLint.Descent
