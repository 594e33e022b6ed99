import TemplateLint.Proofs.Grammar.Texts
import TemplateLint.Tree.Builder

/-!
# Building what has been derived

Tokens that derive an outline are built into a value of that outline. What is
nested too deep is left out of it, with one fault for each container that is
enclosed in as many others as are allowed. All that goes on around the value
waits until it has been read.
-/

namespace TemplateLint.Builder

/-- What is expected in a place that waits for a value. -/
def Place.focus : Place → Focus
  | .root => .start
  | .property o p => .propertyValue o p
  | .item a => .item a

/-- A later state with the same containers around it, and with a fault for each of the containers
that are nested too deep. -/
structure Continues (deep : List Span) (s s' : State) : Prop where
  stack : s'.stack = s.stack
  depth : s'.depth = s.depth
  faults : s'.faults = (deep.map fun span => ⟨.nestingTooDeep, span⟩).reverse ++ s.faults

namespace Continues

variable {s s' : State}

theorem refl (s : State) : Continues [] s s := ⟨rfl, rfl, rfl⟩

theorem trans {deep more : List Span} {s'' : State} (h : Continues deep s s')
    (h' : Continues more s' s'') : Continues (deep ++ more) s s'' := by
  refine ⟨h'.stack.trans h.stack, h'.depth.trans h.depth, ?_⟩
  rw [h'.faults, h.faults]
  simp

end Continues

/-! ## Single tokens -/

theorem stringText_of_quotes {t : Lexeme Token} {text : String} (h : t.Quotes (some text)) :
    stringText t = (text, none) := by
  obtain ⟨hkind, cs, literal, htext⟩ := h
  obtain ⟨ds, rfl, rfl⟩ := Option.map_eq_some_iff.mp htext.symm
  have hdecode := Json.Quoted.decode?_eq_some_iff.mpr literal
  simp [stringText, hkind, hdecode]

theorem scalar?_of_denotes {t : Lexeme Token} {content : Scalar} (h : t.Denotes (some content)) :
    scalar? t = some (content, none) := by
  generalize hsome : some content = found at h
  cases h with
  | @string text quotes =>
    obtain ⟨text, rfl, rfl⟩ := Option.map_eq_some_iff.mp hsome.symm
    simp [scalar?, quotes.1, stringText_of_quotes quotes]
  | @number l hkind writes =>
    split at hsome
    · rename_i finite
      cases hsome
      simp [scalar?, hkind, numberScalar, Decimal.Literal.ofText?_eq_some_iff.mpr writes, finite]
    · cases hsome
  | trueWord hkind => cases hsome; simp [scalar?, hkind]
  | falseWord hkind => cases hsome; simp [scalar?, hkind]
  | nullWord hkind => cases hsome; simp [scalar?, hkind]

theorem withFocus_eq {s : State} {focus : Focus} (h : s.focus = focus) : s.withFocus focus = s := by
  cases h
  rfl

/-- A token that only moves the focus. -/
theorem step_of_act {s : State} {t : Lexeme Token} {focus : Focus}
    (h : act t s = s.withFocus focus) : (step s t).focus = focus ∧ Continues [] s (step s t) := by
  rw [step, h]
  exact ⟨rfl, rfl, rfl, rfl⟩

theorem act_focus {s : State} {t : Lexeme Token} {place : Place} (hfocus : s.focus = place.focus)
    (hkind : t.kind ≠ .closeBracket) : act t s = beginValue place t s := by
  cases place <;> simp [act, hfocus, Place.focus, hkind]

/-! ## Skipping -/

/-- Tokens that change nothing in a container that is skipped. -/
def SkipsOver (ts : List (Lexeme Token)) : Prop :=
  ∀ (s : State) (start nesting : Nat) (place : Place), s.focus = .skip start nesting place →
    (ts.foldl step s).focus = .skip start nesting place ∧ Continues [] s (ts.foldl step s)

namespace SkipsOver

theorem nil : SkipsOver [] := fun s _ _ _ h => ⟨h, .refl s⟩

theorem append {ts us : List (Lexeme Token)} (ht : SkipsOver ts) (hu : SkipsOver us) :
    SkipsOver (ts ++ us) := by
  intro s start nesting place h
  obtain ⟨hfocus, continues⟩ := ht s start nesting place h
  obtain ⟨hfocus', continues'⟩ := hu _ start nesting place hfocus
  rw [List.foldl_append]
  exact ⟨hfocus', continues.trans continues'⟩

/-- Only brackets count. -/
theorem singleton {t : Lexeme Token}
    (h : ∀ start nesting place s, skipToken start nesting place t s = s) : SkipsOver [t] := by
  intro s start nesting place hfocus
  have hact : act t s = s.withFocus (.skip start nesting place) := by
    rw [withFocus_eq hfocus]
    simp [act, hfocus, h]
  exact step_of_act hact

/-- A container inside. -/
theorem bracketed {opening closing : Lexeme Token} {body : List (Lexeme Token)}
    (hopening : opening.kind = .openBrace ∨ opening.kind = .openBracket)
    (hclosing : closing.kind = .closeBrace ∨ closing.kind = .closeBracket) (h : SkipsOver body) :
    SkipsOver (opening :: (body ++ [closing])) := by
  intro s start nesting place hfocus
  have hopen : act opening s = s.withFocus (.skip start (nesting + 1) place) := by
    rcases hopening with hk | hk <;> simp [act, hfocus, skipToken, hk]
  obtain ⟨hinside, entered⟩ := step_of_act hopen
  obtain ⟨hbody, continues⟩ := h _ start (nesting + 1) place hinside
  rw [List.foldl_cons, List.foldl_append]
  generalize body.foldl step (step s opening) = s' at hbody continues
  have hclose : act closing s' = s'.withFocus (.skip start nesting place) := by
    rcases hclosing with hk | hk <;> simp [act, hbody, skipToken, hk]
  obtain ⟨hleft, left⟩ := step_of_act hclose
  exact ⟨hleft, (entered.trans continues).trans left⟩

end SkipsOver

theorem skipsOver_of_listed {trailing : Bool} {α : Type} {tokens : α → List (Lexeme Token)}
    {xs : List α} {body : List (Lexeme Token)} (h : Listed trailing (xs.map tokens) body)
    (parts : ∀ x ∈ xs, SkipsOver (tokens x)) : SkipsOver body := by
  intro s start nesting place hfocus
  have skipping := h.foldl step
    (fun _ s' => s'.focus = .skip start nesting place ∧ Continues [] s s')
    (fun _ s' => s'.focus = .skip start nesting place ∧ Continues [] s s')
    ⟨hfocus, .refl s⟩ ?_ ?_
  · exact skipping.elim id id
  · rintro x hx _ s' ⟨hfocus', continues⟩
    obtain ⟨hfocus'', continues'⟩ := parts x hx s' start nesting place hfocus'
    exact ⟨hfocus'', continues.trans continues'⟩
  · rintro _ s' t ⟨hfocus', continues⟩ hkind
    have hact : act t s' = s'.withFocus (.skip start nesting place) := by
      rw [withFocus_eq hfocus']
      simp [act, hfocus', skipToken, hkind]
    obtain ⟨hfocus'', continues'⟩ := step_of_act hact
    exact ⟨hfocus'', continues.trans continues'⟩

theorem skipsOver_of_denotes {t : Lexeme Token} {content : Option Scalar}
    (h : t.Denotes content) : SkipsOver [t] := by
  refine .singleton fun start nesting place s => ?_
  cases h with
  | string quotes => simp [skipToken, quotes.1]
  | number hkind _ => simp [skipToken, hkind]
  | trueWord hkind => simp [skipToken, hkind]
  | falseWord hkind => simp [skipToken, hkind]
  | nullWord hkind => simp [skipToken, hkind]

theorem skipsOver_field {f : Field} (h : f.Leads) (value : SkipsOver f.value.tokens) :
    SkipsOver f.tokens := by
  have key : SkipsOver [f.key] := .singleton fun _ _ _ _ => by simp [skipToken, h.key.1]
  have colon : SkipsOver [f.colon] := .singleton fun _ _ _ _ => by simp [skipToken, h.colon]
  exact key.append (colon.append value)

theorem skipsOver_of_derives {trailing : Bool} {ts : List (Lexeme Token)} {o : Outline}
    (h : Derives trailing ts o) : SkipsOver ts := by
  induction h with
  | scalar denotes => exact skipsOver_of_denotes denotes
  | array hopening hclosing listed _ ih =>
    exact .bracketed (Or.inr hopening) (Or.inr hclosing) (skipsOver_of_listed listed ih)
  | object hopening hclosing listed leads _ ih =>
    have parts : ∀ f ∈ _, SkipsOver (Field.tokens f) :=
      fun f hf => skipsOver_field (leads f hf) (ih f hf)
    exact .bracketed (Or.inl hopening) (Or.inl hclosing) (skipsOver_of_listed listed parts)

/-! ## Reading -/

/-- What a place has received, and what has gone on meanwhile. -/
structure Receives (place : Place) (levels : Nat) (o : Outline) (s s' : State) : Prop where
  value : ∃ value, value.map Value.outline = o.truncate levels ∧
    s'.focus = place.receive value o.span.stop
  continues : Continues (o.containersAt levels) s s'

/-- Tokens that are built into a value of an outline, whatever place waits for it. -/
def BuiltInto (ts : List (Lexeme Token)) (o : Outline) : Prop :=
  ∀ (s : State) (place : Place) (levels : Nat), s.focus = place.focus →
    s.depth + levels = maxDepth → Receives place levels o s (ts.foldl step s)

theorem builtInto_scalar {t : Lexeme Token} {content : Scalar} (h : t.Denotes (some content)) :
    BuiltInto [t] (.scalar t.span (some content)) := by
  intro s place levels hfocus _
  have hkind : t.kind ≠ .closeBracket := fun hk => h.kind.1 (by rw [hk]; trivial)
  have hact := act_focus hfocus hkind
  simp only [beginValue, scalar?_of_denotes h, State.reportAny] at hact
  refine ⟨⟨some (.scalar s.nextId t.span content), ?_, ?_⟩, ?_⟩
  · simp [Outline.truncate]
  · simp [step, hact, Outline.span]
  · simp only [List.foldl_cons, List.foldl_nil, step, hact, Outline.containersAt]
    exact ⟨rfl, rfl, rfl⟩

/-! ## Containers -/

/-- Behind the body of a container, whose closing bracket makes a value of its outline. -/
structure Closable (closing : Lexeme Token) (levels : Nat) (o : Outline) (s s' : State) : Prop where
  value : ∃ v : Value, some v.outline = o.truncate levels ∧
    act closing s' = s'.closeContainer v closing.span.stop
  continues : Continues (o.containersAt levels) s s'

/-- A container in its brackets. -/
structure Bracketed (opening closing : Lexeme Token) (o : Outline) : Prop where
  opens : opening.kind = .openBrace ∨ opening.kind = .openBracket
  closes : closing.kind = .closeBrace ∨ closing.kind = .closeBracket
  span : o.span = ⟨opening.span.start, closing.span.stop⟩
  truncate : o.truncate 0 = none
  deep : o.containersAt 0 = [o.span]

section Around

variable {opening closing : Lexeme Token} {body : List (Lexeme Token)} {o : Outline} {s : State}
  {place : Place}

theorem Bracketed.act_opening (h : Bracketed opening closing o) (hfocus : s.focus = place.focus) :
    act opening s = beginValue place opening s ∧ scalar? opening = none := by
  rcases h.opens with hk | hk
  · exact ⟨act_focus hfocus (by simp [hk]), by simp [scalar?, hk]⟩
  · exact ⟨act_focus hfocus (by simp [hk]), by simp [scalar?, hk]⟩

/-- A container that is enclosed in too many others. -/
theorem receives_skipped (h : Bracketed opening closing o) (skipped : SkipsOver body)
    (hfocus : s.focus = place.focus) (hdepth : s.depth = maxDepth) :
    Receives place 0 o s ((opening :: (body ++ [closing])).foldl step s) := by
  have hopen : act opening s = s.withFocus (.skip opening.span.start 0 place) := by
    obtain ⟨hact, hscalar⟩ := h.act_opening hfocus
    rw [hact]
    rcases h.opens with hk | hk <;> simp [beginValue, hscalar, hk, hdepth]
  obtain ⟨hinside, entered⟩ := step_of_act hopen
  obtain ⟨hbody, continues⟩ := skipped _ _ _ _ hinside
  rw [List.foldl_cons, List.foldl_append]
  generalize body.foldl step (step s opening) = s' at hbody continues
  have hclose : act closing s' = (s'.report .nestingTooDeep o.span).withFocus
      (place.receive none closing.span.stop) := by
    rcases h.closes with hk | hk <;> simp [act, hbody, skipToken, hk, h.span]
  have before := entered.trans continues
  refine ⟨⟨none, h.truncate.symm, ?_⟩, ?_⟩
  · simp [step, hclose, State.withFocus, h.span]
  · rw [h.deep]
    refine ⟨?_, ?_, ?_⟩
    · simp [step, hclose, State.withFocus, State.report, before.stack]
    · simp [step, hclose, State.withFocus, State.report, before.depth]
    · simp [step, hclose, State.withFocus, State.report, before.faults]

/-- A container that is opened, read and closed. -/
theorem receives_closed (h : Bracketed opening closing o) {levels : Nat} {focus : Focus}
    (hopen : act opening s = s.openContainer place focus)
    (inside : (step s opening).focus = focus → (step s opening).depth = s.depth + 1 →
      Closable closing levels o (step s opening) (body.foldl step (step s opening))) :
    Receives place levels o s ((opening :: (body ++ [closing])).foldl step s) := by
  have entered : (step s opening).focus = focus ∧ (step s opening).stack = place :: s.stack ∧
      (step s opening).depth = s.depth + 1 ∧ (step s opening).faults = s.faults := by
    rw [step, hopen]
    exact ⟨rfl, rfl, rfl, rfl⟩
  obtain ⟨hfocus, hstack, hdepth, hfaults⟩ := entered
  obtain ⟨⟨v, houtline, hclose⟩, continues⟩ := inside hfocus hdepth
  rw [List.foldl_cons, List.foldl_append]
  generalize body.foldl step (step s opening) = s' at hclose continues
  generalize step s opening = entered at hfocus hstack hdepth hfaults continues
  have hstack' : s'.stack = place :: s.stack := continues.stack.trans hstack
  refine ⟨⟨some v, houtline, ?_⟩, ?_, ?_, ?_⟩
  · simp [step, hclose, State.closeContainer, hstack', h.span]
  · simp [step, hclose, State.closeContainer, hstack']
  · simp [step, hclose, State.closeContainer, hstack', continues.depth, hdepth]
  · simp [step, hclose, State.closeContainer, hstack', continues.faults, hfaults]

end Around

/-! ## Arrays -/

/-- Behind some items of an array. -/
structure ItemsRead (levels : Nat) (opening : Span) (s : State) (items : List Item) (a : OpenArray)
    (s' : State) : Prop where
  opening : a.opening = opening
  outlines : a.items.reverse.map Value.outline =
    (items.map Item.outline).filterMap fun o => o.truncate levels
  continues : Continues ((items.map Item.outline).flatMap fun o => o.containersAt levels) s s'

theorem ItemsRead.snoc {levels : Nat} {opening : Span} {s s' s'' : State} {seen : List Item}
    {i : Item} {a : OpenArray} (h : ItemsRead levels opening s seen a s')
    (receives : Receives (.item a) levels i.outline s' s'') :
    ∃ a', ItemsRead levels opening s (seen ++ [i]) a' s'' ∧
      (s''.focus = .itemEnd a' ∨ s''.focus = .arrayRecovery a') := by
  obtain ⟨⟨value, houtline, hvalue⟩, continues⟩ := receives
  have both := h.continues.trans continues
  cases value with
  | none =>
    -- an item that is left out is recovered from, though nothing is wrong behind it
    refine ⟨a, ⟨h.opening, ?_, by simpa using both⟩, Or.inr hvalue⟩
    simp [h.outlines, ← houtline]
  | some v =>
    refine ⟨a.add v, ⟨h.opening, ?_, by simpa using both⟩, Or.inl hvalue⟩
    have := h.outlines
    simp [OpenArray.add, ← houtline] at this ⊢
    exact this

/-- The body of an array, from its opening bracket on. -/
theorem closable_array {trailing : Bool} {opening closing : Lexeme Token} {items : List Item}
    {body : List (Lexeme Token)} (hclosing : closing.kind = .closeBracket)
    (listed : Listed trailing (items.map Item.tokens) body)
    (built : ∀ i ∈ items, BuiltInto i.tokens i.outline) {s : State} {levels id : Nat}
    (hfocus : s.focus = .item ⟨id, opening.span, []⟩) (hdepth : s.depth + levels = maxDepth) :
    Closable closing (levels + 1)
      (.array ⟨opening.span.start, closing.span.stop⟩ (items.map Item.outline)) s
      (body.foldl step s) := by
  have read := listed.foldl step
    (fun seen s' => ∃ a, ItemsRead levels opening.span s seen a s' ∧ s'.focus = .item a)
    (fun seen s' => ∃ a, ItemsRead levels opening.span s seen a s' ∧
      (s'.focus = .itemEnd a ∨ s'.focus = .arrayRecovery a))
    ⟨_, ⟨rfl, rfl, .refl s⟩, hfocus⟩ ?_ ?_
  · generalize body.foldl step s = s' at read
    -- a comma behind the last item leaves the array as it was
    obtain ⟨a, read, hclose⟩ : ∃ a, ItemsRead levels opening.span s items a s' ∧
        act closing s' = s'.closeContainer (a.close closing.span.stop) closing.span.stop := by
      rcases read with ⟨a, read, hfocus'⟩ | ⟨a, read, hfocus' | hfocus'⟩
      all_goals exact ⟨a, read, by simp [act, hfocus', endItem, recoverArray, hclosing]⟩
    refine ⟨⟨_, ?_, hclose⟩, ?_⟩
    · simp [OpenArray.close, Outline.truncate, read.outlines, read.opening]
    · simpa [Outline.containersAt] using read.continues
  · rintro i hi seen s' ⟨a, read, hfocus'⟩
    refine read.snoc (built i hi s' (.item a) levels hfocus' ?_)
    rw [read.continues.depth, hdepth]
  · rintro seen s' t ⟨a, read, hfocus'⟩ hkind
    have hact : act t s' = s'.withFocus (.item a) := by
      rcases hfocus' with hfocus' | hfocus' <;> simp [act, hfocus', endItem, recoverArray, hkind]
    obtain ⟨hfocus', continues⟩ := step_of_act hact
    refine ⟨a, ⟨read.opening, read.outlines, ?_⟩, hfocus'⟩
    simpa using read.continues.trans continues

theorem builtInto_array {trailing : Bool} {opening closing : Lexeme Token} {items : List Item}
    {body : List (Lexeme Token)} (hopening : opening.kind = .openBracket)
    (hclosing : closing.kind = .closeBracket)
    (listed : Listed trailing (items.map Item.tokens) body)
    (skipped : SkipsOver body) (built : ∀ i ∈ items, BuiltInto i.tokens i.outline) :
    BuiltInto (opening :: (body ++ [closing]))
      (.array ⟨opening.span.start, closing.span.stop⟩ (items.map Item.outline)) := by
  intro s place levels hfocus hdepth
  have bracketed : Bracketed opening closing
      (.array ⟨opening.span.start, closing.span.stop⟩ (items.map Item.outline)) :=
    ⟨Or.inr hopening, Or.inr hclosing, rfl, by simp [Outline.truncate],
      by simp [Outline.containersAt, Outline.span]⟩
  cases levels with
  | zero => exact receives_skipped bracketed skipped hfocus hdepth
  | succ levels =>
    have hopen : act opening s = s.openContainer place (.item ⟨s.nextId, opening.span, []⟩) := by
      have hnot : ¬ maxDepth ≤ s.depth := by omega
      obtain ⟨hact, hscalar⟩ := bracketed.act_opening hfocus
      simp [hact, beginValue, hscalar, hopening, hnot]
    refine receives_closed bracketed hopen fun hinside hdeeper => ?_
    exact closable_array hclosing listed built hinside (by omega)

/-! ## Objects -/

/-- Behind some properties of an object. -/
structure FieldsRead (levels : Nat) (opening : Span) (s : State) (fields : List Field)
    (o : OpenObject) (s' : State) : Prop where
  opening : o.opening = opening
  outlines : o.properties.reverse.map PropertyOf.outline = (fields.map Field.outline).map fun m =>
    { m with value := m.value.bind fun o => o.truncate levels }
  continues : Continues ((fields.map Field.outline).flatMap fun m =>
    (m.value.map fun o => o.containersAt levels).getD []) s s'

/-- A key and its colon. -/
theorem leads {f : Field} {name : String} (h : f.Leads) (hname : f.name = some name) {s : State}
    {o : OpenObject} (hfocus : s.focus = .key o) :
    (step (step s f.key) f.colon).focus = .propertyValue o ⟨s.nextId, name, f.key.span⟩ ∧
      Continues [] s (step (step s f.key) f.colon) := by
  have hkey : act f.key s = { s with focus := .colon o ⟨s.nextId, name, f.key.span⟩,
                                     nextId := s.nextId + 1 } := by
    have quotes := h.key
    rw [hname] at quotes
    simp [act, hfocus, beginProperty, quotes.1, stringText_of_quotes quotes, State.reportAny]
  have behind : (step s f.key).focus = .colon o ⟨s.nextId, name, f.key.span⟩ ∧
      Continues [] s (step s f.key) := by
    rw [step, hkey]
    exact ⟨rfl, rfl, rfl, rfl⟩
  have hcolon : act f.colon (step s f.key) =
      (step s f.key).withFocus (.propertyValue o ⟨s.nextId, name, f.key.span⟩) := by
    simp [act, behind.1, beginColon, h.colon]
  obtain ⟨hfocus', continues⟩ := step_of_act hcolon
  exact ⟨hfocus', behind.2.trans continues⟩

theorem FieldsRead.snoc {levels : Nat} {opening : Span} {s s' s'' : State} {seen : List Field}
    {f : Field} {name : String} {o : OpenObject} {id : Nat}
    (h : FieldsRead levels opening s seen o s') (hname : f.name = some name)
    (receives : Receives (.property o ⟨id, name, f.key.span⟩) levels f.value.outline s' s'') :
    ∃ o', FieldsRead levels opening s (seen ++ [f]) o' s'' ∧ s''.focus = .propertyEnd o' := by
  obtain ⟨⟨value, houtline, hvalue⟩, continues⟩ := receives
  refine ⟨o.add (OpenProperty.close ⟨id, name, f.key.span⟩ value f.value.outline.span.stop),
    ⟨h.opening, ?_, by simpa [Field.outline] using h.continues.trans continues⟩, hvalue⟩
  rw [List.map_append, List.map_append, ← h.outlines]
  simp [OpenObject.add, OpenProperty.close, PropertyOf.outline, Field.outline, houtline, hname]

/-- The body of an object, from its opening brace on. -/
theorem closable_object {trailing : Bool} {opening closing : Lexeme Token} {fields : List Field}
    {body : List (Lexeme Token)} (hclosing : closing.kind = .closeBrace)
    (listed : Listed trailing (fields.map Field.tokens) body) (hleads : ∀ f ∈ fields, f.Leads)
    (named : ∀ f ∈ fields, f.name.isSome = true)
    (built : ∀ f ∈ fields, BuiltInto f.value.tokens f.value.outline) {s : State} {levels id : Nat}
    (hfocus : s.focus = .key ⟨id, opening.span, []⟩) (hdepth : s.depth + levels = maxDepth) :
    Closable closing (levels + 1)
      (.object ⟨opening.span.start, closing.span.stop⟩ (fields.map Field.outline)) s
      (body.foldl step s) := by
  have read := listed.foldl step
    (fun seen s' => ∃ o, FieldsRead levels opening.span s seen o s' ∧ s'.focus = .key o)
    (fun seen s' => ∃ o, FieldsRead levels opening.span s seen o s' ∧ s'.focus = .propertyEnd o)
    ⟨_, ⟨rfl, rfl, .refl s⟩, hfocus⟩ ?_ ?_
  · generalize body.foldl step s = s' at read
    obtain ⟨o, read, hclose⟩ : ∃ o, FieldsRead levels opening.span s fields o s' ∧
        act closing s' = s'.closeContainer (o.close closing.span.stop) closing.span.stop := by
      rcases read with ⟨o, read, hfocus'⟩ | ⟨o, read, hfocus'⟩
      · exact ⟨o, read, by simp [act, hfocus', beginProperty, recoverObject, hclosing]⟩
      · exact ⟨o, read, by simp [act, hfocus', endProperty, recoverObject, hclosing]⟩
    refine ⟨⟨_, ?_, hclose⟩, ?_⟩
    · simp [OpenObject.close, Outline.truncate, read.outlines, read.opening]
    · simpa [Outline.containersAt] using read.continues
  · rintro f hf seen s' ⟨o, read, hfocus'⟩
    obtain ⟨name, hname⟩ := Option.isSome_iff_exists.mp (named f hf)
    obtain ⟨hvalue, continues⟩ := leads (hleads f hf) hname hfocus'
    refine FieldsRead.snoc ⟨read.opening, read.outlines, ?_⟩ hname (built f hf _ _ levels hvalue ?_)
    · simpa using read.continues.trans continues
    · rw [continues.depth, read.continues.depth, hdepth]
  · rintro seen s' t ⟨o, read, hfocus'⟩ hkind
    have hact : act t s' = s'.withFocus (.key o) := by
      simp [act, hfocus', endProperty, recoverObject, hkind]
    obtain ⟨hfocus', continues⟩ := step_of_act hact
    refine ⟨o, ⟨read.opening, read.outlines, ?_⟩, hfocus'⟩
    simpa using read.continues.trans continues

theorem builtInto_object {trailing : Bool} {opening closing : Lexeme Token} {fields : List Field}
    {body : List (Lexeme Token)} (hopening : opening.kind = .openBrace)
    (hclosing : closing.kind = .closeBrace)
    (listed : Listed trailing (fields.map Field.tokens) body) (hleads : ∀ f ∈ fields, f.Leads)
    (named : ∀ f ∈ fields, f.name.isSome = true) (skipped : SkipsOver body)
    (built : ∀ f ∈ fields, BuiltInto f.value.tokens f.value.outline) :
    BuiltInto (opening :: (body ++ [closing]))
      (.object ⟨opening.span.start, closing.span.stop⟩ (fields.map Field.outline)) := by
  intro s place levels hfocus hdepth
  have bracketed : Bracketed opening closing
      (.object ⟨opening.span.start, closing.span.stop⟩ (fields.map Field.outline)) :=
    ⟨Or.inl hopening, Or.inl hclosing, rfl, by simp [Outline.truncate],
      by simp [Outline.containersAt, Outline.span]⟩
  cases levels with
  | zero => exact receives_skipped bracketed skipped hfocus hdepth
  | succ levels =>
    have hopen : act opening s = s.openContainer place (.key ⟨s.nextId, opening.span, []⟩) := by
      have hnot : ¬ maxDepth ≤ s.depth := by omega
      obtain ⟨hact, hscalar⟩ := bracketed.act_opening hfocus
      simp [hact, beginValue, hscalar, hopening, hnot]
    refine receives_closed bracketed hopen fun hinside hdeeper => ?_
    exact closable_object hclosing listed hleads named built hinside (by omega)

/-! ## Derivations -/

/-- Tokens that derive an outline whose literals all stand for something are built into a value of
that outline. -/
theorem builtInto_of_derives {trailing : Bool} {ts : List (Lexeme Token)} {o : Outline}
    (h : Derives trailing ts o) (meaningful : o.Meaningful) : BuiltInto ts o := by
  induction h with
  | scalar denotes =>
    cases meaningful
    exact builtInto_scalar denotes
  | array hopening hclosing listed derives ih =>
    cases meaningful with
    | array items =>
      have parts : ∀ i ∈ _, SkipsOver (Item.tokens i) :=
        fun i hi => skipsOver_of_derives (derives i hi)
      refine builtInto_array hopening hclosing listed (skipsOver_of_listed listed parts) ?_
      exact fun i hi => ih i hi (items _ (List.mem_map_of_mem hi))
  | @object _ _ fields _ hopening hclosing listed leads derives ih =>
    cases meaningful with
    | object named members =>
      have named : ∀ f ∈ fields, f.name.isSome = true := fun f hf =>
        named _ (List.mem_map_of_mem hf)
      have parts : ∀ f ∈ fields, SkipsOver f.tokens := fun f hf =>
        skipsOver_field (leads f hf) (skipsOver_of_derives (derives f hf))
      refine builtInto_object hopening hclosing listed leads named
        (skipsOver_of_listed listed parts) ?_
      exact fun f hf => ih f hf (members _ (List.mem_map_of_mem hf) _ rfl)

end TemplateLint.Builder
