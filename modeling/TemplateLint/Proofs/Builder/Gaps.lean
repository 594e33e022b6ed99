import TemplateLint.Proofs.Builder.Derivations
import TemplateLint.Proofs.Grammar.Pieces

/-!
# Building around gaps

Pieces with gaps are built into a value of the shape that their outline has
without the values in the gaps. Each gap is reported where the next token
stands, and that token then goes on as if nothing had been missing: it is a
comma or a closing brace, so nothing is skipped.
-/

namespace TemplateLint.Builder

open Piece (kept followers)

/-- What is reported of a token where a value is expected. -/
def missed (t : Lexeme Token) : PlacedFault := ⟨.expectedValue (some t.kind), t.span⟩

/-- A later state with the same containers around it, and with more faults. -/
structure Reports (faults : List PlacedFault) (s s' : State) : Prop where
  stack : s'.stack = s.stack
  depth : s'.depth = s.depth
  faults : s'.faults = faults.reverse ++ s.faults

theorem Reports.trans {fs gs : List PlacedFault} {s s' s'' : State} (h : Reports fs s s')
    (h' : Reports gs s' s'') : Reports (fs ++ gs) s s'' := by
  refine ⟨h'.stack.trans h.stack, h'.depth.trans h.depth, ?_⟩
  rw [h'.faults, h.faults, List.reverse_append, List.append_assoc]

theorem Continues.reports {s s' : State} (h : Continues [] s s') : Reports [] s s' :=
  ⟨h.stack, h.depth, h.faults⟩

/-- Pieces whose tokens are built into a value, whatever place waits for it, with a fault behind
each gap. -/
def BuiltAround (missing : Span → Bool) (ps : List Piece) (o : Outline) : Prop :=
  ∀ (s : State) (place : Place) (levels : Nat), s.focus = place.focus →
    s.depth + levels = maxDepth → o.containersAt levels = [] →
    ∃ v : Value, v.shape = o.shape missing ∧
      ((kept ps).foldl step s).focus = place.receive (some v) o.span.stop ∧
      Reports ((followers false ps).map missed) s ((kept ps).foldl step s)

variable {missing : Span → Bool}

theorem builtAround_scalar {t : Lexeme Token} {content : Scalar} (h : t.Denotes (some content)) :
    BuiltAround missing [.token t] (.scalar t.span (some content)) := by
  intro s place levels hfocus hdepth _
  obtain ⟨⟨value, houtline, hvalue⟩, continues⟩ := builtInto_scalar h s place levels hfocus hdepth
  rw [Outline.truncate, Option.map_eq_some_iff] at houtline
  obtain ⟨v, rfl, houtline⟩ := houtline
  rw [Outline.containersAt] at continues
  refine ⟨v, ?_, hvalue, continues.reports⟩
  rw [Value.shape, houtline]
  rfl

/-! ## Parts -/

/-- What objects and arrays have in common while their parts are read. -/
structure Reading (β γ : Type) where
  focus : β → Focus
  recover : β → Lexeme Token → State → State
  closing : Token
  opening : β → Span
  shapes : β → List γ
  act_closing : ∀ b s t, s.focus = focus b → t.kind = closing → act t s = recover b t s
  recover_comma : ∀ b s t, t.kind = .comma → recover b t s = s.withFocus (focus b)

namespace Reading

def object : Reading OpenObject (Option String × Option Shape) where
  focus := .key
  recover := recoverObject
  closing := .closeBrace
  opening := OpenObject.opening
  shapes o := o.properties.reverse.map PropertyOf.shape
  act_closing o s t hfocus hkind := by simp [act, hfocus, beginProperty, hkind]
  recover_comma o s t hkind := by simp [recoverObject, hkind]

def array : Reading OpenArray Shape where
  focus := .item
  recover := recoverArray
  closing := .closeBracket
  opening := OpenArray.opening
  shapes a := a.items.reverse.map Value.shape
  act_closing a s t hfocus hkind := by simp [act, hfocus, hkind]
  recover_comma a s t hkind := by simp [recoverArray, hkind]

variable {β γ : Type} (r : Reading β γ)

/-- Behind some pieces a token ends the last part and finds parts of some shapes. -/
def Reads (ps : List Piece) (shapes : List γ) (b : β) (s : State) (t : Lexeme Token) : Prop :=
  ∃ b' s', r.opening b' = r.opening b ∧ r.shapes b' = r.shapes b ++ shapes ∧
    act t ((kept ps).foldl step s) = r.recover b' t s' ∧
    Reports ((followers false (ps ++ [.token t])).map missed) s s'

/-- A part as it is read wherever it stands. -/
def ReadsPart (depth : Nat) (ps : List Piece) (shape : γ) : Prop :=
  ∀ b s (t : Lexeme Token), s.focus = r.focus b → s.depth = depth →
    t.kind = .comma ∨ t.kind = r.closing → r.Reads ps [shape] b s t

variable {r}

/-- One part after another, up to the closing bracket. -/
theorem reads_parted {α : Type} {pieces : α → List Piece} {shape : α → γ} {xs : List α}
    {body : List Piece} {depth : Nat} (h : Parted pieces xs body)
    (parts : ∀ x ∈ xs, r.ReadsPart depth (pieces x) (shape x)) {closing : Lexeme Token}
    (hclosing : closing.kind = r.closing) {b : β} {s : State} (hfocus : s.focus = r.focus b)
    (hdepth : s.depth = depth) : r.Reads body (xs.map shape) b s closing := by
  induction h generalizing b s with
  | empty =>
    refine ⟨b, s, rfl, (List.append_nil _).symm, r.act_closing b s closing hfocus hclosing, ?_⟩
    exact (Continues.refl s).reports
  | last x => exact parts x (List.mem_singleton_self x) b s closing hfocus hdepth (.inr hclosing)
  | @cons x xs body comma hcomma _ ih =>
    obtain ⟨first, others⟩ := List.forall_mem_cons.mp parts
    obtain ⟨b', s', hopening, hshapes, hact, before⟩ := first b s comma hfocus hdepth (.inl hcomma)
    rw [r.recover_comma b' s' comma hcomma] at hact
    have behind : Reports [] s' (step ((kept (pieces x)).foldl step s) comma) := by
      rw [step, hact]
      exact ⟨rfl, rfl, rfl⟩
    have hnext : (step ((kept (pieces x)).foldl step s) comma).focus = r.focus b' := by
      rw [step, hact]
      rfl
    have so := before.trans behind
    obtain ⟨b'', s'', hopening', hshapes', hact', after⟩ :=
      ih others hnext (so.depth.trans hdepth)
    refine ⟨b'', s'', hopening'.trans hopening, ?_, ?_, ?_⟩
    · rw [hshapes', hshapes, List.append_assoc, List.map_cons, List.singleton_append]
    · rw [Piece.kept_append, Piece.kept_token, List.foldl_append, List.foldl_cons, hact']
    · rw [List.append_assoc, List.cons_append, Piece.followers_append, List.map_append]
      simpa using so.trans after

/-- A container in its brackets. -/
theorem builtAround {o : Outline} {opening closing : Lexeme Token} {body : List Piece}
    {shapes : List γ} {s : State} {place : Place} {b : β}
    (hopen : act opening s = s.openContainer place (r.focus b))
    (inside : ∀ s', s'.focus = r.focus b → s'.depth = s.depth + 1 →
      r.Reads body shapes b s' closing)
    (closes : ∀ b' s', r.opening b' = r.opening b → r.shapes b' = r.shapes b ++ shapes →
      ∃ v : Value, v.shape = o.shape missing ∧
        r.recover b' closing s' = s'.closeContainer v closing.span.stop)
    (hspan : o.span.stop = closing.span.stop) :
    let ps := Piece.token opening :: (body ++ [.token closing])
    ∃ v : Value, v.shape = o.shape missing ∧
      ((kept ps).foldl step s).focus = place.receive (some v) o.span.stop ∧
      Reports ((followers false ps).map missed) s ((kept ps).foldl step s) := by
  intro ps
  have entered : (step s opening).focus = r.focus b ∧ (step s opening).stack = place :: s.stack ∧
      (step s opening).depth = s.depth + 1 ∧ (step s opening).faults = s.faults := by
    rw [step, hopen]
    exact ⟨rfl, rfl, rfl, rfl⟩
  obtain ⟨hfocus, hstack, hdepth, hfaults⟩ := entered
  obtain ⟨b', s', hopening, hshapes, hact, reports⟩ := inside _ hfocus hdepth
  obtain ⟨v, hshape, hclose⟩ := closes b' s' hopening hshapes
  have run : (kept ps).foldl step s = step ((kept body).foldl step (step s opening)) closing := by
    rw [Piece.kept_token, Piece.kept_append, List.foldl_cons, List.foldl_append]
    rfl
  have hstack' : s'.stack = place :: s.stack := reports.stack.trans hstack
  rw [run, step, hact, hclose, State.closeContainer, hstack']
  refine ⟨v, hshape, by rw [hspan], rfl, ?_, ?_⟩
  · rw [reports.depth, hdepth]
    exact Nat.add_sub_cancel s.depth 1
  · exact reports.faults.trans (by rw [hfaults]; rfl)

end Reading

/-! ## Items and members -/

theorem readsPart_item {ps : List Piece} {o : Outline} (h : BuiltAround missing ps o)
    (ends : Piece.Ends ps) {levels depth : Nat} (hdepth : depth + levels = maxDepth)
    (shallow : o.containersAt levels = []) :
    Reading.array.ReadsPart depth ps (o.shape missing) := by
  intro a s t hfocus hs hkind
  obtain ⟨v, hshape, hvalue, reports⟩ := h s (.item a) levels hfocus (by rw [hs, hdepth]) shallow
  refine ⟨a.add v, _, rfl, ?_, ?_, by rw [ends.followers]; exact reports⟩
  · simp [Reading.array, OpenArray.add, hshape]
  · rcases hkind with hkind | hkind <;>
      simp [act, hvalue, Place.receive, endItem, hkind, Reading.array]

/-- A token that may end a property ends one without a value as well. -/
theorem act_without_value {s : State} {o : OpenObject} {p : OpenProperty} {t : Lexeme Token}
    (hfocus : s.focus = .propertyValue o p) (hkind : t.kind = .comma ∨ t.kind = .closeBrace) :
    act t s = recoverObject (o.add (p.close none s.lastEnd)) t
      (s.report (.expectedValue (some t.kind)) t.span) := by
  rcases hkind with hkind | hkind <;>
    simp [act, hfocus, beginValue, scalar?, refuse, endProperty, hkind, State.report]

section Members

variable {f : Field} {name : String} {depth : Nat}

theorem readsPart_missing (hleads : f.Leads) (hname : f.name = some name)
    (hmissing : missing f.key.span = true) :
    Reading.object.ReadsPart depth (f.pieces [.gap f.value]) (f.outline.shape missing) := by
  intro o s t hfocus _ hkind
  obtain ⟨hvalue, continues⟩ := leads hleads hname hfocus
  generalize hbehind : step (step s f.key) f.colon = s' at hvalue continues
  let p : OpenProperty := ⟨s.nextId, name, f.key.span⟩
  refine ⟨o.add (p.close none s'.lastEnd), s'.report (.expectedValue (some t.kind)) t.span, rfl,
    ?_, ?_, ?_⟩
  · simp [Reading.object, OpenObject.add, OpenProperty.close, PropertyOf.shape, MemberOf.shape,
      Field.outline, p, hname, hmissing]
  · have run : (kept (f.pieces [.gap f.value])).foldl step s = s' := hbehind
    rw [run]
    exact act_without_value hvalue hkind
  · exact ⟨continues.stack, continues.depth, congrArg (missed t :: ·) continues.faults⟩

theorem readsPart_value {ps : List Piece} {levels : Nat} (hleads : f.Leads)
    (hname : f.name = some name) (hpresent : missing f.key.span = false)
    (h : BuiltAround missing ps f.value.outline) (ends : Piece.Ends ps)
    (hdepth : depth + levels = maxDepth) (shallow : f.value.outline.containersAt levels = []) :
    Reading.object.ReadsPart depth (f.pieces ps) (f.outline.shape missing) := by
  intro o s t hfocus hs hkind
  obtain ⟨hvalue, continues⟩ := leads hleads hname hfocus
  let p : OpenProperty := ⟨s.nextId, name, f.key.span⟩
  obtain ⟨v, hshape, hreceived, reports⟩ := h (step (step s f.key) f.colon) (.property o p) levels
    hvalue (by rw [continues.depth, hs, hdepth]) shallow
  have both := continues.reports.trans reports
  rw [← ends.followers false t] at both
  generalize hbehind : (kept ps).foldl step (step (step s f.key) f.colon) = s' at hreceived both
  refine ⟨o.add (p.close (some v) f.value.outline.span.stop), s', rfl, ?_, ?_, both⟩
  · simp [Reading.object, OpenObject.add, OpenProperty.close, PropertyOf.shape, MemberOf.shape,
      Field.outline, p, hname, hpresent, hshape]
  · have run : (kept (f.pieces ps)).foldl step s = s' := hbehind
    rw [run]
    rcases hkind with hkind | hkind <;>
      simp [act, hreceived, Place.receive, endProperty, hkind, Reading.object]

end Members

/-! ## Derivations -/

section Containers

variable {opening closing : Lexeme Token} {body : List Piece}

theorem builtAround_array {items : List Item} {pieces : Item → List Piece}
    (hopening : opening.kind = .openBracket) (hclosing : closing.kind = .closeBracket)
    (parted : Parted pieces items body) (ends : ∀ i ∈ items, Piece.Ends (pieces i))
    (built : ∀ i ∈ items, BuiltAround missing (pieces i) i.outline) :
    BuiltAround missing (.token opening :: (body ++ [.token closing]))
      (.array ⟨opening.span.start, closing.span.stop⟩ (items.map Item.outline)) := by
  intro s place levels hfocus hdepth shallow
  cases levels with
  | zero => simp [Outline.containersAt] at shallow
  | succ levels =>
    simp only [Outline.containersAt, List.flatMap_eq_nil_iff, List.forall_mem_map] at shallow
    have parts : ∀ i ∈ items, Reading.array.ReadsPart (s.depth + 1) (pieces i)
        (i.outline.shape missing) := fun i hi =>
      readsPart_item (built i hi) (ends i hi) (by omega) (shallow i hi)
    refine Reading.array.builtAround (b := ⟨s.nextId, opening.span, []⟩) ?_
      (fun s' hfocus' hdepth' => Reading.reads_parted parted parts hclosing hfocus' hdepth') ?_ rfl
    · have hnot : ¬ maxDepth ≤ s.depth := by omega
      rw [act_focus hfocus (by simp [hopening])]
      simp [beginValue, scalar?, hopening, hnot, Reading.array]
    · intro a s' _ hshapes
      refine ⟨a.close closing.span.stop, ?_, by simp [Reading.array, recoverArray, hclosing]⟩
      have hitems : a.items.reverse.map Value.shape =
        items.map fun i => i.outline.shape missing := hshapes
      rw [OpenArray.close, Value.shape_array, hitems, Outline.shape, itemShapes_eq, List.map_map]
      rfl

theorem builtAround_object {fields : List Field} {pieces : Field → List Piece}
    (hopening : opening.kind = .openBrace) (hclosing : closing.kind = .closeBrace)
    (parted : Parted (fun f => f.pieces (pieces f)) fields body)
    (parts : ∀ f ∈ fields, ∀ {depth levels : Nat}, depth + levels = maxDepth →
      f.value.outline.containersAt levels = [] →
      Reading.object.ReadsPart depth (f.pieces (pieces f)) (f.outline.shape missing)) :
    BuiltAround missing (.token opening :: (body ++ [.token closing]))
      (.object ⟨opening.span.start, closing.span.stop⟩ (fields.map Field.outline)) := by
  intro s place levels hfocus hdepth shallow
  cases levels with
  | zero => simp [Outline.containersAt] at shallow
  | succ levels =>
    simp only [Outline.containersAt, List.flatMap_eq_nil_iff, List.forall_mem_map] at shallow
    have parts' : ∀ f ∈ fields, Reading.object.ReadsPart (s.depth + 1) (f.pieces (pieces f))
        (f.outline.shape missing) := fun f hf => parts f hf (by omega) (shallow f hf)
    refine Reading.object.builtAround (b := ⟨s.nextId, opening.span, []⟩) ?_
      (fun s' hfocus' hdepth' => Reading.reads_parted parted parts' hclosing hfocus' hdepth') ?_ rfl
    · have hnot : ¬ maxDepth ≤ s.depth := by omega
      rw [act_focus hfocus (by simp [hopening])]
      simp [beginValue, scalar?, hopening, hnot, Reading.object]
    · intro o s' _ hshapes
      refine ⟨o.close closing.span.stop, ?_, by simp [Reading.object, recoverObject, hclosing]⟩
      have hfields : o.properties.reverse.map PropertyOf.shape =
        fields.map fun f => f.outline.shape missing := hshapes
      rw [OpenObject.close, Value.shape_object, hfields, Outline.shape, memberShapes_eq,
        List.map_map]
      rfl

end Containers

/-- Pieces that derive an outline whose literals all stand for something, with no container nested
too deep, are built into a value of the outline's shape without the values that are missing. -/
theorem builtAround_of_gapped {trailing : Bool} {ps : List Piece} {o : Outline}
    (h : Gapped trailing missing ps o) (meaningful : o.Meaningful) : BuiltAround missing ps o := by
  induction h with
  | scalar denotes =>
    cases meaningful
    exact builtAround_scalar denotes
  | array hopening hclosing parted gapped ih =>
    cases meaningful with
    | array items =>
      refine builtAround_array hopening hclosing parted (fun i hi => (gapped i hi).ends) ?_
      exact fun i hi => ih i hi (items _ (List.mem_map_of_mem hi))
  | object hopening hclosing parted leads gaps gapped ih =>
    cases meaningful with
    | object named members =>
      refine builtAround_object hopening hclosing parted fun f hf _ _ hdepth shallow => ?_
      obtain ⟨name, hname⟩ := Option.isSome_iff_exists.mp (named _ (List.mem_map_of_mem hf))
      cases hmissing : missing f.key.span with
      | true =>
        rw [(gaps f hf hmissing).1]
        exact readsPart_missing (leads f hf) hname hmissing
      | false =>
        have built := ih f hf hmissing (members _ (List.mem_map_of_mem hf) _ rfl)
        exact readsPart_value (leads f hf) hname hmissing built (gapped f hf hmissing).ends hdepth
          shallow

end TemplateLint.Builder
