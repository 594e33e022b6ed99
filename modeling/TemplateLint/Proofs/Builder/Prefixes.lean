import TemplateLint.Proofs.Builder.Derivations
import TemplateLint.Proofs.Builder.Runs

/-!
# What silence says about the tokens

As long as no fault has been met, the tokens so far are the front part of a
derivation: the focus and the stack say how far it has come, and the values that
have been read have the outlines that their tokens derive. So a text without
faults has no tokens at all, or tokens that derive the outline of its tree.
-/

namespace TemplateLint.Builder

/-! ## Front parts of derivations -/

/-- Items in front of which an array was opened. -/
structure OpenArray.Reads (a : OpenArray) (items : List Item) (opening : Lexeme Token) : Prop where
  kind : opening.kind = .openBracket
  opening : a.opening = opening.span
  derives : ∀ i ∈ items, Derives true i.tokens i.outline
  outlines : a.items.reverse.map Value.outline = items.map Item.outline

structure OpenObject.Reads (o : OpenObject) (fields : List Field) (opening : Lexeme Token) :
    Prop where
  kind : opening.kind = .openBrace
  opening : o.opening = opening.span
  leads : ∀ f ∈ fields, f.Leads
  derives : ∀ f ∈ fields, Derives true f.value.tokens f.value.outline
  outlines : o.properties.reverse.map PropertyOf.outline = fields.map Field.outline

structure OpenProperty.Reads (p : OpenProperty) (key : Lexeme Token) : Prop where
  quotes : key.Quotes (some p.key)
  span : p.keySpan = key.span

/-- Tokens that end in the body of a container, from its opening on. -/
def Opened (waiting : List (Lexeme Token) → Prop) (reads : Lexeme Token → Prop)
    (body ts : List (Lexeme Token)) : Prop :=
  ∃ before opening, ts = before ++ opening :: body ∧ waiting before ∧ reads opening

/-- Tokens behind which places wait for a value, the innermost first. -/
def Waiting : List Place → List (Lexeme Token) → Prop
  | [] => fun _ => False
  | .root :: stack => fun ts => stack = [] ∧ ts = []
  | .item a :: stack => fun ts => ∃ items body, Opened (Waiting stack) (a.Reads items) body ts ∧
      Led (items.map Item.tokens) body
  | .property o p :: stack => fun ts => ∃ fields body key colon,
      Opened (Waiting stack) (o.Reads fields) (body ++ [key, colon]) ts ∧
        Led (fields.map Field.tokens) body ∧ p.Reads key ∧ colon.kind = .colon

/-- Tokens that have been read when something is expected, and no fault has been met. -/
def Focus.Read (stack : List Place) (ts : List (Lexeme Token)) : Focus → Prop
  | .start => Waiting (.root :: stack) ts
  | .propertyValue o p => Waiting (.property o p :: stack) ts
  | .item a => Waiting (.item a :: stack) ts
  | .key o => ∃ fields body, Opened (Waiting stack) (o.Reads fields) body ts ∧
      Led (fields.map Field.tokens) body
  | .colon o p => ∃ fields body key, Opened (Waiting stack) (o.Reads fields) (body ++ [key]) ts ∧
      Led (fields.map Field.tokens) body ∧ p.Reads key
  | .propertyEnd o => ∃ fields f body,
      Opened (Waiting stack) (o.Reads (fields ++ [f])) (body ++ f.tokens) ts ∧
        Led (fields.map Field.tokens) body
  | .itemEnd a => ∃ items i body,
      Opened (Waiting stack) (a.Reads (items ++ [i])) (body ++ i.tokens) ts ∧
        Led (items.map Item.tokens) body
  -- a container that is skipped will be reported
  | .skip _ _ _ => True
  | .done (some v) trailing => stack = [] ∧ (trailing = none → Derives true ts v.outline)
  | .done none _ => False
  | .objectRecovery _ => False
  | .arrayRecovery _ => False

def State.Read (s : State) (ts : List (Lexeme Token)) : Prop := s.focus.Read s.stack ts

theorem Opened.append {waiting : List (Lexeme Token) → Prop} {reads : Lexeme Token → Prop}
    {body ts : List (Lexeme Token)} (h : Opened waiting reads body ts) (us : List (Lexeme Token)) :
    Opened waiting reads (body ++ us) (ts ++ us) := by
  obtain ⟨before, opening, rfl, hwaiting, hreads⟩ := h
  exact ⟨before, opening, by simp, hwaiting, hreads⟩

theorem Opened.imp {waiting : List (Lexeme Token) → Prop} {reads reads' : Lexeme Token → Prop}
    {body ts : List (Lexeme Token)} (h : Opened waiting reads body ts)
    (himp : ∀ t, reads t → reads' t) : Opened waiting reads' body ts := by
  obtain ⟨before, opening, rfl, hwaiting, hreads⟩ := h
  exact ⟨before, opening, rfl, hwaiting, himp opening hreads⟩

/-! ## Single tokens -/

theorem quotes_of_stringText {t : Lexeme Token} {text : String}
    (hkind : t.kind = .string ∨ t.kind = .unterminatedString) (h : stringText t = (text, none)) :
    t.Quotes (some text) := by
  rcases hkind with hkind | hkind
  · simp only [stringText, hkind, reduceCtorEq, if_false] at h
    split at h
    · rename_i ds hdecode
      cases h
      exact ⟨hkind, some ds, Json.Quoted.decode?_eq_some_iff.mp hdecode, rfl⟩
    · cases h
  · simp [stringText, hkind] at h

theorem denotes_of_scalar? {t : Lexeme Token} {content : Scalar}
    (h : scalar? t = some (content, none)) : t.Denotes (some content) := by
  have quoted : t.kind = .string ∨ t.kind = .unterminatedString →
      some (Scalar.string (stringText t).1, (stringText t).2) = some (content, none) →
        t.Denotes (some content) := by
    intro hkind h
    obtain ⟨hcontent, hfault⟩ := Prod.ext_iff.mp (Option.some.inj h)
    cases hcontent
    exact .string (quotes_of_stringText hkind (Prod.ext rfl hfault))
  unfold scalar? at h
  split at h
  · exact quoted (Or.inl (by assumption)) h
  · exact quoted (Or.inr (by assumption)) h
  · rename_i hkind
    have hnumber : numberScalar t = (content, none) := Option.some.inj h
    unfold numberScalar at hnumber
    split at hnumber
    · cases hnumber
    · rename_i l hl
      have denotes := Lexeme.Denotes.number hkind (Decimal.Literal.ofText?_eq_some_iff.mp hl)
      split at hnumber
      · rename_i finite
        cases hnumber
        rwa [if_pos finite] at denotes
      · cases hnumber
  · cases h
    exact .trueWord (by assumption)
  · cases h
    exact .falseWord (by assumption)
  · cases h
    exact .nullWord (by assumption)
  · cases h

/-! ## Values -/

theorem OpenArray.Reads.add {a : OpenArray} {items : List Item} {opening : Lexeme Token}
    (h : a.Reads items opening) {us : List (Lexeme Token)} {v : Value}
    (derives : Derives true us v.outline) :
    (a.add v).Reads (items ++ [⟨us, v.outline⟩]) opening := by
  refine ⟨h.kind, h.opening, ?_, ?_⟩
  · exact List.forall_mem_append.mpr ⟨h.derives, List.forall_mem_singleton.mpr derives⟩
  · rw [List.map_append, ← h.outlines]
    simp [OpenArray.add]

theorem OpenObject.Reads.add {o : OpenObject} {p : OpenProperty} {fields : List Field}
    {opening key colon : Lexeme Token} (h : o.Reads fields opening) (hkey : p.Reads key)
    (hcolon : colon.kind = .colon) {us : List (Lexeme Token)} {v : Value}
    (derives : Derives true us v.outline) :
    (o.add (p.close (some v) v.span.stop)).Reads
      (fields ++ [⟨key, some p.key, colon, us, v.outline⟩]) opening := by
  refine ⟨h.kind, h.opening, ?_, ?_, ?_⟩
  · exact List.forall_mem_append.mpr
      ⟨h.leads, List.forall_mem_singleton.mpr ⟨hkey.quotes, hcolon⟩⟩
  · exact List.forall_mem_append.mpr ⟨h.derives, List.forall_mem_singleton.mpr derives⟩
  · rw [List.map_append, ← h.outlines]
    simp [OpenObject.add, OpenProperty.close, PropertyOf.outline, Field.outline, hkey.span,
      v.span_outline]

/-- A place has received a value. -/
theorem read_receive {place : Place} {stack : List Place} {ts us : List (Lexeme Token)} {v : Value}
    (h : Waiting (place :: stack) ts) (derives : Derives true us v.outline) :
    (place.receive (some v) v.span.stop).Read stack (ts ++ us) := by
  cases place with
  | root =>
    obtain ⟨rfl, rfl⟩ := h
    exact ⟨rfl, fun _ => derives⟩
  | item a =>
    obtain ⟨items, body, opened, led⟩ := h
    have added := (opened.append us).imp fun t reads => reads.add derives
    exact ⟨items, ⟨us, v.outline⟩, body, added, led⟩
  | property o p =>
    obtain ⟨fields, body, key, colon, opened, led, hkey, hcolon⟩ := h
    refine ⟨fields, ⟨key, some p.key, colon, us, v.outline⟩, body, ?_, led⟩
    have added := (opened.append us).imp fun t reads => reads.add hkey hcolon derives
    simpa [Field.tokens] using added

/-- The innermost container has been closed. -/
theorem read_close {s : State} {before us : List (Lexeme Token)} {v : Value}
    (h : Waiting s.stack before) (derives : Derives true us v.outline) :
    (s.closeContainer v v.span.stop).Read (before ++ us) := by
  obtain ⟨focus, stack, depth, nextId, lastEnd, faults⟩ := s
  cases stack with
  | nil => exact h.elim
  | cons place stack => exact read_receive h derives

theorem read_closeArray {s : State} {a : OpenArray} {items : List Item} {closing : Lexeme Token}
    {body ts : List (Lexeme Token)} (h : Opened (Waiting s.stack) (a.Reads items) body ts)
    (listed : Listed true (items.map Item.tokens) body) (hkind : closing.kind = .closeBracket) :
    (s.closeContainer (a.close closing.span.stop) closing.span.stop).Read (ts ++ [closing]) := by
  obtain ⟨before, opening, rfl, waiting, reads⟩ := h
  have derives := Derives.array reads.kind hkind listed reads.derives
  rw [← reads.outlines, ← reads.opening, ← Value.outline_array] at derives
  rw [List.append_assoc, List.cons_append]
  exact read_close (v := a.close closing.span.stop) waiting derives

theorem read_closeObject {s : State} {o : OpenObject} {fields : List Field}
    {closing : Lexeme Token} {body ts : List (Lexeme Token)}
    (h : Opened (Waiting s.stack) (o.Reads fields) body ts)
    (listed : Listed true (fields.map Field.tokens) body) (hkind : closing.kind = .closeBrace) :
    (s.closeContainer (o.close closing.span.stop) closing.span.stop).Read (ts ++ [closing]) := by
  obtain ⟨before, opening, rfl, waiting, reads⟩ := h
  have derives := Derives.object reads.kind hkind listed reads.leads reads.derives
  rw [← reads.outlines, ← reads.opening, ← Value.outline_object] at derives
  rw [List.append_assoc, List.cons_append]
  exact read_close (v := o.close closing.span.stop) waiting derives

/-! ## Steps -/

@[simp] theorem faults_closeContainer (v : Value) (stop : Nat) (s : State) :
    (s.closeContainer v stop).faults = s.faults := by
  obtain ⟨focus, stack, depth, nextId, lastEnd, faults⟩ := s
  cases stack <;> rfl

@[simp] theorem faults_recoverObject (o : OpenObject) (t : Lexeme Token) (s : State) :
    (recoverObject o t s).faults = s.faults := by
  unfold recoverObject
  split
  · exact faults_closeContainer _ _ s
  · rfl
  · rfl

@[simp] theorem faults_recoverArray (a : OpenArray) (t : Lexeme Token) (s : State) :
    (recoverArray a t s).faults = s.faults := by
  unfold recoverArray
  split
  · exact faults_closeContainer _ _ s
  · rfl
  · rfl

variable {s : State} {t : Lexeme Token} {ts : List (Lexeme Token)}

/-- Faults are never taken back. -/
theorem faults_endProperty {o : OpenObject} (h : s.faults ≠ []) :
    (endProperty o t s).faults ≠ [] := by
  unfold endProperty
  split
  · simpa using h
  · simp [State.report]

theorem faults_refuse {place : Place} (h : s.faults ≠ []) : (refuse place t s).faults ≠ [] := by
  cases place with
  | root => exact h
  | property o p => exact faults_endProperty h
  | item a => simpa [refuse] using h

theorem faults_report (fault : Fault) (span : Span) (s : State) :
    (s.report fault span).faults ≠ [] := List.cons_ne_nil _ _

/-- Behind an item: a comma or the end of the array. -/
theorem read_endItem {a : OpenArray} (h : (Focus.itemEnd a).Read s.stack ts)
    (silent : (endItem a t s).faults = []) : (endItem a t s).Read (ts ++ [t]) := by
  obtain ⟨items, i, body, opened, led⟩ := h
  by_cases hcomma : t.kind = .comma
  · simp only [endItem, recoverArray, hcomma, true_or, if_true]
    refine ⟨items ++ [i], _, opened.append [t], ?_⟩
    rw [List.map_append, List.append_assoc]
    exact led.snoc hcomma
  · by_cases hclose : t.kind = .closeBracket
    · simp only [endItem, recoverArray, hclose, or_true, if_true]
      refine read_closeArray opened ?_ hclose
      rw [List.map_append]
      exact .last i.tokens led
    · simp [endItem, hcomma, hclose, State.report] at silent

/-- Behind a property: a comma or the end of the object. -/
theorem read_endProperty {o : OpenObject} (h : (Focus.propertyEnd o).Read s.stack ts)
    (silent : (endProperty o t s).faults = []) : (endProperty o t s).Read (ts ++ [t]) := by
  obtain ⟨fields, f, body, opened, led⟩ := h
  by_cases hcomma : t.kind = .comma
  · simp only [endProperty, recoverObject, hcomma, true_or, if_true]
    refine ⟨fields ++ [f], _, opened.append [t], ?_⟩
    rw [List.map_append, List.append_assoc]
    exact led.snoc hcomma
  · by_cases hclose : t.kind = .closeBrace
    · simp only [endProperty, recoverObject, hclose, or_true, if_true]
      refine read_closeObject opened ?_ hclose
      rw [List.map_append]
      exact .last f.tokens led
    · simp [endProperty, hcomma, hclose, State.report] at silent

theorem read_beginColon {o : OpenObject} {p : OpenProperty} (h : (Focus.colon o p).Read s.stack ts)
    (silent : (beginColon o p t s).faults = []) : (beginColon o p t s).Read (ts ++ [t]) := by
  obtain ⟨fields, body, key, opened, led, hkey⟩ := h
  unfold beginColon at silent ⊢
  split at silent
  · rename_i hcolon
    rw [if_pos hcolon]
    have opened := opened.append [t]
    rw [List.append_assoc] at opened
    exact ⟨fields, body, key, t, opened, led, hkey, hcolon⟩
  · exact (faults_endProperty (faults_report _ _ s) silent).elim

theorem fault_eq_none {fault : Option Fault} {span : Span}
    (h : (s.reportAny fault span).faults = []) : fault = none := by
  cases fault with
  | none => rfl
  | some fault => cases h

theorem read_beginProperty {o : OpenObject} (h : (Focus.key o).Read s.stack ts)
    (silent : (beginProperty o t s).faults = []) : (beginProperty o t s).Read (ts ++ [t]) := by
  obtain ⟨fields, body, opened, led⟩ := h
  have key : t.kind = .string ∨ t.kind = .unterminatedString → ∀ text, stringText t = (text, none) →
      (Focus.colon o ⟨s.nextId, text, t.span⟩).Read s.stack (ts ++ [t]) :=
    fun hkind text htext => ⟨fields, body, t, opened.append [t], led,
      quotes_of_stringText hkind htext, rfl⟩
  obtain ⟨text, fault, htext⟩ : ∃ text fault, stringText t = (text, fault) := ⟨_, _, rfl⟩
  unfold beginProperty at silent ⊢
  rw [htext] at silent ⊢
  split at silent
  · rename_i hclose
    simp only [hclose, recoverObject]
    exact read_closeObject opened led.listed hclose
  · rename_i hkind
    cases fault_eq_none silent
    exact key (Or.inl hkind) text htext
  · rename_i hkind
    cases fault_eq_none silent
    exact key (Or.inr hkind) text htext
  · simp [State.report] at silent

theorem read_beginValue {place : Place} (h : Waiting (place :: s.stack) ts)
    (silent : (beginValue place t s).faults = []) : (beginValue place t s).Read (ts ++ [t]) := by
  unfold beginValue at silent ⊢
  split at silent
  · rename_i content fault hscalar
    cases fault_eq_none silent
    have derives : Derives true [t] (.scalar t.span (some content)) :=
      .scalar (denotes_of_scalar? hscalar)
    rw [← Value.outline_scalar s.nextId] at derives
    exact read_receive h derives
  · rename_i hnone
    split at silent
    · rename_i hkind
      have opened : Opened (Waiting (place :: s.stack))
          ((⟨s.nextId, t.span, []⟩ : OpenObject).Reads []) [] (ts ++ [t]) :=
        ⟨ts, t, rfl, h, hkind, rfl, by simp, by simp, rfl⟩
      split
      · trivial
      · exact ⟨[], [], opened, .nil⟩
    · rename_i hkind
      have opened : Opened (Waiting (place :: s.stack))
          ((⟨s.nextId, t.span, []⟩ : OpenArray).Reads []) [] (ts ++ [t]) :=
        ⟨ts, t, rfl, h, hkind, rfl, by simp, rfl⟩
      split
      · trivial
      · exact ⟨[], [], opened, .nil⟩
    · cases silent
    · exact (faults_refuse (faults_report _ _ s) silent).elim

/-- An item or the end of the array. -/
theorem read_item {a : OpenArray} (h : (Focus.item a).Read s.stack ts)
    (silent : (if t.kind = .closeBracket then recoverArray a t s
      else beginValue (.item a) t s).faults = []) :
    (if t.kind = .closeBracket then recoverArray a t s
      else beginValue (.item a) t s).Read (ts ++ [t]) := by
  split at silent
  · rename_i hclose
    obtain ⟨items, body, opened, led⟩ := h
    rw [if_pos hclose]
    simp only [recoverArray, hclose]
    exact read_closeArray opened led.listed hclose
  · rename_i hopen
    rw [if_neg hopen]
    exact read_beginValue h silent

theorem read_skipToken {start nesting : Nat} {place : Place}
    (hfocus : s.focus = .skip start nesting place)
    (silent : (skipToken start nesting place t s).faults = []) :
    (skipToken start nesting place t s).Read (ts ++ [t]) := by
  unfold skipToken State.Read at *
  split at silent
  all_goals first
    | trivial
    | cases silent
    | (rw [hfocus]; trivial)

/-- A token that meets no fault goes on with the derivation. -/
theorem read_step (h : s.Read ts) (silent : (step s t).faults = []) :
    (step s t).Read (ts ++ [t]) := by
  change (act t s).Read (ts ++ [t])
  change (act t s).faults = [] at silent
  unfold act at silent ⊢
  unfold State.Read at h
  split at silent
  all_goals rename_i hfocus; rw [hfocus] at h
  · exact read_beginValue h silent
  · exact read_beginProperty h silent
  · exact read_beginColon h silent
  · exact read_beginValue h silent
  · exact read_endProperty h silent
  · exact h.elim
  · exact read_item h silent
  · exact read_endItem h silent
  · exact h.elim
  · exact read_skipToken hfocus silent
  · rename_i root trailing
    cases root with
    | none => exact h.elim
    | some v => exact ⟨h.1, fun hnone => by cases hnone⟩

/-! ## Whole texts -/

theorem read_run (silent : (run ts).faults = []) : (run ts).Read ts := by
  induction ts using List.reverseRecOn with
  | nil => exact ⟨rfl, rfl⟩
  | append_singleton ts t ih =>
    rw [run_snoc] at silent ⊢
    obtain ⟨es, fs, -, -, hfaults, -, -⟩ := (step_advance (t := t) (run_rooted ts)).adds
    -- a fault of an earlier step would still be there
    rw [hfaults] at silent
    refine read_step (ih (List.append_eq_nil_iff.mp silent).2) ?_
    rw [hfaults, silent]

/-- Containers that are open at the end of a text are reported. -/
theorem unwind_reports (stop : Nat) (eof : Span) (value : Option Value) (fault : PlacedFault)
    (faults : List PlacedFault) (stack : List Place) (hs : RootedStack stack) :
    (unwind stop eof value (fault :: faults) stack).2 ≠ [] := by
  obtain ⟨es, fs, -, hfaults, -⟩ := unwind_closing stop eof value (fault :: faults) hs
  rw [hfaults]
  simp

/-- A derivation that has not come to its end is reported. -/
theorem read_finish {eof : Span} (rooted : s.Rooted) (h : s.Read ts)
    (silent : (finish eof s).2 = []) :
    (ts = [] ∧ (finish eof s).1 = none) ∨
      ∃ v, (finish eof s).1 = some v ∧ Derives true ts v.outline := by
  obtain ⟨focus, stack, depth, nextId, lastEnd, faults⟩ := s
  cases focus with
  | start => exact Or.inl ⟨h.2, rfl⟩
  | done root trailing =>
    cases root with
    | none => exact h.elim
    | some v =>
      cases trailing with
      | none => exact Or.inr ⟨v, rfl, h.2 rfl⟩
      | some span => simp [finish] at silent
  | objectRecovery o => exact h.elim
  | arrayRecovery a => exact h.elim
  | key o => exact (unwind_reports _ _ _ _ _ stack rooted silent).elim
  | colon o p => exact (unwind_reports _ _ _ _ _ (.property o p :: stack) rooted silent).elim
  | propertyValue o p =>
    exact (unwind_reports _ _ _ _ _ (.property o p :: stack) rooted silent).elim
  | propertyEnd o => exact (unwind_reports _ _ _ _ _ stack rooted silent).elim
  | item a => exact (unwind_reports _ _ _ _ _ stack rooted silent).elim
  | itemEnd a => exact (unwind_reports _ _ _ _ _ stack rooted silent).elim
  | skip start nesting place =>
    exact (unwind_reports _ _ _ _ _ (place :: stack) rooted silent).elim

/-- What is known of a text without faults: each of its lexemes is known, and it has no tokens or
tokens that derive the outline of its tree. -/
theorem build_silent {source : List Char} (h : (build source).2 = []) :
    (∀ l ∈ Lexeme.ofText source, l.kind.isSome = true) ∧
      ((Lexeme.tokens source = [] ∧ (build source).1 = none) ∨
        ∃ v, (build source).1 = some v ∧ Derives true (Lexeme.tokens source) v.outline) := by
  obtain ⟨hunknown, hfaults⟩ := List.append_eq_nil_iff.mp h
  have known : ∀ l ∈ Lexeme.ofText source, l.kind.isSome = true := by
    intro l hl
    by_contra hnone
    have hclear := List.filterMap_eq_nil_iff.mp hunknown l hl
    simp [Option.not_isSome_iff_eq_none.mp hnone] at hclear
  have silent := List.reverse_eq_nil_iff.mp hfaults
  have rooted := run_rooted (Lexeme.tokens source)
  obtain ⟨es, fs, -, hfinish, -⟩ :=
    finish_closing (.point (Lexeme.byteLength source)) rooted
  have hrun := (List.append_eq_nil_iff.mp (hfinish.symm.trans silent)).2
  exact ⟨known, read_finish rooted (read_run hrun) silent⟩

end TemplateLint.Builder
