import TemplateLint.Proofs.Descent.Cuts

/-!
# Outcomes of actions

What an action comes to is found step by step: a step whose outcome is known
hands its result to what follows it. The steps that every reading is made of
have such an outcome wherever the text and the nodes allow them one.
-/

namespace TemplateLint.Descent

/-- An action comes to an outcome, without a breach, of which something holds. -/
def Runs {α : Type} (m : Action α) (s : State) (P : α → State → Prop) : Prop :=
  ∃ a s', m s = some (.ok (a, s')) ∧ P a s'

section Rules

variable {α β : Type} {m : Action α} {f : α → Action β} {s s' : State} {a : α}

theorem runs_pure {P : α → State → Prop} (h : P a s) : Runs (pure a) s P := ⟨a, s, rfl, h⟩

theorem Runs.mono {P Q : α → State → Prop} (h : Runs m s P) (hPQ : ∀ a s', P a s' → Q a s') :
    Runs m s Q := by
  obtain ⟨a, s', hm, hP⟩ := h
  exact ⟨a, s', hm, hPQ a s' hP⟩

theorem bind_of_ok (h : m s = some (.ok (a, s'))) : (m >>= f) s = f a s' := by
  change (ExceptT.bind (m s) fun x => f x.1 x.2) = f a s'
  rw [h]
  rfl

theorem Runs.bind {P : α → State → Prop} {Q : β → State → Prop} (hm : Runs m s P)
    (hf : ∀ a s', P a s' → Runs (f a) s' Q) : Runs (m >>= f) s Q := by
  obtain ⟨a, s', hm, hP⟩ := hm
  obtain ⟨b, s'', hb, hQ⟩ := hf a s' hP
  exact ⟨b, s'', (bind_of_ok hm).trans hb, hQ⟩

theorem runs_bind_of_ok {Q : β → State → Prop} (h : m s = some (.ok (a, s'))) :
    Runs (m >>= f) s Q ↔ Runs (f a) s' Q := by
  unfold Runs
  rw [bind_of_ok h]

end Rules

/-! ## Steps -/

theorem get_bind {β : Type} {s : State} {f : State → Action β} : (get >>= f) s = f s s := rfl

theorem peek_bind {β : Type} {s : State} {f : Option (Lexeme Token) → Action β} :
    (peek >>= f) s = f s.ahead.head? s := rfl

theorem lastEnd_bind {β : Type} {s : State} {default : Nat} {f : Nat → Action β} :
    (lastEnd default >>= f) s = f (s.lastEnd?.getD default) s := rfl

theorem report_bind {β : Type} {s : State} {fault : Fault} {span : Span} {f : Unit → Action β} :
    (report fault span >>= f) s = f () (s.report fault span) := rfl

section Steps

variable {β : Type} {s : State} {Q : β → State → Prop}

@[simp] theorem runs_get_bind {f : State → Action β} :
    Runs (get >>= f) s Q ↔ Runs (f s) s Q := Iff.rfl

@[simp] theorem runs_peek_bind {f : Option (Lexeme Token) → Action β} :
    Runs (peek >>= f) s Q ↔ Runs (f s.ahead.head?) s Q := Iff.rfl

@[simp] theorem runs_lastEnd_bind {default : Nat} {f : Nat → Action β} :
    Runs (lastEnd default >>= f) s Q ↔ Runs (f (s.lastEnd?.getD default)) s Q := Iff.rfl

@[simp] theorem runs_report_bind {fault : Fault} {span : Span} {f : Unit → Action β} :
    Runs (report fault span >>= f) s Q ↔ Runs (f ()) (s.report fault span) Q := Iff.rfl

@[simp] theorem runs_reportExpected_bind {what : Expectation} {context : Span}
    {f : Unit → Action β} : Runs (reportExpected what context >>= f) s Q ↔
      Runs (f ()) (s.report (.expected what s.nextKind? context) s.nextSpan) Q := Iff.rfl

@[simp] theorem runs_reportExpectedValue_bind {f : Unit → Action β} :
    Runs (reportExpectedValue >>= f) s Q ↔
      Runs (f ()) (s.report (.expectedValue s.nextKind?) s.nextSpan) Q := Iff.rfl

@[simp] theorem runs_alloc_bind {parent : Option Nat} {segment : Option Segment} {span : Span}
    {content : Content} {f : Nat → Action β} :
    Runs (alloc parent segment span content >>= f) s Q ↔
      Runs (f s.rows.length) (s.add ⟨parent, segment, span, content⟩) Q := Iff.rfl

end Steps

variable {s : State} {t : Lexeme Token} {rest : List (Lexeme Token)}

theorem bump_of_cons (h : s.ahead = t :: rest) :
    bump s = some (.ok (some t, s.pass t rest)) := by
  obtain ⟨source, latest, ahead, rows, faults, depth⟩ := s
  obtain rfl : ahead = t :: rest := h
  rfl

theorem bump_of_nil (h : s.ahead = []) : bump s = some (.ok (none, s)) := by
  obtain ⟨source, latest, ahead, rows, faults, depth⟩ := s
  obtain rfl : ahead = [] := h
  rfl

theorem eat_eq (kind : Token) : eat kind s =
    (if s.nextKind? = some kind then bump >>= fun _ => pure true else pure false : Action Bool) s :=
  rfl

theorem eat_of_cons {kind : Token} (h : s.ahead = t :: rest) (hkind : t.kind = kind) :
    eat kind s = some (.ok (true, s.pass t rest)) := by
  have next : s.nextKind? = some kind := by rw [State.nextKind?, h, ← hkind]; rfl
  rw [eat_eq, if_pos next, bind_of_ok (bump_of_cons h)]
  rfl

theorem eat_of_ne {kind : Token} (h : s.nextKind? ≠ some kind) :
    eat kind s = some (.ok (false, s)) := by
  rw [eat_eq, if_neg h]
  rfl

theorem range_eq {start stop : Nat} (h : start ≤ stop) :
    range start stop s = some (.ok (⟨start, stop⟩, s)) := by
  unfold range
  rw [Span.ofRange_eq_ok_iff.mpr ⟨h, rfl⟩]
  rfl

theorem slice_eq {text part : List Char} {start stop : Nat}
    (h : slice? text start stop = some part) : slice text start stop s = some (.ok (part, s)) := by
  unfold slice
  rw [h]
  rfl

theorem complete_eq {id start stop : Nat} {change : Content → Content} {row : Row}
    (hrow : s.rows[id]? = some row) (h : start ≤ stop) :
    complete id start stop change s =
      some (.ok ((), s.set id ⟨row.parent, row.segment, ⟨start, stop⟩, change row.content⟩)) := by
  rw [complete, get_bind, hrow]
  exact bind_of_ok (range_eq h)

theorem leave_eq {depth : Nat} (h : s.depth = depth + 1) :
    leave s = some (.ok ((), s.withDepth depth)) := by
  obtain ⟨source, latest, ahead, rows, faults, d⟩ := s
  obtain rfl : d = depth + 1 := h
  rfl

/-! ## Scalars -/

def State.reportAny (fault : Option Fault) (span : Span) (s : State) : State :=
  { s with faults := (fault.map fun fault => ⟨fault, span⟩).toList ++ s.faults }

open Lexeme (tokens)

theorem stringText_eq (ht : t ∈ tokens s.source)
    (hkind : t.kind = .string ∨ t.kind = .unterminatedString) :
    stringText t s =
      some (.ok ((Builder.stringText t).1, s.reportAny (Builder.stringText t).2 t.span)) := by
  unfold stringText Builder.stringText
  rw [get_bind, bind_of_ok (slice_eq (slice?_token ht))]
  by_cases hun : t.kind = .unterminatedString
  · rw [if_pos hun, if_pos hun, report_bind, bind_of_ok (slice_eq (slice?_unterminated ht hun))]
    rfl
  · have hstring : t.kind = .string := hkind.resolve_right hun
    rw [if_neg hun, if_neg hun]
    cases hdecode : Json.Quoted.decode? t.text with
    | some cs => rfl
    | none =>
      change (report .invalidString t.span >>= fun _ => _ : Action String) s = _
      rw [report_bind, bind_of_ok (slice_eq (slice?_string ht hstring))]
      rfl

theorem number_eq (ht : t ∈ tokens s.source) :
    number t s =
      some (.ok ((Builder.numberScalar t).1, s.reportAny (Builder.numberScalar t).2 t.span)) := by
  have text : { t with text := t.text } = t := rfl
  rw [number, get_bind, bind_of_ok (slice_eq (slice?_token ht)), text]
  rcases Builder.numberScalar t with ⟨content, _ | fault⟩ <;> rfl

theorem scalar?_eq_none (h : scalar? t = none) : Builder.scalar? t = none := by
  unfold scalar? at h
  unfold Builder.scalar?
  split at h <;> simp_all

/-- A token that is a value on its own is read as what it stands for. -/
theorem scalar?_eq_some {read : Action Scalar} (h : scalar? t = some read)
    (ht : t ∈ tokens s.source) : ∃ content fault,
      Builder.scalar? t = some (content, fault) ∧
        read s = some (.ok (content, s.reportAny fault t.span)) := by
  have text : t.kind = .string ∨ t.kind = .unterminatedString →
      (stringText t >>= fun text => pure (.string text) : Action Scalar) s =
        some (.ok (.string (Builder.stringText t).1,
          s.reportAny (Builder.stringText t).2 t.span)) := by
    intro hkind
    rw [bind_of_ok (stringText_eq ht hkind)]
    rfl
  cases hkind : t.kind with
  | string =>
    rw [scalar?, hkind] at h
    cases h
    exact ⟨_, _, by rw [Builder.scalar?, hkind], text (Or.inl hkind)⟩
  | unterminatedString =>
    rw [scalar?, hkind] at h
    cases h
    exact ⟨_, _, by rw [Builder.scalar?, hkind], text (Or.inr hkind)⟩
  | number =>
    rw [scalar?, hkind] at h
    cases h
    exact ⟨_, _, by rw [Builder.scalar?, hkind], number_eq ht⟩
  | trueWord =>
    rw [scalar?, hkind] at h
    cases h
    exact ⟨.boolean true, none, by rw [Builder.scalar?, hkind], rfl⟩
  | falseWord =>
    rw [scalar?, hkind] at h
    cases h
    exact ⟨.boolean false, none, by rw [Builder.scalar?, hkind], rfl⟩
  | nullWord =>
    rw [scalar?, hkind] at h
    cases h
    exact ⟨.null, none, by rw [Builder.scalar?, hkind], rfl⟩
  | _ =>
    rw [scalar?, hkind] at h
    cases h

end TemplateLint.Descent
