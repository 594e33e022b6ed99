import TemplateLint.Proofs.Builder.Numbering

/-!
# Where nodes come from

A node is met at a token that stands for it, whatever the faults of the text: a
container at its opening bracket, a property at its key and any other value at
a token of its own. So what a text says of a token can be said of its node.
-/

namespace TemplateLint

namespace Builder

/-- A token stands for the node that an event meets. -/
def Sourced (ts : List (Lexeme Token)) (e : Event) : Prop :=
  ∀ id, e.id? = some id → ∃ t ∈ ts, Stands t id e

theorem Sourced.mono {ts us : List (Lexeme Token)} {e : Event} (hsub : ts ⊆ us)
    (h : Sourced ts e) : Sourced us e := by
  intro id hid
  obtain ⟨t, ht, stands⟩ := h id hid
  exact ⟨t, hsub ht, stands⟩

theorem Sourced.of_end {ts : List (Lexeme Token)} {e : Event} (h : e.id? = none) :
    Sourced ts e := by
  intro id hid
  rw [h] at hid
  cases hid

theorem Stands.sourced {t : Lexeme Token} {id : Nat} {e : Event} (h : Stands t id e) :
    Sourced [t] e := by
  intro id' hid
  rcases h.id? with own | none
  · cases own.symm.trans hid
    exact ⟨t, List.mem_singleton_self t, h⟩
  · exact Sourced.of_end none id' hid

theorem run_sourced (ts : List (Lexeme Token)) : ∀ e ∈ (run ts).events, Sourced ts e := by
  induction ts using List.reverseRecOn with
  | nil =>
    intro e he
    cases he
  | append_singleton ts t ih =>
    rw [run_snoc]
    obtain ⟨es, -, adds, hevents, -⟩ := (step_advance (t := t) (run_rooted ts)).adds
    have added := adds.forall (P := Sourced [t]) (fun e he => he.sourced) fun _ _ => .of_end rfl
    intro e he
    rw [hevents] at he
    rcases List.mem_append.mp he with he | he
    · exact (ih e he).mono (List.subset_append_left ts [t])
    · exact (added e he).mono (List.subset_append_right ts [t])

theorem build_sourced (source : List Char) :
    ∀ e ∈ valueEvents (build source).1, Sourced (Lexeme.tokens source) e := by
  obtain ⟨es, hevents, closes, -⟩ := build_events source
  intro e he
  rw [hevents] at he
  rcases List.mem_append.mp he with he | he
  · exact run_sourced _ e he
  · apply Sourced.of_end
    cases closes e he with
    | propertyEnd hasValue => rfl
    | objectEnd => rfl
    | arrayEnd => rfl

end Builder

namespace Lexeme

/-- No two tokens of a text have one span. -/
theorem eq_of_span {source : List Char} {t u : Lexeme Token} (ht : t ∈ tokens source)
    (hu : u ∈ tokens source) (h : t.span = u.span) : t = u := by
  have apart := List.pairwise_iff_getElem.mp (pairwise_tokens source)
  have nonempty := (placed_of_mem_tokens ht).nonempty
  have nonempty' := (placed_of_mem_tokens hu).nonempty
  obtain ⟨i, hi, rfl⟩ := List.mem_iff_getElem.mp ht
  obtain ⟨j, hj, rfl⟩ := List.mem_iff_getElem.mp hu
  rcases Nat.lt_trichotomy i j with hlt | rfl | hlt
  · have before := apart i j hi hj hlt
    rw [h] at before nonempty
    omega
  · rfl
  · have before := apart j i hj hi hlt
    rw [h] at before
    omega

end Lexeme

namespace Document

/-- The events of every node of a text are events of the text. -/
theorem events_of_mem {source : List Char} {e : Entry} (he : e ∈ (parse source).1.entries) :
    e.node.events <:+: valueEvents (Builder.build source).1 := by
  obtain ⟨root, hroot, hentries⟩ := exists_root_of_mem he
  rw [hentries] at he
  rw [← root_parse, hroot, valueEvents_some]
  exact Node.events_inside (show e.node ∈ (Node.value root).nodes from List.mem_map_of_mem he)

/-- Every node of a text has a token that stands for it. -/
theorem exists_token_of_mem {source : List Char} {e : Entry}
    (he : e ∈ (parse source).1.entries) :
    ∃ t ∈ Lexeme.tokens source, Builder.Stands t e.node.id e.node.first :=
  Builder.build_sourced source _ ((events_of_mem he).subset e.node.first_mem_events) _
    e.node.first_id

/-- A scalar of a text is what the token with its span stands for. -/
theorem scalar?_of_mem {source : List Char} {e : Entry} {id : Nat} {span : Span} {content : Scalar}
    (he : e ∈ (parse source).1.entries) (hnode : e.node = .value (.scalar id span content)) :
    ∃ t ∈ Lexeme.tokens source, t.span = span ∧
      ∃ fault, Builder.scalar? t = some (content, fault) := by
  obtain ⟨t, ht, stands⟩ := exists_token_of_mem he
  rw [hnode] at stands
  cases stands with
  | scalar h => exact ⟨t, ht, rfl, _, h⟩

end Document

end TemplateLint
