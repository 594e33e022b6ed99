import TemplateLint.Proofs.Builder.Origins
import TemplateLint.Proofs.SourceOrder

/-!
# Malformed numbers are reported once

A token that is taken for a number and is none is reported in the same step in
which it is given its number as a node. Each token has one step, so the reports
of malformed numbers are some of the tokens, each once and in their order, and
no node goes without the report on its token.
-/

namespace TemplateLint

namespace Builder

/-- The spans of the literals that have been reported as no numbers, the latest first. -/
def State.malformed (s : State) : List Span := s.faults.filterMap PlacedFault.malformed?

/-- A scalar has been read from a token, and what is wrong with the token's number has been
reported. -/
def Noted (ts : List (Lexeme Token)) (spans : List Span) (e : Event) : Prop :=
  ∀ id span content, e = .scalar id span content →
    ∃ t ∈ ts, t.span = span ∧ (∃ fault, scalar? t = some (content, fault)) ∧
      ∀ q ∈ malformed? t, q ∈ spans

theorem Noted.mono {ts us : List (Lexeme Token)} {spans more : List Span} {e : Event}
    (h : Noted ts spans e) (hts : ts ⊆ us) (hspans : spans ⊆ more) : Noted us more e := by
  intro id span content he
  obtain ⟨t, ht, hspan, hscalar, reported⟩ := h id span content he
  exact ⟨t, hts ht, hspan, hscalar, fun q hq => hspans (reported q hq)⟩

/-- The numbers that have been reported are some of the tokens, in their order, and each node that
stands for a token comes with the report on it. -/
structure State.Malformed (ts : List (Lexeme Token)) (s : State) : Prop where
  sublist : s.malformed.reverse.Sublist (ts.filterMap malformed?)
  noted : ∀ e ∈ s.events, Noted ts s.malformed e

theorem Adds.scalars {t : Lexeme Token} {lastEnd next : Nat} {es : List Event}
    (h : Adds t lastEnd next es) : ∀ e ∈ es, ∀ id span content, e = .scalar id span content →
      t.span = span ∧ ∃ fault, scalar? t = some (content, fault) := by
  refine h.forall (fun e stands id span content he => ?_) fun _ _ id span content he => nomatch he
  cases stands with
  | scalar hscalar =>
    cases he
    exact ⟨rfl, _, hscalar⟩
  | _ => cases he

theorem step_malformed {ts : List (Lexeme Token)} {t : Lexeme Token} {s : State}
    (rooted : s.Rooted) (h : s.Malformed ts) : (step s t).Malformed (ts ++ [t]) := by
  obtain ⟨⟨fs, hfaults, -, hmalformed⟩, -⟩ := step_reports (t := t) (s := s)
  obtain ⟨es, -, hadds, hevents, -, hnext, -⟩ := (step_advance (t := t) rooted).adds
  have spans : (step s t).malformed = fs.filterMap PlacedFault.malformed? ++ s.malformed := by
    rw [State.malformed, hfaults, List.filterMap_append]
    rfl
  have tokens : (ts ++ [t]).filterMap malformed? =
      ts.filterMap malformed? ++ (malformed? t).toList := by
    rw [List.filterMap_append]
    cases hm : malformed? t <;> simp [hm]
  refine ⟨?_, fun e he => ?_⟩
  · rw [spans, tokens, List.reverse_append]
    refine h.sublist.append ?_
    rw [hmalformed]
    split
    · exact List.nil_sublist _
    · cases malformed? t <;> exact List.Sublist.refl _
  · rw [hevents] at he
    rcases List.mem_append.mp he with he | he
    · refine (h.noted e he).mono (List.subset_append_left ts [t]) ?_
      rw [spans]
      exact List.subset_append_right _ _
    · intro id span content hscalar
      obtain ⟨hspan, read⟩ := hadds.scalars e he id span content hscalar
      -- the token is given a number, so the report on it is among those that are added
      have counted : (step s t).nextId ≠ s.nextId := by
        have met : id ∈ es.filterMap Event.id? := by
          rw [hscalar] at he
          exact List.mem_filterMap.mpr ⟨_, he, rfl⟩
        have := List.length_pos_of_mem met
        omega
      rw [if_neg counted] at hmalformed
      refine ⟨t, by simp, hspan, read, fun q hq => ?_⟩
      rw [spans, hmalformed]
      exact List.mem_append_left _ (Option.mem_toList.mpr hq)

theorem run_malformed (ts : List (Lexeme Token)) : (run ts).Malformed ts := by
  induction ts using List.reverseRecOn with
  | nil =>
    refine ⟨List.Sublist.refl _, fun e he => ?_⟩
    cases he
  | append_singleton ts t ih =>
    rw [run_snoc]
    exact step_malformed (run_rooted ts) ih

/-- What is reported of a text as no number: some of its tokens, each once, and among them all that
its nodes have been read from. -/
theorem build_malformed (source : List Char) :
    ((build source).2.filterMap PlacedFault.malformed?).Sublist
        ((Lexeme.tokens source).filterMap malformed?) ∧
      ∀ e ∈ valueEvents (build source).1, Noted (Lexeme.tokens source)
        ((build source).2.filterMap PlacedFault.malformed?) e := by
  obtain ⟨fs, hfaults, -, -, hmalformed⟩ := build_faults source
  obtain ⟨es, hevents, hcloses, -⟩ := build_events source
  obtain ⟨sublist, noted⟩ := run_malformed (Lexeme.tokens source)
  have reported : (build source).2.filterMap PlacedFault.malformed? =
      (run (Lexeme.tokens source)).malformed.reverse := by
    have none : ((Lexeme.unknown source).map fun l =>
        PlacedFault.mk .unknownCharacter l.span).filterMap PlacedFault.malformed? = [] := by
      refine List.filterMap_eq_nil_iff.mpr fun f hf => ?_
      obtain ⟨l, -, rfl⟩ := List.mem_map.mp hf
      rfl
    rw [hfaults, List.filterMap_append, none, List.nil_append, hmalformed, List.filterMap_reverse]
    rfl
  rw [reported]
  refine ⟨sublist, fun e he => ?_⟩
  rw [hevents] at he
  rcases List.mem_append.mp he with he | he
  · exact (noted e he).mono (List.Subset.refl _) fun q hq => List.mem_reverse.mpr hq
  · rintro id span content rfl
    cases hcloses _ he

theorem eq_span_of_malformed {t : Lexeme Token} {q : Span} (h : malformed? t = some q) :
    q = t.span := by
  unfold malformed? at h
  split at h
  · exact (Option.some.inj h).symm
  · cases h

/-- No literal is reported twice. -/
theorem nodup_malformed (source : List Char) :
    ((build source).2.filterMap PlacedFault.malformed?).Nodup := by
  refine List.Nodup.sublist (build_malformed source).1 (List.pairwise_filterMap.mpr ?_)
  refine (Lexeme.pairwise_tokens source).imp_of_mem fun {t u} ht hu htu q hq r hr same => ?_
  have nonempty := (Lexeme.placed_of_mem_tokens ht).nonempty
  rw [eq_span_of_malformed hq, eq_span_of_malformed hr] at same
  rw [same] at nonempty htu
  omega

/-- A node that stands for a token has a span that is reported as no number just if the token
is none. -/
theorem mem_malformed_iff {source : List Char} {e : Entry} {id : Nat} {span : Span}
    {content : Scalar} (he : e ∈ (Document.parse source).1.entries)
    (hnode : e.node = .value (.scalar id span content)) :
    ∃ t ∈ Lexeme.tokens source, t.span = span ∧ (∃ fault, scalar? t = some (content, fault)) ∧
      (span ∈ (build source).2.filterMap PlacedFault.malformed? ↔ malformed? t = some span) := by
  have met := (Document.events_of_mem he).subset e.node.first_mem_events
  rw [hnode] at met
  obtain ⟨sublist, noted⟩ := build_malformed source
  obtain ⟨t, ht, hspan, hscalar, reported⟩ := noted _ met id span content rfl
  refine ⟨t, ht, hspan, hscalar, fun hmem => ?_, reported span⟩
  obtain ⟨u, hu, hmalformed⟩ := List.mem_filterMap.mp (sublist.subset hmem)
  have same := eq_span_of_malformed hmalformed
  exact Lexeme.eq_of_span hu ht (same.symm.trans hspan.symm) ▸ hmalformed

end Builder

end TemplateLint
