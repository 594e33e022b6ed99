import TemplateLint.Proofs.Builder.Runs

/-!
# Offsets of nodes

A token adds its own offsets to those that have been passed, and perhaps the
end of the token before it. Tokens stand in the order of the source, so the
offsets of a tree are sorted, and each of them lies between two characters.
-/

namespace TemplateLint.Builder

variable {source : List Char} {t : Lexeme Token} {lastEnd id : Nat} {s : State}

theorem Stands.offsets {e : Event} (h : Stands t id e) :
    e.offsets.Sublist [t.span.start, t.span.stop] := by
  cases h with
  | objectStart => simp [Event.offsets]
  | arrayStart => simp [Event.offsets]
  | scalar _ => exact List.Sublist.refl _
  | key => exact List.Sublist.refl _
  | objectEnd => simp [Event.offsets]
  | arrayEnd => simp [Event.offsets]

/-- The offsets that a token adds: the end of the token before it, then its own. -/
theorem Adds.offsets {es : List Event} (h : Adds t lastEnd id es) :
    ∃ n, (es.flatMap Event.offsets).Sublist
      (List.replicate n lastEnd ++ [t.span.start, t.span.stop, t.span.stop]) := by
  induction h with
  | nothing => exact ⟨0, List.nil_sublist _⟩
  | ends hasValue => exact ⟨0, by simp [Event.offsets]⟩
  | stands he =>
    refine ⟨0, ?_⟩
    have hsub := he.offsets.append (List.nil_sublist [t.span.stop])
    simpa using hsub
  | completes hasValue he =>
    refine ⟨0, ?_⟩
    have hsub := he.offsets.append (List.Sublist.refl [t.span.stop])
    simpa [Event.offsets] using hsub
  | leaves _ ih =>
    obtain ⟨n, hn⟩ := ih
    exact ⟨n + 1, hn.cons_cons lastEnd⟩

theorem Adds.aligned {es : List Event} (h : Adds t lastEnd id es) : ∀ e ∈ es, e.Aligned := by
  refine h.forall (fun e he => ?_) fun _ _ => trivial
  cases he with
  | key => exact rfl
  | _ => trivial

/-- Nodes begin where tokens do. -/
theorem Adds.starts {es : List Event} (h : Adds t lastEnd id es) :
    ∀ e ∈ es, ∀ x ∈ e.start?, x = t.span.start := by
  refine h.forall (fun e he x hx => ?_) fun _ _ x hx => ?_
  · cases he with
    | objectEnd => cases hx
    | arrayEnd => cases hx
    | _ =>
      cases hx
      rfl
  · cases hx

/-- The offsets passed so far are sorted, lie between characters and are not behind the latest
token. -/
structure State.Ordered (source : List Char) (s : State) : Prop where
  rooted : s.Rooted
  sorted : (s.events.flatMap Event.offsets).Pairwise (· ≤ ·)
  aligned : ∀ e ∈ s.events, e.Aligned
  /-- A node begins with a character of one byte. -/
  next : ∀ e ∈ s.events, ∀ x ∈ e.start?, Boundary source (x + 1)
  passed : ∀ x ∈ s.events.flatMap Event.offsets, Boundary source x ∧ x ≤ s.lastEnd
  boundary : Boundary source s.lastEnd

theorem step_ordered (h : s.Ordered source) (ht : t.Placed source)
    (hlt : s.lastEnd ≤ t.span.start) : (step s t).Ordered source := by
  obtain ⟨hrooted, es, fs, hadds, hevents, -⟩ := step_advance (t := t) h.rooted
  obtain ⟨n, hsub⟩ := hadds.offsets
  have hle : t.span.start ≤ t.span.stop := Nat.le_of_succ_le ht.nonempty
  have added : ∀ x ∈ es.flatMap Event.offsets,
      Boundary source x ∧ s.lastEnd ≤ x ∧ x ≤ t.span.stop := by
    intro x hx
    have hm := hsub.subset hx
    simp only [List.mem_append, List.mem_replicate, List.mem_cons, List.not_mem_nil, or_false] at hm
    rcases hm with ⟨-, rfl⟩ | rfl | rfl | rfl
    · exact ⟨h.boundary, Nat.le_refl _, by omega⟩
    · exact ⟨ht.start, hlt, hle⟩
    · exact ⟨ht.stop, by omega, Nat.le_refl _⟩
    · exact ⟨ht.stop, by omega, Nat.le_refl _⟩
  have sorted : (es.flatMap Event.offsets).Pairwise (· ≤ ·) := by
    refine List.Pairwise.sublist hsub (List.pairwise_append.mpr ⟨?_, by simp [hle], ?_⟩)
    · exact List.pairwise_replicate.mpr (Or.inr (Nat.le_refl _))
    · intro x hx y hy
      have hxe := (List.mem_replicate.mp hx).2
      simp only [List.mem_cons, List.not_mem_nil, or_false] at hy
      omega
  refine ⟨hrooted, ?_, ?_, ?_, ?_, ht.stop⟩
  · rw [hevents, List.flatMap_append]
    refine List.pairwise_append.mpr ⟨h.sorted, sorted, fun x hx y hy => ?_⟩
    exact Nat.le_trans (h.passed x hx).2 (added y hy).2.1
  · intro e he
    rw [hevents] at he
    exact (List.mem_append.mp he).elim (h.aligned e) (hadds.aligned e)
  · intro e he x hx
    rw [hevents] at he
    rcases List.mem_append.mp he with he | he
    · exact h.next e he x hx
    · exact hadds.starts e he x hx ▸ ht.next
  · intro x hx
    rw [hevents, List.flatMap_append] at hx
    change Boundary source x ∧ x ≤ t.span.stop
    rcases List.mem_append.mp hx with hx | hx
    · obtain ⟨hb, hxle⟩ := h.passed x hx
      exact ⟨hb, by omega⟩
    · exact ⟨(added x hx).1, (added x hx).2.2⟩

/-- What comes behind all tokens so far comes behind the latest of them. -/
theorem run_lastEnd_le {ts : List (Lexeme Token)} {n : Nat} (h : ∀ t ∈ ts, t.span.stop ≤ n) :
    (run ts).lastEnd ≤ n := by
  rcases ts.eq_nil_or_concat' with rfl | ⟨before, t, rfl⟩
  · exact Nat.zero_le n
  · rw [run_snoc]
    exact h t (by simp)

theorem run_ordered {ts : List (Lexeme Token)} (placed : ∀ t ∈ ts, t.Placed source)
    (ordered : ts.Pairwise fun a b => a.span.stop ≤ b.span.start) : (run ts).Ordered source := by
  induction ts using List.reverseRecOn with
  | nil =>
    refine ⟨rfl, List.Pairwise.nil, ?_, ?_, ?_, boundary_zero source⟩
    · intro e he
      cases he
    · intro e he
      cases he
    · intro x hx
      cases hx
  | append_singleton ts t ih =>
    obtain ⟨hts, -, hlast⟩ := List.pairwise_append.mp ordered
    rw [run_snoc]
    refine step_ordered (ih (fun u hu => placed u (by simp [hu])) hts) (placed t (by simp)) ?_
    exact run_lastEnd_le fun u hu => hlast u hu t (by simp)

/-- The offsets of the tree of a text stand in the order of the text, between its characters, and
each node begins with a character of one byte. -/
theorem build_inOrder {source : List Char} {root : Value} (h : (build source).1 = some root) :
    (Node.value root).InOrder ∧ (∀ x ∈ (Node.value root).offsets, Boundary source x) ∧
      ∀ e ∈ root.events, ∀ x ∈ e.start?, Boundary source (x + 1) := by
  obtain ⟨es, he, hcloses, -⟩ := build_events source
  have hrun : (run (Lexeme.tokens source)).Ordered source :=
    run_ordered (fun _ ht => Lexeme.placed_of_mem_tokens ht) (Lexeme.pairwise_tokens source)
  generalize run (Lexeme.tokens source) = s at he hcloses hrun
  have ends : ∀ e ∈ es, e.offsets = [s.lastEnd] ∧ e.Aligned ∧ e.start? = none := by
    intro e hm
    cases hcloses e hm with
    | propertyEnd hasValue => exact ⟨rfl, trivial, rfl⟩
    | objectEnd => exact ⟨rfl, trivial, rfl⟩
    | arrayEnd => exact ⟨rfl, trivial, rfl⟩
  have last : ∀ x ∈ es.flatMap Event.offsets, x = s.lastEnd := by
    intro x hx
    obtain ⟨e, hm, hxe⟩ := List.mem_flatMap.mp hx
    rw [(ends e hm).1] at hxe
    exact List.mem_singleton.mp hxe
  rw [h, valueEvents_some] at he
  have offsets : (Node.value root).offsets =
      s.events.flatMap Event.offsets ++ es.flatMap Event.offsets := by
    rw [← List.flatMap_append, ← he]
    rfl
  refine ⟨⟨?_, ?_⟩, ?_, ?_⟩
  · rw [offsets]
    refine List.pairwise_append.mpr ⟨hrun.sorted, ?_, fun x hx y hy => ?_⟩
    · refine List.pairwise_of_forall_mem_list fun x hx y hy => ?_
      rw [last x hx, last y hy]
    · rw [last y hy]
      exact (hrun.passed x hx).2
  · intro e hm
    change e ∈ root.events at hm
    rw [he] at hm
    exact (List.mem_append.mp hm).elim (hrun.aligned e) fun hm => (ends e hm).2.1
  · intro x hx
    rw [offsets] at hx
    rcases List.mem_append.mp hx with hx | hx
    · exact (hrun.passed x hx).1
    · exact last x hx ▸ hrun.boundary
  · intro e hm x hx
    rw [he] at hm
    rcases List.mem_append.mp hm with hm | hm
    · exact hrun.next e hm x hx
    · rw [(ends e hm).2.2] at hx
      cases hx

end TemplateLint.Builder
