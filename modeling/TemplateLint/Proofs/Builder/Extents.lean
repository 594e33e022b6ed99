import TemplateLint.Proofs.Builder.Offsets
import TemplateLint.Proofs.Builder.Origins

/-!
# Extents of nodes

Tokens are not empty, and each of them begins at most one node. So whatever
comes behind the beginning of a node comes behind it in the source too: no node
is empty, and none begins where a node above it does. A property and its key,
which is no node, are the only ones to begin together.
-/

namespace TemplateLint

/-- The node that an event begins, if any, begins in front of all offsets of another event. -/
def Event.Before (a b : Event) : Prop := ∀ x ∈ a.start?, ∀ y ∈ b.offsets, x < y

theorem Event.Before.of_end {a b : Event} (h : a.start? = none) : a.Before b := by
  intro x hx
  rw [h] at hx
  cases hx

namespace Builder

variable {t : Lexeme Token} {lastEnd id : Nat} {s : State}

theorem Adds.lastEnd_le {es : List Event} (h : Adds t lastEnd id es)
    (hlt : lastEnd ≤ t.span.start) (nonempty : t.span.start < t.span.stop) :
    ∀ x ∈ es.flatMap Event.offsets, lastEnd ≤ x := by
  obtain ⟨n, hsub⟩ := h.offsets
  intro x hx
  have hm := hsub.subset hx
  simp only [List.mem_append, List.mem_replicate, List.mem_cons, List.not_mem_nil, or_false] at hm
  omega

/-- Behind the node that a token begins only the end of the token can follow. -/
theorem Adds.before {es : List Event} (h : Adds t lastEnd id es)
    (nonempty : t.span.start < t.span.stop) : es.Pairwise Event.Before := by
  induction h with
  | nothing => exact List.Pairwise.nil
  | ends hasValue => exact List.pairwise_singleton _ _
  | stands he => exact List.pairwise_singleton _ _
  | completes hasValue he =>
    have alone : Adds t lastEnd id [_] := .stands he
    refine List.pairwise_pair.mpr fun x hx y hy => ?_
    rw [alone.starts _ (List.mem_singleton_self _) x hx, List.mem_singleton.mp hy]
    exact nonempty
  | leaves _ ih => exact List.pairwise_cons.mpr ⟨fun _ _ => .of_end rfl, ih⟩

/-- What has been begun has been begun in front of the end of the latest token, and in front of all
that came behind it. -/
structure State.Extended (s : State) : Prop where
  rooted : s.Rooted
  begun : ∀ e ∈ s.events, ∀ x ∈ e.start?, x < s.lastEnd
  before : s.events.Pairwise Event.Before

theorem step_extended (h : s.Extended) (hlt : s.lastEnd ≤ t.span.start)
    (nonempty : t.span.start < t.span.stop) : (step s t).Extended := by
  obtain ⟨hrooted, es, -, hadds, hevents, -⟩ := step_advance (t := t) h.rooted
  refine ⟨hrooted, fun e he x hx => ?_, ?_⟩
  · change x < t.span.stop
    rw [hevents] at he
    rcases List.mem_append.mp he with he | he
    · have := h.begun e he x hx
      omega
    · exact hadds.starts e he x hx ▸ nonempty
  · rw [hevents]
    refine List.pairwise_append.mpr ⟨h.before, hadds.before nonempty, fun a ha b hb x hx y hy => ?_⟩
    have behind := hadds.lastEnd_le hlt nonempty y (List.mem_flatMap.mpr ⟨b, hb, hy⟩)
    exact Nat.lt_of_lt_of_le (h.begun a ha x hx) behind

theorem run_extended {ts : List (Lexeme Token)} (nonempty : ∀ t ∈ ts, t.span.start < t.span.stop)
    (ordered : ts.Pairwise fun a b => a.span.stop ≤ b.span.start) : (run ts).Extended := by
  induction ts using List.reverseRecOn with
  | nil =>
    refine ⟨rfl, ?_, List.Pairwise.nil⟩
    intro e he
    cases he
  | append_singleton ts t ih =>
    obtain ⟨hts, -, hlast⟩ := List.pairwise_append.mp ordered
    rw [run_snoc]
    refine step_extended (ih (fun u hu => nonempty u (by simp [hu])) hts) ?_ (nonempty t (by simp))
    exact run_lastEnd_le fun u hu => hlast u hu t (by simp)

theorem build_before (source : List Char) :
    (valueEvents (build source).1).Pairwise Event.Before := by
  obtain ⟨es, hevents, hcloses, -⟩ := build_events source
  have extended : (run (Lexeme.tokens source)).Extended :=
    run_extended (fun _ ht => (Lexeme.placed_of_mem_tokens ht).nonempty)
      (Lexeme.pairwise_tokens source)
  have ends : ∀ e ∈ es, e.offsets = [(run (Lexeme.tokens source)).lastEnd] ∧ e.start? = none := by
    intro e he
    cases hcloses e he with
    | propertyEnd hasValue => exact ⟨rfl, rfl⟩
    | objectEnd => exact ⟨rfl, rfl⟩
    | arrayEnd => exact ⟨rfl, rfl⟩
  rw [hevents]
  refine List.pairwise_append.mpr ⟨extended.before, ?_, fun a ha b hb x hx y hy => ?_⟩
  · exact List.pairwise_of_forall_mem_list fun a ha b _ => .of_end (ends a ha).2
  · rw [(ends b hb).1] at hy
    rw [List.mem_singleton.mp hy]
    exact extended.begun a ha x hx

end Builder

/-- A node begins in front of all that is below it. -/
theorem Node.start_lt {n m : Node} {segment : Segment} (h : n.events.Pairwise Event.Before)
    (hm : (segment, m) ∈ n.steps) {x : Nat} (hx : x ∈ m.offsets) : n.span.start < x := by
  rw [events_eq] at h
  obtain ⟨e, he, hxe⟩ := List.mem_flatMap.mp hx
  refine List.rel_of_pairwise_cons h ?_ _ (first_start n) x hxe
  exact List.mem_append_left _ (List.mem_flatMap.mpr ⟨_, hm, he⟩)

namespace Document

variable {source : List Char} {e : Entry}

theorem before_of_mem (he : e ∈ (parse source).1.entries) :
    e.node.events.Pairwise Event.Before :=
  (Builder.build_before source).sublist (events_of_mem he).sublist

/-- No node of a text is empty. -/
theorem start_lt_stop (he : e ∈ (parse source).1.entries) : e.node.span.start < e.node.span.stop := by
  have before := before_of_mem he
  rw [Node.events_eq] at before
  have last : ∀ b ∈ e.node.last, ∀ y ∈ b.offsets, e.node.span.start < y := fun b hb y hy =>
    List.rel_of_pairwise_cons before (List.mem_append_right _ hb) _ (Node.first_start _) y hy
  rcases hn : e.node with (⟨id, span, ps⟩ | ⟨id, span, vs⟩ | ⟨id, span, content⟩) | p
  · rw [hn] at last
    exact last _ (List.mem_singleton_self _) _ (List.mem_singleton_self _)
  · rw [hn] at last
    exact last _ (List.mem_singleton_self _) _ (List.mem_singleton_self _)
  · obtain ⟨t, ht, hspan, -⟩ := scalar?_of_mem he hn
    exact hspan ▸ (Lexeme.placed_of_mem_tokens ht).nonempty
  · rw [hn] at last
    exact last _ (List.mem_singleton_self _) _ (List.mem_singleton_self _)

end Document

end TemplateLint
