import TemplateLint.Proofs.Analysis
import TemplateLint.Proofs.Builder.Labels
import TemplateLint.Proofs.Builder.Numbering

/-!
# Layout of documents

Every span that a document or a diagnostic shows is a stretch of the source
that begins and ends between two characters. The spans of nodes are nested as
the nodes are, and what stands side by side in the tree does so in the source.
-/

namespace TemplateLint

/-- A node's spans lie within the text, around those of the nodes one step below it. -/
structure Node.LaidOut (source : List Char) (n : Node) : Prop where
  within : n.span.Within source
  encloses : ∀ s m, (s, m) ∈ n.steps → n.span.encloses m.span = true
  side_by_side : n.steps.Pairwise fun a b => a.2.span.stop ≤ b.2.span.start
  /-- A property begins with its key, and its value comes behind the key. -/
  key : ∀ p, n = .property p → p.keySpan.Within source ∧ p.keySpan.start = p.span.start ∧
    p.keySpan.stop ≤ p.span.stop ∧ ∀ v, p.value = some v → p.keySpan.stop ≤ v.span.start

/-- A diagnostic has labels, and all of them lie within the text. -/
structure Diagnostic.Shown (source : List Char) (d : Diagnostic) : Prop where
  labelled : d.labels ≠ []
  within : ∀ l ∈ d.labels, l.span.Within source

namespace Node

variable {source : List Char} {n : Node}

theorem InOrder.laidOut (h : n.InOrder) (boundaries : ∀ x ∈ n.offsets, Boundary source x) :
    n.LaidOut source := by
  have start := start_mem_offsets h.first_aligned
  have stop := stop_mem_offsets h.first_aligned
  refine ⟨?_, fun _ _ hm => h.encloses hm, h.side_by_side, ?_⟩
  · exact .of_boundaries (boundaries _ start) (boundaries _ stop) (h.between stop).1
  · rintro p rfl
    obtain ⟨hstart, hforward, hstop, hvalue⟩ := h.key_stop_le
    have key : p.keySpan.start ∈ (property p).offsets ∧ p.keySpan.stop ∈ (property p).offsets := by
      rw [offsets_eq]
      simp [first, Event.offsets]
    refine ⟨?_, hstart, hstop, hvalue⟩
    exact .of_boundaries (boundaries _ key.1) (boundaries _ key.2) hforward

theorem LaidOut.of_mem {m : Node} (h : n.InOrder) (boundaries : ∀ x ∈ n.offsets, Boundary source x)
    (hm : m ∈ n.nodes) : m.LaidOut source :=
  (h.of_mem hm).laidOut fun x hx =>
    boundaries x (((events_inside hm).flatMap Event.offsets).subset hx)

end Node

namespace Analysis

/-- A span of one byte, or of none, at the start of a span whose first character takes a byte. -/
theorem resolutionSpan_within {source : List Char} {root : Value}
    (hspan : root.span.Within source) (next : Boundary source (root.span.start + 1)) :
    (resolutionSpan root).Within source := by
  rcases Nat.eq_zero_or_pos root.span.length with hempty | hpos
  · have hlen : min root.span.length 1 = 0 := by omega
    rw [resolutionSpan, hlen]
    exact .of_boundaries hspan.start hspan.start (Nat.le_refl _)
  · have hlen : min root.span.length 1 = 1 := by omega
    rw [resolutionSpan, hlen]
    exact .of_boundaries hspan.start next (Nat.le_succ _)

end Analysis

namespace Document

variable {source : List Char}

theorem laidOut_of_mem_entries {e : Entry} (he : e ∈ (parse source).1.entries) :
    e.node.LaidOut source := by
  unfold entries at he
  split at he
  · rename_i root hroot
    obtain ⟨ordered, boundaries, -⟩ := Builder.build_inOrder hroot
    exact .of_mem ordered boundaries (List.mem_map_of_mem he)
  · cases he

theorem shown_parse : ∀ d ∈ (parse source).2, d.Shown source := by
  intro d hd
  obtain ⟨f, hf, rfl⟩ := List.mem_map.mp hd
  refine ⟨List.cons_ne_nil _ _, fun l hl => ?_⟩
  exact Builder.build_labels source f hf l.span (List.mem_map_of_mem hl)

theorem shown_problem {root : Value} (hroot : (Builder.build source).1 = some root)
    {validateResources : Bool} {s : ResolvedSchema} {p : Problem}
    (h : p ∈ Analysis.rootProblems validateResources s root) : p.diagnostic.Shown source := by
  obtain ⟨ordered, boundaries, next⟩ := Builder.build_inOrder hroot
  have within : p.span.Within source := by
    rcases Analysis.exists_node h with hspan | ⟨m, hm, -, hspan⟩
    · rw [hspan]
      refine Analysis.resolutionSpan_within (ordered.laidOut boundaries).within ?_
      exact next _ (Node.value root).first_mem_events _ (Node.first_start (.value root))
    · rw [hspan]
      exact (Node.LaidOut.of_mem ordered boundaries hm).within
  refine ⟨List.cons_ne_nil _ _, fun l hl => ?_⟩
  cases List.mem_singleton.mp hl
  exact within

/-- For any text: the spans of the tree are laid out in the text, and whatever is reported about
the text, or about its tree with any options and any schema, is shown at places of the text. -/
theorem layout_parse (source : List Char) :
    (∀ e ∈ (parse source).1.entries, e.node.LaidOut source) ∧
      (∀ d ∈ (parse source).2, d.Shown source) ∧
      ∀ (type : DocumentType) (globals : Globals) (o : Options) (schema : Option ResolvedSchema),
        ∀ p ∈ (({ (parse source).1 with type := type, globals := globals } : Document).analyze
          o schema).2, p.diagnostic.Shown source := by
  refine ⟨fun e he => laidOut_of_mem_entries he, shown_parse, ?_⟩
  intro type globals o schema p hp
  change p ∈ Analysis.problems o (Analysis.prepare o _) schema at hp
  unfold Analysis.problems at hp
  split at hp
  · rename_i root s hroot
    exact shown_problem hroot hp
  · cases hp

end Document

end TemplateLint
