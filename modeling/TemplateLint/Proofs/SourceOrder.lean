import TemplateLint.Proofs.Builder.Reports
import TemplateLint.Proofs.Segments

/-!
# Faults in the order of the source

What is reported of a text comes in two runs, each in the order of the source:
first the characters that belong to no token, one by one, then what is wrong
with the tokens. The two are told apart by their messages.
-/

namespace TemplateLint

/-- The stretches of a text that belong to no token. -/
def Lexeme.unknown (source : List Char) : List (Lexeme (Option Token)) :=
  (ofText source).filter (·.kind.isNone)

theorem PlacedFault.inDocumentOrder {fs : List PlacedFault}
    (h : fs.Pairwise fun f g => f.span.start ≤ g.span.start) :
    InDocumentOrder (fs.map diagnostic) := by
  refine ⟨fs.map PlacedFault.span, ?_, List.pairwise_map.mpr h⟩
  simp only [List.map_map]
  rfl

namespace Builder

/-- The faults of a text: those of its unknown characters, and behind them those of its tokens. The
end of the text adds no malformed number. -/
theorem build_faults (source : List Char) :
    ∃ fs, (build source).2 =
        (Lexeme.unknown source).map (fun l => ⟨.unknownCharacter, l.span⟩) ++ fs ∧
      fs.Pairwise (fun f g => f.span.start ≤ g.span.start) ∧
      (∀ f ∈ fs, f.fault ≠ .unknownCharacter) ∧
      fs.filterMap PlacedFault.malformed? =
        (run (Lexeme.tokens source)).faults.reverse.filterMap PlacedFault.malformed? := by
  have placed : ∀ t ∈ Lexeme.tokens source, t.Placed source :=
    fun _ ht => Lexeme.placed_of_mem_tokens ht
  have ordered := Lexeme.pairwise_tokens source
  have hrun := run_reported placed ordered
  have boundary := (run_ordered placed ordered).boundary
  generalize hs : run (Lexeme.tokens source) = s at hrun boundary
  have reported : s.Reported (Span.point (Lexeme.byteLength source)).start := hrun.mono boundary.le
  obtain ⟨fs, hfs, sorted, structural⟩ := finish_reports reported
  refine ⟨(fs ++ s.faults).reverse, ?_, List.pairwise_reverse.mpr sorted, fun f hf => ?_, ?_⟩
  · rw [← hfs, ← hs, Lexeme.unknown, ← List.filterMap_eq_map, List.filterMap_filter]
    rfl
  · rcases List.mem_append.mp (List.mem_reverse.mp hf) with hf | hf
    · exact Fault.ne_unknown_of_structure (structural f hf)
    · exact hrun.known f hf
  · have none : fs.reverse.filterMap PlacedFault.malformed? = [] := by
      refine List.filterMap_eq_nil_iff.mpr fun f hf => ?_
      exact PlacedFault.malformed?_of_structure (structural f (List.mem_reverse.mp hf))
    rw [List.reverse_append, List.filterMap_append, none, List.append_nil]

end Builder

namespace Document

/-- What is reported of any text is an error with a label. First come the unknown characters, each
stretch of the text that belongs to no token once, as they stand in the source; then comes all that
is wrong with the tokens, and none of it starts before what is reported in front of it. -/
theorem parse_inSourceOrder (source : List Char) :
    ∃ characters others, (parse source).2 = characters ++ others ∧
      characters.map (fun d => (d.message, d.location)) =
        (Lexeme.unknown source).map (fun l => ("unknown character", some l.span)) ∧
      InDocumentOrder characters ∧ (∀ d ∈ others, d.message ≠ "unknown character") ∧
      InDocumentOrder others ∧
      ∀ d ∈ (parse source).2, d.severity = .error ∧ d.labels ≠ [] := by
  obtain ⟨fs, hfaults, ordered, known, -⟩ := Builder.build_faults source
  have errors : ∀ d ∈ (parse source).2, d.severity = .error ∧ d.labels ≠ [] := by
    intro d hd
    obtain ⟨f, -, rfl⟩ := List.mem_map.mp hd
    exact ⟨rfl, List.cons_ne_nil _ _⟩
  have unknown : ((Lexeme.unknown source).map fun l =>
      PlacedFault.mk .unknownCharacter l.span).Pairwise fun f g => f.span.start ≤ g.span.start := by
    refine List.pairwise_map.mpr (((Lexeme.pairwise_ofText source).filter _).imp_of_mem ?_)
    intro a b ha _ hab
    have within := (Lexeme.of_mem_ofText (List.mem_of_mem_filter ha)).1
    exact Nat.le_trans within.forward hab
  refine ⟨_, _, (congrArg (List.map PlacedFault.diagnostic) hfaults).trans List.map_append, ?_,
    PlacedFault.inDocumentOrder unknown, ?_, PlacedFault.inDocumentOrder ordered, errors⟩
  · simp only [List.map_map]
    rfl
  · intro d hd
    obtain ⟨f, hf, rfl⟩ := List.mem_map.mp hd
    exact fun h => known f hf (Fault.message_eq_unknown_iff.mp h)

end Document

end TemplateLint
