import TemplateLint.Proofs.Builder.Depths
import TemplateLint.Proofs.Descent
import TemplateLint.Proofs.Descent.Depths

/-!
# Nesting

However a text nests its brackets, closes them wrongly or not at all, its tree is
of bounded depth. A reading is in as many containers as its depth says, and a
value that has been read leaves the depth as it was.
-/

namespace TemplateLint

namespace Descent

/-- In a text a value is read to its end, whatever stands ahead. -/
theorem exists_value {source : List Char} {s : State} {limit : Nat} (h : s.Of source)
    (hlimit : s.ahead.length < limit) (parent : Option Nat) (segment : Option Segment) :
    ∃ v s', value limit parent segment s = some (.ok (v, s')) := by
  cases hs : s.ahead with
  | cons t rest =>
    obtain ⟨v, s', hvalue, -⟩ := reads_value hlimit s t rest parent segment h hs (Nat.le_refl _)
    exact ⟨v, s', hvalue⟩
  | nil =>
    cases limit with
    | zero => cases hlimit
    | succ limit =>
      refine ⟨none, s.report (.expectedValue s.nextKind?) s.nextSpan, ?_⟩
      rw [value, valueBy, peek_bind, hs]
      rfl

end Descent

namespace Document

open Builder (run)

/-- No node of a text's tree has more than 128 objects and arrays above it, no object or array more
than 127, and no chain of parents is longer than 256. While the text is read token by token, the
depth is the number of objects and arrays that are open. While it is read by descent, the depth is
the number of their calls, wherever the reading stands and whatever it meets, and every value of the
text is read to its end. -/
theorem nesting_bounded (source : List Char) :
    (∀ e ∈ (parse source).1.entries, (∃ above, Ancestors (parse source).1.entries e above) ∧
      ∀ above, Ancestors (parse source).1.entries e above →
        containersAmong above ≤ 128 ∧ (e.node.isContainer = true → containersAmong above ≤ 127) ∧
          above.length ≤ 256) ∧
    (∀ ts, (run ts).depth = (run ts).opened.length ∧ (run ts).depth ≤ 128) ∧
    (∀ limit, Descent.CountsCalls limit) ∧
    ∀ (s : Descent.State) (limit : Nat), s.Of source → s.ahead.length < limit →
      ∀ parent segment, ∃ v s', Descent.value limit parent segment s = some (.ok (v, s')) := by
  refine ⟨fun e he => ?_, fun ts => (Builder.run_leveled ts).depth_eq, Descent.countsCalls,
    fun s limit of hlimit parent segment => Descent.exists_value of hlimit parent segment⟩
  obtain ⟨root, hroot, hentries⟩ := exists_root_of_mem he
  have levels : (Node.value root).Within maxDepth :=
    Builder.build_within source root ((root_parse source).symm.trans hroot)
  have numbered : (Node.value root).ids = List.range (parse source).1.entries.length := by
    rw [(wellListed_parse source).2, ← ids_parse, hentries, Node.map_id_entries]
  refine ⟨Ancestors.exists_of_mem hentries numbered he, fun above habove => ?_⟩
  obtain ⟨k, hwithin, hlevels, hlength⟩ := habove.within hentries numbered levels rfl
  have all : maxDepth = 128 := rfl
  refine ⟨by omega, fun container => ?_, by omega⟩
  have hpos := hwithin.pos_of_isContainer container
  omega

end Document

end TemplateLint
