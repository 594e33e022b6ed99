import TemplateLint.Proofs.Builder.Derivations
import TemplateLint.Proofs.Builder.Numbering
import TemplateLint.Proofs.Grammar.Lexing

/-!
# Trees of well-formed texts

A text of JSON has its own outline as its tree. Only containers that are
enclosed in too many others are left out, each with one fault for the whole of
it; what stands beside them is kept.
-/

namespace TemplateLint

theorem Framed.chain_number {trailing : Bool} {ts : List (Lexeme Token)} (h : Framed trailing ts) :
    ts.IsChain fun a b => a.kind = .number → b.kind.IsMark :=
  h.chain.imp fun _ _ follows => follows.number

namespace Outline

/-- Only containers can be nested too deep. -/
theorem isSome_truncate (n : Nat) (o : Outline) : (o.truncate (n + 1)).isSome = true := by
  cases o <;> simp [truncate]

end Outline

namespace Builder

/-- The builder of a text whose lexemes are all known. -/
theorem build_of_known {source : List Char}
    (known : ∀ l ∈ Lexeme.ofText source, l.kind.isSome = true) :
    build source = ((finish (.point (Lexeme.byteLength source)) (run (Lexeme.tokens source))).1,
      (finish (.point (Lexeme.byteLength source)) (run (Lexeme.tokens source))).2.reverse) := by
  have unknown : ((Lexeme.ofText source).filterMap fun l =>
      if l.kind.isNone then some (⟨.unknownCharacter, l.span⟩ : PlacedFault) else none) = [] := by
    refine List.filterMap_eq_nil_iff.mpr fun l hl => ?_
    obtain ⟨k, hk⟩ := Option.isSome_iff_exists.mp (known l hl)
    simp [hk]
  simp only [build, unknown, List.nil_append]
  rfl

/-- The tree of a text is the text's outline as far as it is not nested too deep. -/
theorem build_of_isText {trailing : Bool} {source : List Char} {o : Outline}
    (h : IsText trailing source o) (meaningful : o.Meaningful) :
    (build source).2 = (o.containersAt maxDepth).map (fun span => ⟨.nestingTooDeep, span⟩) ∧
      ∃ root, (build source).1 = some root ∧ some root.outline = o.truncate maxDepth := by
  obtain ⟨ts, spelled, derives⟩ := h
  obtain ⟨htokens, known⟩ := spelled.lexemes derives.framed.chain_number
  obtain ⟨⟨value, houtline, hfocus⟩, continues⟩ :=
    builtInto_of_derives derives meaningful .initial .root maxDepth rfl (Nat.zero_add _)
  obtain ⟨root, hroot⟩ : ∃ root, value = some root := by
    refine Option.isSome_iff_exists.mp ?_
    rw [← Option.isSome_map, houtline]
    exact o.isSome_truncate 127
  cases hroot
  have hfinish : ∀ eof, finish eof (run ts) = (some root, (run ts).faults) := by
    intro eof
    have hdone : (run ts).focus = .done (some root) none := hfocus
    simp [finish, hdone]
  have hfaults : (run ts).faults =
      ((o.containersAt maxDepth).map fun span => (⟨.nestingTooDeep, span⟩ : PlacedFault)).reverse :=
    continues.faults.trans (List.append_nil _)
  rw [build_of_known known, show Lexeme.tokens source = ts from htokens, hfinish, hfaults]
  exact ⟨List.reverse_reverse _, root, rfl, houtline⟩

end Builder

/-! ## Arrays in one another -/

/-- An array in which another is nested as often as a number says, with `null` behind each. -/
def nestedText : Nat → List Char
  | 0 => ['[', ']']
  | n + 1 => '[' :: (nestedText n ++ [',', 'n', 'u', 'l', 'l'] ++ [']'])

def Outline.nested (start : Nat) : Nat → Outline
  | 0 => .array ⟨start, start + 2⟩ []
  | n + 1 =>
    let stop := start + 7 * n + 3
    .array ⟨start, stop + 6⟩ [nested (start + 1) n, .scalar ⟨stop + 1, stop + 5⟩ (some .null)]

theorem byteLength_nestedText (n : Nat) : Lexeme.byteLength (nestedText n) = 7 * n + 2 := by
  induction n with
  | zero => rfl
  | succ n ih =>
    have hopening : '['.utf8Size = 1 := rfl
    have hbehind : Lexeme.byteLength [',', 'n', 'u', 'l', 'l'] = 5 := rfl
    have hclosing : Lexeme.byteLength [']'] = 1 := rfl
    rw [nestedText, Lexeme.byteLength_cons, Lexeme.byteLength_append, Lexeme.byteLength_append, ih,
      hopening, hbehind, hclosing]
    omega

theorem exists_nested (start n : Nat) :
    ∃ ts, Spelled start (nestedText n) ts ∧ Derives false ts (.nested start n) := by
  induction n generalizing start with
  | zero =>
    have inner : Spelled (start + 1) [] [] := .nil
    obtain ⟨opening, closing, hopening, hclosing, hstart, hstop, spelled⟩ :=
      inner.exists_bracketed .openBracket .closeBracket rfl rfl
    have items : Listed false (([] : List Item).map Item.tokens) [] := .empty
    have derives := Derives.array hopening hclosing items (by simp)
    rw [hstart, hstop] at derives
    exact ⟨_, spelled, derives⟩
  | succ n ih =>
    obtain ⟨ts, inner, derives⟩ := ih (start + 1)
    have stop : start + 1 + Lexeme.byteLength (nestedText n) = start + 7 * n + 3 := by
      rw [byteLength_nestedText]
      omega
    obtain ⟨comma, hcomma, -, comes⟩ := Spelled.exists_fixed .comma rfl (start + 7 * n + 3)
    obtain ⟨null, hnull, hspan, last⟩ := Spelled.exists_fixed .nullWord rfl (start + 7 * n + 4)
    have body := comes.append last
    rw [← stop] at body
    obtain ⟨opening, closing, hopening, hclosing, hstart, hstop, spelled⟩ :=
      (inner.append body).exists_bracketed .openBracket .closeBracket rfl rfl
    refine ⟨_, spelled, ?_⟩
    let items : List Item := [⟨ts, .nested (start + 1) n⟩, ⟨[null], .scalar null.span (some .null)⟩]
    have listed : Listed false (items.map Item.tokens) ([] ++ (ts ++ [comma]) ++ [null]) :=
      .last _ (.snoc .nil hcomma)
    have derives := Derives.array hopening hclosing listed
      (by simp [items, derives, Derives.scalar (Lexeme.Denotes.nullWord hnull)])
    have hlength : closing.span.stop = start + (7 * (n + 1) + 2) :=
      hstop.trans (congrArg (start + ·) (byteLength_nestedText (n + 1)))
    simp only [items, List.map_cons, List.map_nil, hstart, hlength, hspan, List.nil_append,
      List.append_assoc] at derives ⊢
    exact derives

theorem containersAt_nested (start n : Nat) :
    (Outline.nested start n).containersAt n = [⟨start + n, start + n + 2⟩] := by
  induction n generalizing start with
  | zero => simp [Outline.nested, Outline.containersAt]
  | succ n ih =>
    simp [Outline.nested, Outline.containersAt, ih]
    omega

theorem meaningful_nested (start n : Nat) : (Outline.nested start n).Meaningful := by
  induction n generalizing start with
  | zero => exact .array (by simp)
  | succ n ih =>
    refine .array fun o ho => ?_
    rcases List.mem_pair.mp ho with rfl | rfl
    · exact ih (start + 1)
    · exact .scalar

namespace Document

theorem silent_iff {source : List Char} :
    (parse source).2 = [] ↔ (Builder.build source).2 = [] := List.map_eq_nil_iff

/-- For any text of JSON whose literals all stand for something: the containers that are enclosed in
128 others are reported, each with the whole of its span and in the order of the text, and nothing
else is; and the tree is that of the text without these containers. -/
theorem truncate_parse {source : List Char} {o : Outline} (h : IsText false source o)
    (meaningful : o.Meaningful) :
    (parse source).2 = (o.containersAt maxDepth).map
        (fun span => PlacedFault.diagnostic ⟨.nestingTooDeep, span⟩) ∧
      ∃ root, (parse source).1.root = some root ∧ some root.outline = o.truncate maxDepth := by
  obtain ⟨hfaults, root, hroot, houtline⟩ := Builder.build_of_isText h meaningful
  refine ⟨?_, root, hroot, houtline⟩
  change (Builder.build source).2.map PlacedFault.diagnostic = _
  rw [hfaults, List.map_map]
  rfl

/-- Of 129 arrays in one another, the innermost is left out, and the `null` behind it moves up. -/
theorem truncate_parse_nested :
    let source := nestedText 128
    let o := Outline.nested 0 128
    IsText false source o ∧ o.Meaningful ∧
      (parse source).2.map (·.message) = ["maximum nesting depth exceeded"] ∧
      (parse source).2.map (·.location) = [some ⟨128, 130⟩] ∧
      ∃ root, (parse source).1.root = some root ∧ some root.outline = o.truncate maxDepth := by
  intro source o
  have text : IsText false source o := exists_nested 0 128
  have meaningful : o.Meaningful := meaningful_nested 0 128
  obtain ⟨hdiagnostics, hroot⟩ := truncate_parse text meaningful
  have deep : o.containersAt maxDepth = [⟨128, 130⟩] := containersAt_nested 0 128
  rw [deep] at hdiagnostics
  rw [hdiagnostics]
  exact ⟨text, meaningful, rfl, rfl, hroot⟩

end Document

end TemplateLint
