import TemplateLint.Proofs.Builder.Gaps
import TemplateLint.Proofs.Builder.Moving
import TemplateLint.Proofs.Grammar.Cutting
import TemplateLint.Proofs.Silence

/-!
# Missing values

Out of a text of JSON the values of some members are cut. Each of these members
is reported once, where the comma or the brace behind it stands, and keeps its
key in the tree; all else is read as it was.
-/

namespace TemplateLint

open Lexeme (without placeLeft Kept Cut leftToken)
open Piece (kept followers)

/-! ## Tokens and gaps in their places -/

/-- Tokens one behind the other. -/
structure InOrder (ts : List (Lexeme Token)) : Prop where
  pairwise : ts.Pairwise fun a b => a.span.stop ≤ b.span.start
  nonempty : ∀ t ∈ ts, t.span.start < t.span.stop

theorem inOrder_tokens (source : List Char) : InOrder (Lexeme.tokens source) :=
  ⟨Lexeme.pairwise_tokens source, fun _ ht => (Lexeme.placed_of_mem_tokens ht).nonempty⟩

theorem InOrder.of_append {ts us : List (Lexeme Token)} (h : InOrder (ts ++ us)) :
    InOrder ts ∧ InOrder us ∧ ∀ t ∈ ts, ∀ u ∈ us, t.span.stop ≤ u.span.start := by
  obtain ⟨hts, hus, between⟩ := List.pairwise_append.mp h.pairwise
  obtain ⟨ts_nonempty, us_nonempty⟩ := List.forall_mem_append.mp h.nonempty
  exact ⟨⟨hts, ts_nonempty⟩, ⟨hus, us_nonempty⟩, between⟩

/-- An outline extends from the first of its tokens to the last. -/
theorem Derives.extent {trailing : Bool} {ts : List (Lexeme Token)} {o : Outline}
    (h : Derives trailing ts o) :
    ∃ first last, ts.head? = some first ∧ ts.getLast? = some last ∧
      o.span = ⟨first.span.start, last.span.stop⟩ := by
  cases h with
  | scalar => exact ⟨_, _, rfl, rfl, rfl⟩
  | @array opening closing | @object opening closing =>
    refine ⟨opening, closing, rfl, ?_, rfl⟩
    rw [← List.cons_append, List.getLast?_concat]

theorem Derives.within {trailing : Bool} {ts : List (Lexeme Token)} {o : Outline}
    (h : Derives trailing ts o) (order : InOrder ts) :
    ∀ t ∈ ts, o.span.start ≤ t.span.start ∧ t.span.stop ≤ o.span.stop := by
  obtain ⟨first, last, hfirst, hlast, hspan⟩ := h.extent
  intro t ht
  rw [hspan]
  have hnonempty := order.nonempty t ht
  constructor
  · obtain ⟨rest, rfl⟩ := List.head?_eq_some_iff.mp hfirst
    rcases List.mem_cons.mp ht with rfl | hrest
    · exact Nat.le_refl _
    · have := (List.pairwise_cons.mp order.pairwise).1 t hrest
      have := order.nonempty first List.mem_cons_self
      simp only
      omega
  · obtain ⟨before, rfl⟩ := List.getLast?_eq_some_iff.mp hlast
    rcases List.mem_append.mp ht with hbefore | hend
    · have := (List.pairwise_append.mp order.pairwise).2.2 t hbefore last (List.mem_singleton_self _)
      have := order.nonempty last (by simp)
      simp only
      omega
    · cases List.mem_singleton.mp hend
      exact Nat.le_refl _

/-- Pieces of which the tokens stand one behind the other, with values in their gaps. -/
structure Laid (trailing : Bool) (ps : List Piece) : Prop where
  order : InOrder (ps.flatMap Piece.tokens)
  values : ∀ value, Piece.gap value ∈ ps → Derives trailing value.tokens value.outline

namespace Laid

variable {trailing : Bool} {ps : List Piece}

/-- What stands in front of a gap and what stands behind it. -/
theorem around {before behind : List Piece} {value : Item}
    (h : Laid trailing (before ++ .gap value :: behind)) :
    (∀ t ∈ before.flatMap Piece.tokens, t.span.stop ≤ value.outline.span.start) ∧
      (∀ t ∈ value.tokens,
        value.outline.span.start ≤ t.span.start ∧ t.span.stop ≤ value.outline.span.stop) ∧
      ∀ t ∈ behind.flatMap Piece.tokens, value.outline.span.stop ≤ t.span.start := by
  have order := h.order
  rw [List.flatMap_append, List.flatMap_cons] at order
  obtain ⟨-, order, hbefore⟩ := order.of_append
  obtain ⟨inside, -, hbehind⟩ := order.of_append
  have derives := h.values value (by simp)
  obtain ⟨first, last, hfirst, hlast, hspan⟩ := derives.extent
  refine ⟨fun t ht => ?_, derives.within inside, fun t ht => ?_⟩
  · have := hbefore t ht first (List.mem_append_left _ (List.mem_of_head? hfirst))
    rwa [hspan]
  · have := hbehind last (List.mem_of_getLast? hlast) t ht
    rwa [hspan]

theorem kept_of_token (h : Laid trailing ps) {t : Lexeme Token} (ht : Piece.token t ∈ ps) :
    Kept (Span.covers (ps.filterMap Piece.hole?)) t.span.start t.span.stop := by
  intro x hlow hhigh
  refine Span.covers_eq_false.mpr fun hole hhole hstart => ?_
  obtain ⟨p, hp, hvalue⟩ := List.mem_filterMap.mp hhole
  cases p with
  | token => cases hvalue
  | gap value =>
    cases hvalue
    obtain ⟨before, behind, rfl⟩ := List.append_of_mem hp
    obtain ⟨hbefore, -, hbehind⟩ := h.around
    rcases List.mem_append.mp ht with ht | ht
    · have := hbefore t (Piece.mem_flatMap_tokens ht)
      omega
    · rcases List.mem_cons.mp ht with hgap | ht
      · cases hgap
      · have := hbehind t (Piece.mem_flatMap_tokens ht)
        omega

theorem cut_of_gap (h : Laid trailing ps) {value : Item} (hvalue : Piece.gap value ∈ ps)
    {t : Lexeme Token} (ht : t ∈ value.tokens) :
    Cut (Span.covers (ps.filterMap Piece.hole?)) t.span.start t.span.stop := by
  intro x hlow hhigh
  refine Span.covers_iff.mpr ⟨value.outline.span, List.mem_filterMap.mpr ⟨_, hvalue, rfl⟩, ?_⟩
  obtain ⟨before, behind, rfl⟩ := List.append_of_mem hvalue
  have := h.around.2.1 t ht
  omega

/-- Every token is left as a whole or cut out as a whole. -/
theorem whole (h : Laid trailing ps) : ∀ t ∈ ps.flatMap Piece.tokens,
    Kept (Span.covers (ps.filterMap Piece.hole?)) t.span.start t.span.stop ∨
      Cut (Span.covers (ps.filterMap Piece.hole?)) t.span.start t.span.stop := by
  intro t ht
  obtain ⟨p, hp, htokens⟩ := List.mem_flatMap.mp ht
  cases p with
  | token u =>
    cases List.mem_singleton.mp htokens
    exact .inl (h.kept_of_token hp)
  | gap value => exact .inr (h.cut_of_gap hp htokens)

/-- The tokens that are left are those of the pieces that are tokens. -/
theorem filterMap_leftToken (h : Laid trailing ps) :
    let cut := Span.covers (ps.filterMap Piece.hole?)
    (ps.flatMap Piece.tokens).filterMap (leftToken cut) =
      (kept ps).map (Lexeme.move (placeLeft cut)) := by
  intro cut
  have each : ∀ p ∈ ps, p.tokens.filterMap (leftToken cut) =
      (p.token?.map (Lexeme.move (placeLeft cut))).toList := by
    intro p hp
    have hnonempty : ∀ t ∈ p.tokens, t.span.start < t.span.stop :=
      fun t ht => h.order.nonempty t (List.mem_flatMap.mpr ⟨p, hp, ht⟩)
    cases p with
    | token t =>
      have hleft := h.kept_of_token hp _ (Nat.le_refl _) (hnonempty t (List.mem_singleton_self t))
      have left : leftToken cut t = some (t.move (placeLeft cut)) := if_neg (by simp [cut, hleft])
      rw [Piece.tokens, List.filterMap_cons_some left]
      rfl
    | gap value =>
      refine List.filterMap_eq_nil_iff.mpr fun t ht => if_pos ?_
      exact h.cut_of_gap hp ht _ (Nat.le_refl _) (hnonempty t ht)
  rw [List.filterMap_flatMap, List.flatMap_congr each, kept, List.map_filterMap,
    List.filterMap_eq_flatMap_toList]

/-- Among the tokens that are left, the one that stood directly behind a gap is the first behind
it. -/
theorem find?_follower (h : Laid trailing ps) {value : Item} {t : Lexeme Token}
    (behind : [.gap value, .token t] <:+: ps) :
    let cut := Span.covers (ps.filterMap Piece.hole?)
    ((kept ps).map (Lexeme.move (placeLeft cut))).find?
        (fun u => decide (placeLeft cut value.outline.span.start ≤ u.span.start)) =
      some (t.move (placeLeft cut)) := by
  intro cut
  obtain ⟨before, rest, hps⟩ := behind
  have hsplit : ps = before ++ .gap value :: .token t :: rest := by simpa using hps.symm
  have laid := h
  rw [hsplit] at laid
  obtain ⟨hbefore, hinside, hbehind⟩ := laid.around
  have hforward : value.outline.span.start ≤ value.outline.span.stop := by
    obtain ⟨first, -, hfirst, -⟩ := (laid.values value (by simp)).extent
    have hmem := List.mem_of_head? hfirst
    have := hinside first hmem
    have := laid.order.nonempty first (by simp [Piece.tokens, hmem])
    omega
  have front : ((kept before).map (Lexeme.move (placeLeft cut))).find?
      (fun u => decide (placeLeft cut value.outline.span.start ≤ u.span.start)) = none := by
    refine List.find?_eq_none.mpr (List.forall_mem_map.mpr fun u hu => ?_)
    have hmem := Piece.mem_kept.mp hu
    have hps : Piece.token u ∈ ps := by simp [hsplit, hmem]
    have hnonempty := h.order.nonempty u (Piece.mem_flatMap_tokens hps)
    have hleft := h.kept_of_token hps _ (Nat.le_refl _) hnonempty
    have hstop := hbefore u (Piece.mem_flatMap_tokens hmem)
    have := Lexeme.placeLeft_lt hleft (show u.span.start < value.outline.span.start by omega)
    exact fun hle => Nat.not_le.mpr this (of_decide_eq_true hle)
  have first : placeLeft cut value.outline.span.start ≤ placeLeft cut t.span.start := by
    have := hbehind t (Piece.mem_flatMap_tokens List.mem_cons_self)
    exact Lexeme.placeLeft_mono (Nat.le_trans hforward this)
  rw [hsplit, Piece.kept_append, Piece.kept_gap, Piece.kept_token, List.map_append,
    List.find?_append, front, List.map_cons, List.find?_cons_of_pos, Option.none_or]
  exact decide_eq_true first

end Laid

/-! ## What is left -/

namespace Gapped

variable {trailing : Bool} {missing : Span → Bool} {ps : List Piece} {o : Outline}
  {source : List Char}

/-- The tokens of what is left are those that stood in no gap. -/
theorem tokens_without (h : Gapped trailing missing ps o) (laid : Laid trailing ps)
    (spelled : Spelled 0 source (ps.flatMap Piece.tokens)) :
    let cut := Span.covers (o.missingSpans missing)
    Lexeme.tokens (without cut 0 source) = (kept ps).map (Lexeme.move (placeLeft cut)) ∧
      ∀ l ∈ Lexeme.ofText (without cut 0 source), l.kind.isSome = true := by
  intro cut
  have hleft := spelled.without laid.whole
  rw [laid.filterMap_leftToken, h.holes, Lexeme.placeLeft_zero] at hleft
  refine hleft.lexemes ((List.isChain_map _).mpr ?_)
  exact Piece.isChain_kept h.isChain

/-- Each hole and the token behind it, in what is left. -/
theorem forall₂_followers (h : Gapped trailing missing ps o) (laid : Laid trailing ps) :
    let cut := Span.covers (o.missingSpans missing)
    let ts := (kept ps).map (Lexeme.move (placeLeft cut))
    List.Forall₂ (fun hole t =>
      ts.find? (fun u => decide (placeLeft cut hole.start ≤ u.span.start)) = some t ∧
        (t.kind = .comma ∨ t.kind = .closeBrace))
      (o.missingSpans missing) ((followers false ps).map (Lexeme.move (placeLeft cut))) := by
  intro cut ts
  rw [← h.holes, List.forall₂_map_right_iff]
  refine (Piece.forall₂_followers h.isChain h.ends).imp fun hole t followed => ?_
  obtain ⟨⟨value, rfl, behind⟩, hkind⟩ := followed
  have first := laid.find?_follower behind
  rw [h.holes] at first
  exact ⟨first, hkind⟩

end Gapped

namespace Builder

/-- A run over moved tokens, if the front of the text stays where it is. -/
theorem run_move {f : Nat → Nat} (h : f 0 = 0) (ts : List (Lexeme Token)) :
    run (ts.map (Lexeme.move f)) = (run ts).move f := by
  have start : State.initial.move f = .initial := by
    simp [State.initial, State.move, Focus.move, h]
  rw [run, run, foldl_step_move, start]

theorem missed_move (f : Nat → Nat) (t : Lexeme Token) :
    (missed t).move f = missed (t.move f) := rfl

/-- The builder of a text out of which the values of members are cut. -/
theorem build_without {trailing : Bool} {source : List Char} {o : Outline}
    (text : IsText trailing source o) (meaningful : o.Meaningful)
    (shallow : o.containersAt maxDepth = []) (missing : Span → Bool) :
    let holes := o.missingSpans missing
    let cut := Span.covers holes
    let left := without cut 0 source
    ∃ root marks, marks.Sublist (Lexeme.tokens left) ∧
      List.Forall₂ (fun hole t =>
        (Lexeme.tokens left).find? (fun u => decide (placeLeft cut hole.start ≤ u.span.start)) =
            some t ∧
          (t.kind = .comma ∨ t.kind = .closeBrace)) holes marks ∧
      build left = (some root, marks.map missed) ∧ root.shape = o.shape missing := by
  intro holes cut left
  obtain ⟨ts, spelled, derives⟩ := text
  obtain ⟨ps, gapped, rfl⟩ := derives.exists_gapped missing
  have htokens : Lexeme.tokens source = ps.flatMap Piece.tokens :=
    (spelled.lexemes derives.framed.chain_number).1
  have laid : Laid trailing ps :=
    ⟨htokens ▸ inOrder_tokens source, fun _ hvalue => gapped.derives_of_gap_mem hvalue⟩
  obtain ⟨hleft, known⟩ := gapped.tokens_without laid spelled
  -- the tokens that are left are read as they would be in their old places
  obtain ⟨v, hshape, hfocus, reports⟩ := builtAround_of_gapped gapped meaningful .initial .root
    maxDepth rfl (Nat.zero_add _) shallow
  have moved := run_move (f := placeLeft cut) Lexeme.placeLeft_zero (kept ps)
  have hdone : (run (kept ps)).focus = .done (some v) none := hfocus
  have hfaults : (run (kept ps)).faults = ((followers false ps).map missed).reverse :=
    reports.faults.trans (List.append_nil _)
  refine ⟨v.move (placeLeft cut), (followers false ps).map (Lexeme.move (placeLeft cut)), ?_, ?_,
    ?_, (v.shape_move _).trans hshape⟩
  · rw [hleft]
    exact (Piece.followers_sublist false ps).map _
  · rw [hleft]
    exact gapped.forall₂_followers laid
  · rw [build_of_known known, hleft, moved]
    simp [finish, State.move, Focus.move, hdone, hfaults, Function.comp_def, missed_move]

end Builder

namespace Document

/-- Out of a text of JSON whose literals all stand for something and whose containers are not nested
too deep, the values of any members are cut; the members are told by the spans of their keys, and
those inside a value that is cut do not count. Then just these values are reported as expected, one
by one and in the order of the text, each at the first token behind its place, which is a comma or a
closing brace. The tree is that of the whole text, with these members in their places and without
values. -/
theorem parse_without_values {trailing : Bool} {source : List Char} {o : Outline}
    (text : IsText trailing source o) (meaningful : o.Meaningful)
    (shallow : o.containersAt maxDepth = []) (missing : Span → Bool) :
    let holes := o.missingSpans missing
    let cut := Span.covers holes
    let left := without cut 0 source
    ∃ whole root marks, (parse source).1.root = some whole ∧ whole.outline = o ∧
      marks.Sublist (Lexeme.tokens left) ∧
      List.Forall₂ (fun hole t =>
        (Lexeme.tokens left).find? (fun u => decide (placeLeft cut hole.start ≤ u.span.start)) =
            some t ∧
          (t.kind = .comma ∨ t.kind = .closeBrace)) holes marks ∧
      (parse left).2 = marks.map (fun t =>
        PlacedFault.diagnostic ⟨.expectedValue (some t.kind), t.span⟩) ∧
      (parse left).1.root = some root ∧ root.shape = whole.outline.shape missing := by
  intro holes cut left
  obtain ⟨-, whole, hwhole, htruncate⟩ := Builder.build_of_isText text meaningful
  rw [Outline.truncate_eq_self shallow] at htruncate
  cases Option.some.inj htruncate
  obtain ⟨root, marks, sublist, followed, hbuild, hshape⟩ :=
    Builder.build_without text meaningful shallow missing
  refine ⟨whole, root, marks, by rw [root_parse, hwhole], rfl, sublist, followed, ?_, ?_, hshape⟩
  · change (Builder.build left).2.map PlacedFault.diagnostic = _
    rw [hbuild, List.map_map]
    rfl
  · rw [root_parse, hbuild]

/-- Three values are cut out, one of them an object, so two members next to each other and all that
an object holds are without their values. -/
theorem parse_without_values_nested :
    let source := "\x7b\"a\": 1, \"b\": [\x7b\"c\": \x7b\"d\": 2\x7d, \"e\": null\x7d]\x7d".toList
    let missing := fun key : Span => decide (key.start ∈ [1, 16, 31])
    ∃ o, IsText true source o ∧ o.Meaningful ∧ o.containersAt maxDepth = [] ∧
      o.missingSpans missing = [⟨6, 7⟩, ⟨21, 29⟩, ⟨36, 40⟩] ∧
      let left := "\x7b\"a\": , \"b\": [\x7b\"c\": , \"e\": \x7d]\x7d".toList
      without (Span.covers (o.missingSpans missing)) 0 source = left ∧
        (parse left).2.length = (o.missingSpans missing).length ∧
        (parse left).2.map (·.location) = [some ⟨6, 7⟩, some ⟨20, 21⟩, some ⟨27, 28⟩] ∧
        ∃ root, (parse left).1.root = some root ∧ root.shape = o.shape missing := by
  intro source missing
  have silent : (Builder.build source).2 = [] := by decide +kernel
  have values : (Builder.build source).1.map (fun v =>
      (v.outline.containersAt maxDepth, v.outline.missingSpans missing)) =
      some ([], [⟨6, 7⟩, ⟨21, 29⟩, ⟨36, 40⟩]) := by decide +kernel
  rcases Builder.blank_or_isText silent with ⟨-, -, hnone⟩ | ⟨v, hv, spelled, derives⟩
  · rw [hnone] at values
    cases values
  · rw [hv, Option.map_some, Option.some.injEq, Prod.mk.injEq] at values
    obtain ⟨shallow, holes⟩ := values
    have text : IsText true source v.outline := ⟨_, spelled, derives⟩
    have meaningful := v.meaningful_outline
    obtain ⟨whole, root, marks, -, houtline, -, followed, reported, hroot, hshape⟩ :=
      parse_without_values text meaningful shallow missing
    rw [houtline] at hshape
    have hleft : without (Span.covers (v.outline.missingSpans missing)) 0 source =
        "\x7b\"a\": , \"b\": [\x7b\"c\": , \"e\": \x7d]\x7d".toList := by
      rw [holes]
      decide +kernel
    refine ⟨_, text, meaningful, shallow, holes, hleft, ?_, by decide +kernel, root, ?_, hshape⟩
    · rw [← hleft, reported, List.length_map, followed.length_eq]
    · rw [← hleft, hroot]

end Document

end TemplateLint
