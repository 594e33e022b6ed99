import TemplateLint.Proofs.Builder.Levels
import TemplateLint.Proofs.Builder.Numbering

/-!
# Where containers end

What does not fit within a container is passed over up to the next comma or
closing bracket of the container's kind, and brackets are not counted on the
way. So where all brackets of a text are matched, a container ends with the
bracket that matches its own, unless recovery passed over an opening bracket of
the same kind: then it may end at an earlier one, and it never ends at a later.
-/

namespace TemplateLint.Builder

open Brackets (unclosed? unclosed?_append unclosed?_snoc unclosed?_opened Matches)

/-- Among tokens that stand behind others, recovery passes over an opening bracket of a kind. -/
def PassesOver (before ts : List (Lexeme Token)) (b : BracketKind) : Prop :=
  ∃ first t rest, ts = first ++ t :: rest ∧ t.kind.opening? = some b ∧
    (run (before ++ first ++ [t])).focus.recovers = true

namespace PassesOver

variable {before ts : List (Lexeme Token)} {b : BracketKind}

theorem append_right (h : PassesOver before ts b) (more : List (Lexeme Token)) :
    PassesOver before (ts ++ more) b := by
  obtain ⟨first, t, rest, rfl, ht, hrecovers⟩ := h
  exact ⟨first, t, rest ++ more, by simp, ht, hrecovers⟩

theorem append_left {front : List (Lexeme Token)} (h : PassesOver (before ++ front) ts b) :
    PassesOver before (front ++ ts) b := by
  obtain ⟨first, t, rest, rfl, ht, hrecovers⟩ := h
  refine ⟨front ++ first, t, rest, by simp, ht, ?_⟩
  simpa using hrecovers

end PassesOver

/-! ## Containers open behind tokens -/

/-- Where the brackets of open containers stand, the innermost first, with the brackets skipped
within the innermost. Whatever else is left open within a container has been passed over, or is of
a kind that has. -/
inductive OpenBehind :
    List (BracketKind × Span) → List BracketKind → List (Lexeme Token) → Prop where
  | outside {skipped stale : List BracketKind} {ts : List (Lexeme Token)}
      (unclosed : unclosed? [] ts = some (skipped ++ stale)) : OpenBehind [] skipped ts
  | inside {outer : List (BracketKind × Span)} {skipped stale : List BracketKind} {b : BracketKind}
      {before ts : List (Lexeme Token)} {opening : Lexeme Token}
      (around : OpenBehind outer [] before) (bracket : opening.kind.opening? = some b)
      (unclosed : unclosed? [] ts = some (skipped ++ stale))
      (passed : ∀ c ∈ stale, PassesOver (before ++ [opening]) ts c) :
      OpenBehind ((b, opening.span) :: outer) skipped (before ++ opening :: ts)

/-- A container that has ended: at a closing bracket of its kind, with no closing bracket before it
that matches its own. If brackets within are left open then recovery passed over one of the kind. -/
def Ended (ts : List (Lexeme Token)) (b : BracketKind) (span : Span) : Prop :=
  ∃ before opening inside closing after left,
    ts = before ++ opening :: (inside ++ closing :: after) ∧
    opening.kind.opening? = some b ∧ closing.kind.closing? = some b ∧
    span = ⟨opening.span.start, closing.span.stop⟩ ∧ unclosed? [] inside = some left ∧
    (left = [] ∨ PassesOver (before ++ [opening]) inside b)

theorem Ended.append {ts : List (Lexeme Token)} {b : BracketKind} {span : Span}
    (h : Ended ts b span) (more : List (Lexeme Token)) : Ended (ts ++ more) b span := by
  obtain ⟨before, opening, inside, closing, after, left, rfl, h⟩ := h
  exact ⟨before, opening, inside, closing, after ++ more, left, by simp, h⟩

namespace OpenBehind

variable {opened : List (BracketKind × Span)} {skipped : List BracketKind}
  {ts : List (Lexeme Token)} {t : Lexeme Token} {b : BracketKind}

/-- The brackets open behind the tokens begin with those that are skipped. -/
theorem unclosed (h : OpenBehind opened skipped ts) :
    ∃ rest, unclosed? [] ts = some (skipped ++ rest) ∧ (rest = [] → opened = []) := by
  induction h with
  | outside unclosed => exact ⟨_, unclosed, fun _ => rfl⟩
  | @inside outer skipped stale b before ts opening around bracket unclosed passed ih =>
    obtain ⟨rest, hrest, -⟩ := ih
    refine ⟨stale ++ b :: rest, ?_, by simp⟩
    rw [unclosed?_opened bracket hrest unclosed]
    simp

/-- More tokens within the innermost container, which close nothing that was open before them and
leave open only what recovery passes over. -/
theorem extend (h : OpenBehind opened [] ts) {more : List (Lexeme Token)} {left : List BracketKind}
    (hleft : unclosed? [] more = some left) (passed : ∀ c ∈ left, PassesOver ts more c) :
    OpenBehind opened [] (ts ++ more) := by
  have longer {inner : List (Lexeme Token)} {stale : List BracketKind}
      (unclosed : unclosed? [] inner = some stale) :
      unclosed? [] (inner ++ more) = some ([] ++ (left ++ stale)) := by
    rw [unclosed?_append, unclosed]
    exact Brackets.unclosed?_outer hleft stale
  cases h with
  | outside unclosed => exact .outside (longer unclosed)
  | inside around bracket unclosed passedInside =>
    rw [List.append_assoc, List.cons_append]
    refine .inside around bracket (longer unclosed) fun c hc => ?_
    rcases List.mem_append.mp hc with hc | hc
    · refine PassesOver.append_left ?_
      rw [List.append_assoc]
      exact passed c hc
    · exact (passedInside c hc).append_right more

/-- A token within a container that is skipped. -/
theorem skip (h : OpenBehind opened skipped ts) {inner : List BracketKind}
    (hinner : t.kind.nest? skipped = some inner) : OpenBehind opened inner (ts ++ [t]) := by
  have longer {ts : List (Lexeme Token)} {stale : List BracketKind}
      (unclosed : unclosed? [] ts = some (skipped ++ stale)) :
      unclosed? [] (ts ++ [t]) = some (inner ++ stale) := by
    rw [unclosed?_snoc, unclosed]
    exact Token.nest?_append hinner stale
  cases h with
  | outside unclosed => exact .outside (longer unclosed)
  | inside around bracket unclosed passed =>
    rw [List.append_assoc, List.cons_append]
    exact .inside around bracket (longer unclosed) fun c hc => (passed c hc).append_right [t]

/-- A closing bracket of another kind than the innermost container's: it matches a bracket that was
passed over, or is of a kind that has been. -/
theorem pass_closing (h : OpenBehind opened [] ts) (hb : t.kind.closing? = some b)
    (other : ∀ c span outer, opened = (c, span) :: outer → t.kind.closing? ≠ some c)
    {left : List BracketKind} (nested : unclosed? [] (ts ++ [t]) = some left) :
    OpenBehind opened [] (ts ++ [t]) := by
  cases h with
  | outside unclosed => exact .outside nested
  | @inside outer _ stale c before inside opening around bracket unclosed passed =>
    obtain ⟨rest, hrest, -⟩ := around.unclosed
    rw [unclosed?_snoc, unclosed?_opened bracket hrest unclosed] at nested
    have closes := (Token.nest?_of_closing hb).mp nested
    cases stale with
    | nil =>
      cases closes
      exact absurd hb (other _ _ _ rfl)
    | cons d stale =>
      cases closes
      rw [List.append_assoc, List.cons_append]
      have shorter : unclosed? [] (inside ++ [t]) = some ([] ++ stale) := by
        rw [unclosed?_snoc, unclosed]
        exact (Token.nest?_of_closing hb).mpr rfl
      exact .inside around bracket shorter fun c hc =>
        (passed c (List.mem_cons_of_mem _ hc)).append_right [t]

/-- The end of the innermost container. Where its own bracket stays open, it is of a kind that has
been passed over. -/
theorem close {outer : List (BracketKind × Span)} {span : Span}
    (h : OpenBehind ((b, span) :: outer) [] ts) (hb : t.kind.closing? = some b)
    {left : List BracketKind} (nested : unclosed? [] (ts ++ [t]) = some left) :
    OpenBehind outer [] (ts ++ [t]) ∧ Ended (ts ++ [t]) b ⟨span.start, t.span.stop⟩ := by
  cases h with
  | @inside _ _ stale _ before inside opening around bracket unclosed passed =>
    obtain ⟨rest, hrest, -⟩ := around.unclosed
    rw [unclosed?_snoc, unclosed?_opened bracket hrest unclosed] at nested
    have closes := (Token.nest?_of_closing hb).mp nested
    have whole : before ++ opening :: inside ++ [t] = before ++ (opening :: inside ++ [t]) :=
      List.append_assoc _ _ _
    have leaves {rest : List BracketKind} (h : stale ++ [b] = b :: rest) :
        unclosed? [] (opening :: inside ++ [t]) = some rest := by
      have inner : unclosed? [] ([] ++ opening :: inside) = some (stale ++ [b]) :=
        unclosed?_opened bracket rfl unclosed
      rw [unclosed?_snoc, ← List.nil_append (opening :: inside), inner]
      exact (Token.nest?_of_closing hb).mpr h
    have passedOver : ∀ c ∈ stale, PassesOver before (opening :: inside ++ [t]) c :=
      fun c hc => (PassesOver.append_left (passed c hc)).append_right [t]
    have ended (h : stale = [] ∨ PassesOver (before ++ [opening]) inside b) :
        Ended (before ++ opening :: inside ++ [t]) b ⟨opening.span.start, t.span.stop⟩ :=
      ⟨before, opening, inside, t, [], stale, whole, bracket, hb, rfl, unclosed, h⟩
    refine ⟨?_, ?_⟩
    · rw [whole]
      cases stale with
      | nil => exact around.extend (leaves rfl) (fun c hc => nomatch hc)
      | cons d stale =>
        cases closes
        refine around.extend (leaves rfl) fun c hc => passedOver c ?_
        rcases List.mem_append.mp hc with hc | hc
        · exact List.mem_cons_of_mem _ hc
        · exact List.mem_singleton.mp hc ▸ List.mem_cons_self
    · cases stale with
      | nil => exact ended (.inl rfl)
      | cons d stale =>
        cases closes
        exact ended (.inr (passed b List.mem_cons_self))

end OpenBehind

/-! ## Runs -/

/-- Of the brackets that are skipped, a token that can stand there closes the innermost. -/
theorem Skips.nest? {t : Lexeme Token} {skipped rest left : List BracketKind} {n : Nat}
    (h : Skips t skipped.length n) (nested : t.kind.nest? (skipped ++ rest) = some left) :
    ∃ inner, inner.length = n ∧ t.kind.nest? skipped = some inner := by
  generalize hm : skipped.length = m at h
  cases h with
  | opening ho => exact ⟨_ :: skipped, by rw [List.length_cons, hm], Token.nest?_of_opening ho _⟩
  | closing hc =>
    cases skipped with
    | nil => cases hm
    | cons c inner =>
      have closes := (Token.nest?_of_closing hc).mp nested
      cases closes
      exact ⟨inner, Nat.succ.inj hm, (Token.nest?_of_closing hc).mpr rfl⟩
  | other ho hc => exact ⟨skipped, hm, Token.nest?_of_neither ho hc _⟩

/-- What is known behind tokens that close nothing but what they open: where the open containers
stand, and how those that have ended did. -/
structure Standing (ts : List (Lexeme Token)) (s : State) : Prop where
  opened : ∃ skipped, skipped.length = s.focus.skipped ∧ OpenBehind s.opened skipped ts
  ended : ∀ c ∈ s.ended, Ended ts c.1 c.2

theorem Standing.step {ts : List (Lexeme Token)} {t : Lexeme Token} {left : List BracketKind}
    (h : Standing ts (run ts)) (nested : unclosed? [] (ts ++ [t]) = some left) :
    Standing (ts ++ [t]) (run (ts ++ [t])) := by
  obtain ⟨⟨skipped, hlength, behind⟩, ended⟩ := h
  have effect := step_effect (t := t) (run_rooted ts)
  rw [← run_snoc, ← hlength] at effect
  have kept {s : State} (hs : s.ended ⊆ (run ts).ended) :
      ∀ c ∈ s.ended, Ended (ts ++ [t]) c.1 c.2 :=
    fun c hc => (ended c (hs hc)).append [t]
  cases effect with
  | opens bracket before after inner same =>
    obtain rfl := List.length_eq_zero_iff.mp before
    refine ⟨⟨[], after.symm, ?_⟩, kept same⟩
    rw [inner]
    exact .inside behind bracket rfl (fun c hc => nomatch hc)
  | closes bracket before after inner more =>
    obtain rfl := List.length_eq_zero_iff.mp before
    rw [inner] at behind
    obtain ⟨outside, closed⟩ := behind.close bracket nested
    refine ⟨⟨[], after.symm, outside⟩, fun c hc => ?_⟩
    rcases List.mem_cons.mp (more hc) with rfl | hc
    · exact closed
    · exact (ended c hc).append [t]
  | passes before after same ends opening closing =>
    obtain rfl := List.length_eq_zero_iff.mp before
    refine ⟨⟨[], after.symm, ?_⟩, kept ends⟩
    rw [same]
    cases hb : t.kind.closing? with
    | some b => exact behind.pass_closing hb closing nested
    | none =>
      cases ho : t.kind.opening? with
      | none => exact behind.skip (Token.nest?_of_neither ho hb [])
      | some b =>
        rcases opening b ho with outside | recovers
        · rw [outside]
          exact .outside nested
        · have leaves : unclosed? [] [t] = some [b] := by
            rw [Brackets.unclosed?, Token.nest?_of_opening ho]
            rfl
          refine behind.extend leaves fun c hc => ?_
          obtain rfl := List.mem_singleton.mp hc
          exact ⟨[], t, [], rfl, ho, by rwa [List.append_nil]⟩
  | skips same ends brackets =>
    obtain ⟨rest, unclosed, -⟩ := behind.unclosed
    rw [unclosed?_snoc, unclosed, Option.bind_some] at nested
    obtain ⟨inner, hinner, nests⟩ := brackets.nest? nested
    refine ⟨⟨inner, hinner, ?_⟩, kept ends⟩
    rw [same]
    exact behind.skip nests

theorem run_standing {ts : List (Lexeme Token)} {left : List BracketKind}
    (nested : unclosed? [] ts = some left) : Standing ts (run ts) := by
  induction ts using List.reverseRecOn generalizing left with
  | nil =>
    have nothing : unclosed? [] [] = some ([] ++ []) := rfl
    exact ⟨⟨[], rfl, .outside nothing⟩, fun c hc => nomatch hc⟩
  | append_singleton ts t ih =>
    have before := nested
    rw [unclosed?_snoc] at before
    obtain ⟨opened, hopened, -⟩ := Option.bind_eq_some_iff.mp before
    exact (ih hopened).step nested

/-- Behind tokens whose brackets are balanced nothing is open, so the root is complete. -/
theorem ended_of_balanced {ts : List (Lexeme Token)} (balanced : Brackets.Balanced ts) (eof : Span)
    {root : Value} (hroot : (finish eof (run ts)).1 = some root) :
    ∀ c ∈ (Node.value root).containers, Ended ts c.1 c.2 := by
  obtain ⟨⟨skipped, hlength, behind⟩, ended⟩ := run_standing balanced
  obtain ⟨rest, unclosed, outside⟩ := behind.unclosed
  rw [balanced, Option.some.injEq] at unclosed
  obtain ⟨rfl, rfl⟩ := List.nil_eq_append_iff.mp unclosed
  have idle : (run ts).focus.skipped = 0 := hlength.symm
  have closed : (run ts).focus.opened = [] := (List.append_eq_nil_iff.mp (outside rfl)).1
  have inside : (run ts).focus.ended ⊆ (run ts).ended := List.subset_append_left _ _
  unfold finish at hroot
  cases hf : (run ts).focus with
  | start =>
    rw [hf] at hroot
    cases hroot
  | done value trailing =>
    rw [hf] at hroot inside
    obtain rfl : value = some root := hroot
    exact fun c hc => ended c (inside hc)
  | skip start nesting place =>
    rw [hf] at idle
    cases idle
  | _ =>
    rw [hf] at closed
    cases closed

/-! ## Whole texts -/

/-- A span from a bracket to the end of the one that matches it. -/
def EndsAtMatch (ts : List (Lexeme Token)) (b : BracketKind) (span : Span) : Prop :=
  ∃ before opening inside closing after, ts = before ++ opening :: (inside ++ closing :: after) ∧
    Matches b opening inside closing ∧ span = ⟨opening.span.start, closing.span.stop⟩

/-- A span from a bracket to the end of another one of the kind, between it and the one that matches
it, in which recovery passes over an opening bracket of the kind. -/
def EndsEarly (ts : List (Lexeme Token)) (b : BracketKind) (span : Span) : Prop :=
  ∃ before opening inside closing after, ts = before ++ opening :: (inside ++ closing :: after) ∧
    Matches b opening inside closing ∧
    ∃ first early rest, inside = first ++ early :: rest ∧ early.kind.closing? = some b ∧
      span = ⟨opening.span.start, early.span.stop⟩ ∧ PassesOver (before ++ [opening]) first b

/-- A text has one token at most that begins at an offset. -/
theorem rest_eq_of_start {source : List Char} {before before' rest rest' : List (Lexeme Token)}
    {t u : Lexeme Token} (ht : Lexeme.tokens source = before ++ t :: rest)
    (hu : Lexeme.tokens source = before' ++ u :: rest') (same : t.span.start = u.span.start) :
    rest = rest' := by
  have apart {front middle back : List (Lexeme Token)} {a b : Lexeme Token}
      (h : Lexeme.tokens source = front ++ a :: (middle ++ b :: back)) :
      a.span.start ≠ b.span.start := by
    have sorted := Lexeme.pairwise_tokens source
    rw [h] at sorted
    have order := (List.pairwise_cons.mp (List.pairwise_append.mp sorted).2.1).1 b (by simp)
    have placed : a.Placed source := Lexeme.placed_of_mem_tokens (by rw [h]; simp)
    have nonempty := placed.nonempty
    omega
  rcases List.append_eq_append_iff.mp (ht.symm.trans hu) with ⟨more, -, h⟩ | ⟨more, -, h⟩
  · cases more with
    | nil => exact (List.cons.inj h).2
    | cons k more =>
      obtain ⟨rfl, rfl⟩ := List.cons.inj h
      exact absurd same (apart ht)
  · cases more with
    | nil => exact (List.cons.inj h).2.symm
    | cons k more =>
      obtain ⟨rfl, rfl⟩ := List.cons.inj h
      exact absurd same.symm (apart hu)

/-- Where a span begins with a bracket it is fixed by the bracket where it ends. -/
theorem EndsAtMatch.stop_eq {source : List Char} {b c : BracketKind} {p q : Span}
    (hp : EndsAtMatch (Lexeme.tokens source) b p) (hq : EndsAtMatch (Lexeme.tokens source) c q)
    (same : p.start = q.start) : p.stop = q.stop := by
  obtain ⟨before, opening, inside, closing, after, hts, hmatch, rfl⟩ := hp
  obtain ⟨before', opening', inside', closing', after', hts', hmatch', rfl⟩ := hq
  exact congrArg (·.span.stop) (hmatch.closing_eq hmatch' (rest_eq_of_start hts hts' same))

/-- In balanced tokens the bracket of a container is matched where the container ends, or later. -/
theorem Ended.of_balanced {ts : List (Lexeme Token)} {b : BracketKind} {span : Span}
    (h : Ended ts b span) (balanced : Brackets.Balanced ts) :
    EndsAtMatch ts b span ∨ EndsEarly ts b span := by
  obtain ⟨before, opening, inside, closing, after, left, rfl, hopening, hclosing, hspan, hinside,
    passed⟩ := h
  cases left with
  | nil => exact .inl ⟨before, opening, inside, closing, after, rfl, ⟨hopening, hclosing, hinside⟩,
      hspan⟩
  | cons c left =>
    have passes : PassesOver (before ++ [opening]) inside b :=
      passed.resolve_left (List.cons_ne_nil c left)
    obtain ⟨outer, hbefore, -⟩ : ∃ outer, unclosed? [] before = some outer ∧
        unclosed? outer (opening :: (inside ++ closing :: after)) = some [] := by
      rw [Brackets.Balanced, unclosed?_append] at balanced
      exact Option.bind_eq_some_iff.mp balanced
    have front := unclosed?_opened hopening hbefore hinside
    have behind : before ++ opening :: (inside ++ closing :: after) =
        (before ++ opening :: inside) ++ closing :: after := by simp
    rw [Brackets.Balanced, behind, unclosed?_append, front, Option.bind_some,
      Brackets.unclosed?] at balanced
    obtain ⟨rest, hrest, hafter⟩ := Option.bind_eq_some_iff.mp balanced
    have closes := (Token.nest?_of_closing hclosing).mp hrest
    cases closes
    obtain ⟨inner, last, beyond, rfl, hlast, hinner⟩ := Brackets.exists_closing hafter
    refine .inr ⟨before, opening, inside ++ closing :: inner, last, beyond, by simp,
      ⟨hopening, hlast, ?_⟩, inside, closing, inner, rfl, hclosing, hspan, passes⟩
    rw [Brackets.Balanced, unclosed?_append, hinside, Option.bind_some, Brackets.unclosed?,
      (Token.nest?_of_closing hclosing).mpr rfl, Option.bind_some, hinner]

end TemplateLint.Builder

namespace TemplateLint.Document

open Builder (EndsAtMatch EndsEarly)

/-- In a text with balanced brackets, whatever else is wrong with it, a container ends with the
bracket that matches its own, or at one of the kind before that because recovery passed over an
opening bracket of the kind. -/
theorem container_ends {source : List Char} (balanced : Brackets.Balanced (Lexeme.tokens source))
    {e : Entry} (he : e ∈ (parse source).1.entries) {b : BracketKind} {span : Span}
    (hcontainer : e.node.container? = some (b, span)) :
    EndsAtMatch (Lexeme.tokens source) b span ∨ EndsEarly (Lexeme.tokens source) b span := by
  obtain ⟨root, hroot, hentries⟩ := exists_root_of_mem he
  rw [hentries] at he
  have hnode : e.node ∈ (Node.value root).nodes := List.mem_map_of_mem he
  have hmem : (b, span) ∈ (Node.value root).containers :=
    List.mem_filterMap.mpr ⟨e.node, hnode, hcontainer⟩
  exact (Builder.ended_of_balanced balanced _ hroot _ hmem).of_balanced balanced

/-- An object ends as it should with one colon missing; where the value is an object itself, the
object around it ends with it. -/
theorem container_ends_missing_colons :
    let source := "[\x7b\"a\" 1\x7d, \x7b\"b\" \x7b\x7d\x7d]".toList
    let ends := [(BracketKind.square, Span.mk 0 19), (.brace, ⟨1, 8⟩), (.brace, ⟨10, 17⟩)]
    Brackets.Balanced (Lexeme.tokens source) ∧
      (parse source).1.entries.filterMap (fun e => e.node.container?) = ends ∧
      ∀ c ∈ ends, EndsAtMatch (Lexeme.tokens source) c.1 c.2 ∨
        EndsEarly (Lexeme.tokens source) c.1 c.2 := by
  intro source ends
  have balanced : Brackets.Balanced (Lexeme.tokens source) := by decide +kernel
  have containers : (parse source).1.entries.filterMap (fun e => e.node.container?) = ends := by
    decide +kernel
  refine ⟨balanced, containers, fun c hc => ?_⟩
  rw [← containers] at hc
  obtain ⟨e, he, hcontainer⟩ := List.mem_filterMap.mp hc
  exact container_ends balanced he hcontainer

/-- Balanced brackets alone do not do: behind a key without a colon, an object within is passed over
and the object around it ends with it. -/
theorem exists_container_ends_early :
    let source := "\x7b\"a\" \x7b\x7d\x7d".toList
    Brackets.Balanced (Lexeme.tokens source) ∧
      ∃ e ∈ (parse source).1.entries, e.node.container? = some (.brace, ⟨0, 7⟩) ∧
        ¬ EndsAtMatch (Lexeme.tokens source) .brace ⟨0, 7⟩ := by
  intro source
  have tokens : Lexeme.tokens source =
      [⟨.openBrace, ['\x7b'], ⟨0, 1⟩⟩, ⟨.string, ['"', 'a', '"'], ⟨1, 4⟩⟩,
        ⟨.openBrace, ['\x7b'], ⟨5, 6⟩⟩, ⟨.closeBrace, ['\x7d'], ⟨6, 7⟩⟩,
        ⟨.closeBrace, ['\x7d'], ⟨7, 8⟩⟩] := by decide +kernel
  have container : (parse source).1.entries.head?.bind (fun e => e.node.container?) =
      some (.brace, ⟨0, 7⟩) := by decide +kernel
  obtain ⟨e, hhead, hcontainer⟩ := Option.bind_eq_some_iff.mp container
  refine ⟨by decide +kernel, e, List.mem_of_head? hhead, hcontainer, ?_⟩
  intro atMatch
  have outer : EndsAtMatch (Lexeme.tokens source) .brace ⟨0, 8⟩ :=
    ⟨[], _, [_, _, _], _, [], tokens, ⟨rfl, rfl, rfl⟩, rfl⟩
  have ends := atMatch.stop_eq outer rfl
  cases ends

end TemplateLint.Document
