import TemplateLint.Proofs.Grammar.Texts
import TemplateLint.Proofs.Tree.Shapes

/-!
# Derivations with gaps

Where values are taken out of a text, its tokens fall into pieces: tokens that
are left, and gaps where the tokens of a value were. Pieces derive an outline as
tokens do, but with a gap behind the colon of each member that is without its
value. Directly behind a gap stands the comma or the brace that ends the member.
-/

namespace TemplateLint

/-- A token that is left, or the place of a value that is not. -/
inductive Piece where
  | token (t : Lexeme Token)
  | gap (value : Item)

namespace Piece

/-- The tokens before any of them was taken out. -/
def tokens : Piece → List (Lexeme Token)
  | token t => [t]
  | gap value => value.tokens

def token? : Piece → Option (Lexeme Token)
  | token t => some t
  | gap _ => none

def hole? : Piece → Option Span
  | token _ => none
  | gap value => some value.outline.span

/-- The tokens that are left. -/
def kept (ps : List Piece) : List (Lexeme Token) := ps.filterMap token?

/-- The tokens directly behind gaps, where a gap may stand in front as well. -/
def followers : Bool → List Piece → List (Lexeme Token)
  | _, [] => []
  | _, gap _ :: rest => followers true rest
  | true, token t :: rest => t :: followers false rest
  | false, token _ :: rest => followers false rest

/-- What may stand directly behind a piece. -/
def Adjoins : Piece → Piece → Prop
  | token a, token b => a.kind = .number → b.kind.IsMark
  | token _, gap _ => True
  | gap _, token t => t.kind = .comma ∨ t.kind = .closeBrace
  | gap _, gap _ => False

/-- Pieces of which the last is a token. -/
def Ends (ps : List Piece) : Prop := ∃ before t, ps = before ++ [token t]

theorem kept_append (ps qs : List Piece) : kept (ps ++ qs) = kept ps ++ kept qs :=
  List.filterMap_append

theorem kept_token (t : Lexeme Token) (ps : List Piece) : kept (token t :: ps) = t :: kept ps := rfl

theorem kept_gap (value : Item) (ps : List Piece) : kept (gap value :: ps) = kept ps := rfl

theorem mem_kept {t : Lexeme Token} {ps : List Piece} : t ∈ kept ps ↔ token t ∈ ps := by
  rw [kept, List.mem_filterMap]
  constructor
  · rintro ⟨p, hp, htoken⟩
    cases p with
    | token u =>
      cases htoken
      exact hp
    | gap => cases htoken
  · exact fun h => ⟨token t, h, rfl⟩

theorem mem_flatMap_tokens {t : Lexeme Token} {ps : List Piece} (h : token t ∈ ps) :
    t ∈ ps.flatMap tokens := List.mem_flatMap.mpr ⟨token t, h, List.mem_singleton_self t⟩

/-- A token decides what stands directly behind it. -/
theorem followers_append (behind : Bool) (ps : List Piece) (t : Lexeme Token) (qs : List Piece) :
    followers behind (ps ++ token t :: qs) =
      followers behind (ps ++ [token t]) ++ followers false qs := by
  induction ps generalizing behind with
  | nil => cases behind <;> rfl
  | cons p ps ih => cases p <;> cases behind <;> simp [followers, ih]

/-- Behind a token at the end of pieces there is no gap. -/
theorem Ends.followers {ps : List Piece} (h : Ends ps) (behind : Bool) (t : Lexeme Token) :
    Piece.followers behind (ps ++ [token t]) = Piece.followers behind ps := by
  obtain ⟨before, u, rfl⟩ := h
  rw [List.append_assoc, List.singleton_append, followers_append]
  exact List.append_nil _

theorem followers_sublist (behind : Bool) (ps : List Piece) :
    List.Sublist (followers behind ps) (kept ps) := by
  induction ps generalizing behind with
  | nil => exact .slnil
  | cons p ps ih =>
    cases p with
    | gap => exact ih true
    | token t =>
      cases behind with
      | true => exact (ih false).cons_cons t
      | false => exact (ih false).cons t

theorem adjoins_ending {t : Lexeme Token} (h : t.kind = .comma ∨ t.kind = .closeBrace) (p : Piece) :
    Adjoins p (token t) := by
  cases p with
  | token a => rcases h with h | h <;> simp [Adjoins, h, Token.IsMark]
  | gap => exact h

theorem adjoins_of_ne {t : Lexeme Token} (h : t.kind ≠ .number) (p : Piece) :
    Adjoins (token t) p := by
  cases p with
  | token b => exact fun number => (h number).elim
  | gap => trivial

/-- What is left of adjoining pieces can be told apart: behind a number stands a mark. -/
theorem isChain_kept {ps : List Piece} (h : ps.IsChain Adjoins) :
    (kept ps).IsChain (fun a b => a.kind = .number → b.kind.IsMark) := by
  -- a gap is seen by what stands behind it: always a mark
  suffices marks : (kept ps).IsChain (fun a b => a.kind = .number → b.kind.IsMark) ∧
      (∀ value, ps.head? = some (gap value) → ∀ b ∈ (kept ps).head?, b.kind.IsMark) from marks.1
  induction ps with
  | nil => exact ⟨.nil, nofun⟩
  | cons p rest ih =>
    obtain ⟨hhead, hrest⟩ := List.isChain_cons.mp h
    obtain ⟨chain, behindGap⟩ := ih hrest
    cases p with
    | token a =>
      refine ⟨List.isChain_cons.mpr ⟨fun b hb number => ?_, chain⟩, nofun⟩
      cases rest with
      | nil => cases hb
      | cons q rest =>
        cases q with
        | token c =>
          cases hb
          exact hhead _ rfl number
        | gap value => exact behindGap value rfl b hb
    | gap value =>
      refine ⟨chain, fun _ _ b hb => ?_⟩
      cases rest with
      | nil => cases hb
      | cons q rest =>
        cases q with
        | token c =>
          cases hb
          rcases hhead _ rfl with h | h <;> rw [h] <;> trivial
        | gap => exact (hhead _ rfl).elim

/-- Each gap and the token that ends the member it belongs to. -/
theorem forall₂_followers {ps : List Piece} (h : ps.IsChain Adjoins) (ends : Ends ps) :
    List.Forall₂
      (fun hole t => (∃ value : Item, hole = value.outline.span ∧
        [gap value, token t] <:+: ps) ∧ (t.kind = .comma ∨ t.kind = .closeBrace))
      (ps.filterMap hole?) (followers false ps) := by
  induction ps with
  | nil => exact .nil
  | cons p rest ih =>
    obtain ⟨hhead, hrest⟩ := List.isChain_cons.mp h
    have later : Ends rest → List.Forall₂
        (fun hole t => (∃ value : Item, hole = value.outline.span ∧
          [gap value, token t] <:+: p :: rest) ∧ (t.kind = .comma ∨ t.kind = .closeBrace))
        (rest.filterMap hole?) (followers false rest) := by
      refine fun hends => (ih hrest hends).imp fun hole t h => ?_
      obtain ⟨⟨value, hhole, hinfix⟩, hkind⟩ := h
      exact ⟨⟨value, hhole, List.infix_cons hinfix⟩, hkind⟩
    have further : rest ≠ [] → Ends rest := by
      obtain ⟨before, u, hbefore⟩ := ends
      intro hne
      cases before with
      | nil => exact (hne (List.cons.inj hbefore).2).elim
      | cons _ before => exact ⟨before, u, (List.cons.inj hbefore).2⟩
    cases p with
    | token t =>
      cases rest with
      | nil => exact .nil
      | cons q rest => exact later (further (List.cons_ne_nil _ _))
    | gap value =>
      cases rest with
      | nil =>
        obtain ⟨before, u, hbefore⟩ := ends
        cases before <;> simp at hbefore
      | cons q rest =>
        cases q with
        | gap => exact (hhead _ rfl).elim
        | token t =>
          refine .cons ⟨⟨value, rfl, ?_⟩, hhead _ rfl⟩ (later (further (List.cons_ne_nil _ _)))
          exact (List.prefix_append [gap value, token t] rest).isInfix

end Piece

open Piece (kept followers Adjoins Ends)

/-! ## Parts -/

/-- The pieces of some parts, with commas between them, and perhaps one behind the last of them. -/
inductive Parted {α : Type} (pieces : α → List Piece) : List α → List Piece → Prop where
  | empty : Parted pieces [] []
  | last (x : α) : Parted pieces [x] (pieces x)
  | cons (x : α) {xs : List α} {body : List Piece} {comma : Lexeme Token} :
      comma.kind = .comma → Parted pieces xs body →
      Parted pieces (x :: xs) (pieces x ++ .token comma :: body)

theorem Led.eq_nil {body : List (Lexeme Token)} (h : Led [] body) : body = [] := by
  generalize hall : ([] : List (List (Lexeme Token))) = all at h
  cases h with
  | nil => rfl
  | snoc => simp at hall

/-- The first part stands in front of the others. -/
theorem Led.uncons {part body : List (Lexeme Token)} {parts : List (List (Lexeme Token))}
    (h : Led (part :: parts) body) :
    ∃ comma rest, body = part ++ comma :: rest ∧ comma.kind = .comma ∧ Led parts rest := by
  generalize hall : part :: parts = all at h
  induction h generalizing parts with
  | nil => cases hall
  | @snoc before body last comma led hcomma ih =>
    cases before with
    | nil =>
      obtain ⟨rfl, rfl⟩ := List.cons.inj hall
      cases led.eq_nil
      exact ⟨comma, [], rfl, hcomma, .nil⟩
    | cons first before =>
      obtain ⟨rfl, rfl⟩ := List.cons.inj hall
      obtain ⟨next, rest, rfl, hnext, hrest⟩ := ih rfl
      exact ⟨next, rest ++ (last ++ [comma]), by simp, hnext, hrest.snoc hcomma⟩

theorem Listed.eq_nil {trailing : Bool} {body : List (Lexeme Token)} (h : Listed trailing [] body) :
    body = [] := by
  generalize hall : ([] : List (List (Lexeme Token))) = all at h
  cases h with
  | empty => rfl
  | last => simp at hall
  | trailing _ hne => exact (hne hall.symm).elim

theorem Listed.uncons {trailing : Bool} {part body : List (Lexeme Token)}
    {parts : List (List (Lexeme Token))} (h : Listed trailing (part :: parts) body) :
    (parts = [] ∧ body = part) ∨
      ∃ comma rest, body = part ++ comma :: rest ∧ comma.kind = .comma ∧
        Listed trailing parts rest := by
  generalize hall : part :: parts = all at h
  cases h with
  | empty => cases hall
  | @last before body last led =>
    cases before with
    | nil =>
      obtain ⟨rfl, rfl⟩ := List.cons.inj hall
      cases led.eq_nil
      exact .inl ⟨rfl, rfl⟩
    | cons first before =>
      obtain ⟨rfl, rfl⟩ := List.cons.inj hall
      obtain ⟨comma, rest, rfl, hcomma, hrest⟩ := led.uncons
      exact .inr ⟨comma, rest ++ last, by simp, hcomma, .last last hrest⟩
  | trailing strict _ led =>
    obtain ⟨comma, rest, rfl, hcomma, hrest⟩ := (hall ▸ led).uncons
    exact .inr ⟨comma, rest, rfl, hcomma, strict ▸ hrest.listed⟩

section Parts

variable {α : Type} {tokens : α → List (Lexeme Token)} {pieces : α → List Piece} {xs : List α}

/-- Parts may be taken to pieces one by one. -/
theorem Listed.exists_parted {trailing : Bool} {body : List (Lexeme Token)}
    (h : Listed trailing (xs.map tokens) body)
    (parts : ∀ x ∈ xs, (pieces x).flatMap Piece.tokens = tokens x) :
    ∃ ps, Parted pieces xs ps ∧ ps.flatMap Piece.tokens = body := by
  induction xs generalizing body with
  | nil =>
    cases h.eq_nil
    exact ⟨[], .empty, rfl⟩
  | cons x xs ih =>
    obtain ⟨first, others⟩ := List.forall_mem_cons.mp parts
    rcases h.uncons with ⟨hnil, rfl⟩ | ⟨comma, rest, rfl, hcomma, listed⟩
    · cases List.map_eq_nil_iff.mp hnil
      exact ⟨pieces x, .last x, first⟩
    · obtain ⟨ps, parted, hps⟩ := ih listed others
      refine ⟨_, .cons x hcomma parted, ?_⟩
      rw [List.flatMap_append, first, List.flatMap_cons, hps]
      rfl

namespace Parted

variable {body : List Piece}

theorem filterMap {β : Type} (h : Parted pieces xs body) {g : Piece → Option β}
    (hg : ∀ t, g (.token t) = none) :
    body.filterMap g = xs.flatMap fun x => (pieces x).filterMap g := by
  induction h with
  | empty => rfl
  | last x => simp
  | cons x _ _ ih => simp [hg, ih]

/-- Gaps stand in the parts only. -/
theorem exists_of_gap_mem (h : Parted pieces xs body) {value : Item}
    (hmem : Piece.gap value ∈ body) : ∃ x ∈ xs, Piece.gap value ∈ pieces x := by
  induction h with
  | empty => cases hmem
  | last x => exact ⟨x, List.mem_singleton_self x, hmem⟩
  | cons x _ _ ih =>
    rcases List.mem_append.mp hmem with hfirst | hrest
    · exact ⟨x, List.mem_cons_self, hfirst⟩
    · rcases List.mem_cons.mp hrest with hcomma | hrest
      · cases hcomma
      · obtain ⟨y, hy, hmem⟩ := ih hrest
        exact ⟨y, List.mem_cons_of_mem x hy, hmem⟩

theorem isChain (h : Parted pieces xs body) (parts : ∀ x ∈ xs, (pieces x).IsChain Adjoins) :
    body.IsChain Adjoins := by
  induction h with
  | empty => exact .nil
  | last x => exact parts x (List.mem_singleton_self x)
  | cons x hcomma _ ih =>
    obtain ⟨first, others⟩ := List.forall_mem_cons.mp parts
    refine List.isChain_append.mpr ⟨first, List.isChain_cons.mpr ⟨?_, ih others⟩, ?_⟩
    · exact fun q _ => Piece.adjoins_of_ne (by simp [hcomma]) q
    · intro p _ q hq
      cases hq
      exact Piece.adjoins_ending (.inl hcomma) p

theorem ends (h : Parted pieces xs body) (parts : ∀ x ∈ xs, Ends (pieces x)) :
    body = [] ∨ Ends body := by
  induction h with
  | empty => exact .inl rfl
  | last x => exact .inr (parts x (List.mem_singleton_self x))
  | @cons x _ _ comma _ _ ih =>
    right
    rcases ih (List.forall_mem_cons.mp parts).2 with rfl | ⟨before, t, rfl⟩
    · exact ⟨pieces x, comma, rfl⟩
    · exact ⟨pieces x ++ .token comma :: before, t, by simp⟩

end Parted

end Parts

/-! ## Derivations -/

/-- A key and its colon in front of the pieces of the value. -/
def Field.pieces (f : Field) (value : List Piece) : List Piece :=
  .token f.key :: .token f.colon :: value

/-- Pieces derive an outline in which members are without their values. -/
inductive Gapped (trailing : Bool) (missing : Span → Bool) : List Piece → Outline → Prop where
  | scalar {t : Lexeme Token} {content : Option Scalar} : t.Denotes content →
      Gapped trailing missing [.token t] (.scalar t.span content)
  | array {opening closing : Lexeme Token} {items : List Item} {pieces : Item → List Piece}
      {body : List Piece} : opening.kind = .openBracket → closing.kind = .closeBracket →
      Parted pieces items body →
      (∀ i ∈ items, Gapped trailing missing (pieces i) i.outline) →
      Gapped trailing missing (.token opening :: (body ++ [.token closing]))
        (.array ⟨opening.span.start, closing.span.stop⟩ (items.map Item.outline))
  | object {opening closing : Lexeme Token} {fields : List Field} {pieces : Field → List Piece}
      {body : List Piece} : opening.kind = .openBrace → closing.kind = .closeBrace →
      Parted (fun f => f.pieces (pieces f)) fields body → (∀ f ∈ fields, f.Leads) →
      (∀ f ∈ fields, missing f.key.span = true →
        pieces f = [.gap f.value] ∧ Derives trailing f.value.tokens f.value.outline) →
      (∀ f ∈ fields, missing f.key.span = false →
        Gapped trailing missing (pieces f) f.value.outline) →
      Gapped trailing missing (.token opening :: (body ++ [.token closing]))
        (.object ⟨opening.span.start, closing.span.stop⟩ (fields.map Field.outline))

/-- The pieces in their brackets have the tokens in their brackets. -/
theorem flatMap_tokens_bracketed (opening closing : Lexeme Token) (body : List Piece) :
    (Piece.token opening :: (body ++ [.token closing])).flatMap Piece.tokens =
      opening :: (body.flatMap Piece.tokens ++ [closing]) := by
  rw [List.flatMap_cons, List.flatMap_append]
  rfl

/-- Whatever members are to be without their values, tokens that derive an outline can be taken to
pieces. -/
theorem Derives.exists_gapped {trailing : Bool} {ts : List (Lexeme Token)} {o : Outline}
    (h : Derives trailing ts o) (missing : Span → Bool) :
    ∃ ps, Gapped trailing missing ps o ∧ ps.flatMap Piece.tokens = ts := by
  induction h with
  | scalar denotes => exact ⟨_, .scalar denotes, rfl⟩
  | @array opening closing items body hopening hclosing listed _ ih =>
    choose! pieces hpieces using ih
    obtain ⟨ps, parted, hps⟩ := listed.exists_parted fun i hi => (hpieces i hi).2
    refine ⟨_, .array hopening hclosing parted fun i hi => (hpieces i hi).1, ?_⟩
    rw [flatMap_tokens_bracketed, hps]
  | @object opening closing fields body hopening hclosing listed leads derives ih =>
    have values : ∀ f ∈ fields, ∃ ps, ps.flatMap Piece.tokens = f.value.tokens ∧
        (missing f.key.span = true →
          ps = [.gap f.value] ∧ Derives trailing f.value.tokens f.value.outline) ∧
        (missing f.key.span = false → Gapped trailing missing ps f.value.outline) := by
      intro f hf
      cases hmissing : missing f.key.span with
      | true => exact ⟨[.gap f.value], by simp [Piece.tokens], fun _ => ⟨rfl, derives f hf⟩, nofun⟩
      | false =>
        obtain ⟨ps, gapped, hps⟩ := ih f hf
        exact ⟨ps, hps, nofun, fun _ => gapped⟩
    choose! pieces hpieces using values
    have members : ∀ f ∈ fields, (f.pieces (pieces f)).flatMap Piece.tokens = f.tokens := by
      intro f hf
      rw [Field.pieces, List.flatMap_cons, List.flatMap_cons, (hpieces f hf).1]
      rfl
    obtain ⟨ps, parted, hps⟩ := listed.exists_parted members
    refine ⟨_, .object hopening hclosing parted leads (fun f hf => (hpieces f hf).2.1)
      (fun f hf => (hpieces f hf).2.2), ?_⟩
    rw [flatMap_tokens_bracketed, hps]

namespace Gapped

variable {trailing : Bool} {missing : Span → Bool} {ps : List Piece} {o : Outline}

theorem ends (h : Gapped trailing missing ps o) : Ends ps := by
  cases h with
  | scalar => exact ⟨[], _, rfl⟩
  | array => exact ⟨.token _ :: _, _, rfl⟩
  | object => exact ⟨.token _ :: _, _, rfl⟩

/-- The gaps are the values that are missing. -/
theorem holes (h : Gapped trailing missing ps o) :
    ps.filterMap Piece.hole? = o.missingSpans missing := by
  induction h with
  | scalar => rfl
  | array _ _ parted _ ih =>
    rw [List.filterMap_cons_none rfl, List.filterMap_append, parted.filterMap fun _ => rfl,
      Outline.missingSpans, itemMissingSpans_eq, List.flatMap_map, List.flatMap_congr ih]
    exact List.append_nil _
  | @object _ _ fields pieces _ _ _ parted _ gaps _ ih =>
    have values : ∀ f ∈ fields, (f.pieces (pieces f)).filterMap Piece.hole? =
        f.outline.missingSpans missing := by
      intro f hf
      rw [Field.pieces, List.filterMap_cons_none rfl, List.filterMap_cons_none rfl]
      cases hmissing : missing f.key.span with
      | true =>
        rw [(gaps f hf hmissing).1]
        simp [Piece.hole?, MemberOf.missingSpans, Field.outline, hmissing]
      | false =>
        rw [ih f hf hmissing]
        simp [MemberOf.missingSpans, Field.outline, hmissing]
    rw [List.filterMap_cons_none rfl, List.filterMap_append, parted.filterMap fun _ => rfl,
      Outline.missingSpans, memberMissingSpans_eq, List.flatMap_map, List.flatMap_congr values]
    exact List.append_nil _

/-- In a gap there was a value. -/
theorem derives_of_gap_mem (h : Gapped trailing missing ps o) {value : Item}
    (hmem : Piece.gap value ∈ ps) : Derives trailing value.tokens value.outline := by
  have inside : ∀ {opening closing : Lexeme Token} {body : List Piece},
      Piece.gap value ∈ Piece.token opening :: (body ++ [Piece.token closing]) →
        Piece.gap value ∈ body := by
    intro opening closing body h
    simpa using h
  induction h with
  | scalar => simp at hmem
  | array _ _ parted _ ih =>
    obtain ⟨i, hi, hgap⟩ := parted.exists_of_gap_mem (inside hmem)
    exact ih i hi hgap
  | @object _ _ _ pieces _ _ _ parted _ gaps _ ih =>
    obtain ⟨f, hf, hfield⟩ := parted.exists_of_gap_mem (inside hmem)
    have hgap : Piece.gap value ∈ pieces f := by simpa [Field.pieces] using hfield
    cases hmissing : missing f.key.span with
    | true =>
      obtain ⟨hpieces, derives⟩ := gaps f hf hmissing
      rw [hpieces] at hgap
      cases List.mem_singleton.mp hgap
      exact derives
    | false => exact ih f hf hmissing hgap

theorem isChain (h : Gapped trailing missing ps o) : ps.IsChain Adjoins := by
  induction h with
  | scalar => exact List.isChain_singleton _
  | array hopening hclosing parted gapped ih =>
    refine List.isChain_cons.mpr ⟨fun q _ => Piece.adjoins_of_ne (by simp [hopening]) q, ?_⟩
    refine List.isChain_append.mpr ⟨parted.isChain ih, List.isChain_singleton _, ?_⟩
    intro p hp q hq
    cases hq
    rcases parted.ends fun i hi => (gapped i hi).ends with rfl | ⟨before, t, rfl⟩
    · cases hp
    · rw [List.getLast?_concat] at hp
      cases hp
      simp [Adjoins, hclosing, Token.IsMark]
  | @object _ _ fields pieces _ hopening hclosing parted leads gaps _ ih =>
    have values : ∀ f ∈ fields, (f.pieces (pieces f)).IsChain Adjoins := by
      intro f hf
      have value : (pieces f).IsChain Adjoins := by
        cases hmissing : missing f.key.span with
        | true =>
          rw [(gaps f hf hmissing).1]
          exact List.isChain_singleton _
        | false => exact ih f hf hmissing
      have colon := Piece.adjoins_of_ne (t := f.colon) (by simp [(leads f hf).colon])
      have key := Piece.adjoins_of_ne (t := f.key) (by simp [(leads f hf).key.1])
      exact List.isChain_cons_cons.mpr ⟨key _, List.isChain_cons.mpr ⟨fun q _ => colon q, value⟩⟩
    refine List.isChain_cons.mpr ⟨fun q _ => Piece.adjoins_of_ne (by simp [hopening]) q, ?_⟩
    refine List.isChain_append.mpr ⟨parted.isChain values, List.isChain_singleton _, ?_⟩
    intro p _ q hq
    cases hq
    exact Piece.adjoins_ending (.inr hclosing) p

end Gapped

end TemplateLint
