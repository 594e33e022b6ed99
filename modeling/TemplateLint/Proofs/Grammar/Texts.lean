import Mathlib.Data.List.Chain
import TemplateLint.Proofs.Grammar.Strings
import TemplateLint.Proofs.Tree.Outlines

/-!
# The grammar of texts

A text of JSON is spelled by tokens with blanks around them, and its tokens
derive an outline: a literal alone, or the parts of an array or object in its
brackets and with commas between them. Blanks may stand anywhere between tokens,
because of two neighbours at least one is not a literal. A wider grammar allows
a comma behind the last part as well.
-/

namespace TemplateLint

/-! ## Tokens -/

/-- How tokens are spelled that are always spelled alike. -/
def Token.fixed? : Token → Option (List Char)
  | .openBrace => some ['\x7b']
  | .closeBrace => some ['\x7d']
  | .openBracket => some ['[']
  | .closeBracket => some [']']
  | .colon => some [':']
  | .comma => some [',']
  | .trueWord => some ['t', 'r', 'u', 'e']
  | .falseWord => some ['f', 'a', 'l', 's', 'e']
  | .nullWord => some ['n', 'u', 'l', 'l']
  | _ => none

/-- Brackets, colons and commas. -/
def Token.IsMark : Token → Prop
  | .openBrace | .closeBrace | .openBracket | .closeBracket | .colon | .comma => True
  | _ => False

def Token.IsClosing : Token → Prop
  | .closeBrace | .closeBracket => True
  | _ => False

namespace Lexeme

/-- A string literal and the text it stands for, if it stands for one. -/
def Quotes (t : Lexeme Token) (text : Option String) : Prop :=
  t.kind = .string ∧ ∃ cs, Json.Quoted.Literal t.text cs ∧ text = cs.map String.ofList

/-- A literal and what it stands for, if it stands for anything. -/
inductive Denotes (t : Lexeme Token) : Option Scalar → Prop where
  | string {text : Option String} : t.Quotes text → Denotes t (text.map .string)
  | number {l : Decimal.Literal} : t.kind = .number → Decimal.Literal.Writes t.text l →
      Denotes t (if l.toDouble.isFinite then some (.number l.toDouble l.isInteger) else none)
  | trueWord : t.kind = .trueWord → Denotes t (some (.boolean true))
  | falseWord : t.kind = .falseWord → Denotes t (some (.boolean false))
  | nullWord : t.kind = .nullWord → Denotes t (some .null)

/-- A token that is written as the grammar has it. -/
inductive WellSpelled (t : Lexeme Token) : Prop where
  | fixed : t.kind.fixed? = some t.text → WellSpelled t
  | string {cs : Option (List Char)} : t.kind = .string → Json.Quoted.Literal t.text cs →
      WellSpelled t
  | number {l : Decimal.Literal} : t.kind = .number → Decimal.Literal.Writes t.text l →
      WellSpelled t

end Lexeme

/-- The tokens that spell a text from an offset on, with blanks around them. -/
inductive Spelled : Nat → List Char → List (Lexeme Token) → Prop where
  | nil {offset : Nat} : Spelled offset [] []
  | blank {offset : Nat} {c : Char} {cs : List Char} {ts : List (Lexeme Token)} :
      Lexeme.isBlank c = true → Spelled (offset + c.utf8Size) cs ts → Spelled offset (c :: cs) ts
  | token {offset : Nat} {t : Lexeme Token} {cs rest : List Char} {ts : List (Lexeme Token)} :
      cs = t.text ++ rest → t.WellSpelled → t.span = .ofLength offset (Lexeme.byteLength t.text) →
      Spelled (offset + Lexeme.byteLength t.text) rest ts → Spelled offset cs (t :: ts)

/-! ## Derivations -/

/-- Parts that all have a comma behind them. -/
inductive Led : List (List (Lexeme Token)) → List (Lexeme Token) → Prop where
  | nil : Led [] []
  | snoc {parts : List (List (Lexeme Token))} {body part : List (Lexeme Token)}
      {comma : Lexeme Token} : Led parts body → comma.kind = .comma →
      Led (parts ++ [part]) (body ++ (part ++ [comma]))

/-- Parts with commas between them, and perhaps one behind the last of them. -/
inductive Listed (trailing : Bool) :
    List (List (Lexeme Token)) → List (Lexeme Token) → Prop where
  | empty : Listed trailing [] []
  | last {parts : List (List (Lexeme Token))} {body : List (Lexeme Token)}
      (part : List (Lexeme Token)) : Led parts body →
      Listed trailing (parts ++ [part]) (body ++ part)
  | trailing {parts : List (List (Lexeme Token))} {body : List (Lexeme Token)} :
      trailing = true → parts ≠ [] → Led parts body → Listed trailing parts body

theorem Led.listed {parts : List (List (Lexeme Token))} {body : List (Lexeme Token)}
    (h : Led parts body) : Listed true parts body := by
  cases h with
  | nil => exact .empty
  | snoc led hcomma => exact .trailing rfl (by simp) (.snoc led hcomma)

/-- A part in front of others, with a comma between. -/
theorem Led.cons {parts : List (List (Lexeme Token))} {body : List (Lexeme Token)}
    (h : Led parts body) (part : List (Lexeme Token)) {comma : Lexeme Token}
    (hcomma : comma.kind = .comma) : Led (part :: parts) (part ++ comma :: body) := by
  induction h with
  | nil => exact .snoc .nil hcomma
  | snoc _ hlast ih => simpa using ih.snoc hlast

theorem Listed.cons {trailing : Bool} {parts : List (List (Lexeme Token))}
    {body : List (Lexeme Token)} (h : Listed trailing parts body) (hne : parts ≠ [])
    (part : List (Lexeme Token)) {comma : Lexeme Token} (hcomma : comma.kind = .comma) :
    Listed trailing (part :: parts) (part ++ comma :: body) := by
  cases h with
  | empty => exact (hne rfl).elim
  | last last led => simpa using Listed.last last (led.cons part hcomma)
  | trailing strict _ led => exact .trailing strict (List.cons_ne_nil _ _) (led.cons part hcomma)

/-- Tokens and what they are to derive. -/
structure Item where
  tokens : List (Lexeme Token)
  outline : Outline

structure Field where
  key : Lexeme Token
  name : Option String
  colon : Lexeme Token
  value : Item

namespace Field

def tokens (f : Field) : List (Lexeme Token) := f.key :: f.colon :: f.value.tokens

def outline (f : Field) : MemberOf Outline :=
  ⟨⟨f.key.span.start, f.value.outline.span.stop⟩, f.name, f.key.span, some f.value.outline⟩

/-- A key and a colon in front of the value. -/
structure Leads (f : Field) : Prop where
  key : f.key.Quotes f.name
  colon : f.colon.kind = .colon

end Field

/-- Tokens derive an outline. -/
inductive Derives (trailing : Bool) : List (Lexeme Token) → Outline → Prop where
  | scalar {t : Lexeme Token} {content : Option Scalar} : t.Denotes content →
      Derives trailing [t] (.scalar t.span content)
  | array {opening closing : Lexeme Token} {items : List Item} {body : List (Lexeme Token)} :
      opening.kind = .openBracket → closing.kind = .closeBracket →
      Listed trailing (items.map Item.tokens) body →
      (∀ i ∈ items, Derives trailing i.tokens i.outline) →
      Derives trailing (opening :: (body ++ [closing]))
        (.array ⟨opening.span.start, closing.span.stop⟩ (items.map Item.outline))
  | object {opening closing : Lexeme Token} {fields : List Field} {body : List (Lexeme Token)} :
      opening.kind = .openBrace → closing.kind = .closeBrace →
      Listed trailing (fields.map Field.tokens) body → (∀ f ∈ fields, f.Leads) →
      (∀ f ∈ fields, Derives trailing f.value.tokens f.value.outline) →
      Derives trailing (opening :: (body ++ [closing]))
        (.object ⟨opening.span.start, closing.span.stop⟩ (fields.map Field.outline))

/-- A text of the grammar and its outline. -/
def IsText (trailing : Bool) (source : List Char) (o : Outline) : Prop :=
  ∃ ts, Spelled 0 source ts ∧ Derives trailing ts o

/-! ## Part by part -/

section Parts

variable {α σ : Type} {tokens : α → List (Lexeme Token)} {xs : List α}
  {body : List (Lexeme Token)} {s : σ} (step : σ → Lexeme Token → σ)
  (ready ended : List α → σ → Prop)

theorem exists_map_snoc {parts : List (List (Lexeme Token))} {part : List (Lexeme Token)}
    (h : xs.map tokens = parts ++ [part]) :
    ∃ ys y, xs = ys ++ [y] ∧ ys.map tokens = parts ∧ tokens y = part := by
  obtain ⟨ys, zs, rfl, hys, hzs⟩ := List.map_eq_append_iff.mp h
  obtain ⟨y, rfl, hy⟩ := List.map_eq_singleton_iff.mp hzs
  exact ⟨ys, y, rfl, hys, hy⟩

/-- What holds in front of the first part and is kept by each part and its comma. -/
theorem Led.foldl (h : Led (xs.map tokens) body) (start : ready [] s)
    (part : ∀ x ∈ xs, ∀ seen s, ready seen s → ended (seen ++ [x]) ((tokens x).foldl step s))
    (comma : ∀ seen s t, ended seen s → t.kind = .comma → ready seen (step s t)) :
    ready xs (body.foldl step s) := by
  generalize hparts : xs.map tokens = parts at h
  induction h generalizing xs with
  | nil =>
    cases List.map_eq_nil_iff.mp hparts
    exact start
  | @snoc parts body _ t _ hkind ih =>
    obtain ⟨ys, y, rfl, hys, rfl⟩ := exists_map_snoc hparts
    have before := ih (fun x hx => part x (by simp [hx])) hys
    have behind := part y (by simp) ys _ before
    simpa using comma _ _ t behind hkind

theorem Listed.foldl {trailing : Bool} (h : Listed trailing (xs.map tokens) body)
    (start : ready [] s)
    (part : ∀ x ∈ xs, ∀ seen s, ready seen s → ended (seen ++ [x]) ((tokens x).foldl step s))
    (comma : ∀ seen s t, ended seen s → t.kind = .comma → ready seen (step s t)) :
    ready xs (body.foldl step s) ∨ ended xs (body.foldl step s) := by
  generalize hparts : xs.map tokens = parts at h
  cases h with
  | empty =>
    cases List.map_eq_nil_iff.mp hparts
    exact Or.inl start
  | @last _ body _ led =>
    obtain ⟨ys, y, rfl, hys, rfl⟩ := exists_map_snoc hparts
    rw [← hys] at led
    have before := led.foldl step ready ended start (fun x hx => part x (by simp [hx])) comma
    right
    simpa using part y (by simp) ys _ before
  | trailing _ _ led =>
    rw [← hparts] at led
    exact Or.inl (led.foldl step ready ended start part comma)

end Parts

/-- Nothing stands between the parts but commas. -/
theorem Led.filter {parts : List (List (Lexeme Token))} {body : List (Lexeme Token)}
    (h : Led parts body) {p : Lexeme Token → Bool} (hp : ∀ t, t.kind = .comma → p t = false) :
    body.filter p = parts.flatMap fun part => part.filter p := by
  induction h with
  | nil => rfl
  | snoc _ hcomma ih => simp [ih, hp _ hcomma]

theorem Listed.filter {trailing : Bool} {parts : List (List (Lexeme Token))}
    {body : List (Lexeme Token)} (h : Listed trailing parts body) {p : Lexeme Token → Bool}
    (hp : ∀ t, t.kind = .comma → p t = false) :
    body.filter p = parts.flatMap fun part => part.filter p := by
  cases h with
  | empty => rfl
  | last part led => simp [led.filter hp]
  | trailing _ _ led => exact led.filter hp

/-- What holds of commas and in each part holds throughout. -/
theorem Listed.forall {trailing : Bool} {parts : List (List (Lexeme Token))}
    {body : List (Lexeme Token)} (h : Listed trailing parts body) {P : Lexeme Token → Prop}
    (comma : ∀ t : Lexeme Token, t.kind = .comma → P t)
    (hparts : ∀ part ∈ parts, ∀ t ∈ part, P t) : ∀ t ∈ body, P t := by
  intro t ht
  by_cases hcomma : t.kind = .comma
  · exact comma t hcomma
  · have hfilter : t ∈ body.filter fun t => t.kind ≠ .comma :=
      List.mem_filter.mpr ⟨ht, by simpa using hcomma⟩
    rw [h.filter (by simp)] at hfilter
    obtain ⟨part, hpart, hmem⟩ := List.mem_flatMap.mp hfilter
    exact hparts part hpart t (List.mem_of_mem_filter hmem)

theorem Led.subset {parts : List (List (Lexeme Token))} {body : List (Lexeme Token)}
    (h : Led parts body) : ∀ part ∈ parts, part ⊆ body := by
  induction h with
  | nil => simp
  | snoc _ _ ih =>
    intro part hpart t ht
    rcases List.mem_append.mp hpart with hpart | hpart
    · simp [ih part hpart ht]
    · cases List.mem_singleton.mp hpart
      simp [ht]

theorem Listed.subset {trailing : Bool} {parts : List (List (Lexeme Token))}
    {body : List (Lexeme Token)} (h : Listed trailing parts body) :
    ∀ part ∈ parts, part ⊆ body := by
  cases h with
  | empty => simp
  | last last led =>
    intro part hpart t ht
    rcases List.mem_append.mp hpart with hpart | hpart
    · simp [led.subset part hpart ht]
    · cases List.mem_singleton.mp hpart
      simp [ht]
  | trailing _ _ led => exact led.subset

theorem Lexeme.Quotes.wellSpelled {t : Lexeme Token} {text : Option String} (h : t.Quotes text) :
    t.WellSpelled := by
  obtain ⟨hkind, cs, literal, -⟩ := h
  exact .string hkind literal

/-- Tokens of a derivation are spelled as the grammar has it, if they can be spelled in several
ways. -/
theorem Derives.wellSpelled {trailing : Bool} {ts : List (Lexeme Token)} {o : Outline}
    (h : Derives trailing ts o) : ∀ t ∈ ts, t.kind.fixed?.isSome = true ∨ t.WellSpelled := by
  have fixed : ∀ {t : Lexeme Token} {k : Token}, t.kind = k → k.fixed?.isSome = true →
      t.kind.fixed?.isSome = true ∨ t.WellSpelled := fun hk h => Or.inl (hk ▸ h)
  induction h with
  | scalar denotes =>
    refine List.forall_mem_singleton.mpr ?_
    cases denotes with
    | string quotes => exact Or.inr quotes.wellSpelled
    | number hkind writes => exact Or.inr (.number hkind writes)
    | trueWord hkind => exact fixed hkind rfl
    | falseWord hkind => exact fixed hkind rfl
    | nullWord hkind => exact fixed hkind rfl
  | array hopening hclosing listed _ ih =>
    have body := listed.forall (fun t h => fixed h rfl) (List.forall_mem_map.mpr ih)
    refine List.forall_mem_cons.mpr ⟨fixed hopening rfl, List.forall_mem_append.mpr ⟨body, ?_⟩⟩
    exact List.forall_mem_singleton.mpr (fixed hclosing rfl)
  | object hopening hclosing listed leads _ ih =>
    have body := listed.forall (fun t h => fixed h rfl) (List.forall_mem_map.mpr fun f hf =>
      List.forall_mem_cons.mpr ⟨Or.inr (leads f hf).key.wellSpelled,
        List.forall_mem_cons.mpr ⟨fixed (leads f hf).colon rfl, ih f hf⟩⟩)
    refine List.forall_mem_cons.mpr ⟨fixed hopening rfl, List.forall_mem_append.mpr ⟨body, ?_⟩⟩
    exact List.forall_mem_singleton.mpr (fixed hclosing rfl)

/-! ## Neighbours -/

/-- What may stand directly behind a token. -/
structure Follows (trailing : Bool) (a b : Lexeme Token) : Prop where
  number : a.kind = .number → b.kind.IsMark
  comma : trailing = false → a.kind = .comma → ¬ b.kind.IsClosing

/-- Tokens that may stand in a place for a part. -/
structure Framed (trailing : Bool) (ts : List (Lexeme Token)) : Prop where
  nonempty : ts ≠ []
  chain : ts.IsChain (Follows trailing)
  head : ∀ t ∈ ts.head?, ¬ t.kind.IsClosing
  last : ∀ t ∈ ts.getLast?, t.kind ≠ .comma

section Neighbours

variable {trailing : Bool}

theorem follows_mark {a b : Lexeme Token} (mark : b.kind.IsMark) (h : ¬ b.kind.IsClosing) :
    Follows trailing a b :=
  ⟨fun _ => mark, fun _ _ => h⟩

theorem follows_of_ne {a b : Lexeme Token} (number : a.kind ≠ .number) (comma : a.kind ≠ .comma) :
    Follows trailing a b :=
  ⟨fun h => (number h).elim, fun _ h => (comma h).elim⟩

theorem follows_comma {a b : Lexeme Token} (comma : a.kind = .comma) (h : ¬ b.kind.IsClosing) :
    Follows trailing a b :=
  ⟨fun number => by simp [comma] at number, fun _ _ => h⟩

theorem follows_closing {a b : Lexeme Token}
    (closing : b.kind = .closeBrace ∨ b.kind = .closeBracket)
    (h : trailing = false → a.kind ≠ .comma) : Follows trailing a b := by
  refine ⟨fun _ => ?_, fun strict comma => (h strict comma).elim⟩
  rcases closing with closing | closing <;> rw [closing] <;> trivial

theorem Led.chain {parts : List (List (Lexeme Token))} {body : List (Lexeme Token)}
    (h : Led parts body) (framed : ∀ part ∈ parts, Framed trailing part) :
    body.IsChain (Follows trailing) ∧ (∀ t ∈ body.head?, ¬ t.kind.IsClosing) ∧
      ∀ t ∈ body.getLast?, t.kind = .comma := by
  induction h with
  | nil => simp
  | @snoc parts body part comma led hcomma ih =>
    obtain ⟨chain, head, last⟩ := ih fun part hp => framed part (by simp [hp])
    have hpart := framed part (by simp)
    have hhead : (part ++ [comma]).head? = part.head? :=
      List.head?_append_of_ne_nil part hpart.nonempty
    have hcommaMark : comma.kind.IsMark := by rw [hcomma]; trivial
    have hcommaOpen : ¬ comma.kind.IsClosing := by rw [hcomma]; exact id
    refine ⟨?_, ?_, ?_⟩
    · refine List.isChain_append.mpr ⟨chain, List.isChain_append.mpr ⟨hpart.chain, ?_, ?_⟩, ?_⟩
      · exact List.isChain_singleton comma
      · intro a _ b hb
        cases hb
        exact follows_mark hcommaMark hcommaOpen
      · intro a ha b hb
        rw [hhead] at hb
        exact follows_comma (last a ha) (hpart.head b hb)
    · intro t ht
      cases body with
      | nil =>
        rw [List.nil_append, hhead] at ht
        exact hpart.head t ht
      | cons b body => exact head t ht
    · simp [← List.append_assoc, hcomma]

theorem Listed.chain {parts : List (List (Lexeme Token))} {body : List (Lexeme Token)}
    (h : Listed trailing parts body) (framed : ∀ part ∈ parts, Framed trailing part) :
    body.IsChain (Follows trailing) ∧
      (trailing = false → ∀ t ∈ body.getLast?, t.kind ≠ .comma) := by
  cases h with
  | empty => simp
  | @last parts body part led =>
    obtain ⟨chain, head, last⟩ := led.chain fun part hp => framed part (by simp [hp])
    have hpart := framed part (by simp)
    refine ⟨List.isChain_append.mpr ⟨chain, hpart.chain, ?_⟩, fun _ t ht => ?_⟩
    · intro a ha b hb
      exact follows_comma (last a ha) (hpart.head b hb)
    · rw [List.getLast?_append_of_ne_nil _ hpart.nonempty] at ht
      exact hpart.last t ht
  | trailing strict hne led =>
    refine ⟨(led.chain framed).1, fun h => ?_⟩
    rw [h] at strict
    cases strict

/-- Parts in their brackets. -/
theorem Listed.framed {parts : List (List (Lexeme Token))} {body : List (Lexeme Token)}
    (h : Listed trailing parts body) (framed : ∀ part ∈ parts, Framed trailing part)
    {opening closing : Lexeme Token}
    (hopening : opening.kind = .openBrace ∨ opening.kind = .openBracket)
    (hclosing : closing.kind = .closeBrace ∨ closing.kind = .closeBracket) :
    Framed trailing (opening :: (body ++ [closing])) := by
  obtain ⟨chain, last⟩ := h.chain framed
  refine ⟨List.cons_ne_nil _ _, ?_, ?_, ?_⟩
  · refine List.isChain_cons.mpr ⟨?_, List.isChain_append.mpr ⟨chain, ?_, ?_⟩⟩
    · intro b _
      rcases hopening with h | h <;> exact follows_of_ne (by simp [h]) (by simp [h])
    · exact List.isChain_singleton closing
    · intro a ha b hb
      cases hb
      exact follows_closing hclosing fun strict => last strict a ha
  · intro t ht
    cases ht
    rcases hopening with h | h <;> rw [h] <;> exact id
  · intro t ht
    rw [← List.cons_append, List.getLast?_append_of_ne_nil _ (by simp)] at ht
    cases ht
    rcases hclosing with h | h <;> simp [h]

theorem Field.Leads.framed {f : Field} (h : f.Leads) (value : Framed trailing f.value.tokens) :
    Framed trailing f.tokens := by
  have hkey := h.key.1
  refine ⟨List.cons_ne_nil _ _, ?_, ?_, ?_⟩
  · refine List.isChain_cons_cons.mpr ⟨?_, List.isChain_cons.mpr ⟨?_, value.chain⟩⟩
    · exact follows_of_ne (by simp [hkey]) (by simp [hkey])
    · intro b _
      exact follows_of_ne (by simp [h.colon]) (by simp [h.colon])
  · intro t ht
    cases ht
    rw [hkey]
    exact id
  · intro t ht
    rw [Field.tokens, List.getLast?_cons_of_ne_nil (List.cons_ne_nil _ _),
      List.getLast?_cons_of_ne_nil value.nonempty] at ht
    exact value.last t ht

theorem Lexeme.Denotes.kind {t : Lexeme Token} {content : Option Scalar} (h : t.Denotes content) :
    ¬ t.kind.IsClosing ∧ t.kind ≠ .comma := by
  cases h with
  | string h => simp [h.1, Token.IsClosing]
  | number h _ => simp [h, Token.IsClosing]
  | trueWord h => simp [h, Token.IsClosing]
  | falseWord h => simp [h, Token.IsClosing]
  | nullWord h => simp [h, Token.IsClosing]

theorem Derives.framed {ts : List (Lexeme Token)} {o : Outline} (h : Derives trailing ts o) :
    Framed trailing ts := by
  induction h with
  | scalar denotes =>
    refine ⟨List.cons_ne_nil _ _, List.isChain_singleton _, ?_, ?_⟩
    · intro t ht
      cases ht
      exact denotes.kind.1
    · intro t ht
      cases ht
      exact denotes.kind.2
  | array hopening hclosing listed _ ih =>
    refine listed.framed ?_ (Or.inr hopening) (Or.inr hclosing)
    simpa using ih
  | object hopening hclosing listed leads _ ih =>
    refine listed.framed ?_ (Or.inl hopening) (Or.inl hclosing)
    intro part hpart
    obtain ⟨f, hf, rfl⟩ := List.mem_map.mp hpart
    exact (leads f hf).framed (ih f hf)

end Neighbours

end TemplateLint
