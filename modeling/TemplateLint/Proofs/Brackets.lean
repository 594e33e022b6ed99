import TemplateLint.Proofs.Lexemes

/-!
# Brackets

Braces and square brackets come in pairs where each closing bracket is of the
kind of the innermost one that is open. What tokens leave open is the same
whatever was open before them, as long as they close none of it.
-/

namespace TemplateLint

/-- The two kinds of brackets. -/
inductive BracketKind where
  | brace
  | square
deriving DecidableEq

namespace Token

def opening? : Token → Option BracketKind
  | openBrace => some .brace
  | openBracket => some .square
  | _ => none

def closing? : Token → Option BracketKind
  | closeBrace => some .brace
  | closeBracket => some .square
  | _ => none

/-- The brackets open behind a token, the innermost first, given those open before it. A closing
bracket that is not of the innermost kind has no place. -/
def nest? (k : Token) (opened : List BracketKind) : Option (List BracketKind) :=
  match k.opening?, k.closing?, opened with
  | some b, _, opened => some (b :: opened)
  | none, none, opened => some opened
  | none, some b, c :: outer => if c = b then some outer else none
  | none, some _, [] => none

theorem eq_closeBrace {k : Token} (h : k.closing? = some .brace) : k = closeBrace := by
  cases k <;> first | rfl | cases h

theorem eq_closeBracket {k : Token} (h : k.closing? = some .square) : k = closeBracket := by
  cases k <;> first | rfl | cases h

theorem opening?_of_closing {k : Token} {b : BracketKind} (h : k.closing? = some b) :
    k.opening? = none := by
  cases k <;> first | rfl | cases h

theorem nest?_of_opening {k : Token} {b : BracketKind} (h : k.opening? = some b)
    (opened : List BracketKind) : k.nest? opened = some (b :: opened) := by
  simp [nest?, h]

theorem nest?_of_closing {k : Token} {b : BracketKind} (h : k.closing? = some b)
    {opened outer : List BracketKind} : k.nest? opened = some outer ↔ opened = b :: outer := by
  have other := opening?_of_closing h
  cases opened with
  | nil => simp [nest?, other, h]
  | cons c rest => simp [nest?, other, h]

theorem nest?_of_neither {k : Token} (ho : k.opening? = none) (hc : k.closing? = none)
    (opened : List BracketKind) : k.nest? opened = some opened := by
  simp [nest?, ho, hc]

/-- What is open further out makes no difference to a token that closes none of it. -/
theorem nest?_append {k : Token} {opened inner : List BracketKind} (h : k.nest? opened = some inner)
    (outer : List BracketKind) : k.nest? (opened ++ outer) = some (inner ++ outer) := by
  cases ho : k.opening? with
  | some b =>
    rw [nest?_of_opening ho] at h ⊢
    cases h
    rfl
  | none =>
    cases hc : k.closing? with
    | some b =>
      rw [nest?_of_closing hc] at h ⊢
      rw [h, List.cons_append]
    | none =>
      rw [nest?_of_neither ho hc] at h ⊢
      cases h
      rfl

end Token

namespace Brackets

/-- The brackets open behind tokens, given those open before them. -/
def unclosed? (opened : List BracketKind) : List (Lexeme Token) → Option (List BracketKind)
  | [] => some opened
  | t :: rest => (t.kind.nest? opened).bind fun inner => unclosed? inner rest

/-- Every bracket is closed by one of its kind, properly nested. -/
def Balanced (ts : List (Lexeme Token)) : Prop := unclosed? [] ts = some []

instance (ts : List (Lexeme Token)) : Decidable (Balanced ts) :=
  inferInstanceAs (Decidable (unclosed? [] ts = some []))

/-- Two brackets match when they are of one kind and those between them are balanced. -/
structure Matches (b : BracketKind) (opening : Lexeme Token) (inside : List (Lexeme Token))
    (closing : Lexeme Token) : Prop where
  opening : opening.kind.opening? = some b
  closing : closing.kind.closing? = some b
  inside : Balanced inside

theorem unclosed?_append (opened : List BracketKind) (ts us : List (Lexeme Token)) :
    unclosed? opened (ts ++ us) = (unclosed? opened ts).bind fun inner => unclosed? inner us := by
  induction ts generalizing opened with
  | nil => rfl
  | cons t rest ih =>
    rw [List.cons_append, unclosed?, unclosed?, Option.bind_assoc]
    congr 1
    funext inner
    exact ih inner

theorem unclosed?_snoc (opened : List BracketKind) (ts : List (Lexeme Token)) (t : Lexeme Token) :
    unclosed? opened (ts ++ [t]) = (unclosed? opened ts).bind t.kind.nest? := by
  rw [unclosed?_append]
  congr 1
  funext inner
  rw [unclosed?]
  cases t.kind.nest? inner <;> rfl

theorem unclosed?_outer {opened inner : List BracketKind} {ts : List (Lexeme Token)}
    (h : unclosed? opened ts = some inner) (outer : List BracketKind) :
    unclosed? (opened ++ outer) ts = some (inner ++ outer) := by
  induction ts generalizing opened with
  | nil =>
    cases h
    rfl
  | cons t rest ih =>
    obtain ⟨next, hnext, hrest⟩ := Option.bind_eq_some_iff.mp h
    rw [unclosed?, Token.nest?_append hnext, Option.bind_some, ih hrest]

/-- An opening bracket and what tokens behind it leave open. -/
theorem unclosed?_opened {before inside : List (Lexeme Token)} {opening : Lexeme Token}
    {b : BracketKind} {outer inner : List BracketKind} (hopening : opening.kind.opening? = some b)
    (hbefore : unclosed? [] before = some outer) (hinside : unclosed? [] inside = some inner) :
    unclosed? [] (before ++ opening :: inside) = some (inner ++ b :: outer) := by
  have framed := unclosed?_outer hinside (b :: outer)
  rw [unclosed?_append, hbefore, Option.bind_some, unclosed?, Token.nest?_of_opening hopening]
  exact framed

/-- A bracket is matched by one bracket at most: the one further on would stand behind a closing
bracket that has no place. -/
theorem Matches.closing_eq {b c : BracketKind} {opening opening' closing closing' : Lexeme Token}
    {inside inside' after after' : List (Lexeme Token)} (h : Matches b opening inside closing)
    (h' : Matches c opening' inside' closing')
    (same : inside ++ closing :: after = inside' ++ closing' :: after') : closing = closing' := by
  have nowhere {k : BracketKind} {t : Lexeme Token} {front back : List (Lexeme Token)}
      (ht : t.kind.closing? = some k) (hfront : Balanced front) :
      ¬ Balanced (front ++ t :: back) := by
    intro hall
    rw [Balanced, unclosed?_append, hfront, Option.bind_some] at hall
    obtain ⟨inner, hinner, -⟩ := Option.bind_eq_some_iff.mp hall
    cases (Token.nest?_of_closing ht).mp hinner
  rcases List.append_eq_append_iff.mp same with ⟨more, hinside, hrest⟩ | ⟨more, hinside, hrest⟩
  · cases more with
    | nil => exact (List.cons.inj hrest).1
    | cons t more =>
      obtain ⟨rfl, -⟩ := List.cons.inj hrest
      exact absurd (hinside ▸ h'.inside) (nowhere h.closing h.inside)
  · cases more with
    | nil => exact (List.cons.inj hrest).1.symm
    | cons t more =>
      obtain ⟨rfl, -⟩ := List.cons.inj hrest
      exact absurd (hinside ▸ h.inside) (nowhere h'.closing h'.inside)

/-- What is open is closed in time: a bracket is matched where the tokens close it. -/
theorem exists_closing {opened outer : List BracketKind} {b : BracketKind}
    {ts : List (Lexeme Token)} (h : unclosed? (opened ++ b :: outer) ts = some []) :
    ∃ inside closing after, ts = inside ++ closing :: after ∧ closing.kind.closing? = some b ∧
      unclosed? opened inside = some [] := by
  induction ts generalizing opened with
  | nil => simp [unclosed?] at h
  | cons t rest ih =>
    obtain ⟨next, hnext, hrest⟩ := Option.bind_eq_some_iff.mp h
    cases hinner : t.kind.nest? opened with
    | some inner =>
      rw [Token.nest?_append hinner] at hnext
      cases hnext
      obtain ⟨inside, closing, after, rfl, hclosing, hinside⟩ := ih hrest
      refine ⟨t :: inside, closing, after, rfl, hclosing, ?_⟩
      rw [unclosed?, hinner, Option.bind_some, hinside]
    | none =>
      -- Only a closing bracket has no place, and here it closes the one in question.
      cases hc : t.kind.closing? with
      | some c =>
        rw [Token.nest?_of_closing hc] at hnext
        cases opened with
        | nil =>
          cases hnext
          exact ⟨[], t, rest, rfl, hc, rfl⟩
        | cons d opened =>
          cases hnext
          rw [(Token.nest?_of_closing hc).mpr rfl] at hinner
          cases hinner
      | none =>
        cases ho : t.kind.opening? with
        | some c =>
          rw [Token.nest?_of_opening ho] at hinner
          cases hinner
        | none =>
          rw [Token.nest?_of_neither ho hc] at hinner
          cases hinner

end Brackets

end TemplateLint
