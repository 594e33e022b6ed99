import TemplateLint.Proofs.Grammar.Texts
import TemplateLint.Proofs.Lexemes

/-!
# Lexemes of spelled texts

A text that is spelled by tokens is cut into just these tokens and the blanks
around them, provided that what follows a number is a mark: the longest lexeme
at the front of a text is the token that stands there. The other way round, a
text all of whose lexemes are blanks and well spelled tokens is spelled by them.
-/

namespace TemplateLint.Lexeme

/-! ## Longest lexemes -/

theorem take_of_commonLength {a b : List Char} (h : commonLength a b = a.length) :
    b.take a.length = a := by
  induction a generalizing b with
  | nil => rfl
  | cons c rest ih =>
    cases b with
    | nil => cases h
    | cons d b =>
      by_cases hc : c = d
      · subst hc
        simp only [commonLength, if_true, List.length_cons, Nat.add_right_cancel_iff] at h
        simp [ih h]
      · simp [commonLength, hc] at h

theorem closedLength_plain {c : Char} (hquote : c ≠ '"') (hslash : c ≠ '\\') (rest : List Char) :
    closedLength (c :: rest) = (closedLength rest).map (· + 1) := by
  cases rest <;> simp [closedLength, hslash]

theorem closedLength_digits {ds : List Char} {n : Nat} (h : Json.Quoted.Code ds n)
    (rest : List Char) : closedLength (ds ++ rest) = (closedLength rest).map (· + 4) := by
  have plain : ∀ {c : Char} {v : Nat}, Text.hexValue? c = some v → c ≠ '"' ∧ c ≠ '\\' := by
    intro c v hv
    constructor <;> rintro rfl <;> cases hv
  obtain ⟨ha, hb, hc, hd⟩ := h
  simp only [List.cons_append, List.nil_append]
  rw [closedLength_plain (plain ha).1 (plain ha).2, closedLength_plain (plain hb).1 (plain hb).2,
    closedLength_plain (plain hc).1 (plain hc).2, closedLength_plain (plain hd).1 (plain hd).2]
  simp [Function.comp_def, Nat.add_assoc]

/-- A literal ends at the first quote that no backslash escapes. -/
theorem closedLength_body {cs : List Char} {ps : List Json.Quoted.Piece}
    (h : Json.Quoted.Body cs ps) (rest : List Char) :
    closedLength (cs ++ '"' :: rest) = some (cs.length + 1) := by
  induction h with
  | nil => cases rest <;> rfl
  | plain _ hquote hslash _ ih =>
    rw [List.cons_append, closedLength_plain hquote hslash, ih]
    rfl
  | named hnamed _ ih =>
    have hline : ∀ {c d : Char}, Json.Quoted.Named c d → c ≠ '\n' := by
      intro c d hc
      cases hc <;> decide
    simp [closedLength, hline hnamed, ih]
  | unit code _ ih =>
    simp [closedLength, closedLength_digits code, ih, code.length]
    omega

theorem isWordChar_of_isDigit {c : Char} (h : c.isDigit = true) : isWordChar c = true := by
  simp [isWordChar, Char.isAlphanum, h]

theorem takeWhile_append_of_head {p : Char → Bool} {cs rest : List Char}
    (hcs : ∀ c ∈ cs, p c = true) (hrest : ∀ c ∈ rest.head?, p c = false) :
    (cs ++ rest).takeWhile p = cs := by
  rw [List.takeWhile_append_of_pos hcs]
  cases rest with
  | nil => simp
  | cons c rest => simp [hrest c rfl]

end TemplateLint.Lexeme

namespace TemplateLint.Decimal.Literal

/-- Characters of words only. -/
def Wordy (cs : List Char) : Prop := ∀ c ∈ cs, Lexeme.isWordChar c = true

theorem wordy_nil : Wordy [] := by
  intro c hc
  cases hc

theorem Wordy.cons {c : Char} {cs : List Char} (hc : Lexeme.isWordChar c = true) (h : Wordy cs) :
    Wordy (c :: cs) := List.forall_mem_cons.mpr ⟨hc, h⟩

theorem Wordy.append {as bs : List Char} (ha : Wordy as) (hb : Wordy bs) : Wordy (as ++ bs) :=
  List.forall_mem_append.mpr ⟨ha, hb⟩

theorem Digits.wordy {ds : List Char} (h : Digits ds) : Wordy ds :=
  fun c hc => Lexeme.isWordChar_of_isDigit (h.all c hc)

theorem Minus.wordy {cs : List Char} {negative : Bool} (h : Minus cs negative) : Wordy cs := by
  cases h with
  | absent => exact wordy_nil
  | present => exact wordy_nil.cons rfl

theorem Whole.wordy {cs : List Char} (h : Whole cs) : Wordy cs := by
  cases h with
  | zero => exact wordy_nil.cons rfl
  | digits _ digits => exact digits.wordy

theorem Fraction.wordy {cs : List Char} {f : Option (List Char)} (h : Fraction cs f) :
    Wordy cs := by
  cases h with
  | absent => exact wordy_nil
  | present digits => exact digits.wordy.cons rfl

theorem Sign.wordy {cs : List Char} {negative : Bool} (h : Sign cs negative) : Wordy cs := by
  cases h with
  | absent => exact wordy_nil
  | plus => exact wordy_nil.cons rfl
  | minus => exact wordy_nil.cons rfl

theorem Power.wordy {cs : List Char} {e : Option Exponent} (h : Power cs e) : Wordy cs := by
  cases h with
  | absent => exact wordy_nil
  | present letter sign digits =>
    refine (sign.wordy.append digits.wordy).cons ?_
    rcases letter with rfl | rfl <;> rfl

theorem Writes.wordy {cs : List Char} {l : Literal} (h : Writes cs l) : Wordy cs := by
  cases h with
  | parts minus _ whole fraction power =>
    exact minus.wordy.append (whole.wordy.append (fraction.wordy.append power.wordy))

end TemplateLint.Decimal.Literal

namespace TemplateLint.Lexeme

theorem longest_digit {c : Char} (h : c.isDigit = true) (rest : List Char) :
    longest c rest = (some .number, numberLength rest + 1) := by
  unfold longest
  split
  all_goals try cases h
  have hblank : isBlank c = false := by
    refine Bool.eq_false_iff.mpr fun hb => ?_
    simp only [isBlank, Bool.or_eq_true, beq_iff_eq] at hb
    rcases hb with ((rfl | rfl) | rfl) | rfl <;> cases h
  simp [hblank, h]

theorem longest_blank {c : Char} (h : isBlank c = true) (rest : List Char) :
    longest c rest = (some .whitespace, (rest.takeWhile isBlank).length + 1) := by
  simp only [isBlank, Bool.or_eq_true, beq_iff_eq] at h
  rcases h with ((rfl | rfl) | rfl) | rfl <;> rfl

theorem longest_number {cs : List Char} {l : Decimal.Literal} (h : Decimal.Literal.Writes cs l)
    {rest : List Char} (hrest : ∀ c ∈ rest.head?, isWordChar c = false) :
    ∃ c tail, cs = c :: tail ∧ longest c (tail ++ rest) = (some .number, cs.length) := by
  have words := h.wordy
  obtain ⟨d, ds, hcs, hd⟩ := h.head
  have hds : (ds ++ rest).takeWhile isWordChar = ds := by
    refine takeWhile_append_of_head (fun c hc => words c ?_) hrest
    rcases hcs with rfl | rfl <;> simp [hc]
  rcases hcs with rfl | rfl
  · refine ⟨d, ds, rfl, ?_⟩
    rw [longest_digit hd, numberLength, hds]
    rfl
  · refine ⟨'-', d :: ds, rfl, ?_⟩
    simp [longest, hd, numberLength, hds]

/-- A well spelled token is the longest lexeme where it stands. -/
theorem longest_spelled {t : Lexeme Token} (h : t.WellSpelled) (rest : List Char)
    (hrest : t.kind = .number → ∀ c ∈ rest.head?, isWordChar c = false) :
    ∃ c tail, t.text = c :: tail ∧ longest c (tail ++ rest) = (some t.kind, t.text.length) := by
  cases h with
  | fixed hfixed =>
    obtain ⟨kind, text, span⟩ := t
    cases kind
    all_goals cases hfixed
    all_goals exact ⟨_, _, rfl, rfl⟩
  | string hkind literal =>
    rw [hkind]
    generalize t.text = text at literal
    cases literal with
    | quoted body =>
      refine ⟨'"', _, rfl, ?_⟩
      rw [List.append_assoc, List.singleton_append]
      simp [longest, closedLength_body body]
  | number hkind writes =>
    rw [hkind]
    exact longest_number writes (hrest hkind)

/-- A token that is always spelled alike is found in that spelling. -/
theorem fixed?_of_longest {c : Char} {rest : List Char} {k : Token}
    (h : (longest c rest).1 = some k) (fixed : k.fixed?.isSome = true) :
    k.fixed? = some ((c :: rest).take (longest c rest).2) := by
  have word : ∀ {c : Char} {tail : List Char} {token : Token}, token.fixed? = some (c :: tail) →
      (keyword token tail rest).1 = some k →
        k.fixed? = some ((c :: rest).take (keyword token tail rest).2) := by
    intro c tail token hfixed h
    dsimp only [keyword] at h ⊢
    split at h
    · rename_i hlength
      cases h
      simp [hfixed, hlength, take_of_commonLength hlength]
    · cases h
  unfold longest at h ⊢
  split at h
  · cases h; rfl
  · cases h; rfl
  · cases h; rfl
  · cases h; rfl
  · cases h; rfl
  · cases h; rfl
  · exact word rfl h
  · exact word rfl h
  · exact word rfl h
  · split at h <;> cases h <;> cases fixed
  · split at h
    · split at h <;> cases h
      cases fixed
    · cases h
  · split at h
    · cases h; cases fixed
    · split at h <;> cases h
      cases fixed

/-- White space is found as blanks. -/
theorem blank_of_longest {c : Char} {rest : List Char}
    (h : (longest c rest).1 = some .whitespace) :
    ∀ b ∈ (c :: rest).take (longest c rest).2, isBlank b = true := by
  have hc : isBlank c = true := by
    unfold longest keyword at h
    grind
  have whole : rest.take (rest.takeWhile isBlank).length = rest.takeWhile isBlank :=
    (List.prefix_iff_eq_take.mp (List.takeWhile_prefix _)).symm
  rw [longest_blank hc, List.take_succ_cons, whole]
  exact List.forall_mem_cons.mpr ⟨hc, fun b hb => List.mem_takeWhile_imp hb⟩

end TemplateLint.Lexeme

namespace TemplateLint

open Lexeme (byteLength byteLength_append byteLength_cons isBlank listFrom significant?)

/-! ## From tokens to lexemes -/

theorem Lexeme.WellSpelled.kind_ne {t : Lexeme Token} (h : t.WellSpelled) :
    t.kind ≠ .whitespace := by
  cases h with
  | fixed h =>
    intro hk
    rw [hk] at h
    cases h
  | string h _ => simp [h]
  | number h _ => simp [h]

/-- Tokens do not begin with a blank. -/
theorem Lexeme.WellSpelled.head {t : Lexeme Token} (h : t.WellSpelled) :
    ∃ c tail, t.text = c :: tail ∧ isBlank c = false := by
  obtain ⟨c, tail, htext, hlongest⟩ := Lexeme.longest_spelled h [] (by simp)
  refine ⟨c, tail, htext, Bool.eq_false_iff.mpr fun hb => ?_⟩
  rw [Lexeme.longest_blank hb] at hlongest
  exact h.kind_ne (Option.some.inj (congrArg Prod.fst hlongest)).symm

theorem Spelled.dropBlanks {offset : Nat} {cs : List Char} {ts : List (Lexeme Token)}
    (h : Spelled offset cs ts) :
    Spelled (offset + byteLength (cs.takeWhile isBlank)) (cs.dropWhile isBlank) ts := by
  induction h with
  | nil => exact .nil
  | blank hc _ ih => simpa [hc, Nat.add_assoc] using ih
  | @token _ t _ rest _ hcs well hspan tail _ =>
    obtain ⟨c, more, htext, hblank⟩ := well.head
    have hfront : t.text ++ rest = c :: (more ++ rest) := by rw [htext, List.cons_append]
    rw [hcs, hfront]
    simp only [hblank, List.takeWhile_cons, List.dropWhile_cons, Bool.false_eq_true, if_false]
    exact .token hfront.symm well hspan tail

theorem Spelled.append {offset : Nat} {cs ds : List Char} {ts us : List (Lexeme Token)}
    (h : Spelled offset cs ts) (h' : Spelled (offset + byteLength cs) ds us) :
    Spelled offset (cs ++ ds) (ts ++ us) := by
  induction h with
  | nil => exact h'
  | blank hc _ ih =>
    rw [byteLength_cons, ← Nat.add_assoc] at h'
    exact .blank hc (ih h')
  | token hcs well hspan _ ih =>
    rw [hcs, byteLength_append, ← Nat.add_assoc] at h'
    rw [hcs, List.append_assoc]
    exact .token rfl well hspan (ih h')

/-- A token in its only spelling. -/
theorem Spelled.exists_fixed (kind : Token) {text : List Char} (h : kind.fixed? = some text)
    (offset : Nat) : ∃ t : Lexeme Token, t.kind = kind ∧
      t.span = .ofLength offset (byteLength text) ∧ Spelled offset text [t] :=
  ⟨⟨kind, text, .ofLength offset (byteLength text)⟩, rfl, rfl,
    .token (List.append_nil text).symm (.fixed h) rfl .nil⟩

/-- What is spelled may be put in brackets. -/
theorem Spelled.exists_bracketed {a b : List Char} {offset : Nat} {text : List Char}
    {body : List (Lexeme Token)} (h : Spelled (offset + byteLength a) text body)
    (left right : Token) (hleft : left.fixed? = some a) (hright : right.fixed? = some b) :
    ∃ opening closing : Lexeme Token, opening.kind = left ∧ closing.kind = right ∧
      opening.span.start = offset ∧
      closing.span.stop = offset + byteLength (a ++ (text ++ b)) ∧
      Spelled offset (a ++ (text ++ b)) (opening :: (body ++ [closing])) := by
  obtain ⟨opening, hopening, hstart, opens⟩ := Spelled.exists_fixed left hleft offset
  obtain ⟨closing, hclosing, hstop, closes⟩ :=
    Spelled.exists_fixed right hright (offset + byteLength a + byteLength text)
  refine ⟨opening, closing, hopening, hclosing, by rw [hstart]; rfl, ?_,
    opens.append (h.append closes)⟩
  simp only [hstop, Span.ofLength, byteLength_append]
  omega

/-- Tokens that are always spelled alike have the length of their spelling. -/
theorem Spelled.length {offset : Nat} {cs : List Char} {ts : List (Lexeme Token)}
    (h : Spelled offset cs ts) : ∀ t ∈ ts, ∀ text, t.kind.fixed? = some text →
      t.span.stop = t.span.start + byteLength text := by
  induction h with
  | nil => simp
  | blank _ _ ih => exact ih
  | token _ well hspan _ ih =>
    refine List.forall_mem_cons.mpr ⟨fun text hfixed => ?_, ih⟩
    rw [hspan]
    cases well with
    | fixed h =>
      cases h.symm.trans hfixed
      rfl
    | string hkind _ => simp [hkind, Token.fixed?] at hfixed
    | number hkind _ => simp [hkind, Token.fixed?] at hfixed

theorem Spelled.append_blanks {offset : Nat} {blanks rest : List Char} {ts : List (Lexeme Token)}
    (hblanks : ∀ c ∈ blanks, isBlank c = true)
    (h : Spelled (offset + byteLength blanks) rest ts) : Spelled offset (blanks ++ rest) ts := by
  induction blanks generalizing offset with
  | nil => exact h
  | cons c blanks ih =>
    obtain ⟨hc, hblanks⟩ := List.forall_mem_cons.mp hblanks
    refine .blank hc (ih hblanks ?_)
    rwa [byteLength_cons, ← Nat.add_assoc] at h

/-- What stands in front of a mark belongs to no word. -/
theorem Spelled.head {offset : Nat} {cs : List Char} {ts : List (Lexeme Token)}
    (h : Spelled offset cs ts) (mark : ∀ t ∈ ts.head?, t.kind.IsMark) :
    ∀ c ∈ cs.head?, Lexeme.isWordChar c = false := by
  intro c hc
  cases h with
  | nil => cases hc
  | blank hblank _ =>
    cases hc
    simp only [isBlank, Bool.or_eq_true, beq_iff_eq] at hblank
    rcases hblank with ((rfl | rfl) | rfl) | rfl <;> rfl
  | @token _ t _ rest _ hcs well _ _ =>
    have hmark := mark t rfl
    cases well with
    | fixed hfixed =>
      obtain ⟨kind, text, span⟩ := t
      rw [hcs] at hc
      cases kind
      all_goals cases hmark
      all_goals cases hfixed
      all_goals cases hc
      all_goals rfl
    | string hkind _ => simp [hkind, Token.IsMark] at hmark
    | number hkind _ => simp [hkind, Token.IsMark] at hmark

theorem Lexeme.significant?_some {k : Token} (h : k ≠ .whitespace) (text : List Char)
    (span : Span) : significant? ⟨some k, text, span⟩ = some ⟨k, text, span⟩ := by
  cases k
  case whitespace => exact (h rfl).elim
  all_goals rfl

/-- The lexemes of a spelled text are its tokens, with blanks around them. -/
theorem Spelled.lexemes {offset : Nat} {cs : List Char} {ts : List (Lexeme Token)}
    (h : Spelled offset cs ts)
    (chain : ts.IsChain fun a b => a.kind = .number → b.kind.IsMark) :
    (listFrom offset 0 cs).filterMap significant? = ts ∧
      ∀ l ∈ listFrom offset 0 cs, l.kind.isSome = true := by
  -- blanks in a row are one lexeme, so it is the text that gets shorter
  induction hn : cs.length using Nat.strongRecOn generalizing offset cs ts with
  | ind n ih =>
    cases h with
    | nil => simp [listFrom]
    | @blank _ c cs ts hblank tail =>
      have dropped := tail.dropBlanks
      have split : cs.takeWhile isBlank ++ cs.dropWhile isBlank = cs :=
        List.takeWhile_append_dropWhile
      rw [Lexeme.listFrom_cons, Lexeme.longest_blank hblank]
      generalize cs.takeWhile isBlank = blanks at dropped split ⊢
      generalize cs.dropWhile isBlank = rest at dropped split
      subst split
      have shorter : rest.length < n := by
        simp only [List.length_cons, List.length_append] at hn
        omega
      have htake : (c :: (blanks ++ rest)).take (blanks.length + 1) = c :: blanks := by simp
      have hdrop : (c :: (blanks ++ rest)).drop (blanks.length + 1) = rest := by simp
      rw [htake, hdrop, Lexeme.byteLength_cons, ← Nat.add_assoc]
      obtain ⟨htokens, hknown⟩ := ih _ shorter dropped chain rfl
      refine ⟨?_, List.forall_mem_cons.mpr ⟨rfl, hknown⟩⟩
      rw [List.filterMap_cons_none rfl, htokens]
    | @token _ t _ rest ts hcs well hspan tail =>
      obtain ⟨hnext, hrest⟩ := List.isChain_cons.mp chain
      obtain ⟨c, more, htext, hlongest⟩ := Lexeme.longest_spelled well rest
        fun hkind => tail.head fun u hu => hnext u hu hkind
      have hfront : cs = c :: (more ++ rest) := by rw [hcs, htext, List.cons_append]
      have htake : (c :: (more ++ rest)).take t.text.length = t.text := by simp [htext]
      have hdrop : (c :: (more ++ rest)).drop t.text.length = rest := by simp [htext]
      have shorter : rest.length < n := by
        simp only [hfront, List.length_cons, List.length_append] at hn
        omega
      rw [hfront, Lexeme.listFrom_cons, hlongest, htake, hdrop]
      obtain ⟨htokens, hknown⟩ := ih _ shorter tail hrest rfl
      refine ⟨?_, List.forall_mem_cons.mpr ⟨rfl, hknown⟩⟩
      rw [← hspan, List.filterMap_cons_some (Lexeme.significant?_some well.kind_ne _ _), htokens]

/-! ## From lexemes to tokens -/

/-- A text is spelled by its tokens if all its lexemes are known and each of those that can be
spelled in several ways is well spelled. -/
theorem spelled_of_known {offset : Nat} {cs : List Char}
    (known : ∀ l ∈ listFrom offset 0 cs, l.kind.isSome = true)
    (well : ∀ t ∈ (listFrom offset 0 cs).filterMap significant?,
      t.kind.fixed?.isSome = true ∨ t.WellSpelled) :
    Spelled offset cs ((listFrom offset 0 cs).filterMap significant?) := by
  induction hn : cs.length using Nat.strongRecOn generalizing offset cs with
  | ind n ih =>
    cases cs with
    | nil => exact .nil
    | cons c cs =>
      have hpos := Lexeme.longest_pos c cs
      have shorter : ((c :: cs).drop (Lexeme.longest c cs).2).length < n := by
        rw [← hn, List.length_drop, List.length_cons]
        omega
      have split := List.take_append_drop (Lexeme.longest c cs).2 (c :: cs)
      rw [Lexeme.listFrom_cons] at known well ⊢
      obtain ⟨hsome, known⟩ := List.forall_mem_cons.mp known
      obtain ⟨k, hk⟩ : ∃ k, (Lexeme.longest c cs).1 = some k := Option.isSome_iff_exists.mp hsome
      have fixed := Lexeme.fixed?_of_longest hk
      have blanks := fun h : k = .whitespace => Lexeme.blank_of_longest (h ▸ hk)
      rw [hk] at well ⊢
      generalize (c :: cs).take (Lexeme.longest c cs).2 = text at split known well fixed blanks ⊢
      generalize (c :: cs).drop (Lexeme.longest c cs).2 = rest at shorter split known well ⊢
      rw [← split]
      by_cases hblank : k = .whitespace
      · rw [hblank, List.filterMap_cons_none rfl] at well ⊢
        exact .append_blanks (blanks hblank) (ih _ shorter known well rfl)
      · rw [List.filterMap_cons_some (Lexeme.significant?_some hblank _ _)] at well ⊢
        obtain ⟨hwell, well⟩ := List.forall_mem_cons.mp well
        refine .token (t := ⟨k, text, _⟩) rfl ?_ rfl (ih _ shorter known well rfl)
        exact hwell.elim (fun h => .fixed (fixed h)) id

end TemplateLint
