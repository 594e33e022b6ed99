import TemplateLint.Json.Quoted
import TemplateLint.Proofs.Grammar.Numbers
import TemplateLint.Proofs.Lexemes

/-!
# The grammar of string literals

Between its quotes a string literal of JSON is a row of parts: characters that
stand for themselves, escapes that name a character by a letter, and escapes
that name a unit of sixteen bits by four digits. A unit is a character unless
it is one half of a pair; the grammar allows halves anywhere, but a half without
the other one stands for nothing. Decoding a literal succeeds on exactly the
literals of the grammar that stand for a text, and gives that text.
-/

namespace TemplateLint.Json.Quoted

/-- What one part of a literal writes. -/
inductive Piece where
  | char (c : Char)
  | unit (n : Nat)

/-- Characters that are named by a letter behind a backslash. -/
inductive Named : Char → Char → Prop where
  | quote : Named '"' '"'
  | backslash : Named '\\' '\\'
  | slash : Named '/' '/'
  | backspace : Named 'b' '\x08'
  | formFeed : Named 'f' '\x0c'
  | lineFeed : Named 'n' '\n'
  | carriageReturn : Named 'r' '\r'
  | tab : Named 't' '\t'

/-- Four hexadecimal digits and the unit they write. -/
inductive Code : List Char → Nat → Prop where
  | digits {a b c d : Char} {w x y z : Nat} : Text.hexValue? a = some w →
      Text.hexValue? b = some x → Text.hexValue? c = some y → Text.hexValue? d = some z →
      Code [a, b, c, d] (((w * 16 + x) * 16 + y) * 16 + z)

/-- What may stand between the quotes of a literal. -/
inductive Body : List Char → List Piece → Prop where
  | nil : Body [] []
  | plain {c : Char} {cs : List Char} {ps : List Piece} : 0x20 ≤ c.toNat → c ≠ '"' → c ≠ '\\' →
      Body cs ps → Body (c :: cs) (.char c :: ps)
  | named {c d : Char} {cs : List Char} {ps : List Piece} : Named c d → Body cs ps →
      Body ('\\' :: c :: cs) (.char d :: ps)
  | unit {ds : List Char} {n : Nat} {cs : List Char} {ps : List Piece} : Code ds n → Body cs ps →
      Body ('\\' :: 'u' :: (ds ++ cs)) (.unit n :: ps)

/-- The character that the two halves of a pair stand for. -/
def pairChar (n m : Nat) : Char := .ofNat ((n - 0xD800) * 1024 + (m - 0xDC00) + 0x10000)

/-- The text that pieces stand for, if no half of a pair is without the other one. -/
def text? : List Piece → Option (List Char)
  | [] => some []
  | .char c :: ps => (text? ps).map (c :: ·)
  | .unit n :: ps =>
    if isFirstHalf n then
      match ps with
      | .unit m :: rest => if isSecondHalf m then (text? rest).map (pairChar n m :: ·) else none
      | _ => none
    else if isSecondHalf n then none
    else (text? ps).map (.ofNat n :: ·)

/-- A literal with its quotes, and the text it stands for if it stands for one. -/
inductive Literal : List Char → Option (List Char) → Prop where
  | quoted {cs : List Char} {ps : List Piece} : Body cs ps →
      Literal ('"' :: (cs ++ ['"'])) (text? ps)

/-! ## Escapes -/

theorem Named.escape {c d : Char} (h : Named c d) (cs : List Char) :
    escape (c :: cs) = .ok (d, 1) := by
  cases h <;> rfl

theorem named_of_simpleEscape? {c d : Char} (h : simpleEscape? c = some d) : Named c d := by
  unfold simpleEscape? at h
  split at h
  all_goals cases h
  all_goals constructor

theorem Code.length {ds : List Char} {n : Nat} (h : Code ds n) : ds.length = 4 := by
  cases h
  rfl

theorem Code.unit {ds : List Char} {n : Nat} (h : Code ds n) (cs : List Char) :
    unit (ds ++ cs) = .ok n := by
  obtain ⟨ha, hb, hc, hd⟩ := h
  rename_i a b c d w x y z
  have long : 4 ≤ Lexeme.byteLength [a, b, c, d] := by
    have := a.utf8Size_pos
    have := b.utf8Size_pos
    have := c.utf8Size_pos
    have := d.utf8Size_pos
    simp only [Lexeme.byteLength_cons, Lexeme.byteLength_nil]
    omega
  have htake : ([a, b, c, d] ++ cs).take 4 = [a, b, c, d] := rfl
  rw [Quoted.unit, htake, if_neg (Nat.not_lt.mpr long)]
  simp [ha, hb, hc, hd]

theorem mapM_cons_eq_some {α β : Type} {f : α → Option β} {as : List α} {b : β} {bs : List β}
    (h : as.mapM f = some (b :: bs)) : ∃ a rest, as = a :: rest ∧ f a = some b ∧
      rest.mapM f = some bs := by
  cases as with
  | nil => cases h
  | cons a rest =>
    simp only [List.mapM_cons, Option.bind_eq_bind, Option.bind_eq_some_iff, Option.pure_def,
      Option.some.injEq, List.cons.injEq] at h
    obtain ⟨x, hx, xs, hxs, rfl, rfl⟩ := h
    exact ⟨a, rest, rfl, hx, hxs⟩

theorem code_of_unit {cs : List Char} {n : Nat} (h : unit cs = .ok n) :
    ∃ ds rest, cs = ds ++ rest ∧ Code ds n := by
  unfold Quoted.unit at h
  split at h
  · cases h
  split at h
  · rename_i w x y z hdigits
    cases h
    obtain ⟨a, _, ha, hw, hdigits⟩ := mapM_cons_eq_some hdigits
    obtain ⟨b, _, rfl, hx, hdigits⟩ := mapM_cons_eq_some hdigits
    obtain ⟨c, _, rfl, hy, hdigits⟩ := mapM_cons_eq_some hdigits
    obtain ⟨d, more, rfl, hz, -⟩ := mapM_cons_eq_some hdigits
    have hmore : more = [] := by
      have hlength := congrArg List.length ha
      simp only [List.length_take, List.length_cons] at hlength
      exact List.length_eq_zero_iff.mp (by omega)
    subst hmore
    exact ⟨_, _, (List.take_append_drop 4 cs).symm, ha ▸ .digits hw hx hy hz⟩
  · cases h

theorem readFrom_skip (k : Nat) (cs : List Char) : readFrom k cs = readFrom 0 (cs.drop k) := by
  induction cs generalizing k with
  | nil => cases k <;> rfl
  | cons c rest ih =>
    cases k with
    | zero => rfl
    | succ k => rw [readFrom, ih, List.drop_succ_cons]

/-! ## Whole literals -/

theorem readFrom_plain {c : Char} (hc : 0x20 ≤ c.toNat) (hquote : c ≠ '"') (hslash : c ≠ '\\')
    {cs ds rest : List Char} (h : readFrom 0 cs = .ok (ds, rest)) :
    readFrom 0 (c :: cs) = .ok (c :: ds, rest) := by
  have hcontrol : ¬ c.toNat < 0x20 := by omega
  simp [readFrom, hquote, hslash, hcontrol, h, bind, Except.bind, pure, Except.pure]

theorem readFrom_escape {d : Char} {n : Nat} {cs ds rest : List Char}
    (he : escape cs = .ok (d, n)) (h : readFrom 0 (cs.drop n) = .ok (ds, rest)) :
    readFrom 0 ('\\' :: cs) = .ok (d :: ds, rest) := by
  simp [readFrom, he, readFrom_skip n cs, h, bind, Except.bind, pure, Except.pure]

/-- A half of a pair is followed by the other one wherever there is a text. -/
theorem exists_second {n : Nat} {ps : List Piece} {ds : List Char} (first : isFirstHalf n = true)
    (h : text? (.unit n :: ps) = some ds) :
    ∃ m rest es, ps = .unit m :: rest ∧ isSecondHalf m = true ∧ text? rest = some es ∧
      ds = pairChar n m :: es := by
  rcases ps with _ | ⟨c | m, rest⟩
  · simp [text?, first] at h
  · simp [text?, first] at h
  · by_cases second : isSecondHalf m = true
    · simp only [text?, first, second, if_true, Option.map_eq_some_iff] at h
      obtain ⟨es, hes, rfl⟩ := h
      exact ⟨m, rest, es, rfl, second, hes, rfl⟩
    · simp [text?, first, second] at h

theorem text?_single {n : Nat} (first : isFirstHalf n = false) (second : isSecondHalf n = false)
    (ps : List Piece) : text? (.unit n :: ps) = (text? ps).map (.ofNat n :: ·) := by
  rcases ps with _ | ⟨c | m, rest⟩ <;> simp [text?, first, second]

theorem not_isSecondHalf {n : Nat} (first : isFirstHalf n = true) : isSecondHalf n = false := by
  simp only [isFirstHalf, isSecondHalf, Bool.and_eq_true, decide_eq_true_eq,
    Bool.and_eq_false_iff, decide_eq_false_iff_not] at first ⊢
  omega

theorem text?_second {n : Nat} (second : isSecondHalf n = true) (ps : List Piece) :
    text? (.unit n :: ps) = none := by
  have first : isFirstHalf n = false := by
    cases h : isFirstHalf n with
    | false => rfl
    | true => exact (Bool.eq_false_iff.mp (not_isSecondHalf h) second).elim
  rcases ps with _ | ⟨c | m, rest⟩ <;> simp [text?, first, second]

/-- The escape of a unit that is a character by itself. -/
theorem escape_single {ds : List Char} {n : Nat} (code : Code ds n)
    (first : isFirstHalf n = false) (second : isSecondHalf n = false) (cs : List Char) :
    escape ('u' :: (ds ++ cs)) = .ok (.ofNat n, 5) := by
  simp [escape, code.unit, first, second, bind, Except.bind, pure, Except.pure]

/-- The escapes of two halves are read as one. -/
theorem escape_pair {ds es : List Char} {n m : Nat} (high : Code ds n) (low : Code es m)
    (first : isFirstHalf n = true) (second : isSecondHalf m = true) (cs : List Char) :
    escape ('u' :: (ds ++ '\\' :: 'u' :: (es ++ cs))) = .ok (pairChar n m, 11) := by
  simp [escape, high.unit, not_isSecondHalf first, first, List.drop_left' high.length, secondHalf,
    low.unit, second, pairChar, bind, Except.bind, pure, Except.pure]

/-- Literals of the grammar are read to their closing quote. -/
theorem Body.readFrom {cs : List Char} {ps : List Piece} (h : Body cs ps) {ds : List Char}
    (hds : text? ps = some ds) (rest : List Char) :
    readFrom 0 (cs ++ '"' :: rest) = .ok (ds, rest) := by
  -- two halves are one escape, so the next step is not always at the next piece
  induction hn : cs.length using Nat.strongRecOn generalizing cs ps ds with
  | ind n ih =>
    cases h with
    | nil =>
      cases hds
      simp [Quoted.readFrom]
    | plain hc hquote hslash tail =>
      obtain ⟨es, hes, rfl⟩ := Option.map_eq_some_iff.mp hds
      exact readFrom_plain hc hquote hslash (ih _ (by simp [← hn]) tail hes rfl)
    | @named _ _ cs _ hnamed tail =>
      obtain ⟨es, hes, rfl⟩ := Option.map_eq_some_iff.mp hds
      have shorter : cs.length < n := by
        simp only [← hn, List.length_cons]
        omega
      exact readFrom_escape (hnamed.escape _) (ih _ shorter tail hes rfl)
    | @unit us u cs ps code tail =>
      by_cases first : isFirstHalf u = true
      · obtain ⟨m, ps, es, rfl, second, hes, rfl⟩ := exists_second first hds
        -- the second half is the next part of the literal
        cases tail with
        | @unit vs _ cs _ code' tail =>
        have read := ih cs.length (by simp [← hn]; omega) tail hes rfl
        have escaped := escape_pair code code' first second (cs ++ '"' :: rest)
        simp only [List.cons_append, List.append_assoc]
        refine readFrom_escape escaped ?_
        cases code
        cases code'
        exact read
      · have first : isFirstHalf u = false := Bool.eq_false_iff.mpr first
        have second : isSecondHalf u = false := by
          refine Bool.eq_false_iff.mpr fun second => ?_
          rw [text?_second second] at hds
          cases hds
        rw [text?_single first second] at hds
        obtain ⟨es, hes, rfl⟩ := Option.map_eq_some_iff.mp hds
        have read := ih cs.length (by simp [← hn]; omega) tail hes rfl
        have escaped := escape_single code first second (cs ++ '"' :: rest)
        simp only [List.cons_append, List.append_assoc]
        refine readFrom_escape escaped ?_
        cases code
        exact read

/-! ## What is read -/

/-- The ways in which an escape can be read. -/
inductive Escaped : List Char → Char → Nat → Prop where
  | named {c d : Char} {cs : List Char} : Named c d → Escaped (c :: cs) d 1
  | single {ds : List Char} {n : Nat} {cs : List Char} : Code ds n → isFirstHalf n = false →
      isSecondHalf n = false → Escaped ('u' :: (ds ++ cs)) (.ofNat n) 5
  | pair {ds es : List Char} {n m : Nat} {cs : List Char} : Code ds n → Code es m →
      isFirstHalf n = true → isSecondHalf m = true →
      Escaped ('u' :: (ds ++ '\\' :: 'u' :: (es ++ cs))) (pairChar n m) 11

theorem secondHalf_eq_ok {cs : List Char} {m : Nat} (h : secondHalf cs = .ok m) :
    ∃ ds rest, cs = '\\' :: 'u' :: (ds ++ rest) ∧ Code ds m ∧ isSecondHalf m = true := by
  unfold secondHalf at h
  split at h
  · cases h
  · cases h
  · obtain ⟨n, hn, h⟩ := bind_eq_ok h
    split at h
    · rename_i second
      cases h
      obtain ⟨ds, rest, rfl, code⟩ := code_of_unit hn
      exact ⟨ds, rest, rfl, code, second⟩
    · cases h
  · cases h

theorem escaped_of_escape {cs : List Char} {d : Char} {k : Nat} (h : escape cs = .ok (d, k)) :
    Escaped cs d k := by
  unfold escape at h
  split at h
  · cases h
  · obtain ⟨n, hn, h⟩ := bind_eq_ok h
    obtain ⟨ds, rest, rfl, code⟩ := code_of_unit hn
    split at h
    · cases h
    rename_i second
    have second : isSecondHalf n = false := Bool.eq_false_iff.mpr second
    split at h
    · rename_i first
      obtain ⟨m, hm, h⟩ := bind_eq_ok h
      obtain ⟨rfl, rfl⟩ := Prod.mk.inj (Except.ok.inj h)
      rw [List.drop_left' code.length] at hm
      obtain ⟨es, rest, rfl, code', second'⟩ := secondHalf_eq_ok hm
      exact .pair code code' first second'
    · rename_i first
      cases h
      exact .single code (Bool.eq_false_iff.mpr first) second
  · split at h
    · rename_i hnamed
      cases h
      exact .named (named_of_simpleEscape? hnamed)
    · cases h

/-- What is read up to a closing quote is a literal of the grammar. -/
theorem exists_body {cs ds rest : List Char} (h : readFrom 0 cs = .ok (ds, rest)) :
    ∃ body ps, cs = body ++ '"' :: rest ∧ Body body ps ∧ text? ps = some ds := by
  induction hn : cs.length using Nat.strongRecOn generalizing cs ds with
  | ind n ih =>
    cases cs with
    | nil => cases h
    | cons c cs =>
      rw [readFrom] at h
      split at h
      · rename_i hquote
        cases h
        exact ⟨[], [], by rw [hquote]; rfl, .nil, rfl⟩
      rename_i hquote
      split at h
      · rename_i hslash
        subst hslash
        obtain ⟨⟨d, k⟩, hescape, h⟩ := bind_eq_ok h
        obtain ⟨⟨es, after⟩, htail, h⟩ := bind_eq_ok h
        cases h
        rw [readFrom_skip] at htail
        have shorter : (cs.drop k).length < n := by
          simp only [← hn, List.length_drop, List.length_cons]
          omega
        obtain ⟨body, ps, hcs, hbody, hes⟩ := ih _ shorter htail rfl
        cases escaped_of_escape hescape with
        | named hnamed =>
          simp only [List.drop_succ_cons, List.drop_zero] at hcs
          subst hcs
          exact ⟨_, _, rfl, .named hnamed hbody, by simp [text?, hes]⟩
        | @single us u cs code first second =>
          have hcs : cs = body ++ '"' :: rest := by
            cases code
            exact hcs
          subst hcs
          refine ⟨'\\' :: 'u' :: (us ++ body), .unit u :: ps, by simp, .unit code hbody, ?_⟩
          rw [text?_single first second, hes]
          rfl
        | @pair us vs u v cs code code' first second =>
          have hcs : cs = body ++ '"' :: rest := by
            cases code
            cases code'
            exact hcs
          subst hcs
          refine ⟨'\\' :: 'u' :: (us ++ '\\' :: 'u' :: (vs ++ body)), .unit u :: .unit v :: ps,
            by simp, .unit code (.unit code' hbody), ?_⟩
          simp [text?, first, second, hes]
      · rename_i hslash
        split at h
        · cases h
        rename_i hcontrol
        obtain ⟨⟨es, after⟩, htail, h⟩ := bind_eq_ok h
        cases h
        obtain ⟨body, ps, rfl, hbody, hes⟩ := ih cs.length (by simp [← hn]) htail rfl
        refine ⟨c :: body, .char c :: ps, rfl, .plain (by omega) hquote hslash hbody, ?_⟩
        simp [text?, hes]

/-- A literal is decoded to the text it stands for, and nothing else is. -/
theorem decode?_eq_some_iff {cs ds : List Char} :
    decode? cs = some ds ↔ Literal cs (some ds) := by
  constructor
  · intro h
    unfold decode? at h
    split at h
    · rename_i rest
      split at h
      · rename_i read
        cases h
        obtain ⟨body, ps, rfl, hbody, hds⟩ := exists_body read
        exact hds ▸ .quoted hbody
      · cases h
    · cases h
  · intro h
    generalize hd : some ds = d at h
    cases h with
    | quoted hbody =>
      have read : read _ = .ok (ds, []) := hbody.readFrom hd.symm []
      rw [← hd]
      simp [decode?, read]

end TemplateLint.Json.Quoted
