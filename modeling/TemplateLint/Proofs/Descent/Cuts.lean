import TemplateLint.Proofs.Lexemes
import TemplateLint.Tree.Descent

/-!
# Cutting tokens

The text of a token can be cut out of the source, and its quotes can be cut off
a string token: none of these cuts falls behind the end of a text or into a
character.
-/

namespace TemplateLint

open Lexeme (byteLength longest closedLength tokens)

namespace Descent

theorem cutAt?_append (front back : List Char) :
    cutAt? (byteLength front) (front ++ back) = some (front, back) := by
  induction front with
  | nil =>
    rw [Lexeme.byteLength_nil, List.nil_append, cutAt?]
  | cons c rest ih =>
    obtain ⟨n, hn⟩ := Nat.exists_eq_add_one.mpr (Char.utf8Size_pos c)
    have length : byteLength (c :: rest) = n + byteLength rest + 1 := by
      rw [Lexeme.byteLength_cons]
      omega
    have behind : n + byteLength rest + 1 - c.utf8Size = byteLength rest := by omega
    rw [length, List.cons_append, cutAt?, if_pos (by omega), behind, ih]
    rfl

theorem slice?_append (front part back : List Char) :
    slice? (front ++ (part ++ back)) (byteLength front) (byteLength front + byteLength part) =
      some part := by
  simp [slice?, cutAt?_append]

end Descent

namespace Lexeme

/-- A literal with a closing quote ends with it. -/
theorem closedLength_ends {cs : List Char} {n : Nat} (h : closedLength cs = some n) :
    ∃ body, cs.take n = body ++ ['"'] := by
  fun_induction closedLength cs generalizing n with
  | case1 => cases h
  | case2 rest =>
    cases h
    exact ⟨[], rfl⟩
  | case3 => cases h
  | case4 => cases h
  | case5 c rest hc ih =>
    obtain ⟨m, hm, rfl⟩ := Option.map_eq_some_iff.mp h
    obtain ⟨body, hbody⟩ := ih hm
    exact ⟨'\\' :: c :: body, by simp [hbody]⟩
  | case6 c rest _ _ _ ih =>
    obtain ⟨m, hm, rfl⟩ := Option.map_eq_some_iff.mp h
    obtain ⟨body, hbody⟩ := ih hm
    exact ⟨c :: body, by simp [hbody]⟩

theorem longest_quote {c : Char} {rest : List Char} {token : Token}
    (h : (longest c rest).1 = some token)
    (hstring : token = .string ∨ token = .unterminatedString) : c = '"' := by
  unfold longest keyword at h
  grind

theorem longest_string {c : Char} {rest : List Char} (h : (longest c rest).1 = some .string) :
    ∃ body, (c :: rest).take (longest c rest).2 = '"' :: (body ++ ['"']) := by
  obtain rfl := longest_quote h (Or.inl rfl)
  cases hclosed : closedLength rest with
  | none => simp [longest, hclosed] at h
  | some n =>
    obtain ⟨body, hbody⟩ := closedLength_ends hclosed
    exact ⟨body, by simp [longest, hclosed, hbody]⟩

theorem longest_unterminated {c : Char} {rest : List Char}
    (h : (longest c rest).1 = some .unterminatedString) :
    ∃ body, (c :: rest).take (longest c rest).2 = '"' :: body := by
  obtain rfl := longest_quote h (Or.inr rfl)
  cases hclosed : closedLength rest with
  | none => exact ⟨rest.take (openLength rest), by simp [longest, hclosed]⟩
  | some n => simp [longest, hclosed] at h

variable {source : List Char} {t : Lexeme Token}

/-- A token stands in the source between what comes before it and what comes after it. -/
theorem stands_of_mem_tokens (h : t ∈ tokens source) : ∃ before after,
    source = before ++ (t.text ++ after) ∧
      t.span = ⟨byteLength before, byteLength before + byteLength t.text⟩ := by
  obtain ⟨l, hl, hs⟩ := List.mem_filterMap.mp h
  obtain ⟨-, hspan, htext⟩ := significant?_eq_some hs
  obtain ⟨tiling, htiles, -⟩ := listFrom_spec 0 source
  obtain ⟨before, after, hsplit⟩ := List.append_of_mem hl
  rw [ofText] at hsplit
  rw [hsplit] at tiling htiles
  refine ⟨before.flatMap (·.text), after.flatMap (·.text), ?_, ?_⟩
  · rw [← tiling, ← htext, List.flatMap_append, List.flatMap_cons]
  · rw [← hspan, htiles.span, ← htext, Nat.zero_add]
    rfl

/-- A token is the longest that the text begins with where it stands. -/
theorem longest_of_mem_tokens (h : t ∈ tokens source) : ∃ c rest,
    (longest c rest).1 = some t.kind ∧ t.text = (c :: rest).take (longest c rest).2 := by
  obtain ⟨l, hl, hs⟩ := List.mem_filterMap.mp h
  obtain ⟨hkind, -, htext⟩ := significant?_eq_some hs
  obtain ⟨c, rest, hlongest, hcut⟩ := (listFrom_spec 0 source).2.2 l hl
  exact ⟨c, rest, hlongest ▸ hkind, htext ▸ hcut⟩

theorem text_of_string (h : t ∈ tokens source) (hkind : t.kind = .string) :
    ∃ body, t.text = '"' :: (body ++ ['"']) := by
  obtain ⟨c, rest, hlongest, hcut⟩ := longest_of_mem_tokens h
  obtain ⟨body, hbody⟩ := longest_string (hkind ▸ hlongest)
  exact ⟨body, hcut.trans hbody⟩

theorem text_of_unterminated (h : t ∈ tokens source) (hkind : t.kind = .unterminatedString) :
    ∃ body, t.text = '"' :: body := by
  obtain ⟨c, rest, hlongest, hcut⟩ := longest_of_mem_tokens h
  obtain ⟨body, hbody⟩ := longest_unterminated (hkind ▸ hlongest)
  exact ⟨body, hcut.trans hbody⟩

theorem kind_ne_whitespace (h : t ∈ tokens source) : t.kind ≠ .whitespace := by
  obtain ⟨l, -, hs⟩ := List.mem_filterMap.mp h
  intro hwhite
  have hkind := (significant?_eq_some hs).1
  rw [hwhite] at hkind
  simp [significant?, hkind] at hs

end Lexeme

namespace Descent

variable {source : List Char} {t : Lexeme Token}

theorem slice?_token (h : t ∈ tokens source) :
    slice? source t.span.start t.span.stop = some t.text := by
  obtain ⟨before, after, hsource, hspan⟩ := Lexeme.stands_of_mem_tokens h
  rw [hsource, hspan, slice?_append]

/-- The text of a string token from behind its opening quote. -/
theorem slice?_unterminated (h : t ∈ tokens source) (hkind : t.kind = .unterminatedString) :
    slice? t.text 1 (byteLength t.text) = some (t.text.drop 1) := by
  obtain ⟨body, hbody⟩ := Lexeme.text_of_unterminated h hkind
  have cut := slice?_append ['"'] body []
  rw [List.append_nil] at cut
  rw [hbody]
  exact cut

/-- The text of a string token between its quotes. -/
theorem slice?_string (h : t ∈ tokens source) (hkind : t.kind = .string) :
    slice? t.text 1 (byteLength t.text - 1) = some (t.text.drop 1).dropLast := by
  obtain ⟨body, hbody⟩ := Lexeme.text_of_string h hkind
  have cut := slice?_append ['"'] body ['"']
  have length : byteLength ('"' :: (body ++ ['"'])) - 1 = 1 + byteLength body := by
    simp only [Lexeme.byteLength_cons, Lexeme.byteLength_append, Lexeme.byteLength_nil]
    have quote : '"'.utf8Size = 1 := rfl
    omega
  rw [hbody, length, List.drop_one, List.tail_cons, List.dropLast_concat]
  exact cut

end Descent

end TemplateLint
