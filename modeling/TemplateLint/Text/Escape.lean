/-!
# Escapes

Escapes that name a character, by a letter or by its code. Formats differ in
the letters they know; those below share the letters that announce a code and
the number of digits behind each.
-/

namespace TemplateLint.Text

def hexValue? (c : Char) : Option Nat :=
  if c.isDigit then some (c.toNat - '0'.toNat)
  else if 'a' ≤ c ∧ c ≤ 'f' then some (c.toNat - 'a'.toNat + 10)
  else if 'A' ≤ c ∧ c ≤ 'F' then some (c.toNat - 'A'.toNat + 10)
  else none

/-- How many digits of a code a letter announces. -/
def codeLength? : Char → Option Nat
  | 'x' => some 2
  | 'u' => some 4
  | 'U' => some 8
  | _ => none

/-- The character that an escape stands for, and the length of the escape behind its backslash;
`named?` reads the letters that stand for a character. -/
def escape? (named? : Char → Option Char) : List Char → Option (Char × Nat)
  | [] => none
  | c :: rest =>
    match codeLength? c with
    | none => (named? c).map fun d => (d, 1)
    | some n => do
      let digits ← (rest.take n).mapM hexValue?
      let code := digits.foldl (fun total d => 16 * total + d) 0
      if digits.length = n ∧ code.isValidChar then some (.ofNat code, n + 1) else none

example : escape? (fun _ => none) ['x', '4', '1', '0'] = some ('A', 3) := by decide

end TemplateLint.Text
