import TemplateLint.Double
import TemplateLint.Text.Escape

/-!
# Numerals

Numbers as formats write them that are less strict than JSON: with a sign of
either kind, in several bases, with needless zeros in front, and with digits on
one side of the point only.
-/

namespace TemplateLint.Numeral

def digit? (base : Nat) (c : Char) : Option Nat := (Text.hexValue? c).filter (· < base)

def isDigit (base : Nat) (c : Char) : Bool := (digit? base c).isSome

/-- The number that one digit or more write. -/
def natural? (base : Nat) (cs : List Char) : Option Nat :=
  if cs.isEmpty then none
  else (cs.mapM (digit? base)).map fun ds => ds.foldl (fun n d => base * n + d) 0

def splitSign : List Char → Option Char × List Char
  | '+' :: rest => (some '+', rest)
  | '-' :: rest => (some '-', rest)
  | cs => (none, cs)

/-- The number that digits write with a sign in front or without. -/
def integer? (base : Nat) (cs : List Char) : Option Int :=
  let (sign, cs) := splitSign cs
  (natural? base cs).map (Double.signed (sign = some '-'))

def exponent? : List Char → Option Int
  | [] => some 0
  | c :: rest => if c = 'e' ∨ c = 'E' then integer? 10 rest else none

/-- The double nearest to a decimal with digits before or behind its point. -/
def double? (cs : List Char) : Option Double := do
  let (sign, cs) := splitSign cs
  let whole := cs.takeWhile Char.isDigit
  let rest := cs.dropWhile Char.isDigit
  let behind :=
    match rest with
    | '.' :: rest => rest
    | _ => []
  let hasPoint := rest.head? = some '.'
  let fraction := behind.takeWhile Char.isDigit
  let digits ← natural? 10 (whole ++ fraction)
  let exponent ← exponent? (if hasPoint then behind.dropWhile Char.isDigit else rest)
  return .ofDecimal (sign = some '-') digits (exponent - fraction.length)

example : integer? 16 ['-', '1', 'f'] = some (-31) := by decide
example : double? ['.', '5', 'e', '1'] = double? ['0', '5', '.'] := by decide +kernel

end TemplateLint.Numeral
