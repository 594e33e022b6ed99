import TemplateLint.Double

/-!
# Number literals

The grammar of JSON's numbers: an optional minus, a whole part without a
needless leading zero, an optional fraction and an optional exponent. A scan
takes a literal off the front of a text; a literal denotes the nearest
binary64 number.
-/

namespace TemplateLint.Decimal

structure Exponent where
  negative : Bool
  digits : List Char
deriving DecidableEq

structure Literal where
  negative : Bool
  whole : List Char
  fraction : Option (List Char)
  exponent : Option Exponent
deriving DecidableEq

namespace Literal

/-- Why no literal could be taken off a text. -/
inductive Fault where
  /-- The text ends within the literal. -/
  | unfinished
  | malformed
deriving DecidableEq

def missing : List Char → Fault
  | [] => .unfinished
  | _ :: _ => .malformed

/-- One digit or more, and what follows them. -/
def scanDigits (cs : List Char) : Except Fault (List Char × List Char) :=
  match cs.takeWhile Char.isDigit with
  | [] => .error (missing cs)
  | ds => .ok (ds, cs.dropWhile Char.isDigit)

def scanMinus : List Char → Bool × List Char
  | '-' :: rest => (true, rest)
  | cs => (false, cs)

/-- A zero is a whole part of its own, so no digit may follow it. -/
def scanWhole (cs : List Char) : Except Fault (List Char × List Char) :=
  match cs with
  | '0' :: d :: rest => if d.isDigit then .error .malformed else .ok (['0'], d :: rest)
  | _ => scanDigits cs

def scanFraction : List Char → Except Fault (Option (List Char) × List Char)
  | '.' :: rest => (scanDigits rest).map fun (ds, rest) => (some ds, rest)
  | cs => .ok (none, cs)

def scanExponentDigits (negative : Bool) (cs : List Char) :
    Except Fault (Option Exponent × List Char) :=
  (scanDigits cs).map fun (ds, rest) => (some ⟨negative, ds⟩, rest)

def scanSigned : List Char → Except Fault (Option Exponent × List Char)
  | '+' :: rest => scanExponentDigits false rest
  | '-' :: rest => scanExponentDigits true rest
  | cs => scanExponentDigits false cs

def scanExponent : List Char → Except Fault (Option Exponent × List Char)
  | 'e' :: rest => scanSigned rest
  | 'E' :: rest => scanSigned rest
  | cs => .ok (none, cs)

/-- The literal at the front of a text and what follows it. -/
def scan (cs : List Char) : Except Fault (Literal × List Char) := do
  let (negative, cs) := scanMinus cs
  let (whole, cs) ← scanWhole cs
  let (fraction, cs) ← scanFraction cs
  let (exponent, cs) ← scanExponent cs
  return (⟨negative, whole, fraction, exponent⟩, cs)

/-- The literal that a whole text is. -/
def ofText? (cs : List Char) : Option Literal :=
  match scan cs with
  | .ok (l, []) => some l
  | _ => none

def natOfDigits (ds : List Char) : Nat :=
  ds.foldl (fun n d => 10 * n + (d.toNat - '0'.toNat)) 0

def Exponent.value (e : Exponent) : Int := Double.signed e.negative (natOfDigits e.digits)

/-- Written without a fraction and without an exponent. -/
def isInteger (l : Literal) : Bool := l.fraction.isNone && l.exponent.isNone

def toDouble (l : Literal) : Double :=
  let fraction := l.fraction.getD []
  let exponent := (l.exponent.map Exponent.value).getD 0
  .ofDecimal l.negative (natOfDigits (l.whole ++ fraction)) (exponent - fraction.length)

/-- The integer that an integer literal denotes. -/
def toInt (l : Literal) : Int := Double.signed l.negative (natOfDigits l.whole)

end Literal

example : (Literal.ofText? "-0.5e+2".toList).map (·.toDouble) = some (.ofInt (-50)) := by
  decide +kernel
example : Literal.ofText? "01".toList = none := by decide

end TemplateLint.Decimal
