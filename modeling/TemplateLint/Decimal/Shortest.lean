import TemplateLint.Double

/-!
# Shortest decimals

The reals that round to a binary64 number form an interval around it. The
shortest decimal of the number is the one with the fewest digits in that
interval, and of those the nearest. It is found by exact integer arithmetic
on one grid of decimals after the other.
-/

namespace TemplateLint

/-- The positive number `0.d₁d₂… * 10 ^ point`, with its first and last digit not zero. -/
structure Decimal where
  digits : List Nat
  point : Int
deriving DecidableEq

/-- Which of two equally near decimals is taken. -/
inductive Tie where
  | up
  | even
deriving DecidableEq

namespace Decimal

def digitsOf (n : Nat) : List Nat := (Nat.toDigits 10 n).map fun c => c.toNat - '0'.toNat

def ofGrid (count : Nat) (exponent : Int) : Decimal :=
  let ds := digitsOf count
  ⟨(ds.reverse.dropWhile (· == 0)).reverse, exponent + ds.length⟩

/-- A magnitude in quarters of a unit, with the distances to both ends of its interval. The numbers
below a power of two are twice as dense as those above it. -/
structure Interval where
  center : Nat
  below : Nat
  above : Nat
  closed : Bool

def Interval.ofUnits (units : Nat) : Interval :=
  let excess := Double.excessBits units
  let significand := units / .pow 2 excess
  let half := 2 * .pow 2 excess
  { center := 4 * units
    below := if significand = .pow 2 52 ∧ 0 < excess then .pow 2 excess else half
    above := half
    closed := significand % 2 = 0 }

/-- Quarters of a unit in one. -/
def quartersPerOne : Nat := 4 * Double.unitsPerOne

/-- Whether a number of quarters, given as a fraction, lies in the interval. -/
def Interval.contains (i : Interval) (numerator denominator : Nat) : Bool :=
  let center := i.center * denominator
  if numerator ≤ center then
    let gap := center - numerator
    gap < i.below * denominator || (i.closed && gap = i.below * denominator)
  else
    let gap := numerator - center
    gap < i.above * denominator || (i.closed && gap = i.above * denominator)

/-- The least `k` with a positive magnitude below `10 ^ k`. -/
def scale (units : Nat) : Int :=
  (Nat.toDigits 10 (units * .pow 10 400 / Double.unitsPerOne)).length - 400

/-- The decimal nearest to the center among the neighbours on the grid of multiples of
`10 ^ exponent` that lie in the interval. -/
def onGrid? (tie : Tie) (i : Interval) (exponent : Int) : Option Decimal :=
  let step := quartersPerOne * .pow 10 exponent.toNat
  let denominator : Nat := .pow 10 (-exponent).toNat
  let low := i.center * denominator / step
  let rest := i.center * denominator % step
  let takesLow := 0 < low && i.contains (low * step) denominator
  let takesHigh := i.contains ((low + 1) * step) denominator
  let prefersLow :=
    if 2 * rest = step then tie = .even && low % 2 = 0 else 2 * rest < step
  if takesLow && (prefersLow || !takesHigh) then some (ofGrid low exponent)
  else if takesHigh then some (ofGrid (low + 1) exponent)
  else none

/-- The shortest decimal of a positive magnitude; seventeen digits always suffice. -/
def shortest (tie : Tie) (units : Nat) : Decimal :=
  let i := Interval.ofUnits units
  let k := scale units
  ((List.range 17).findSome? fun n : Nat => onGrid? tie i (k - ((n + 1 : Nat) : Int))).getD
    (ofGrid (units * .pow 10 1074 / Double.unitsPerOne) (-1074))

end Decimal

end TemplateLint
