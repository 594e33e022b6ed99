/-!
# Binary64 numbers

Every finite binary64 number is a whole number of units of 2^-1074, so sums of
units are the numbers themselves: comparison, remainder and rounding are
integer arithmetic. The sign is kept apart because zero has two of them.
-/

namespace TemplateLint

inductive Double where
  | nan
  | infinite (negative : Bool)
  | finite (negative : Bool) (units : Nat)
deriving DecidableEq

namespace Double

/-- The number of units in one. -/
def unitsPerOne : Nat := .pow 2 1074

/-- The largest finite magnitude, in units. -/
def maxUnits : Nat := (.pow 2 53 - 1) * .pow 2 2045

def signed (negative : Bool) (magnitude : Nat) : Int :=
  if negative then -(magnitude : Int) else magnitude

/-! ## Rounding -/

/-- How many low bits of a magnitude lie below its 53 leading ones. -/
def excessBits (units : Nat) : Nat := units.log2 + 1 - 53

/-- A positive quotient rounded to 53 bits; a half goes to the even neighbour. -/
def roundQuotient (numerator denominator : Nat) : Nat :=
  let excess := excessBits (numerator / denominator)
  let step := denominator * .pow 2 excess
  let whole := numerator / step
  let rest := numerator % step
  let rounded := if step < 2 * rest ∨ (2 * rest = step ∧ whole % 2 = 1) then whole + 1 else whole
  rounded * .pow 2 excess

/-- The number nearest to a signed quotient. -/
def ofQuotient (negative : Bool) (numerator denominator : Nat) : Double :=
  let units := roundQuotient (numerator * unitsPerOne) denominator
  if maxUnits < units then .infinite negative else .finite negative units

/-- The number nearest to `digits * 10 ^ exponent`. Exponents far outside the range are settled
without writing out their power. -/
def ofDecimal (negative : Bool) (digits : Nat) (exponent : Int) : Double :=
  if digits = 0 then .finite negative 0
  else if 309 < exponent then .infinite negative
  else if exponent + digits.log2 < -325 then .finite negative 0
  else
    match exponent with
    | .ofNat e => ofQuotient negative (digits * .pow 10 e) 1
    | .negSucc e => ofQuotient negative digits (.pow 10 (e + 1))

def ofInt (n : Int) : Double := ofQuotient (decide (n < 0)) n.natAbs 1

def zero : Double := .finite false 0

/-! ## Comparison -/

/-- Numbers compare by value; a NaN compares with nothing. -/
def compare? : Double → Double → Option Ordering
  | .nan, _ => none
  | _, .nan => none
  | .infinite a, .infinite b => some (Ord.compare b a)
  | .infinite a, .finite _ _ => some (if a then .lt else .gt)
  | .finite _ _, .infinite b => some (if b then .gt else .lt)
  | .finite a m, .finite b n => some (Ord.compare (signed a m) (signed b n))

/-- Equality of values: zeros of either sign are equal, and a NaN equals nothing. -/
def sameValue (a b : Double) : Bool := compare? a b = some .eq

def less (a b : Double) : Bool := compare? a b = some .lt

def atMost (a b : Double) : Bool := less a b || sameValue a b

def isNan (x : Double) : Bool := x = .nan

def isFinite : Double → Bool
  | .finite _ _ => true
  | _ => false

/-! ## Arithmetic -/

/-- The product of two numbers, rounded once. -/
def mul : Double → Double → Double
  | .finite a m, .finite b n => ofQuotient (a != b) (m * n) (unitsPerOne * unitsPerOne)
  | .finite a m, .infinite b => if m = 0 then .nan else .infinite (a != b)
  | .infinite a, .finite b n => if n = 0 then .nan else .infinite (a != b)
  | .infinite a, .infinite b => .infinite (a != b)
  | _, _ => .nan

/-- The quotient of two numbers, rounded once. -/
def div : Double → Double → Double
  | .finite a m, .finite b n =>
    if n = 0 then (if m = 0 then .nan else .infinite (a != b)) else ofQuotient (a != b) m n
  | .finite a _, .infinite b => .finite (a != b) 0
  | .infinite a, .finite b _ => .infinite (a != b)
  | _, _ => .nan

/-- What is left of a number after taking away a divisor as often as it goes into it toward zero;
the rest has the sign of the number. -/
def remainder : Double → Double → Double
  | .finite s m, .finite _ n => if n = 0 then .nan else .finite s (m % n)
  | .finite s m, .infinite _ => .finite s m
  | _, _ => .nan

def isWhole : Double → Bool
  | .finite _ m => m % unitsPerOne = 0
  | _ => false

/-- The integer that a whole number is, within a bound on its magnitude. -/
def toInt? (bound : Nat) : Double → Option Int
  | .finite s m =>
    if m % unitsPerOne = 0 ∧ m < bound * unitsPerOne then some (signed s (m / unitsPerOne))
    else none
  | _ => none

/-! ## Encoding -/

/-- The fields of a magnitude: the exponent field above 52 bits of fraction. -/
def magnitudeBits (units : Nat) : Nat :=
  let excess := excessBits units
  let significand := units / .pow 2 excess
  let hidden := .pow 2 52
  if significand < hidden then significand else (excess + 1) * hidden + (significand - hidden)

def signBit (negative : Bool) : Nat := if negative then .pow 2 63 else 0

/-- The 64-bit pattern of a number. -/
def toBits : Double → Nat
  | .nan => 0x7FF8000000000000
  | .infinite s => signBit s + 0x7FF0000000000000
  | .finite s m => signBit s + magnitudeBits m

end Double

example : Double.toBits (.ofDecimal false 1 (-1)) = 0x3FB999999999999A := by decide +kernel
example : Double.toBits (.ofDecimal true 5 (-324)) = 0x8000000000000001 := by decide +kernel
example : Double.ofDecimal false 18 308 = .infinite false := by decide +kernel
example : (Double.div (.ofInt 1) (.ofInt (-10))) = .ofDecimal true 1 (-1) := by decide +kernel
example : (Double.remainder (.ofInt (-7)) (.ofInt 3)).sameValue (.ofInt (-1)) = true := by
  decide +kernel

end TemplateLint
