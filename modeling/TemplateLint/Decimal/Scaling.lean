import TemplateLint.Decimal.Literal

/-!
# Numbers by scaling

A short way from a literal to a number: of its digits no more are kept than 64
bits hold, and what they make is multiplied or divided by a power of ten. Every
step rounds, so the number need not be the one nearest to the literal.
-/

namespace TemplateLint

namespace Double

/-- The exponent of the largest power of ten that is a finite number. -/
def largestPower : Nat := 308

def powerOfTen (exponent : Nat) : Double := .ofDecimal false 1 exponent

/-- A number times a power of ten. A zero stays as it is, however large the power. -/
def scaleUp (x : Double) (exponent : Nat) : Double :=
  if x.sameValue zero then x else x.mul (powerOfTen exponent)

/-- A number divided by a power of ten. Where the power is too large to be a number, the largest
one is divided by first, unless nothing is left to divide. -/
def scaleDown (x : Double) (exponent : Nat) : Double :=
  if exponent ≤ largestPower then x.div (powerOfTen exponent)
  else if x.sameValue zero then x
  else scaleDown (x.div (powerOfTen largestPower)) (exponent - largestPower)
termination_by exponent
decreasing_by
  unfold largestPower at *
  omega

/-- A significand with a power of ten. -/
def scaled (negative : Bool) (significand : Nat) (exponent : Int) : Double :=
  let x := ofQuotient negative significand 1
  match exponent with
  | .ofNat e => x.scaleUp e
  | .negSucc e => x.scaleDown (e + 1)

end Double

namespace Decimal.Literal

/-- The number that 64 bits hold of a number and the digits behind it, and how many of the digits
are in it. -/
def gather (n : Nat) : List Char → Nat × Nat
  | [] => (n, 0)
  | d :: ds =>
    let next := 10 * n + (d.toNat - '0'.toNat)
    if next < .pow 2 64 then
      let (m, count) := gather next ds
      (m, count + 1)
    else (n, 0)

/-- The number that a literal comes to by scaling. Digits of the whole part that are left out make
the power of ten larger; those of the fraction do not count. -/
def toScaled (l : Literal) : Double :=
  let (whole, kept) := gather 0 l.whole
  let (significand, behind) := gather whole (l.fraction.getD [])
  let exponent := (l.exponent.map Exponent.value).getD 0
  .scaled l.negative significand (exponent + (l.whole.length - kept : Nat) - behind)

end Decimal.Literal

end TemplateLint
