import TemplateLint.Decimal.Shortest

/-!
# Layout of numbers

How a number is written out once its digits are known is a record of
decisions: where positional notation gives way to an exponent, whether a whole
number shows a fraction, what stands for the values that have no digits.
-/

namespace TemplateLint.Decimal

structure Layout where
  /-- The points for which the digits are written positionally; `none` means all of them. -/
  positional : Option (Int × Int)
  /-- Whole numbers end in `.0`. -/
  showsFraction : Bool
  tie : Tie
  nan : String
  infinity : String
  signsInfinity : Bool

namespace Layout

def digitString (ds : List Nat) : String :=
  String.ofList (ds.map fun d => Char.ofNat ('0'.toNat + d))

def zeros (n : Nat) : List Nat := List.replicate n 0

def positionalText (l : Layout) (d : Decimal) : String :=
  let count := d.digits.length
  if d.point ≤ 0 then
    "0." ++ digitString (zeros (-d.point).toNat ++ d.digits)
  else if (count : Int) ≤ d.point then
    digitString (d.digits ++ zeros (d.point - count).toNat) ++
      (if l.showsFraction then ".0" else "")
  else
    digitString (d.digits.take d.point.toNat) ++ "." ++ digitString (d.digits.drop d.point.toNat)

def exponentText (d : Decimal) : String :=
  let fraction := d.digits.drop 1
  digitString (d.digits.take 1) ++ (if fraction.isEmpty then "" else "." ++ digitString fraction) ++
    "e" ++ (if 0 < d.point then "+" else "") ++ toString (d.point - 1)

def decimalText (l : Layout) (d : Decimal) : String :=
  match l.positional with
  | none => l.positionalText d
  | some (least, greatest) =>
    if least ≤ d.point ∧ d.point ≤ greatest then l.positionalText d else exponentText d

def sign (negative : Bool) : String := if negative then "-" else ""

def render (l : Layout) : Double → String
  | .nan => l.nan
  | .infinite negative => sign (negative && l.signsInfinity) ++ l.infinity
  | .finite negative 0 => sign negative ++ (if l.showsFraction then "0.0" else "0")
  | .finite negative units => sign negative ++ l.decimalText (shortest l.tie units)

end Layout

/-- Messages write numbers positionally at any size. -/
def Layout.message : Layout := ⟨none, false, .up, "NaN", "inf", true⟩

/-- JSON text keeps the fraction of a whole number, so that it reads back as a number with one. -/
def Layout.json : Layout := ⟨some (-4, 16), true, .even, "null", "null", false⟩

example : Layout.message.render (.ofDecimal false 1 (-1)) = "0.1" := by decide +kernel
example : Layout.message.render (.ofDecimal true 25 1) = "-250" := by decide +kernel
example : Layout.json.render (.ofDecimal false 15 299) = "1.5e+300" := by decide +kernel

end TemplateLint.Decimal
