/-!
# Recognising numbers

Whether a text is a number of JSON can be told from its bytes alone, one part of
the number after the other, without keeping any of them. What the number is
does not matter here; bytes of characters outside ASCII belong to no part.
-/

namespace TemplateLint.Decimal.Recogniser

/-- The UTF-8 bytes of a text. -/
def bytes (cs : List Char) : List UInt8 := cs.flatMap String.utf8EncodeChar

def isDigit (b : UInt8) : Bool := '0'.toUInt8 ≤ b && b ≤ '9'.toUInt8

/-- What follows leading digits, of which there must be one at least. -/
def digits? (bs : List UInt8) : Option (List UInt8) :=
  let count := (bs.takeWhile isDigit).length
  if 0 < count then some (bs.drop count) else none

def minus : List UInt8 → List UInt8
  | [] => []
  | b :: rest => if b = '-'.toUInt8 then rest else b :: rest

/-- A zero is a whole part of its own. -/
def whole? : List UInt8 → Option (List UInt8)
  | [] => none
  | b :: rest =>
    if b = '0'.toUInt8 then some rest
    else if '1'.toUInt8 ≤ b ∧ b ≤ '9'.toUInt8 then digits? (b :: rest)
    else none

def fraction? : List UInt8 → Option (List UInt8)
  | [] => some []
  | b :: rest => if b = '.'.toUInt8 then digits? rest else some (b :: rest)

def sign : List UInt8 → List UInt8
  | [] => []
  | b :: rest => if b = '+'.toUInt8 ∨ b = '-'.toUInt8 then rest else b :: rest

def power? : List UInt8 → Option (List UInt8)
  | [] => some []
  | b :: rest => if b = 'e'.toUInt8 ∨ b = 'E'.toUInt8 then digits? (sign rest) else some (b :: rest)

/-- What follows a number. -/
def number? (bs : List UInt8) : Option (List UInt8) := do
  let rest ← whole? (minus bs)
  let rest ← fraction? rest
  power? rest

/-- A text is a number if nothing follows one. -/
def accepts (cs : List Char) : Bool := number? (bytes cs) = some []

example : accepts "-0.5e+2".toList = true := by decide +kernel
example : accepts "1.".toList = false := by decide +kernel

end TemplateLint.Decimal.Recogniser
