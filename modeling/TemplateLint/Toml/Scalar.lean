import TemplateLint.Decimal.Literal
import TemplateLint.Decimal.Numeral
import TemplateLint.Toml

/-!
# Numbers and times of TOML

The forms of integers, of other numbers, and of dates and times. A date is one
of the calendar.
-/

namespace TemplateLint.Toml

/-- Whether a character belongs to a word, which runs up to a blank, a mark or a comment. -/
def isWordChar (c : Char) : Bool := !"=,[]\x7b\x7d \t#\r\n".toList.contains c

/-! ## Numbers -/

/-- A number as a word writes it, without underscores. -/
inductive Number where
  | integer (base : Nat) (text : List Char)
  | real (text : List Char)

/-- An integer fits into 64 bits, with a sign or without; another number has a finite double nearest
to it. -/
def Number.hasValue : Number → Bool
  | .integer base text => (Numeral.integer? base text).any fun n => -.pow 2 63 ≤ n && n < .pow 2 64
  | .real text => (Numeral.double? text).any Double.isFinite

/-- Whether every underscore stands between digits. In front of the first one, a single character
of any other kind will do. -/
def underscoresFit (isDigit : Char → Bool) : List Char → Bool
  | [] => true
  | c :: rest => c != '_' && go true rest
where
  go (afterDigit : Bool) : List Char → Bool
    | [] => true
    | c :: rest =>
      if c = '_' then afterDigit && rest.head?.any isDigit && go false rest
      else go (isDigit c) rest

def dropUnderscores (cs : List Char) : List Char := cs.filter (· != '_')

def isBody (c : Char) : Bool := c.isDigit || c == '_'

/-- Whether a run of digits and underscores has digits, and needs all zeros in front. -/
def isRun (allowsZeros : Bool) (cs : List Char) : Bool :=
  let digits := (cs.filter Char.isDigit).length
  digits = 1 || (1 < digits && (allowsZeros || cs.head? != some '0'))

def isExponent (cs : List Char) : Bool :=
  match cs with
  | [] => true
  | c :: rest => (c == 'e' || c == 'E') && (Numeral.splitSign rest).2.all isBody && isRun true rest

/-- Whether a text without a sign has a whole part, then maybe a fraction and an exponent. -/
def isReal (cs : List Char) : Bool :=
  isRun false (cs.takeWhile isBody) &&
    match cs.dropWhile isBody with
    | '.' :: rest => isRun true (rest.takeWhile isBody) && isExponent (rest.dropWhile isBody)
    | rest => isExponent rest

def baseOf? : Char → Option Nat
  | 'x' => some 16
  | 'o' => some 8
  | 'b' => some 2
  | _ => none

/-- The number that a word writes in base ten. A point or an exponent makes it a real one. Of an
integer, only what stands next to an underscore is looked at here; whether its characters are
digits at all decides on its value. -/
def decimal? (word : List Char) : Option Number :=
  let cs := (Numeral.splitSign word).2
  let rest := cs.dropWhile Char.isDigit
  if rest.any fun c => c == '.' || c == 'e' || c == 'E' then
    if isReal cs && underscoresFit Char.isDigit word then some (.real (dropUnderscores word))
    else none
  else if cs.isEmpty || (cs.head? = some '0' && 1 < cs.length) then none
  else if (rest.isEmpty || rest.head? = some '_') && underscoresFit (Numeral.isDigit 16) word then
    some (.integer 10 (dropUnderscores word))
  else none

/-- The number that a word writes. In another base than ten it may have no digits. -/
def number? (word : List Char) : Option Number :=
  match word with
  | '0' :: c :: rest =>
    match baseOf? c with
    | none => decimal? word
    | some base =>
      if rest.all (fun d => Numeral.isDigit base d || d == '_') &&
          underscoresFit (Numeral.isDigit base) rest then
        some (.integer base (dropUnderscores rest))
      else none
  | _ => decimal? word

/-- The words for what is no number and for the infinite. -/
def isSpecial (cs : List Char) : Bool :=
  ["inf".toList, "nan".toList].contains (Numeral.splitSign cs).2

/-! ## Dates and times -/

/-- The number that the first digits of a text write, if all that are wanted are there. -/
def leading? (n : Nat) (cs : List Char) : Option Nat :=
  let ds := cs.take n
  if ds.length = n ∧ ds.all Char.isDigit then some (Decimal.Literal.natOfDigits ds) else none

def isIn (n least greatest : Nat) (cs : List Char) : Bool :=
  (leading? n cs).any fun value => least ≤ value && value ≤ greatest

def isLeapYear (year : Nat) : Bool := year % 4 == 0 && (year % 100 != 0 || year % 400 == 0)

def daysIn (year month : Nat) : Nat :=
  if month = 2 then if isLeapYear year then 29 else 28
  else if [4, 6, 9, 11].contains month then 30
  else 31

def isDate (cs : List Char) : Bool :=
  match leading? 4 cs, leading? 2 (cs.drop 5) with
  | some year, some month =>
    (cs.drop 4).head? == some '-' && 1 ≤ month && month ≤ 12 && (cs.drop 7).head? == some '-' &&
      isIn 2 1 (daysIn year month) (cs.drop 8) && cs.length == 10
  | _, _ => false

/-- Hours and minutes, then maybe seconds, then maybe a fraction of a second. -/
def isTime (cs : List Char) : Bool :=
  isIn 2 0 23 cs && (cs.drop 2).head? == some ':' && isIn 2 0 59 (cs.drop 3) &&
    match cs.drop 5 with
    | [] => true
    | ':' :: seconds =>
      isIn 2 0 60 seconds &&
        match seconds.drop 2 with
        | [] => true
        | '.' :: rest => !rest.isEmpty && rest.all Char.isDigit
        | _ => false
    | _ => false

def isOffset (cs : List Char) : Bool :=
  match cs with
  | [] => true
  | c :: rest =>
    ((c == 'Z' || c == 'z') && rest.isEmpty) ||
      ((c == '+' || c == '-') && isIn 2 0 23 rest && (rest.drop 2).head? == some ':' &&
        isIn 2 0 59 (rest.drop 3) && rest.length == 5)

def isMoment (cs : List Char) : Bool :=
  let isClock := fun c : Char => c.isDigit || c == ':' || c == '.'
  isDate cs || isTime cs ||
    (isDate (cs.take 10) && ((cs.drop 10).head?.any fun c => c == 'T' || c == 't' || c == ' ') &&
      isTime ((cs.drop 11).takeWhile isClock) && isOffset ((cs.drop 11).dropWhile isClock))

/-- Whether a word is to be read as a date or time, by what follows its first digits. -/
def isMomentLike (cs : List Char) : Bool :=
  let rest := (Numeral.splitSign cs).2.dropWhile Char.isDigit
  rest.head? = some '-' || rest.head? = some ':'

/-! ## Words -/

/-- The value that a word writes. -/
def ofWord? (word : List Char) : Option Toml :=
  if word = "true".toList then some (.boolean true)
  else if word = "false".toList then some (.boolean false)
  else if isSpecial word then some .other
  else if isMomentLike word then if isMoment word then some .other else none
  else (number? word).map fun n => if n.hasValue then .other else .valueless

/-- A truth value, a number, or a date or time, which a blank may divide. -/
def scalar? (cs : List Char) : Option (Toml × List Char) :=
  let word := cs.takeWhile isWordChar
  let rest := cs.dropWhile isWordChar
  let later := (rest.drop 1).takeWhile isWordChar
  if rest.head? = some ' ' && isDate word && isMoment (word ++ ' ' :: later) then
    some (.other, (rest.drop 1).dropWhile isWordChar)
  else (ofWord? word).map (·, rest)

example : isDate "2024-02-29".toList = true ∧ isDate "2023-02-29".toList = false := by
  decide +kernel
example : (number? "0x".toList).map Number.hasValue = some false := by decide +kernel

end TemplateLint.Toml
