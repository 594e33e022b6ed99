import TemplateLint.Lexeme
import TemplateLint.Text.Escape

/-!
# String literals

A string literal of JSON between its quotes: every character stands for
itself, but for control characters, which are refused, and escapes. An escape
of four digits names a unit of sixteen bits, so that a character beyond those
takes a pair of them.
-/

namespace TemplateLint.Json.Quoted

inductive Fault where
  /-- The text ends within the literal. -/
  | unfinished
  | invalidEscape
  | controlCharacter
  | loneSurrogate
  /-- The first half of a pair is not followed by an escape. -/
  | brokenPair
deriving DecidableEq

/-- The character that a backslash and one more character stand for. -/
def simpleEscape? : Char → Option Char
  | '"' => some '"'
  | '\\' => some '\\'
  | '/' => some '/'
  | 'b' => some '\x08'
  | 'f' => some '\x0c'
  | 'n' => some '\n'
  | 'r' => some '\r'
  | 't' => some '\t'
  | _ => none

/-- The unit named by the four digits at the front of a text. -/
def unit (cs : List Char) : Except Fault Nat :=
  if Lexeme.byteLength (cs.take 4) < 4 then .error .unfinished
  else
    match (cs.take 4).mapM Text.hexValue? with
    | some [a, b, c, d] => .ok (((a * 16 + b) * 16 + c) * 16 + d)
    | _ => .error .invalidEscape

def isFirstHalf (n : Nat) : Bool := 0xD800 ≤ n && n < 0xDC00

def isSecondHalf (n : Nat) : Bool := 0xDC00 ≤ n && n < 0xE000

/-- The second half of a pair, with its backslash. -/
def secondHalf : List Char → Except Fault Nat
  | [] => .error .unfinished
  | ['\\'] => .error .unfinished
  | '\\' :: 'u' :: rest => do
    let n ← unit rest
    if isSecondHalf n then return n else .error .loneSurrogate
  | _ => .error .brokenPair

/-- The character that the escape behind a backslash stands for, and the length of the escape. -/
def escape : List Char → Except Fault (Char × Nat)
  | [] => .error .unfinished
  | 'u' :: rest => do
    let n ← unit rest
    if isSecondHalf n then .error .loneSurrogate
    else if isFirstHalf n then
      let m ← secondHalf (rest.drop 4)
      return (.ofNat ((n - 0xD800) * 1024 + (m - 0xDC00) + 0x10000), 11)
    else return (.ofNat n, 5)
  | c :: _ =>
    match simpleEscape? c with
    | some d => .ok (d, 1)
    | none => .error .invalidEscape

/-- The characters of a literal up to its closing quote, and what follows that. The first `skip`
characters of the text belong to an escape already read. -/
def readFrom (skip : Nat) : List Char → Except Fault (List Char × List Char)
  | [] => .error .unfinished
  | c :: rest =>
    match skip with
    | k + 1 => readFrom k rest
    | 0 =>
      if c = '"' then .ok ([], rest)
      else if c = '\\' then do
        let (d, n) ← escape rest
        let (ds, after) ← readFrom n rest
        return (d :: ds, after)
      else if c.toNat < 0x20 then .error .controlCharacter
      else do
        let (ds, after) ← readFrom 0 rest
        return (c :: ds, after)

/-- Reads a literal from behind its opening quote. -/
def read (cs : List Char) : Except Fault (List Char × List Char) := readFrom 0 cs

/-- The characters that a whole literal stands for. -/
def decode? : List Char → Option (List Char)
  | '"' :: rest =>
    match read rest with
    | .ok (cs, []) => some cs
    | _ => none
  | _ => none

end Quoted

example : Quoted.decode? ['"', '\\', 'u', '0', '0', 'e', '9', '"'] = some ['é'] := by decide
example : Quoted.decode? ['"', '\t', '"'] = none := by decide

end TemplateLint.Json
