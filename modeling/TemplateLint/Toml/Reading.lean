import TemplateLint.Toml.Scalar
import TemplateLint.Toml.Table
import TemplateLint.Toml.Text

/-!
# Reading TOML

A text is a table. Its lines set keys in the table that the latest header names.
Within braces and brackets lines may be broken wherever a blank may stand,
except next to the points of a key.
-/

namespace TemplateLint.Toml

/-! ## Values -/

mutual

/-- A value in which no more than `room` arrays and tables stand within each other. -/
def value? (fuel room : Nat) (cs : List Char) : Option (Toml × List Char) :=
  match fuel with
  | 0 => none
  | fuel + 1 =>
    match cs with
    | '[' :: rest => do
      if room = 0 then none
      let (items, rest) ← items? fuel (room - 1) true rest
      return (.array items, rest)
    | '\x7b' :: rest => do
      if room = 0 then none
      let (members, rest) ← members? fuel (room - 1) true [] rest
      return (.table (entriesToToml members), rest)
    | _ =>
      match text? cs with
      | some (t, rest) => some (.string t, rest)
      | none => scalar? cs

def items? (fuel room : Nat) (isFirst : Bool) (cs : List Char) : Option (List Toml × List Char) :=
  match fuel with
  | 0 => none
  | fuel + 1 =>
    match skipLines cs with
    | ']' :: rest => some ([], rest)
    | c :: rest => do
      if !isFirst && c != ',' then none
      match if isFirst then c :: rest else skipLines rest with
      | ']' :: rest => return ([], rest)
      | rest =>
        let (item, rest) ← value? fuel room rest
        let (items, rest) ← items? fuel room false rest
        return (item :: items, rest)
    | [] => none

def members? (fuel room : Nat) (isFirst : Bool) (done : List (String × Entry)) (cs : List Char) :
    Option (List (String × Entry) × List Char) :=
  match fuel with
  | 0 => none
  | fuel + 1 =>
    match skipLines cs with
    | '\x7d' :: rest => some (done, rest)
    | c :: rest => do
      if !isFirst && c != ',' then none
      match if isFirst then c :: rest else skipLines rest with
      | '\x7d' :: rest => return (done, rest)
      | rest =>
        let (names, rest) ← key? rest
        match skipLines rest with
        | '=' :: rest =>
          let (v, rest) ← value? fuel room (skipLines rest)
          members? fuel room false (← setKey true done v names) rest
        | _ => none
    | [] => none

end

/-! ## Texts of settings -/

/-- A header, from behind its bracket: whether it is one of an array, what it names, and the text
from the next line on. -/
def header? (cs : List Char) : Option (Bool × List String × List Char) := do
  let isArray := cs.head? == some '['
  let (names, rest) ← key? (if isArray then cs.drop 1 else cs)
  match isArray, rest with
  | true, ']' :: ']' :: rest => return (isArray, names, ← endLine rest)
  | false, ']' :: rest => return (isArray, names, ← endLine rest)
  | _, _ => none

/-- Reads lines into the table that the latest header named. -/
def readLines (fuel : Nat) (current : List String) (done : List (String × Entry)) (cs : List Char) :
    Option (List (String × Entry)) :=
  match fuel with
  | 0 => none
  | fuel + 1 =>
    match skipLines cs with
    | [] => some done
    | '[' :: rest => do
      let (isArray, names, rest) ← header? rest
      readLines fuel names (← openTable isArray done names) rest
    | cs => do
      let (names, rest) ← key? cs
      match rest with
      | '=' :: rest => do
        let (v, rest) ← value? (2 * rest.length + 2) maxDepth (skipSpaces rest)
        let done ← setIn (fun members => setKey true members v names) done current
        readLines fuel current done (← endLine rest)
      | _ => none

/-- The members of the table that a whole text is. A byte order mark may stand in front. -/
def ofText? (text : List Char) : Option (List (String × Toml)) :=
  let text := if text.head? = some '\uFEFF' then text.drop 1 else text
  (readLines (text.length + 1) [] [] text).map entriesToToml

/-- Keys with points may go through a table that has no header, but not into it. -/
example : (ofText? "[a.b.c]\n[a]\nb.d.e = 1".toList).isSome = true := by decide +kernel
example : (ofText? "[a.b.c]\n[a]\nb.d = 1".toList).isSome = false := by decide +kernel

end TemplateLint.Toml
