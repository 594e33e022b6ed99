import TemplateLint.Yaml
import TemplateLint.Yaml.Token

/-!
# Reading YAML

A text holds one document or none. Its value is put together from its tokens;
where none stands for a key, an item or a value, that is left out.
-/

namespace TemplateLint.Yaml

/-- Where a value stands, which decides on the forms that it may have. -/
inductive Stance where
  | flow
  | block
  /-- Next to a colon in block form, where the items of a list need no column of their own. -/
  | member
deriving DecidableEq

mutual

def valueOfTokens? (fuel : Nat) (stance : Stance) (ts : List Token) : Option (Yaml × List Token) :=
  match fuel with
  | 0 => none
  | fuel + 1 =>
    match ts with
    | .scalar text isPlain :: rest => some (.scalar text isPlain, rest)
    | .listStart :: rest => (flowItems? fuel true rest).map fun (ys, rest) => (.list ys, rest)
    | .mapStart :: rest => (flowMembers? fuel true rest).map fun (ms, rest) => (.map ms, rest)
    | .blockList :: rest =>
      if stance = .flow then none
      else (blockItems? fuel rest).map fun (ys, rest) => (.list ys, rest)
    | .blockMap :: rest =>
      if stance = .flow then none
      else (blockMembers? fuel rest).map fun (ms, rest) => (.map ms, rest)
    | .item :: rest =>
      if stance = .member then
        (bareItems? fuel (.item :: rest)).map fun (ys, rest) => (.list ys, rest)
      else none
    | _ => none

/-- A value that is left out where one of some tokens comes next. -/
def valueUnless? (fuel : Nat) (ends : List Token) (stance : Stance) (ts : List Token) :
    Option (Yaml × List Token) :=
  match fuel with
  | 0 => none
  | fuel + 1 =>
    if ts.head?.any ends.contains then some (absent, ts) else valueOfTokens? fuel stance ts

/-- The value of a key, from its colon on. -/
def memberValue? (fuel : Nat) (ends : List Token) (stance : Stance) (ts : List Token) :
    Option (Yaml × List Token) :=
  match fuel with
  | 0 => none
  | fuel + 1 =>
    match ts with
    | .value :: rest => valueUnless? fuel ends stance rest
    | _ => some (absent, ts)

def blockItems? (fuel : Nat) (ts : List Token) : Option (List Yaml × List Token) :=
  match fuel with
  | 0 => none
  | fuel + 1 =>
    match ts with
    | .blockEnd :: rest => some ([], rest)
    | .item :: rest => do
      let (y, rest) ← valueUnless? fuel [.item, .blockEnd] .block rest
      let (ys, rest) ← blockItems? fuel rest
      return (y :: ys, rest)
    | _ => none

/-- Items in the column of the key that they belong to. -/
def bareItems? (fuel : Nat) (ts : List Token) : Option (List Yaml × List Token) :=
  match fuel with
  | 0 => none
  | fuel + 1 =>
    match ts with
    | .item :: rest => do
      let (y, rest) ← valueUnless? fuel [.item, .key, .value, .blockEnd] .block rest
      let (ys, rest) ← bareItems? fuel rest
      return (y :: ys, rest)
    | _ => some ([], ts)

def blockMembers? (fuel : Nat) (ts : List Token) : Option (List (Yaml × Yaml) × List Token) :=
  match fuel with
  | 0 => none
  | fuel + 1 =>
    match ts with
    | .blockEnd :: rest => some ([], rest)
    | .key :: rest => do
      let (key, rest) ← valueUnless? fuel [.key, .value, .blockEnd] .member rest
      let (y, rest) ← memberValue? fuel [.key, .value, .blockEnd] .member rest
      let (ms, rest) ← blockMembers? fuel rest
      return ((key, y) :: ms, rest)
    | _ => none

/-- The items of a list in flow form; a key with a value is a map of its own. -/
def flowItems? (fuel : Nat) (isFirst : Bool) (ts : List Token) :
    Option (List Yaml × List Token) :=
  match fuel with
  | 0 => none
  | fuel + 1 =>
    match ts with
    | .listEnd :: rest => some ([], rest)
    | t :: rest => do
      if !isFirst && t != .comma then none
      match if isFirst then ts else rest with
      | .listEnd :: rest => return ([], rest)
      | .key :: rest =>
        let (key, rest) ← flowKey? fuel rest
        let (y, rest) ← memberValue? fuel [.comma, .listEnd] .flow rest
        let (ys, rest) ← flowItems? fuel false rest
        return (.map [(key, y)] :: ys, rest)
      | ts =>
        let (y, rest) ← valueOfTokens? fuel .flow ts
        let (ys, rest) ← flowItems? fuel false rest
        return (y :: ys, rest)
    | [] => none

/-- The key of a map that is an item of a list; one that is left out takes the token that comes
next with it. -/
def flowKey? (fuel : Nat) (ts : List Token) : Option (Yaml × List Token) :=
  match fuel with
  | 0 => none
  | fuel + 1 =>
    match ts with
    | .value :: rest | .comma :: rest | .listEnd :: rest => some (absent, rest)
    | _ => valueOfTokens? fuel .flow ts

def flowMembers? (fuel : Nat) (isFirst : Bool) (ts : List Token) :
    Option (List (Yaml × Yaml) × List Token) :=
  match fuel with
  | 0 => none
  | fuel + 1 =>
    match ts with
    | .mapEnd :: rest => some ([], rest)
    | t :: rest => do
      if !isFirst && t != .comma then none
      match if isFirst then ts else rest with
      | .mapEnd :: rest => return ([], rest)
      | .key :: rest =>
        let (key, rest) ← valueUnless? fuel [.value, .comma, .mapEnd] .flow rest
        let (y, rest) ← memberValue? fuel [.comma, .mapEnd] .flow rest
        let (ms, rest) ← flowMembers? fuel false rest
        return ((key, y) :: ms, rest)
      | ts =>
        let (key, rest) ← valueOfTokens? fuel .flow ts
        let (ms, rest) ← flowMembers? fuel false rest
        return ((key, absent) :: ms, rest)
    | [] => none

end

/-- The value of the only document that tokens hold. -/
def ofTokens? (ts : List Token) : Option Yaml := do
  let fuel := 4 * ts.length + 4
  let (y, rest) ←
    match ts with
    | [] | [.documentStart] => some (absent, [])
    | .documentStart :: rest => valueUnless? fuel [.documentStart, .documentEnd] .block rest
    | _ => valueOfTokens? fuel .block ts
  if rest.all (· == .documentEnd) then some y else none

/-- How many lists and maps may stand within each other. -/
def maxDepth : Nat := 128

/-- The value that a whole text holds. -/
def ofText? (text : List Char) : Option Yaml :=
  ((tokens? text).bind ofTokens?).filter fun y => decide (y.depth ≤ maxDepth)

example : (ofText? "a: [b\n  c]\n".toList).map depth = some 2 := by decide +kernel
/-- A key and its colon stand on one line. -/
example : (ofText? "\"a\n  b\": c\n".toList).isSome = false := by decide +kernel

end TemplateLint.Yaml
