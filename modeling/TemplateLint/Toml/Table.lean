import TemplateLint.Members
import TemplateLint.Toml

/-!
# Tables of TOML

Tables are filled from headers and from keys with points. How a table came to be
decides whether a header may still open it and whether keys may reach into it.
-/

namespace TemplateLint.Toml

/-- A table while it is being filled: whether it may still be opened by a header of its own, and
whether keys with points may add to it. -/
inductive Entry where
  | leaf (value : Toml)
  /-- A table that only stands in headers of tables below it so far. -/
  | implied (members : List (String × Entry))
  /-- A table opened by its own header. -/
  | opened (members : List (String × Entry))
  /-- A table made by keys with points. -/
  | dotted (members : List (String × Entry))
  /-- An array of tables, the latest first. -/
  | tables (latest : List (String × Entry)) (earlier : List Toml)

mutual

def Entry.toToml : Entry → Toml
  | .leaf value => value
  | .implied members => .table (entriesToToml members)
  | .opened members => .table (entriesToToml members)
  | .dotted members => .table (entriesToToml members)
  | .tables latest earlier => .array (earlier.reverse ++ [.table (entriesToToml latest)])

def entriesToToml : List (String × Entry) → List (String × Toml)
  | [] => []
  | (name, e) :: rest => (name, e.toToml) :: entriesToToml rest

end

/-- Sets a key with points in a table. No key may be set twice. Its last part goes into a table
that keys with points make; on the way there, any table will do that has no header of its own,
and the latest one of an array. -/
def setKey (isReachable : Bool) (members : List (String × Entry)) (value : Toml) :
    List String → Option (List (String × Entry))
  | [] => none
  | [name] =>
    if !isReachable || (Members.get? members name).isSome then none
    else some (Members.put members name (.leaf value))
  | name :: rest => do
    match Members.get? members name with
    | none => return Members.put members name (.dotted (← setKey true [] value rest))
    | some (.dotted below) =>
      return Members.put members name (.dotted (← setKey true below value rest))
    | some (.implied below) =>
      return Members.put members name (.implied (← setKey false below value rest))
    | some (.tables latest earlier) =>
      return Members.put members name (.tables (← setKey false latest value rest) earlier)
    | _ => none

/-- Changes the table that a header names. -/
def setIn (f : List (String × Entry) → Option (List (String × Entry)))
    (members : List (String × Entry)) : List String → Option (List (String × Entry))
  | [] => f members
  | name :: rest => do
    match Members.get? members name with
    | some (.implied below) => return Members.put members name (.implied (← setIn f below rest))
    | some (.opened below) => return Members.put members name (.opened (← setIn f below rest))
    | some (.dotted below) => return Members.put members name (.dotted (← setIn f below rest))
    | some (.tables latest earlier) =>
      return Members.put members name (.tables (← setIn f latest rest) earlier)
    | _ => none

/-- Opens the table that a header names, or one more table of an array of tables. -/
def openTable (isArray : Bool) (members : List (String × Entry)) :
    List String → Option (List (String × Entry))
  | [] => none
  | [name] =>
    match Members.get? members name, isArray with
    | none, false => some (Members.put members name (.opened []))
    | none, true => some (Members.put members name (.tables [] []))
    | some (.implied below), false => some (Members.put members name (.opened below))
    | some (.tables latest earlier), true =>
      some (Members.put members name (.tables [] (.table (entriesToToml latest) :: earlier)))
    | _, _ => none
  | name :: rest => do
    match Members.get? members name with
    | none => return Members.put members name (.implied (← openTable isArray [] rest))
    | some (.implied below) =>
      return Members.put members name (.implied (← openTable isArray below rest))
    | some (.opened below) =>
      return Members.put members name (.opened (← openTable isArray below rest))
    | some (.dotted below) =>
      return Members.put members name (.dotted (← openTable isArray below rest))
    | some (.tables latest earlier) =>
      return Members.put members name (.tables (← openTable isArray latest rest) earlier)
    | some (.leaf _) => none

end TemplateLint.Toml
