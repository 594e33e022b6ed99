/-!
# TOML

Settings are written in TOML: keys with values, in tables. Values other than
texts and truth values are told apart only as far as it takes to refuse them
where they do not belong.
-/

namespace TemplateLint

inductive Toml where
  | string (value : String)
  | boolean (value : Bool)
  /-- A number, or a date or time. -/
  | other
  /-- A number that is too large to be stored, or one whose digits are not all of its base. -/
  | valueless
  | array (items : List Toml)
  | table (members : List (String × Toml))

namespace Toml

mutual

/-- Whether every number that a value holds has a value of its own. -/
def isComplete : Toml → Bool
  | .string _ => true
  | .boolean _ => true
  | .other => true
  | .valueless => false
  | .array items => areComplete items
  | .table members => membersAreComplete members

def areComplete : List Toml → Bool
  | [] => true
  | v :: rest => v.isComplete && areComplete rest

def membersAreComplete : List (String × Toml) → Bool
  | [] => true
  | (_, v) :: rest => v.isComplete && membersAreComplete rest

end

end Toml

end TemplateLint
