/-!
# YAML

A value of YAML is a scalar, a list or a map. A scalar is its text and whether
it was written plain; what a plain scalar means is left to whoever decodes it.
-/

namespace TemplateLint

inductive Yaml where
  | scalar (text : List Char) (isPlain : Bool)
  | list (items : List Yaml)
  | map (members : List (Yaml × Yaml))

namespace Yaml

/-- What stands for a value that is left out. -/
def absent : Yaml := .scalar [] true

mutual

/-- How many lists and maps stand within each other. -/
def depth : Yaml → Nat
  | .scalar _ _ => 0
  | .list items => depthOfItems items + 1
  | .map members => depthOfMembers members + 1

def depthOfItems : List Yaml → Nat
  | [] => 0
  | y :: rest => max y.depth (depthOfItems rest)

def depthOfMembers : List (Yaml × Yaml) → Nat
  | [] => 0
  | (key, y) :: rest => max (max key.depth y.depth) (depthOfMembers rest)

end

end Yaml

end TemplateLint
