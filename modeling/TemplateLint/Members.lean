/-!
# Members

Named values in the order in which their names were first written. A name
stands at most once in a list built by `put`; writing it again changes its
value and keeps its place.
-/

namespace TemplateLint.Members

variable {α : Type}

def get? (ms : List (String × α)) (name : String) : Option α :=
  match ms with
  | [] => none
  | (n, v) :: rest => if n = name then some v else get? rest name

def put (ms : List (String × α)) (name : String) (value : α) : List (String × α) :=
  match ms with
  | [] => [(name, value)]
  | (n, v) :: rest => if n = name then (n, value) :: rest else (n, v) :: put rest name value

def ofList (ms : List (String × α)) : List (String × α) :=
  ms.foldl (fun done (name, value) => put done name value) []

def names (ms : List (String × α)) : List String := ms.map Prod.fst

/-- The list with one value changed, if the name is there. -/
def modify (ms : List (String × α)) (name : String) (f : α → α) : List (String × α) :=
  match ms with
  | [] => []
  | (n, v) :: rest => if n = name then (n, f v) :: rest else (n, v) :: modify rest name f

@[simp] theorem get?_put (ms : List (String × α)) (name other : String) (value : α) :
    get? (put ms name value) other = if name = other then some value else get? ms other := by
  induction ms with
  | nil => rfl
  | cons m rest ih =>
    obtain ⟨n, v⟩ := m
    by_cases h : n = name
    · subst h
      by_cases ho : n = other <;> simp [put, get?, ho]
    · by_cases hn : n = other
      · subst hn
        simp [put, get?, h, Ne.symm h]
      · simp [put, get?, h, hn, ih]

@[simp] theorem names_modify (ms : List (String × α)) (name : String) (f : α → α) :
    names (modify ms name f) = names ms := by
  induction ms with
  | nil => rfl
  | cons m rest ih =>
    obtain ⟨n, v⟩ := m
    by_cases h : n = name
    · simp [modify, names, h]
    · simpa [modify, names, h] using ih

theorem get?_eq_none_iff (ms : List (String × α)) (name : String) :
    get? ms name = none ↔ name ∉ names ms := by
  induction ms with
  | nil => simp [get?, names]
  | cons m rest ih =>
    obtain ⟨n, v⟩ := m
    by_cases h : n = name
    · simp [get?, names, h]
    · simp only [get?, h, if_false, ih, names, List.map_cons, List.mem_cons]
      grind

end TemplateLint.Members
