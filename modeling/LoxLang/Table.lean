/-!
# Tables

A table assigns values to names. Its entries stand in the order in which their names were first put in,
and a name that is put in again keeps its place.
-/

namespace LoxLang

/-- Entries by name. -/
abbrev Table (α : Type) : Type := List (String × α)

namespace Table

/-- The value under a name. -/
def get? {α : Type} (name : String) : Table α → Option α
  | [] => none
  | (key, value) :: rest => if key = name then some value else get? name rest

/-- Whether a name has a value. -/
def has {α : Type} (name : String) (table : Table α) : Bool := (table.get? name).isSome

/-- The table with a value under a name, instead of the one that may be there. -/
def put {α : Type} (name : String) (value : α) : Table α → Table α
  | [] => [(name, value)]
  | (key, old) :: rest => if key = name then (key, value) :: rest else (key, old) :: put name value rest

@[simp] theorem get?_put_self {α : Type} (name : String) (value : α) (table : Table α) :
    (table.put name value).get? name = some value := by
  induction table with
  | nil => simp [put, get?]
  | cons entry rest ih =>
    obtain ⟨key, old⟩ := entry
    by_cases h : key = name <;> simp [put, get?, h, ih]

theorem get?_put_ne {α : Type} {name other : String} (h : name ≠ other) (value : α)
    (table : Table α) : (table.put name value).get? other = table.get? other := by
  induction table with
  | nil => simp [put, get?, h]
  | cons entry rest ih =>
    obtain ⟨key, old⟩ := entry
    by_cases hk : key = name
    · subst hk
      simp [put, get?, h]
    · simp only [put, if_neg hk, get?, ih]

end Table

end LoxLang
