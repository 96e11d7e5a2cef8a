import LoxLang.Table

/-!
# Laws of tables
-/

namespace LoxLang

namespace Table
variable {α : Type}

theorem get?_put (name other : String) (value : α) (table : Table α) :
    (table.put name value).get? other = if name = other then some value else table.get? other := by
  by_cases h : name = other
  · subst h
    simp
  · rw [if_neg h, get?_put_ne h]

theorem has_put (name other : String) (value : α) (table : Table α) :
    (table.put name value).has other = (decide (name = other) || table.has other) := by
  unfold has
  by_cases h : name = other
  · subst h
    simp
  · simp [get?_put_ne h, h]

theorem put_put (name : String) (old value : α) (table : Table α) :
    (table.put name old).put name value = table.put name value := by
  induction table with
  | nil => simp [put]
  | cons entry rest ih =>
    obtain ⟨key, first⟩ := entry
    by_cases h : key = name
    · simp [put, h]
    · simp [put, h, ih]

/-- What is found after entries were put into a table is one of them, or was there before. -/
theorem of_get?_foldl_put {β : Type} {key : β → String} {value : β → α} {entries : List β} {table : Table α}
    {name : String} {a : α}
    (h : (entries.foldl (fun table entry => table.put (key entry) (value entry)) table).get? name = some a) :
    (∃ entry ∈ entries, key entry = name ∧ value entry = a) ∨ table.get? name = some a := by
  induction entries generalizing table with
  | nil => exact .inr h
  | cons entry rest ih =>
    rcases ih h with ⟨found, hm, hfound⟩ | h
    · exact .inl ⟨found, List.mem_cons_of_mem entry hm, hfound⟩
    · rw [get?_put] at h
      split at h
      · exact .inl ⟨entry, List.mem_cons_self, ‹_›, Option.some.inj h⟩
      · exact .inr h

end Table

end LoxLang
