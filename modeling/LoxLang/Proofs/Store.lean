import LoxLang.Proofs.Table
import LoxLang.Proofs.Value
import LoxLang.Store.Sequence

/-!
# Laws of the store

What the operations on scopes leave as it was and what they change: opening a scope changes no other one,
and binding a name changes one name of one scope. A name that belongs to a scope is bound there. The items of
lists and the fields of instances come from what was put in.
-/

namespace LoxLang

namespace Store
variable {s : Store} {scope outer : ScopeId} {name : String}

theorem lt_size_of_enclosing (h : s.enclosing? scope = some outer) : scope < s.scopes.size := by
  unfold enclosing? at h
  obtain ⟨found, hf, -⟩ := Option.bind_eq_some_iff.1 h
  exact (Array.getElem?_eq_some_iff.1 hf).1

theorem lt_size_of_binding {value : Value} (h : s.binding? scope name = some value) :
    scope < s.scopes.size := by
  unfold binding? at h
  obtain ⟨found, hf, -⟩ := Option.bind_eq_some_iff.1 h
  exact (Array.getElem?_eq_some_iff.1 hf).1

theorem lt_size_of_bound (h : (s.binding? scope name).isSome) : scope < s.scopes.size := by
  obtain ⟨value, hv⟩ := Option.isSome_iff_exists.1 h
  exact lt_size_of_binding hv

/-! ## Opening a scope -/

theorem newScope_enclosing (s : Store) (bindings : Table Value) (around : Option ScopeId)
    (scope : ScopeId) : (s.newScope bindings around).2.enclosing? scope =
      if scope = s.scopes.size then around else s.enclosing? scope := by
  unfold newScope enclosing?
  rw [Array.getElem?_push]
  split <;> rfl

theorem newScope_binding (s : Store) (bindings : Table Value) (around : Option ScopeId)
    (scope : ScopeId) (name : String) : (s.newScope bindings around).2.binding? scope name =
      if scope = s.scopes.size then bindings.get? name else s.binding? scope name := by
  unfold newScope binding?
  rw [Array.getElem?_push]
  split <;> rfl

theorem newScope_size (s : Store) (bindings : Table Value) (around : Option ScopeId) :
    (s.newScope bindings around).2.scopes.size = s.scopes.size + 1 := by
  simp [newScope]

/-! ## Binding a name -/

theorem define_size (s : Store) (scope : ScopeId) (name : String) (value : Value) :
    (s.define scope name value).scopes.size = s.scopes.size := by
  simp [define]

theorem define_enclosing (s : Store) (scope other : ScopeId) (name : String) (value : Value) :
    (s.define scope name value).enclosing? other = s.enclosing? other := by
  unfold define enclosing?
  rw [Array.getElem?_modify]
  split
  · cases s.scopes[other]? <;> rfl
  · rfl

theorem define_binding_self (h : scope < s.scopes.size) (name other : String) (value : Value) :
    (s.define scope name value).binding? scope other =
      if name = other then some value else s.binding? scope other := by
  unfold define binding?
  rw [Array.getElem?_modify, if_pos rfl, Array.getElem?_eq_getElem h]
  exact Table.get?_put name other value _

theorem define_binding_ne {other : ScopeId} (h : other ≠ scope) (name found : String) (value : Value) :
    (s.define scope name value).binding? other found = s.binding? other found := by
  unfold define binding?
  rw [Array.getElem?_modify, if_neg (Ne.symm h)]

/-- Every binding after a definition is the new one or was there before. -/
theorem define_binding_cases {other : ScopeId} {found : String} {value value' : Value}
    (h : (s.define scope name value).binding? other found = some value') :
    value' = value ∨ s.binding? other found = some value' := by
  by_cases ho : other = scope
  · subst ho
    have hlt := lt_size_of_binding h
    rw [define_size] at hlt
    rw [define_binding_self hlt] at h
    split at h
    · cases h
      exact .inl rfl
    · exact .inr h
  · rw [define_binding_ne ho] at h
    exact .inr h

/-- Binding a name again changes no scope's names. -/
theorem define_bound (h : (s.binding? scope name).isSome) (value : Value) (other : ScopeId)
    (found : String) : ((s.define scope name value).binding? other found).isSome =
      (s.binding? other found).isSome := by
  by_cases ho : other = scope
  · subst ho
    rw [define_binding_self (lt_size_of_bound h)]
    split
    · rename_i hn
      subst hn
      simp [h]
    · rfl
  · rw [define_binding_ne ho]

/-! ## The scope that a name belongs to -/

theorem binder_bound (h : s.binder? scope name = some outer) : (s.binding? outer name).isSome := by
  unfold binder? at h
  exact List.find?_some (p := fun outer => (s.binding? outer name).isSome) h

/-- A name that a scope binds itself belongs to that scope. -/
theorem binder_of_bound (h : (s.binding? scope name).isSome) : s.binder? scope name = some scope := by
  have hsome := Array.getElem?_eq_getElem (lt_size_of_bound h)
  have hchain : ∃ around, s.chain scope = scope :: around := by
    unfold chain chainFrom
    rw [hsome]
    dsimp only
    split
    · exact ⟨_, rfl⟩
    · exact ⟨[], rfl⟩
  obtain ⟨around, hchain⟩ := hchain
  unfold binder?
  rw [hchain, List.find?_cons, h]

theorem binderAt_bound {distance : Nat} (h : s.binderAt? scope distance name = some outer) :
    (s.binding? outer name).isSome := by
  unfold binderAt? at h
  dsimp only at h
  split at h
  · cases h
    assumption
  · cases h

theorem ancestor_succ {distance : Nat} (h : s.enclosing? (s.ancestor distance scope) = some outer) :
    s.ancestor (distance + 1) scope = outer := by
  induction distance generalizing scope with
  | zero =>
    change s.enclosing? scope = some outer at h
    simp only [ancestor, h]
  | succ distance ih =>
    cases hs : s.enclosing? scope with
    | none =>
      simp only [ancestor, hs] at h
      cases h
    | some around =>
      simp only [ancestor, hs] at h ih ⊢
      exact ih h

/-- At no distance at all there is the scope itself. -/
theorem lookupAt_here : s.lookupAt? scope 0 name = s.binding? scope name := by
  unfold lookupAt? binderAt? ancestor
  cases h : s.binding? scope name <;> simp [h]

theorem lookupAt_bound (h : (s.binding? scope name).isSome) : s.lookupAt? scope 0 name ≠ none := by
  rw [lookupAt_here]
  exact Option.ne_none_iff_isSome.2 h

/-! ## Lists and instances -/

section Sequences
variable {list other : ListId} {value : Value} {arguments : List Value}

theorem mem_items_newList {items : Array Value} (h : value ∈ (s.newList items).2.items list) :
    value ∈ items ∨ value ∈ s.items list := by
  unfold newList Store.items at h
  rw [Array.getElem?_push] at h
  split at h
  · exact .inl h
  · exact .inr h

theorem mem_items_modifyList {change : Array Value → Array Value}
    (h : value ∈ (s.modifyList other change).items list) :
    value ∈ change (s.items other) ∨ value ∈ s.items list := by
  unfold modifyList Store.items at h
  rw [Array.getElem?_modify] at h
  split at h
  · rename_i ho
    subst ho
    cases hs : s.lists[other]? with
    | none =>
      rw [hs] at h
      cases (Array.not_mem_empty value h)
    | some items =>
      rw [hs] at h
      refine .inl ?_
      unfold Store.items
      rw [hs]
      exact h
  · exact .inr h

theorem mem_items_setItemAt {index new : Value} (h : value ∈ (s.setItemAt other index new).2.items list) :
    value = new ∨ ∃ list, value ∈ s.items list := by
  unfold setItemAt at h
  split at h
  · rcases mem_items_modifyList h with h | h
    · rcases Array.mem_or_eq_of_mem_setIfInBounds h with h | h
      · exact .inr ⟨other, h⟩
      · exact .inl h
    · exact .inr ⟨list, h⟩
  · exact .inr ⟨list, h⟩

theorem setItemAt_scopes (s : Store) (list : ListId) (index value : Value) :
    (s.setItemAt list index value).2.scopes = s.scopes ∧
      (s.setItemAt list index value).2.instances = s.instances := by
  unfold setItemAt
  split <;> exact ⟨rfl, rfl⟩

theorem itemAt_cases {index : Value} (h : s.itemAt list index = .ok value) :
    value = .nil ∨ value ∈ s.items list := by
  unfold itemAt at h
  dsimp only at h
  generalize hp : position (s.items list).size index = place at h
  rcases place with _ | i
  · cases h
  · change Except.ok ((s.items list)[i]?.getD .nil) = .ok value at h
    cases h
    cases hi : (s.items list)[i]? with
    | none => exact .inl rfl
    | some item => exact .inr (Array.mem_of_getElem? hi)

theorem sliceOf_scopes (s : Store) (list : ListId) (start stop : Value) :
    (s.sliceOf list start stop).2.scopes = s.scopes ∧
      (s.sliceOf list start stop).2.instances = s.instances := by
  unfold sliceOf
  dsimp only
  split <;> exact ⟨rfl, rfl⟩

theorem mem_items_sliceOf {start stop : Value} (h : value ∈ (s.sliceOf other start stop).2.items list) :
    ∃ list, value ∈ s.items list := by
  unfold sliceOf at h
  dsimp only at h
  split at h
  · rcases mem_items_newList h with h | h
    · rw [Array.mem_extract_iff_getElem] at h
      obtain ⟨i, hi, rfl⟩ := h
      exact ⟨other, Array.getElem_mem _⟩
    · exact ⟨list, h⟩
  · exact ⟨list, h⟩

/-- Methods of lists change lists only. -/
theorem callListMethod_scopes (s : Store) (list : ListId) (method : ListMethod) (arguments : List Value) :
    (s.callListMethod list method arguments).2.scopes = s.scopes ∧
      (s.callListMethod list method arguments).2.instances = s.instances := by
  unfold callListMethod
  split
  · exact ⟨rfl, rfl⟩
  · split <;> exact ⟨rfl, rfl⟩
  · exact ⟨rfl, rfl⟩
  · exact ⟨rfl, rfl⟩
  · exact ⟨rfl, rfl⟩
  · exact setItemAt_scopes s list _ _
  · exact sliceOf_scopes s list _ _
  · exact ⟨rfl, rfl⟩

/-- The items of lists after a method come from lists or are arguments. -/
theorem mem_items_callListMethod {method : ListMethod}
    (h : value ∈ (s.callListMethod other method arguments).2.items list) :
    value ∈ arguments ∨ ∃ list, value ∈ s.items list := by
  unfold callListMethod at h
  split at h
  · rcases mem_items_modifyList h with h | h
    · rcases Array.mem_push.1 h with h | h
      · exact .inr ⟨other, h⟩
      · exact .inl (by simp [h])
    · exact .inr ⟨list, h⟩
  · split at h
    · rcases mem_items_modifyList h with h | h
      · rw [← Array.mem_toList_iff, Array.toList_pop] at h
        exact .inr ⟨other, Array.mem_toList_iff.1 (List.dropLast_subset _ h)⟩
      · exact .inr ⟨list, h⟩
    · exact .inr ⟨list, h⟩
  · rcases mem_items_modifyList h with h | h
    · cases Array.not_mem_empty value h
    · exact .inr ⟨list, h⟩
  · exact .inr ⟨list, h⟩
  · exact .inr ⟨list, h⟩
  · rcases mem_items_setItemAt h with h | h
    · exact .inl (by simp [h])
    · exact .inr h
  · exact .inr (mem_items_sliceOf h)
  · exact .inr ⟨list, h⟩

/-- What a method of a list yields is an item or carries no code. -/
theorem callListMethod_value {method : ListMethod}
    (h : (s.callListMethod list method arguments).1 = .ok value) :
    value.CodeFree ∨ value ∈ s.items list := by
  unfold callListMethod at h
  split at h
  · cases h
    exact .inl trivial
  · split at h
    · rename_i last hl
      cases h
      exact .inr (Array.mem_of_back? hl)
    · cases h
  · cases h
    exact .inl trivial
  · cases h
    exact .inl trivial
  · rcases itemAt_cases h with rfl | h
    · exact .inl trivial
    · exact .inr h
  · unfold setItemAt at h
    dsimp only at h
    split at h <;> cases h
    exact .inl trivial
  · unfold sliceOf at h
    dsimp only at h
    split at h <;> cases h
    exact .inl trivial
  · cases h

end Sequences

theorem field_newInstance (s : Store) (object : InstanceId) (name : String) :
    (s.newInstance).2.field? object name = s.field? object name := by
  unfold newInstance field?
  rw [Array.getElem?_push]
  split
  · rename_i h
    subst h
    rw [Array.getElem?_eq_none (Nat.le_refl _)]
    rfl
  · rfl

theorem field_setField {object other : InstanceId} {name found : String} {value new : Value}
    (h : (s.setField other name new).field? object found = some value) :
    value = new ∨ s.field? object found = some value := by
  unfold setField field? at h
  rw [Array.getElem?_modify] at h
  split at h
  · rename_i ho
    subst ho
    cases hs : s.instances[other]? with
    | none =>
      rw [hs] at h
      cases h
    | some fields =>
      rw [hs] at h
      change Table.get? found (Table.put name new fields) = some value at h
      rw [Table.get?_put] at h
      split at h
      · cases h
        exact .inl rfl
      · refine .inr ?_
        unfold field?
        rw [hs]
        exact h
  · exact .inr h

end Store

end LoxLang
