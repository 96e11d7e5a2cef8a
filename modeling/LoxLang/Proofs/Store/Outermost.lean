import LoxLang.Proofs.Store.Family

/-!
# Beyond the outermost scope

A noted depth may be greater than the number of scopes around a scope. The walk then ends at the outermost scope
without a word, and what is asked for is looked up there: whether the name counts as undefined depends on what
the outermost scope contains. All depths from that of the outermost scope on therefore come to the same.
-/

namespace LoxLang

namespace Store

/-- The outermost scope is so many hops further out than a scope. -/
inductive Hops (s : Store) (outermost : ScopeId) : Nat → ScopeId → Prop
  | arrived : s.enclosing? outermost = none → Hops s outermost 0 outermost
  | outward {hops : Nat} {scope outer : ScopeId} : s.enclosing? scope = some outer →
      Hops s outermost hops outer → Hops s outermost (hops + 1) scope

section
variable {s : Store} {scope outermost : ScopeId} {hops distance : Nat} {name : String} {value : Value}

/-- The walk goes no further than the outermost scope. -/
theorem Hops.ancestor_eq (h : s.Hops outermost hops scope) (hd : hops ≤ distance) :
    s.ancestor distance scope = outermost := by
  induction h generalizing distance with
  | arrived he => exact ancestor_outermost he distance
  | outward he _ ih =>
    obtain ⟨distance, rfl⟩ := Nat.exists_eq_add_of_le' (Nat.one_le_of_lt hd)
    rw [ancestor_step he]
    exact ih (by omega)

/-- Reading at a distance is reading the one scope there. -/
theorem lookupAt_eq (s : Store) (scope : ScopeId) (distance : Nat) (name : String) :
    s.lookupAt? scope distance name = s.binding? (s.ancestor distance scope) name := by
  unfold lookupAt? binderAt?
  cases h : s.binding? (s.ancestor distance scope) name <;> simp [h]

theorem assignAt_bound (h : (s.binding? (s.ancestor distance scope) name).isSome) (value : Value) :
    s.assignAt? scope distance name value = some (s.define (s.ancestor distance scope) name value) := by
  simp [assignAt?, binderAt?, h]

theorem assignAt_unbound (h : s.binding? (s.ancestor distance scope) name = none) (value : Value) :
    s.assignAt? scope distance name value = none := by
  simp [assignAt?, binderAt?, h]

end

end Store

open Store

/-- Reading and assigning beyond the outermost scope. A name that the outermost scope does not bind is undefined,
and the machine stays as it was. One that it binds is read from it, and an assignment changes this one slot. -/
theorem access_beyond_outermost {m : Machine} {outermost : ScopeId} {hops distance : Nat}
    (h : m.store.Hops outermost hops m.current) (hd : hops < distance) (name : Name) (value : Value) :
    (m.store.binding? outermost name.text = none →
      m.store.lookupAt? m.current distance name.text = none ∧
      m.store.assignAt? m.current distance name.text value = none ∧
      readName (some distance) name m = .failed ⟨.undefinedVariable name.text, name.line⟩ m ∧
      writeName (some distance) name value m = .failed ⟨.undefinedVariable name.text, name.line⟩ m) ∧
    ∀ found, m.store.binding? outermost name.text = some found →
      m.store.lookupAt? m.current distance name.text = some found ∧
      readName (some distance) name m = .done found m ∧
      ∃ store, m.store.assignAt? m.current distance name.text value = some store ∧
        m.store.ChangesSlot store outermost name.text value ∧
        writeName (some distance) name value m = .done () { m with store } := by
  have hwalk := h.ancestor_eq hd.le
  have hread := lookupAt_eq m.store m.current distance name.text
  rw [hwalk] at hread
  constructor
  · intro hnone
    have hassign := assignAt_unbound (hwalk ▸ hnone) value
    rw [hnone] at hread
    refine ⟨hread, hassign, ?_, ?_⟩
    · rw [readName_eq]
      simp only [hread]
      rfl
    · rw [writeName_eq]
      simp only [hassign]
      rfl
  · intro found hfound
    have hbound : (m.store.binding? outermost name.text).isSome := by simp [hfound]
    have hassign := assignAt_bound (hwalk ▸ hbound) value
    rw [hwalk] at hassign
    rw [hfound] at hread
    refine ⟨hread, ?_, _, hassign, define_changesSlot hbound value, ?_⟩
    · rw [readName_eq]
      simp only [hread]
      rfl
    · rw [writeName_eq]
      simp only [hassign]
      rfl

/-- A scope that binds a name, with an empty scope inside, which is the current one. -/
def insideOneScope : Machine where
  store := { scopes := #[⟨[("a", .bool true)], none⟩, ⟨[], some 0⟩] }
  globals := 0
  current := 1

theorem hops_insideOneScope : insideOneScope.store.Hops 0 1 insideOneScope.current :=
  .outward rfl (.arrived rfl)

/-- Two hops out from a scope with one scope around it, one name is undefined and another one is overwritten. -/
theorem access_beyond_outermost_two :
    readName (some 2) ⟨"b", 1⟩ insideOneScope = .failed ⟨.undefinedVariable "b", 1⟩ insideOneScope ∧
    ∃ store, writeName (some 2) ⟨"a", 1⟩ .nil insideOneScope = .done () { insideOneScope with store } ∧
      insideOneScope.store.ChangesSlot store 0 "a" .nil := by
  have hmissing := (access_beyond_outermost hops_insideOneScope (by decide : 1 < 2) ⟨"b", 1⟩ .nil).1 rfl
  obtain ⟨-, -, store, -, hchanges, hwrite⟩ :=
    (access_beyond_outermost hops_insideOneScope (by decide : 1 < 2) ⟨"a", 1⟩ .nil).2 _ rfl
  exact ⟨hmissing.2.2.1, store, hwrite, hchanges⟩

/-- A name may be found, and overwritten, further out than there are scopes. -/
theorem found_beyond_outermost : ¬ ∀ (s : Store) (outermost scope : ScopeId) (hops distance : Nat) (name : String)
    (value : Value), s.Hops outermost hops scope → hops < distance →
      s.lookupAt? scope distance name = none ∧ s.assignAt? scope distance name value = none := by
  intro hall
  have hnone := (hall _ _ _ _ 2 "a" .nil hops_insideOneScope (by decide)).1
  rw [lookupAt_eq, hops_insideOneScope.ancestor_eq (by decide)] at hnone
  cases hnone

end LoxLang
