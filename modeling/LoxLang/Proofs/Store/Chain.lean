import Mathlib.Data.Fintype.Sort
import Mathlib.Order.Extension.Linear
import LoxLang.Evaluate
import LoxLang.Proofs.Store

/-!
# The chain of a scope

Names are looked for on the way out from a scope, and a noted depth is walked the same way. The search and the
walk are related here scope by scope: the search stops at the first scope of the walk that binds the name. An
assignment changes one slot, a name in one scope, and no slot at all if it fails.

Scopes are numbered in the order in which they are made, so that each comes behind the one around it. Every
finite family of scopes without circles can be numbered in this way.
-/

namespace LoxLang

namespace Store

/-- Every scope was made after the one around it. -/
def Inward (s : Store) : Prop := ∀ scope outer, s.enclosing? scope = some outer → outer < scope

/-- The scope `holder` is the first one on the way out from a scope that binds the name. -/
inductive Innermost (s : Store) (name : String) : ScopeId → ScopeId → Prop
  | here {scope : ScopeId} : (s.binding? scope name).isSome → Innermost s name scope scope
  | outward {scope outer holder : ScopeId} : s.binding? scope name = none →
      s.enclosing? scope = some outer → Innermost s name outer holder → Innermost s name scope holder

/-- The later store has the value in one slot, a name of a scope, and is the same everywhere else. -/
structure ChangesSlot (s s' : Store) (scope : ScopeId) (name : String) (value : Value) : Prop where
  slot : s'.binding? scope name = some value
  others : ∀ other found, (other, found) ≠ (scope, name) → s'.binding? other found = s.binding? other found
  size : s'.scopes.size = s.scopes.size
  enclosing : ∀ other, s'.enclosing? other = s.enclosing? other
  lists : s'.lists = s.lists
  instances : s'.instances = s.instances
  identities : s'.nextIdentity = s.nextIdentity

section
variable {s : Store} {scope outer holder : ScopeId} {name : String} {value : Value}

/-! ## The walk -/

theorem ancestor_step (h : s.enclosing? scope = some outer) (distance : Nat) :
    s.ancestor (distance + 1) scope = s.ancestor distance outer := by
  simp [ancestor, h]

/-- The walk stays at the outermost scope. -/
theorem ancestor_outermost (h : s.enclosing? scope = none) (distance : Nat) :
    s.ancestor distance scope = scope := by
  cases distance <;> simp [ancestor, h]

/-- Two walks one after the other are one walk. -/
theorem ancestor_ancestor (s : Store) (first second : Nat) (scope : ScopeId) :
    s.ancestor second (s.ancestor first scope) = s.ancestor (first + second) scope := by
  induction first generalizing scope with
  | zero => simp [ancestor]
  | succ first ih =>
    cases h : s.enclosing? scope with
    | none => simp [ancestor_outermost h]
    | some outer => rw [Nat.succ_add, ancestor_step h, ancestor_step h, ih]

/-! ## The search -/

theorem chainFrom_succ (h : scope < s.scopes.size) (fuel : Nat) :
    s.chainFrom (fuel + 1) scope = scope :: ((s.enclosing? scope).map (s.chainFrom fuel)).getD [] := by
  have hfound := Array.getElem?_eq_getElem h
  unfold chainFrom enclosing?
  rw [hfound]
  cases he : s.scopes[scope].enclosing <;> simp [he]

theorem chainFrom_missing (h : s.scopes.size ≤ scope) (fuel : Nat) : s.chainFrom fuel scope = [] := by
  cases fuel <;> simp [chainFrom, h]

/-- The scopes around a scope were made before it, so that the fuel of a chain never ends it. -/
theorem Inward.chainFrom_eq (h : s.Inward) {fuel : Nat} (hf : scope < fuel) :
    s.chainFrom fuel scope = s.chain scope := by
  induction scope using Nat.strong_induction_on generalizing fuel with
  | _ scope ih =>
    obtain ⟨fuel, rfl⟩ := Nat.exists_eq_add_of_lt hf
    by_cases hs : scope < s.scopes.size
    · unfold chain
      rw [chainFrom_succ hs, chainFrom_succ hs]
      cases he : s.enclosing? scope with
      | none => rfl
      | some outer =>
        have hlt : outer < scope := h scope outer he
        have hfuel : outer < scope + fuel := Nat.lt_add_right fuel hlt
        simp [ih outer hlt hlt, ih outer hlt hfuel]
    · simp [chain, chainFrom_missing (Nat.le_of_not_lt hs)]

theorem Inward.chain_eq (h : s.Inward) (hs : scope < s.scopes.size) :
    s.chain scope = scope :: ((s.enclosing? scope).map s.chain).getD [] := by
  unfold chain
  rw [chainFrom_succ hs]
  cases he : s.enclosing? scope with
  | none => rfl
  | some outer => simp [h.chainFrom_eq (h scope outer he), chain]

/-- The search goes on outward where a scope does not bind the name. -/
theorem Inward.binder_eq (h : s.Inward) (scope : ScopeId) (name : String) :
    s.binder? scope name = if (s.binding? scope name).isSome then some scope
      else (s.enclosing? scope).bind fun outer => s.binder? outer name := by
  by_cases hs : scope < s.scopes.size
  · unfold binder?
    rw [h.chain_eq hs, List.find?_cons]
    cases (s.binding? scope name).isSome <;> cases s.enclosing? scope <;> rfl
  · have hsize := Nat.le_of_not_lt hs
    simp [binder?, chain, chainFrom_missing hsize, binding?, enclosing?, hsize]

/-- The search finds the innermost scope that binds the name. -/
theorem Inward.binder_eq_some_iff (h : s.Inward) :
    s.binder? scope name = some holder ↔ s.Innermost name scope holder := by
  constructor
  · intro hb
    induction scope using Nat.strong_induction_on with
    | _ scope ih =>
      rw [h.binder_eq] at hb
      split at hb
      · next hbound =>
        cases hb
        exact .here hbound
      · next hbound =>
        obtain ⟨outer, he, hb⟩ := Option.bind_eq_some_iff.1 hb
        exact .outward (Option.not_isSome_iff_eq_none.1 hbound) he (ih outer (h scope outer he) hb)
  · intro hi
    induction hi with
    | here hbound => rw [h.binder_eq, if_pos hbound]
    | outward hnone he _ ih =>
      rw [h.binder_eq, hnone, he]
      exact ih

theorem Innermost.bound (h : s.Innermost name scope holder) : (s.binding? holder name).isSome := by
  induction h with
  | here hbound => exact hbound
  | outward _ _ _ ih => exact ih

theorem Innermost.unique {other : ScopeId} (h : s.Innermost name scope holder)
    (h' : s.Innermost name scope other) : holder = other := by
  induction h with
  | here hbound =>
    cases h' with
    | here => rfl
    | outward hnone => simp [hnone] at hbound
  | outward hnone he _ ih =>
    cases h' with
    | here hbound => simp [hnone] at hbound
    | outward _ he' h' =>
      rw [he] at he'
      cases he'
      exact ih h'

/-- The search and the walk: the innermost scope is the first one of the walk that binds the name. -/
theorem innermost_iff_ancestor : s.Innermost name scope holder ↔
    ∃ distance, s.ancestor distance scope = holder ∧ (s.binding? holder name).isSome ∧
      ∀ nearer < distance, s.binding? (s.ancestor nearer scope) name = none := by
  constructor
  · intro h
    induction h with
    | here hbound => exact ⟨0, rfl, hbound, by simp⟩
    | outward hnone he _ ih =>
      obtain ⟨distance, hholder, hbound, hnearer⟩ := ih
      refine ⟨distance + 1, by rw [ancestor_step he, hholder], hbound, ?_⟩
      intro nearer hlt
      cases nearer with
      | zero => exact hnone
      | succ nearer =>
        rw [ancestor_step he]
        exact hnearer nearer (by omega)
  · rintro ⟨distance, hholder, hbound, hnearer⟩
    induction distance generalizing scope with
    | zero =>
      obtain rfl : scope = holder := hholder
      exact .here hbound
    | succ distance ih =>
      have hnone : s.binding? scope name = none := hnearer 0 (by omega)
      cases he : s.enclosing? scope with
      | none =>
        rw [ancestor_outermost he] at hholder
        rw [← hholder, hnone] at hbound
        cases hbound
      | some outer =>
        rw [ancestor_step he] at hholder
        refine .outward hnone he (ih hholder fun nearer hlt => ?_)
        rw [← ancestor_step he]
        exact hnearer (nearer + 1) (by omega)

/-! ## Assignments -/

theorem define_changesSlot (h : (s.binding? scope name).isSome) (value : Value) :
    s.ChangesSlot (s.define scope name value) scope name value := by
  have hself := define_binding_self (lt_size_of_bound h) name
  constructor
  case slot => simp [hself]
  case others =>
    intro other found hne
    by_cases ho : other = scope
    · subst ho
      have hname : name ≠ found := fun he => hne (by rw [he])
      simp [hself, hname]
    · exact define_binding_ne ho ..
  case size => exact define_size ..
  case enclosing => exact fun other => define_enclosing ..
  case lists => rfl
  case instances => rfl
  case identities => rfl

theorem ancestor_congr {s' : Store} (h : ∀ scope, s'.enclosing? scope = s.enclosing? scope)
    (distance : Nat) (scope : ScopeId) : s'.ancestor distance scope = s.ancestor distance scope := by
  induction distance generalizing scope with
  | zero => rfl
  | succ distance ih =>
    unfold ancestor
    rw [h]
    cases s.enclosing? scope with
    | none => rfl
    | some outer => exact ih outer

namespace ChangesSlot
variable {s' : Store}

theorem bound_iff (h : s.ChangesSlot s' holder name value) (hb : (s.binding? holder name).isSome)
    (other : ScopeId) : (s'.binding? other name).isSome ↔ (s.binding? other name).isSome := by
  by_cases ho : other = holder
  · subst ho
    simp [h.slot, hb]
  · rw [h.others other name (by simp [ho])]

/-- The innermost scope that binds the name stays the same. -/
theorem innermost (h : s.ChangesSlot s' holder name value) (hi : s.Innermost name scope holder) :
    s'.Innermost name scope holder := by
  rw [innermost_iff_ancestor] at hi ⊢
  obtain ⟨distance, hholder, hb, hnearer⟩ := hi
  refine ⟨distance, (ancestor_congr h.enclosing ..).trans hholder, (h.bound_iff hb holder).2 hb, ?_⟩
  intro nearer hlt
  rw [ancestor_congr h.enclosing, ← Option.not_isSome_iff_eq_none, h.bound_iff hb,
    Option.not_isSome_iff_eq_none]
  exact hnearer nearer hlt

theorem inward (h : s.ChangesSlot s' holder name value) (hs : s.Inward) : s'.Inward := by
  intro scope outer he
  exact hs scope outer ((h.enclosing scope).symm.trans he)

end ChangesSlot

end

/-- How reading and assigning a name go together, where `holder` tells which scope's slot is meant: an
assignment succeeds where reading does, and then it changes that slot only, and reading yields the new value. -/
structure Agree (s : Store) (name : String) (value : Value) (holder : ScopeId → Prop)
    (read? : Store → Option Value) (assigned : Option Store) : Prop where
  succeeds : assigned.isSome = (read? s).isSome
  changes : ∀ s', assigned = some s' →
    ∃ scope, holder scope ∧ s.ChangesSlot s' scope name value ∧ read? s' = some value

section
variable {s : Store}

/-- Reading and assigning go together wherever both go to the scope that one search finds, and the search finds
the same scope again after the assignment. -/
theorem agree_of_search {name : String} {value : Value} {holder : ScopeId → Prop}
    (find? : Store → Option ScopeId) (hbound : ∀ scope, find? s = some scope → (s.binding? scope name).isSome)
    (hholder : ∀ scope, find? s = some scope → holder scope)
    (hagain : ∀ scope s', find? s = some scope → s.ChangesSlot s' scope name value → find? s' = some scope) :
    s.Agree name value holder (fun s => (find? s).bind fun scope => s.binding? scope name)
      ((find? s).map fun scope => s.define scope name value) := by
  constructor
  case succeeds =>
    cases hf : find? s with
    | none => simp
    | some scope => simp [hbound scope hf]
  case changes =>
    intro s' hs'
    obtain ⟨scope, hf, rfl⟩ := Option.map_eq_some_iff.1 hs'
    have hchanges := define_changesSlot (hbound scope hf) value
    exact ⟨scope, hholder scope hf, hchanges, by simp [hagain scope _ hf hchanges, hchanges.slot]⟩

/-- A search outward and an assignment by it. -/
theorem Inward.agree (h : s.Inward) (scope : ScopeId) (name : String) (value : Value) :
    s.Agree name value (s.Innermost name scope) (fun s => s.lookup? scope name)
      (s.assign? scope name value) := by
  refine agree_of_search (fun s => s.binder? scope name) (fun _ hb => binder_bound hb)
    (fun _ hb => h.binder_eq_some_iff.1 hb) fun holder s' hb hc => ?_
  exact (hc.inward h).binder_eq_some_iff.2 (hc.innermost (h.binder_eq_some_iff.1 hb))

theorem binderAt_eq_some_iff {scope holder : ScopeId} {distance : Nat} {name : String} :
    s.binderAt? scope distance name = some holder ↔
      s.ancestor distance scope = holder ∧ (s.binding? holder name).isSome := by
  unfold binderAt?
  dsimp only
  split
  · next hb =>
    constructor
    · intro he
      cases he
      exact ⟨rfl, hb⟩
    · exact fun h => congrArg some h.1
  · next hb =>
    constructor
    · intro he
      cases he
    · rintro ⟨rfl, hbound⟩
      exact absurd hbound hb

/-- The same at a distance, for the single scope there. -/
theorem agree_at (s : Store) (scope : ScopeId) (distance : Nat) (name : String) (value : Value) :
    s.Agree name value (· = s.ancestor distance scope) (fun s => s.lookupAt? scope distance name)
      (s.assignAt? scope distance name value) := by
  refine agree_of_search (fun s => s.binderAt? scope distance name) (fun _ hb => binderAt_bound hb)
    (fun _ hb => (binderAt_eq_some_iff.1 hb).1.symm) fun holder s' hb hc => ?_
  obtain ⟨hholder, hbound⟩ := binderAt_eq_some_iff.1 hb
  exact binderAt_eq_some_iff.2
    ⟨(ancestor_congr hc.enclosing ..).trans hholder, (hc.bound_iff hbound holder).2 hbound⟩

/-- At the distance of the innermost scope both come to the same. -/
theorem Inward.at_innermost (h : s.Inward) {scope : ScopeId} {distance : Nat} {name : String}
    (hi : s.Innermost name scope (s.ancestor distance scope)) :
    s.lookupAt? scope distance name = s.lookup? scope name ∧
      ∀ value, s.assignAt? scope distance name value = s.assign? scope name value := by
  have hsearch := h.binder_eq_some_iff.2 hi
  have hwalk : s.binderAt? scope distance name = some (s.ancestor distance scope) :=
    binderAt_eq_some_iff.2 ⟨rfl, hi.bound⟩
  exact ⟨by simp [lookupAt?, lookup?, hsearch, hwalk], by simp [assignAt?, assign?, hsearch, hwalk]⟩

end

end Store

end LoxLang
