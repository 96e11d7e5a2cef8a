import LoxLang.Proofs.Renumber.Value
import LoxLang.Proofs.Relabel.Store
import Mathlib.Data.List.Basic

/-!
# Stores with other numbers

A store in which nothing refers to an entry that is not there, and beside it a store with further entries
that nothing refers to. They stand behind the first entries, and all later ones have greater numbers for
them. Every operation does the same on both stores.
-/

namespace LoxLang

/-! ## Arrays with entries in between -/

/-- The second array has the entries of the first one, changed by a function, with `width` others behind the
first `base` of them, and these are those of a third array. -/
structure Spread {α : Type} (base width : Nat) (f : α → α) (kept xs ys : Array α) : Prop where
  base_le : base ≤ xs.size
  size : ys.size = xs.size + width
  entry : ∀ i, ys[skip base width i]? = (xs[i]?).map f
  gap : ∀ j, base ≤ j → j < base + width → ys[j]? = kept[j]?

namespace Spread
variable {α : Type} {base width : Nat} {f : α → α} {kept xs ys : Array α}

theorem skip_size (h : Spread base width f kept xs ys) : skip base width xs.size = ys.size :=
  (skip_of_le h.base_le).trans h.size.symm

theorem push (h : Spread base width f kept xs ys) (a : α) :
    Spread base width f kept (xs.push a) (ys.push (f a)) where
  base_le := by
    rw [Array.size_push]
    exact Nat.le_succ_of_le h.base_le
  size := by
    rw [Array.size_push, Array.size_push, h.size]
    omega
  entry i := by
    rw [Array.getElem?_push, Array.getElem?_push, ← h.skip_size, h.entry]
    by_cases hi : i = xs.size
    · rw [if_pos (skip_inj.2 hi), if_pos hi]
      rfl
    · rw [if_neg (mt skip_inj.1 hi), if_neg hi]
  gap j hj hj' := by
    have hsize := h.size
    have hbase := h.base_le
    rw [Array.getElem?_push, if_neg (by omega)]
    exact h.gap j hj hj'

theorem modify (h : Spread base width f kept xs ys) (i : Nat) {change change' : α → α}
    (hc : ∀ a, change' (f a) = f (change a)) :
    Spread base width f kept (xs.modify i change) (ys.modify (skip base width i) change') where
  base_le := by
    rw [Array.size_modify]
    exact h.base_le
  size := by
    rw [Array.size_modify, Array.size_modify]
    exact h.size
  entry j := by
    rw [Array.getElem?_modify, Array.getElem?_modify, h.entry]
    by_cases hj : i = j
    · rw [if_pos (skip_inj.2 hj), if_pos hj]
      cases xs[j]? with
      | none => rfl
      | some a => exact congrArg some (hc a)
    · rw [if_neg (mt skip_inj.1 hj), if_neg hj]
  gap j hj hj' := by
    have houtside := @skip_outside base width i
    rw [Array.getElem?_modify, if_neg (by omega)]
    exact h.gap j hj hj'

end Spread

/-! ## Stores without dangling references -/

/-- The numbers of entries, and the identities, that are used up. -/
def Store.extent (s : Store) : Extent := ⟨s.scopes.size, s.lists.size, s.instances.size, s.nextIdentity⟩

/-- The entries of the store refer to no others than the first ones, and the scope around a scope was made
before it. -/
structure Store.Refers (x : Extent) (s : Store) : Prop where
  bindings (i : ScopeId) (scope : Scope) :
    s.scopes[i]? = some scope → scope.bindings.All (Value.Within x)
  inward (i : ScopeId) (scope : Scope) (outer : ScopeId) :
    s.scopes[i]? = some scope → scope.enclosing = some outer → outer < i
  items (i : ListId) (items : Array Value) : s.lists[i]? = some items → ∀ v ∈ items, v.Within x
  fields (i : InstanceId) (fields : Table Value) :
    s.instances[i]? = some fields → fields.All (Value.Within x)

/-- No reference in the store dangles. -/
def Store.Sound (s : Store) : Prop := s.Refers s.extent

theorem getElem?_push_cases {α : Type} {xs : Array α} {a b : α} {i : Nat} (h : (xs.push a)[i]? = some b) :
    i = xs.size ∧ b = a ∨ xs[i]? = some b := by
  rw [Array.getElem?_push] at h
  split at h
  · cases h
    exact .inl ⟨‹_›, rfl⟩
  · exact .inr h

theorem getElem?_modify_cases {α : Type} {xs : Array α} {change : α → α} {b : α} {i j : Nat}
    (h : (xs.modify i change)[j]? = some b) :
    (∃ a, xs[j]? = some a ∧ b = change a) ∨ xs[j]? = some b := by
  rw [Array.getElem?_modify] at h
  split at h
  · obtain ⟨a, ha, hb⟩ := Option.map_eq_some_iff.1 h
    exact .inl ⟨a, ha, hb.symm⟩
  · exact .inr h

namespace Store

section
variable {s : Store} {x y : Extent}

theorem Refers.mono (h : s.Refers x) (hxy : x ≤ y) : s.Refers y where
  bindings i scope hs := (h.bindings i scope hs).imp fun _ hv => hv.mono hxy
  inward := h.inward
  items i items hs v hv := (h.items i items hs v hv).mono hxy
  fields i fields hs := (h.fields i fields hs).imp fun _ hv => hv.mono hxy

theorem Refers.newScope (h : s.Refers x) {bindings : Table Value} {around : Option ScopeId}
    (hb : bindings.All (Value.Within x)) (ha : ∀ outer, around = some outer → outer < s.scopes.size) :
    (s.newScope bindings around).2.Refers x where
  bindings i scope hs := by
    rcases getElem?_push_cases hs with ⟨-, rfl⟩ | hs
    · exact hb
    · exact h.bindings i scope hs
  inward i scope outer hs ho := by
    rcases getElem?_push_cases hs with ⟨rfl, rfl⟩ | hs
    · exact ha outer ho
    · exact h.inward i scope outer hs ho
  items := h.items
  fields := h.fields

theorem Refers.define (h : s.Refers x) (scope : ScopeId) (name : String) {value : Value}
    (hv : value.Within x) : (s.define scope name value).Refers x where
  bindings i found hs := by
    rcases getElem?_modify_cases hs with ⟨old, hold, rfl⟩ | hs
    · exact (h.bindings i old hold).put name hv
    · exact h.bindings i found hs
  inward i found outer hs ho := by
    rcases getElem?_modify_cases hs with ⟨old, hold, rfl⟩ | hs
    · exact h.inward i old outer hold ho
    · exact h.inward i found outer hs ho
  items := h.items
  fields := h.fields

theorem Refers.newList (h : s.Refers x) {items : Array Value} (hi : ∀ v ∈ items, v.Within x) :
    (s.newList items).2.Refers x where
  bindings := h.bindings
  inward := h.inward
  items i found hs := by
    rcases getElem?_push_cases hs with ⟨-, rfl⟩ | hs
    · exact hi
    · exact h.items i found hs
  fields := h.fields

theorem Refers.modifyList (h : s.Refers x) (list : ListId) {change : Array Value → Array Value}
    (hc : ∀ items : Array Value, (∀ v ∈ items, v.Within x) → ∀ v ∈ change items, v.Within x) :
    (s.modifyList list change).Refers x where
  bindings := h.bindings
  inward := h.inward
  items i found hs := by
    rcases getElem?_modify_cases hs with ⟨old, hold, rfl⟩ | hs
    · exact hc old (h.items i old hold)
    · exact h.items i found hs
  fields := h.fields

theorem Refers.newInstance (h : s.Refers x) : s.newInstance.2.Refers x where
  bindings := h.bindings
  inward := h.inward
  items := h.items
  fields i found hs := by
    rcases getElem?_push_cases hs with ⟨-, rfl⟩ | hs
    · exact fun entry he => nomatch he
    · exact h.fields i found hs

theorem Refers.setField (h : s.Refers x) (object : InstanceId) (name : String) {value : Value}
    (hv : value.Within x) : (s.setField object name value).Refers x where
  bindings := h.bindings
  inward := h.inward
  items := h.items
  fields i found hs := by
    rcases getElem?_modify_cases hs with ⟨old, hold, rfl⟩ | hs
    · exact (h.fields i old hold).put name hv
    · exact h.fields i found hs

/-! ### What is found in the store -/

theorem Refers.binding (h : s.Refers x) {scope : ScopeId} {name : String} {value : Value}
    (hb : s.binding? scope name = some value) : value.Within x := by
  obtain ⟨found, hf, hv⟩ := Option.bind_eq_some_iff.1 hb
  exact (h.bindings scope found hf).get? hv

theorem Refers.field (h : s.Refers x) {object : InstanceId} {name : String} {value : Value}
    (hf : s.field? object name = some value) : value.Within x := by
  obtain ⟨fields, hs, hv⟩ := Option.bind_eq_some_iff.1 hf
  exact (h.fields object fields hs).get? hv

theorem Refers.item (h : s.Refers x) {list : ListId} {value : Value} (hv : value ∈ s.items list) :
    value.Within x := by
  unfold Store.items at hv
  cases hs : s.lists[list]? with
  | none =>
    rw [hs] at hv
    exact absurd hv (Array.not_mem_empty value)
  | some items =>
    rw [hs] at hv
    exact h.items list items hs value hv

end

/-! ### Extents of changed stores -/

section
variable (s : Store)

theorem define_extent (scope : ScopeId) (name : String) (value : Value) :
    (s.define scope name value).extent = s.extent := by
  simp [extent, define]

theorem modifyList_extent (list : ListId) (change : Array Value → Array Value) :
    (s.modifyList list change).extent = s.extent := by
  simp [extent, modifyList]

theorem setField_extent (object : InstanceId) (name : String) (value : Value) :
    (s.setField object name value).extent = s.extent := by
  simp [extent, setField]

theorem le_newScope_extent (bindings : Table Value) (around : Option ScopeId) :
    s.extent ≤ (s.newScope bindings around).2.extent := by
  constructor <;> simp [extent, newScope]

theorem le_newList_extent (items : Array Value) : s.extent ≤ (s.newList items).2.extent := by
  constructor <;> simp [extent, newList]

theorem le_newInstance_extent : s.extent ≤ s.newInstance.2.extent := by
  constructor <;> simp [extent, newInstance]

theorem le_newIdentity_extent : s.extent ≤ s.newIdentity.2.extent := by
  constructor <;> simp [extent, newIdentity]

end

end Store

theorem position_renumber (g : Gap) (length : Nat) (index : Value) :
    position length (index.renumber g) = position length index := by
  cases index <;> rfl

theorem slicePositions_renumber (g : Gap) (length : Nat) (start stop : Value) :
    slicePositions length (start.renumber g) (stop.renumber g) = slicePositions length start stop := by
  cases start <;> cases stop <;> rfl

/-- A walk that can be taken after a change of the items and of the state. -/
theorem walk_of_steps {α β γ σ : Type} {f : α → β} {step : σ → α → Option (γ × σ)}
    {step' : σ → β → Option (γ × σ)} {change : σ → σ}
    (h : ∀ state a b after, step state a = some (b, after) →
      step' (change state) (f a) = some (b, change after))
    {state after : σ} {items : List α} {results : List γ}
    (hw : walk step state items = some (results, after)) :
    walk step' (change state) (items.map f) = some (results, change after) := by
  induction items generalizing state results with
  | nil =>
    cases hw
    rfl
  | cons a rest ih =>
    obtain ⟨⟨b, between⟩, hb, hw⟩ := Option.bind_eq_some_iff.1 hw
    obtain ⟨⟨bs, last⟩, hbs, hw⟩ := Option.bind_eq_some_iff.1 hw
    cases hw
    have hrest := ih hbs
    rw [List.map_cons, walk, h _ _ _ _ hb]
    change (walk step' (change between) (rest.map f)).bind _ = _
    rw [hrest]
    rfl

/-! ## Two stores -/

def Scope.renumber (g : Gap) (scope : Scope) : Scope :=
  ⟨scope.bindings.mapValues (Value.renumber g), scope.enclosing.map g.scope⟩

/-- The second store is the first one with the entries of the gap in between. -/
structure Store.Beside (g : Gap) (s s' : Store) : Prop where
  sound : s.Sound
  scopes : Spread g.base.scopes g.width.scopes (Scope.renumber g) g.kept.scopes s.scopes s'.scopes
  lists : Spread g.base.lists g.width.lists (Array.map (Value.renumber g)) g.kept.lists s.lists s'.lists
  instances : Spread g.base.instances g.width.instances (Table.mapValues (Value.renumber g))
    g.kept.instances s.instances s'.instances
  identities_le : g.base.identities ≤ s.nextIdentity
  identities : s'.nextIdentity = s.nextIdentity + g.width.identities

namespace Store.Beside
variable {g : Gap} {s s' : Store}

/-! ### What is found -/

theorem enclosing? (h : s.Beside g s') (scope : ScopeId) :
    s'.enclosing? (g.scope scope) = (s.enclosing? scope).map g.scope := by
  unfold Store.enclosing?
  rw [show s'.scopes[g.scope scope]? = _ from h.scopes.entry scope]
  cases s.scopes[scope]? <;> rfl

theorem binding? (h : s.Beside g s') (scope : ScopeId) (name : String) :
    s'.binding? (g.scope scope) name = (s.binding? scope name).map (Value.renumber g) := by
  unfold Store.binding?
  rw [show s'.scopes[g.scope scope]? = _ from h.scopes.entry scope]
  cases s.scopes[scope]? with
  | none => rfl
  | some found => exact Table.get?_mapValues _ _ _

theorem bound (h : s.Beside g s') (scope : ScopeId) (name : String) :
    (s'.binding? (g.scope scope) name).isSome = (s.binding? scope name).isSome := by
  rw [h.binding?, Option.isSome_map]

/-- The scopes around a scope correspond, if the fuel lasts on both sides. -/
theorem chainFrom (h : s.Beside g s') {fuel fuel' : Nat} {scope : ScopeId} (hf : scope < fuel)
    (hf' : g.scope scope < fuel') :
    s'.chainFrom fuel' (g.scope scope) = (s.chainFrom fuel scope).map g.scope := by
  induction fuel generalizing fuel' scope with
  | zero => exact absurd hf (Nat.not_lt_zero scope)
  | succ fuel ih =>
    obtain ⟨rest, rfl⟩ := Nat.exists_eq_succ_of_ne_zero (Nat.ne_of_gt (Nat.zero_lt_of_lt hf'))
    unfold Store.chainFrom
    rw [show s'.scopes[g.scope scope]? = _ from h.scopes.entry scope]
    cases hs : s.scopes[scope]? with
    | none => rfl
    | some found =>
      obtain ⟨bindings, around⟩ := found
      cases around with
      | none => rfl
      | some outer =>
        have hinward : outer < scope := h.sound.inward scope _ outer hs rfl
        have houter : g.scope outer < g.scope scope := skip_lt_skip hinward
        have hrest := ih (Nat.lt_of_lt_of_le hinward (Nat.le_of_lt_succ hf))
          (Nat.lt_of_lt_of_le houter (Nat.le_of_lt_succ hf'))
        exact congrArg (List.cons _) hrest

theorem binder? (h : s.Beside g s') (scope : ScopeId) (name : String) :
    s'.binder? (g.scope scope) name = (s.binder? scope name).map g.scope := by
  unfold Store.binder? chain
  rw [h.chainFrom (Nat.lt_succ_self scope) (Nat.lt_succ_self _), List.find?_map]
  simp only [Function.comp_def, h.bound]

theorem ancestor (h : s.Beside g s') (distance : Nat) (scope : ScopeId) :
    s'.ancestor distance (g.scope scope) = g.scope (s.ancestor distance scope) := by
  induction distance generalizing scope with
  | zero => rfl
  | succ distance ih =>
    unfold Store.ancestor
    rw [h.enclosing?]
    cases s.enclosing? scope with
    | none => rfl
    | some outer => exact ih outer

theorem binderAt? (h : s.Beside g s') (scope : ScopeId) (distance : Nat) (name : String) :
    s'.binderAt? (g.scope scope) distance name = (s.binderAt? scope distance name).map g.scope := by
  unfold Store.binderAt?
  simp only [h.ancestor, h.bound]
  split <;> rfl

theorem lookupAt? (h : s.Beside g s') (scope : ScopeId) (distance : Nat) (name : String) :
    s'.lookupAt? (g.scope scope) distance name =
      (s.lookupAt? scope distance name).map (Value.renumber g) := by
  unfold Store.lookupAt?
  rw [h.binderAt?]
  cases s.binderAt? scope distance name with
  | none => rfl
  | some outer => exact h.binding? outer name

theorem items (h : s.Beside g s') (list : ListId) :
    s'.items (g.list list) = (s.items list).map (Value.renumber g) := by
  unfold Store.items
  rw [show s'.lists[g.list list]? = _ from h.lists.entry list]
  cases s.lists[list]? <;> simp

theorem field? (h : s.Beside g s') (object : InstanceId) (name : String) :
    s'.field? (g.instance_ object) name = (s.field? object name).map (Value.renumber g) := by
  unfold Store.field?
  rw [show s'.instances[g.instance_ object]? = _ from h.instances.entry object]
  cases s.instances[object]? with
  | none => rfl
  | some fields => exact Table.get?_mapValues _ _ _

/-! ### What changes -/

theorem define (h : s.Beside g s') (scope : ScopeId) (name : String) {value : Value}
    (hv : value.Within s.extent) :
    (s.define scope name value).Beside g (s'.define (g.scope scope) name (value.renumber g)) where
  sound := by
    unfold Store.Sound
    rw [define_extent]
    exact Refers.define h.sound scope name hv
  scopes := by
    unfold Store.define
    dsimp only
    refine h.scopes.modify scope fun found => ?_
    simp only [Scope.renumber, Table.put_mapValues]
  lists := h.lists
  instances := h.instances
  identities_le := h.identities_le
  identities := h.identities

theorem newScope (h : s.Beside g s') {bindings : Table Value} {around : Option ScopeId}
    (hb : bindings.All (Value.Within s.extent))
    (ha : ∀ outer, around = some outer → outer < s.scopes.size) :
    (s.newScope bindings around).2.Beside g
      (s'.newScope (bindings.mapValues (Value.renumber g)) (around.map g.scope)).2 where
  sound := (Refers.newScope h.sound hb ha).mono (le_newScope_extent s bindings around)
  scopes := h.scopes.push ⟨bindings, around⟩
  lists := h.lists
  instances := h.instances
  identities_le := h.identities_le
  identities := h.identities

theorem newList (h : s.Beside g s') {items : Array Value} (hi : ∀ v ∈ items, v.Within s.extent) :
    (s.newList items).2.Beside g (s'.newList (items.map (Value.renumber g))).2 where
  sound := (Refers.newList h.sound hi).mono (le_newList_extent s items)
  scopes := h.scopes
  lists := h.lists.push items
  instances := h.instances
  identities_le := h.identities_le
  identities := h.identities

theorem modifyList (h : s.Beside g s') (list : ListId) {change change' : Array Value → Array Value}
    (hc : ∀ items, change' (items.map (Value.renumber g)) = (change items).map (Value.renumber g))
    (hw : ∀ items : Array Value, (∀ v ∈ items, v.Within s.extent) →
      ∀ v ∈ change items, v.Within s.extent) :
    (s.modifyList list change).Beside g (s'.modifyList (g.list list) change') where
  sound := by
    unfold Store.Sound
    rw [modifyList_extent]
    exact Refers.modifyList h.sound list hw
  scopes := h.scopes
  lists := h.lists.modify list hc
  instances := h.instances
  identities_le := h.identities_le
  identities := h.identities

theorem newInstance (h : s.Beside g s') : s.newInstance.2.Beside g s'.newInstance.2 where
  sound := (Refers.newInstance h.sound).mono (le_newInstance_extent s)
  scopes := h.scopes
  lists := h.lists
  instances := h.instances.push []
  identities_le := h.identities_le
  identities := h.identities

theorem setField (h : s.Beside g s') (object : InstanceId) (name : String) {value : Value}
    (hv : value.Within s.extent) :
    (s.setField object name value).Beside g
      (s'.setField (g.instance_ object) name (value.renumber g)) where
  sound := by
    unfold Store.Sound
    rw [setField_extent]
    exact Refers.setField h.sound object name hv
  scopes := h.scopes
  lists := h.lists
  instances := h.instances.modify object fun fields => Table.put_mapValues (Value.renumber g) name value fields
  identities_le := h.identities_le
  identities := h.identities

theorem newIdentity (h : s.Beside g s') : s.newIdentity.2.Beside g s'.newIdentity.2 where
  sound := Refers.mono (s := s.newIdentity.2) ⟨h.sound.bindings, h.sound.inward, h.sound.items, h.sound.fields⟩
    (le_newIdentity_extent s)
  scopes := h.scopes
  lists := h.lists
  instances := h.instances
  identities_le := Nat.le_succ_of_le h.identities_le
  identities := by
    unfold Store.newIdentity
    rw [h.identities]
    exact Nat.add_right_comm _ _ _

/-! ### Numbers of new entries -/

theorem newScope_id (h : s.Beside g s') : s'.scopes.size = g.scope s.scopes.size := h.scopes.skip_size.symm

theorem newList_id (h : s.Beside g s') : s'.lists.size = g.list s.lists.size := h.lists.skip_size.symm

theorem newInstance_id (h : s.Beside g s') : s'.instances.size = g.instance_ s.instances.size :=
  h.instances.skip_size.symm

theorem newIdentity_id (h : s.Beside g s') : s'.nextIdentity = g.identity s.nextIdentity :=
  h.identities.trans (skip_of_le h.identities_le).symm

end Store.Beside

/-! ## Results -/

/-- The second value is the first one, which refers to the first entries only, with other numbers. -/
structure Value.Beside (g : Gap) (x : Extent) (v v' : Value) : Prop where
  within : v.Within x
  eq : v' = v.renumber g

theorem Value.Beside.mono {g : Gap} {x y : Extent} {v v' : Value} (h : v.Beside g x v') (hxy : x ≤ y) :
    v.Beside g y v' := ⟨h.within.mono hxy, h.eq⟩

theorem Value.Simple.beside {v : Value} (h : v.Simple) (g : Gap) (x : Extent) : v.Beside g x v :=
  ⟨h.within x, (h.renumber g).symm⟩

/-- The same fault, or two related results. -/
inductive ResultRel {α : Type} (R : α → α → Prop) : Except Fault α → Except Fault α → Prop
  | ok {a a' : α} : R a a' → ResultRel R (.ok a) (.ok a')
  | error (fault : Fault) : ResultRel R (.error fault) (.error fault)

/-- What an operation does to both stores. -/
structure Yields {α : Type} (g : Gap) (R : Extent → α → α → Prop) (s : Store)
    (r r' : Except Fault α × Store) : Prop where
  beside : r.2.Beside g r'.2
  grown : s.extent ≤ r.2.extent
  result : ResultRel (R r.2.extent) r.1 r'.1

namespace Yields
variable {g : Gap} {s s' : Store}

theorem of_same {α : Type} {R : Extent → α → α → Prop} (h : s.Beside g s')
    {result result' : Except Fault α} (hr : ResultRel (R s.extent) result result') :
    Yields g R s (result, s) (result', s') := ⟨h, Extent.le_refl _, hr⟩

theorem modifyList (h : s.Beside g s') (list : ListId) {change change' : Array Value → Array Value}
    {value : Value} (hc : ∀ items, change' (items.map (Value.renumber g)) = (change items).map (Value.renumber g))
    (hw : ∀ items : Array Value, (∀ v ∈ items, v.Within s.extent) →
      ∀ v ∈ change items, v.Within s.extent) (hv : value.Within s.extent) :
    Yields g (Value.Beside g) s (.ok value, s.modifyList list change)
      (.ok (value.renumber g), s'.modifyList (g.list list) change') := by
  have hextent := Store.modifyList_extent s list change
  refine ⟨h.modifyList list hc hw, hextent.symm ▸ Extent.le_refl _, .ok ⟨?_, rfl⟩⟩
  rw [hextent]
  exact hv

end Yields

theorem items_setIfInBounds {x : Extent} {items : Array Value} (h : ∀ v ∈ items, v.Within x) (i : Nat)
    {value : Value} (hv : value.Within x) : ∀ v ∈ items.setIfInBounds i value, v.Within x := by
  intro v hm
  rcases Array.mem_or_eq_of_mem_setIfInBounds hm with hm | rfl
  · exact h v hm
  · exact hv

namespace Store.Beside
variable {g : Gap} {s s' : Store}

theorem itemAt (h : s.Beside g s') (list : ListId) (index : Value) :
    ResultRel (Value.Beside g s.extent) (s.itemAt list index)
      (s'.itemAt (g.list list) (index.renumber g)) := by
  unfold Store.itemAt
  dsimp only
  rw [h.items, position_renumber, Array.size_map]
  cases position (s.items list).size index with
  | error fault => exact .error fault
  | ok i =>
    refine .ok ?_
    rw [Array.getElem?_map]
    cases hi : (s.items list)[i]? with
    | none => exact Value.Simple.beside (v := .nil) trivial g s.extent
    | some item => exact ⟨h.sound.item (Array.mem_of_getElem? hi), rfl⟩

theorem setItemAt (h : s.Beside g s') (list : ListId) (index : Value) {value : Value}
    (hv : value.Within s.extent) :
    Yields g (fun _ _ _ => True) s (s.setItemAt list index value)
      (s'.setItemAt (g.list list) (index.renumber g) (value.renumber g)) := by
  unfold Store.setItemAt
  rw [h.items, position_renumber, Array.size_map]
  cases position (s.items list).size index with
  | error fault => exact ⟨h, Extent.le_refl _, .error fault⟩
  | ok i =>
    have hb : (s.modifyList list fun items => items.setIfInBounds i value).Beside g
        (s'.modifyList (g.list list) fun items => items.setIfInBounds i (value.renumber g)) :=
      h.modifyList list (fun items => Array.map_setIfInBounds.symm) fun items hi =>
        items_setIfInBounds hi i hv
    exact ⟨hb, (modifyList_extent s list _).symm ▸ Extent.le_refl _, .ok trivial⟩

theorem sliceOf (h : s.Beside g s') (list : ListId) (start stop : Value) :
    Yields g (Value.Beside g) s (s.sliceOf list start stop)
      (s'.sliceOf (g.list list) (start.renumber g) (stop.renumber g)) := by
  unfold Store.sliceOf
  dsimp only
  rw [h.items, slicePositions_renumber, Array.size_map]
  cases slicePositions (s.items list).size start stop with
  | error fault => exact ⟨h, Extent.le_refl _, .error fault⟩
  | ok ends =>
    obtain ⟨i, j⟩ := ends
    have hi : ∀ v ∈ (s.items list).extract i j, v.Within s.extent := by
      intro v hv
      rw [Array.mem_extract_iff_getElem] at hv
      obtain ⟨k, hk, rfl⟩ := hv
      exact h.sound.item (Array.getElem_mem _)
    have hb := h.newList hi
    rw [Array.map_extract] at hb
    have hid : (s.newList ((s.items list).extract i j)).1 <
        (s.newList ((s.items list).extract i j)).2.extent.lists := by simp [Store.newList, extent]
    exact ⟨hb, le_newList_extent s _, .ok ⟨hid, congrArg Value.list h.newList_id⟩⟩

theorem callListMethod (h : s.Beside g s') (list : ListId) (method : ListMethod) {arguments : List Value}
    (ha : ∀ v ∈ arguments, v.Within s.extent) :
    Yields g (Value.Beside g) s (s.callListMethod list method arguments)
      (s'.callListMethod (g.list list) method (arguments.map (Value.renumber g))) := by
  cases method <;> rcases arguments with _ | ⟨a, _ | ⟨b, _ | ⟨c, rest⟩⟩⟩
  case push.cons.nil =>
    refine .modifyList h list (fun items => Array.map_push.symm) ?_ trivial
    intro items hi v hv
    rcases Array.mem_push.1 hv with hv | rfl
    · exact hi v hv
    · exact ha _ List.mem_cons_self
  case pop.nil =>
    simp only [Store.callListMethod, List.map_nil, h.items, Array.back?_map]
    cases hb : (s.items list).back? with
    | none => exact .of_same h (.error _)
    | some last =>
      refine .modifyList h list (fun items => Array.map_pop.symm) ?_ (h.sound.item (Array.mem_of_back? hb))
      intro items hi v hv
      rw [← Array.mem_toList_iff, Array.toList_pop] at hv
      exact hi v (Array.mem_toList_iff.1 (List.dropLast_subset _ hv))
  case clear.nil =>
    refine .modifyList h list (fun items => Array.map_empty.symm) ?_ trivial
    exact fun items hi v hv => absurd hv (Array.not_mem_empty v)
  case len.nil =>
    simp only [Store.callListMethod, List.map_nil, h.items, Array.size_map]
    exact .of_same h (.ok (Value.Simple.beside (v := .int _) trivial g _))
  case getAt.cons.nil => exact .of_same h (h.itemAt list a)
  case setAt.cons.cons.nil =>
    simp only [Store.callListMethod, List.map_cons, List.map_nil]
    obtain ⟨hb, hle, hr⟩ := h.setItemAt list a (ha b (by simp))
    refine ⟨hb, hle, ?_⟩
    generalize (s.setItemAt list a b).1 = result, (s'.setItemAt _ _ _).1 = result' at hr
    cases hr with
    | error fault => exact .error fault
    | ok _ => exact .ok (Value.Simple.beside (v := .nil) trivial g _)
  case slice.cons.cons.nil => exact h.sliceOf list a b
  all_goals
    simp only [Store.callListMethod, List.map_cons, List.map_nil, List.length_cons, List.length_map]
    exact .of_same h (.error _)

/-! ### Texts -/

theorem contains_list (g : Gap) (opened : List ListId) (id : ListId) :
    (opened.map g.list).contains (g.list id) = opened.contains id := by
  rw [Bool.eq_iff_iff, List.contains_iff_mem, List.contains_iff_mem, List.mem_map]
  exact ⟨fun ⟨_, hm, he⟩ => skip_inj.1 he ▸ hm, fun hm => ⟨id, hm, rfl⟩⟩

theorem erase_list (g : Gap) (opened : List ListId) (id : ListId) :
    (opened.map g.list).erase (g.list id) = (opened.erase id).map g.list :=
  (List.map_erase (fun _ _ he => skip_inj.1 he) opened).symm

/-- Of the values that are written out without their items, no text takes fuel. -/
theorem textInside_shallow (g : Gap) (s s' : Store) (fuel fuel' : Nat) {opened after : List ListId}
    {value : Value} {text : String} (hv : ∀ id, value = .list id → opened.contains id = true)
    (ht : s.textInside fuel opened value = some (text, after)) :
    s'.textInside fuel' (opened.map g.list) (value.renumber g) = some (text, after.map g.list) := by
  by_cases hlist : ∃ id, value = .list id
  · obtain ⟨id, rfl⟩ := hlist
    have ho := hv id rfl
    rw [textInside_opened s fuel ho] at ht
    cases ht
    rw [← erase_list]
    exact textInside_opened s' fuel' ((contains_list g opened id).trans ho)
  · have hplain : ∀ id, value ≠ .list id := fun id he => hlist ⟨id, he⟩
    have hplain' : ∀ id, value.renumber g ≠ .list id := by
      intro id he
      cases value with
      | list id => exact hplain id rfl
      | _ => cases he
    rw [textInside_plain s fuel opened hplain] at ht
    cases ht
    rw [textInside_plain s' fuel' _ hplain', Value.renumber_plainText]

/-- The text of a value, written with at least as much fuel. -/
theorem textInside (h : s.Beside g s') {fuel fuel' : Nat} (hf : fuel ≤ fuel') {opened after : List ListId}
    {value : Value} {text : String} (ht : s.textInside fuel opened value = some (text, after)) :
    s'.textInside fuel' (opened.map g.list) (value.renumber g) = some (text, after.map g.list) := by
  induction fuel generalizing fuel' opened after value text with
  | zero =>
    refine textInside_shallow g s s' 0 fuel' ?_ ht
    rintro id rfl
    by_contra ho
    simp only [Store.textInside, if_neg ho] at ht
    cases ht
  | succ fuel ih =>
    by_cases hv : ∀ id, value = .list id → opened.contains id = true
    · exact textInside_shallow g s s' (fuel + 1) fuel' hv ht
    · push Not at hv
      obtain ⟨id, rfl, ho⟩ := hv
      have ho' : ¬ (opened.map g.list).contains (g.list id) = true := by rwa [contains_list]
      obtain ⟨rest, rfl⟩ := Nat.exists_eq_succ_of_ne_zero (Nat.ne_of_gt (Nat.zero_lt_of_lt hf))
      simp only [Store.textInside, if_neg ho] at ht
      obtain ⟨⟨parts, inside⟩, hw, ht⟩ := Option.bind_eq_some_iff.1 ht
      cases ht
      have hitems : (s'.items (g.list id)).toList = (s.items id).toList.map (Value.renumber g) := by
        rw [h.items, Array.toList_map]
      have hwalk := walk_of_steps (fun state a b after hs => ih (Nat.le_of_succ_le_succ hf) hs) hw
      rw [List.map_cons, ← hitems] at hwalk
      simp only [Value.renumber, Store.textInside, if_neg ho', hwalk]
      exact congrArg (fun opened => some (listText parts, opened)) (erase_list g inside id)

theorem text? (h : s.Beside g s') {fuel fuel' : Nat} (hf : fuel ≤ fuel') {value : Value} {text : String}
    (ht : s.text? fuel value = some text) : s'.text? fuel' (value.renumber g) = some text := by
  obtain ⟨⟨found, after⟩, hi, rfl⟩ := Option.map_eq_some_iff.1 ht
  exact congrArg (Option.map Prod.fst) (h.textInside hf hi)

end Store.Beside

end LoxLang
