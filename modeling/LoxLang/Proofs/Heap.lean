import Mathlib.Logic.Relation
import LoxLang.Proofs.Renumber.Effect
import LoxLang.Proofs.Scoping.Dispatch
import LoxLang.Proofs.Store.Chain

/-!
# The heap

What a program makes while it runs refers to what was made before it: a scope to the scope around it, a class
to the class that it extends. Values may refer to each other in circles all the same, through variables,
fields and lists. What keeps every search in the heap from going round is the order in which scopes and
classes are made, and no change that a program can make to the heap breaks this order.
-/

namespace LoxLang

/-! ## Values -/

/-- Identities are given out in the order in which classes are made, so that each class of the lineage was
made before the one that extends it. -/
def ClassObject.Ordered (c : ClassObject) : Prop := c.lineage.Pairwise fun inner outer => outer.id < inner.id

def Value.Ordered : Value → Prop
  | .classObject c => c.Ordered
  | .instanceOf _ c => c.Ordered
  | _ => True

/-- All that the value refers to is there, and its class extends older classes. -/
structure Value.Proper (x : Extent) (v : Value) : Prop where
  within : v.Within x
  ordered : v.Ordered

mutual

theorem ClassObject.Within.lineage {x : Extent} : {c : ClassObject} → c.Within x → ∀ d ∈ c.lineage, d.Within x
  | ⟨_, _, _, _⟩, h => List.forall_mem_cons.2 ⟨h, ExtendedWithin.ancestry h.2.1⟩

theorem ExtendedWithin.ancestry {x : Extent} : {o : Option ClassObject} → ExtendedWithin x o →
    ∀ d ∈ ClassObject.ancestry o, d.Within x
  | some _, h => ClassObject.Within.lineage h
  | none, _ => fun _ hd => nomatch hd

end

theorem ClassObject.Within.id_lt {x : Extent} {c : ClassObject} (h : c.Within x) : c.id < x.identities := by
  obtain ⟨id, name, superclass, methods⟩ := c
  exact h.1

section Values
variable {x y : Extent} {v : Value}

theorem Value.Proper.mono (h : v.Proper x) (hxy : x ≤ y) : v.Proper y := ⟨h.within.mono hxy, h.ordered⟩

theorem Value.CodeFree.ordered (h : v.CodeFree) : v.Ordered := by
  cases v with
  | function | classObject | instanceOf => cases h
  | _ => trivial

theorem Value.Simple.proper (h : v.Simple) (x : Extent) : v.Proper x := ⟨h.within x, h.codeFree.ordered⟩

theorem properNil (x : Extent) : Value.nil.Proper x := Value.Simple.proper (v := .nil) trivial x

end Values

/-! ## Machines -/

/-- Nothing in the machine dangles, scopes and classes refer to older ones only, and the globals are the only
scope with no scope around it. -/
structure Machine.WellFormed (m : Machine) : Prop where
  current : m.current < m.store.scopes.size
  globals : m.globals < m.store.scopes.size
  inward (scope outer : ScopeId) : m.store.enclosing? scope = some outer → outer < scope
  rooted : ∀ scope < m.store.scopes.size, m.store.enclosing? scope = none → scope = m.globals
  bindings (scope : ScopeId) (name : String) (value : Value) :
    m.store.binding? scope name = some value → value.Proper m.extent
  items (list : ListId) : ∀ value ∈ m.store.items list, value.Proper m.extent
  fields (object : InstanceId) (name : String) (value : Value) :
    m.store.field? object name = some value → value.Proper m.extent

/-- One change that a running program, or a session between two programs, makes to the machine. Whatever is
put into the heap is there and refers to what is there. -/
inductive Change : Machine → Machine → Prop
  | enter {m : Machine} {scope : ScopeId} : scope < m.store.scopes.size →
      Change m { m with current := scope }
  | openScope {m : Machine} {bindings : Table Value} {around : ScopeId} :
      (∀ name value, bindings.get? name = some value → value.Proper m.extent) →
      around < m.store.scopes.size →
      Change m { m with store := (m.store.newScope bindings (some around)).2 }
  | define {m : Machine} (scope : ScopeId) (name : String) {value : Value} : value.Proper m.extent →
      Change m { m with store := m.store.define scope name value }
  /-- Lists are made, and their items change. -/
  | lists {m : Machine} {lists : Array (Array Value)} : m.store.lists.size ≤ lists.size →
      (∀ list, ∀ value ∈ Store.items { m.store with lists } list,
        value.Proper (Store.extent { m.store with lists })) →
      Change m { m with store := { m.store with lists } }
  | newInstance (m : Machine) : Change m { m with store := m.store.newInstance.2 }
  | setField {m : Machine} (object : InstanceId) (name : String) {value : Value} :
      value.Proper m.extent → Change m { m with store := m.store.setField object name value }
  | newIdentity (m : Machine) : Change m { m with store := m.store.newIdentity.2 }
  | console (m : Machine) (console : Console) : Change m { m with console }
  | clock (m : Machine) : Change m { m with clock := fun reading => m.clock (reading + 1) }
  | depths (m : Machine) (depths : Depths) : Change m { m with depths }

/-- One change after the other. -/
abbrev Changes : Machine → Machine → Prop := Relation.ReflTransGen Change

/-- A machine that comes up in a session. -/
def Reachable (m : Machine) : Prop := ∃ console clock, Changes (Machine.start console clock) m

/-! ## What a change keeps -/

/-- The later machine has all that the earlier one has: its scopes, with what is around them and the names
that they bind, and its instances with their fields. -/
structure Kept (m m' : Machine) : Prop where
  globals : m'.globals = m.globals
  extent : m.extent ≤ m'.extent
  enclosing : ∀ scope < m.store.scopes.size, m'.store.enclosing? scope = m.store.enclosing? scope
  bindings (scope : ScopeId) (name : String) :
    (m.store.binding? scope name).isSome → (m'.store.binding? scope name).isSome
  fields (object : InstanceId) (name : String) :
    (m.store.field? object name).isSome → (m'.store.field? object name).isSome

theorem Extent.le_of_eq {x y : Extent} (h : x = y) : x ≤ y := h ▸ Extent.le_refl x

section
variable {m m' m'' : Machine}

theorem Kept.refl (m : Machine) : Kept m m :=
  ⟨rfl, Extent.le_refl _, fun _ _ => rfl, fun _ _ h => h, fun _ _ h => h⟩

theorem Kept.trans (h : Kept m m') (h' : Kept m' m'') : Kept m m'' where
  globals := h'.globals.trans h.globals
  extent := Extent.le_trans h.extent h'.extent
  enclosing scope hs :=
    (h'.enclosing scope (Nat.lt_of_lt_of_le hs h.extent.scopes)).trans (h.enclosing scope hs)
  bindings scope name hb := h'.bindings scope name (h.bindings scope name hb)
  fields object name hf := h'.fields object name (h.fields object name hf)

end

namespace Store
variable {s : Store}

/-- A definition unbinds nothing. -/
theorem define_keeps {other : ScopeId} {found : String} (h : (s.binding? other found).isSome)
    (scope : ScopeId) (name : String) (value : Value) :
    ((s.define scope name value).binding? other found).isSome := by
  by_cases ho : other = scope
  · subst ho
    rw [define_binding_self (lt_size_of_bound h)]
    split
    · rfl
    · exact h
  · rwa [define_binding_ne ho]

/-- Giving a value to a field takes no field away. -/
theorem setField_keeps {other : InstanceId} {found : String} (h : (s.field? other found).isSome)
    (object : InstanceId) (name : String) (value : Value) :
    ((s.setField object name value).field? other found).isSome := by
  unfold setField field? at *
  rw [Array.getElem?_modify]
  split
  · cases hs : s.instances[other]? with
    | none =>
      rw [hs] at h
      cases h
    | some fields =>
      rw [hs] at h
      change (Table.get? found (Table.put name value fields)).isSome
      rw [Table.get?_put]
      split
      · rfl
      · exact h
  · exact h

end Store

section Change
variable {m m' : Machine}

theorem Change.kept (h : Change m m') : Kept m m' := by
  cases h with
  | enter | console | clock | depths => exact { Kept.refl m with }
  | @openScope bindings around =>
    refine { Kept.refl m with
      extent := Store.le_newScope_extent m.store bindings (some around), enclosing := ?_, bindings := ?_ }
    · intro scope hs
      rw [Store.newScope_enclosing, if_neg (Nat.ne_of_lt hs)]
    · intro scope name hb
      rwa [Store.newScope_binding, if_neg (Nat.ne_of_lt (Store.lt_size_of_bound hb))]
  | @define scope name value =>
    refine { Kept.refl m with extent := ?_, enclosing := ?_, bindings := ?_ }
    · exact Extent.le_of_eq (Store.define_extent m.store scope name value).symm
    · exact fun other _ => Store.define_enclosing ..
    · exact fun other found hb => Store.define_keeps hb scope name value
  | lists hsize => exact { Kept.refl m with extent := { Extent.le_refl _ with lists := hsize } }
  | newInstance =>
    refine { Kept.refl m with extent := Store.le_newInstance_extent m.store, fields := ?_ }
    intro object name hf
    rwa [Store.field_newInstance]
  | @setField object name value =>
    refine { Kept.refl m with extent := ?_, fields := ?_ }
    · exact Extent.le_of_eq (Store.setField_extent m.store object name value).symm
    · exact fun other found hf => Store.setField_keeps hf object name value
  | newIdentity => exact { Kept.refl m with extent := Store.le_newIdentity_extent m.store }

/-- What a machine holds is proper in any machine that has all of it. -/
theorem Machine.WellFormed.at_extent (h : m.WellFormed) {x : Extent} (hx : m.extent ≤ x) :
    (∀ scope name value, m.store.binding? scope name = some value → value.Proper x) ∧
      (∀ list, ∀ value ∈ m.store.items list, value.Proper x) ∧
      ∀ object name value, m.store.field? object name = some value → value.Proper x :=
  ⟨fun scope name value hb => (h.bindings scope name value hb).mono hx,
    fun list value hm => (h.items list value hm).mono hx,
    fun object name value hf => (h.fields object name value hf).mono hx⟩

theorem Change.wellFormed (hc : Change m m') (h : m.WellFormed) : m'.WellFormed := by
  have hkept := hc.kept
  obtain ⟨hbindings, hitems, hfields⟩ := h.at_extent hkept.extent
  have hcurrent : m.current < m'.store.scopes.size := Nat.lt_of_lt_of_le h.current hkept.extent.scopes
  have hglobals : m.globals < m'.store.scopes.size := Nat.lt_of_lt_of_le h.globals hkept.extent.scopes
  cases hc with
  | enter hscope => exact { h with current := hscope }
  | @openScope bindings around hb ha =>
    refine ⟨hcurrent, hglobals, ?_, ?_, ?_, hitems, hfields⟩
    · intro scope outer he
      rw [Store.newScope_enclosing] at he
      split at he
      · rename_i hs
        cases he
        exact hs ▸ ha
      · exact h.inward scope outer he
    · intro scope hs he
      rw [Store.newScope_enclosing] at he
      rw [Store.newScope_size] at hs
      split at he
      · cases he
      · rename_i hne
        exact h.rooted scope (Nat.lt_of_le_of_ne (Nat.le_of_lt_succ hs) hne) he
    · intro scope name value hv
      rw [Store.newScope_binding] at hv
      split at hv
      · exact (hb name value hv).mono hkept.extent
      · exact hbindings scope name value hv
  | @define scope name value hv =>
    refine ⟨hcurrent, hglobals, ?_, ?_, ?_, hitems, hfields⟩
    · intro other outer he
      rw [Store.define_enclosing] at he
      exact h.inward other outer he
    · intro other hs he
      rw [Store.define_enclosing] at he
      rw [Store.define_size] at hs
      exact h.rooted other hs he
    · intro other found value' hb
      rcases Store.define_binding_cases hb with rfl | hb
      · exact hv.mono hkept.extent
      · exact hbindings other found value' hb
  | lists _ hi => exact { h with bindings := hbindings, items := hi, fields := hfields }
  | newInstance =>
    refine { h with bindings := hbindings, items := hitems, fields := ?_ }
    intro object name value hf
    rw [Store.field_newInstance] at hf
    exact hfields object name value hf
  | @setField object name value hv =>
    refine { h with bindings := hbindings, items := hitems, fields := ?_ }
    intro other found value' hf
    rcases Store.field_setField hf with rfl | hf
    · exact hv.mono hkept.extent
    · exact hfields other found value' hf
  | newIdentity => exact { h with bindings := hbindings, items := hitems, fields := hfields }
  | console | clock | depths => exact { h with }

theorem Changes.kept (h : Changes m m') : Kept m m' := by
  induction h with
  | refl => exact .refl m
  | tail _ hc ih => exact ih.trans hc.kept

theorem Changes.wellFormed (hp : Changes m m') (h : m.WellFormed) : m'.WellFormed := by
  induction hp with
  | refl => exact h
  | tail _ hc ih => exact hc.wellFormed ih

end Change

/-! ## Searches -/

/-- The scopes on the way out from a scope. Each lies directly around the one before and was made before it,
and the last one is the root, with nothing around it. -/
inductive Outward (s : Store) (root : ScopeId) : ScopeId → List ScopeId → Prop
  | root : root < s.scopes.size → s.enclosing? root = none → Outward s root root [root]
  | step {scope outer : ScopeId} {path : List ScopeId} : scope < s.scopes.size →
      s.enclosing? scope = some outer → outer < scope → Outward s root outer path →
      Outward s root scope (scope :: path)

namespace Outward
variable {s : Store} {root scope : ScopeId} {path : List ScopeId}

theorem root_le (h : Outward s root scope path) : root ≤ scope := by
  induction h with
  | root => exact Nat.le_refl _
  | step _ _ hlt _ ih => exact Nat.le_trans ih (Nat.le_of_lt hlt)

theorem lt_size (h : Outward s root scope path) : ∀ outer ∈ path, outer < s.scopes.size := by
  induction h with
  | root hs => exact List.forall_mem_singleton.2 hs
  | step hs _ _ _ ih => exact List.forall_mem_cons.2 ⟨hs, ih⟩

end Outward

namespace Machine.WellFormed
variable {m : Machine} {scope : ScopeId} (h : m.WellFormed)
include h

/-- The fuel of a chain never ends it, for scopes around a scope were made before it. -/
theorem outward {fuel : Nat} (hs : scope < m.store.scopes.size) (hfuel : scope < fuel) :
    Outward m.store m.globals scope (m.store.chainFrom fuel scope) := by
  induction fuel generalizing scope with
  | zero => exact absurd hfuel (Nat.not_lt_zero scope)
  | succ fuel ih =>
    have hsome := Array.getElem?_eq_getElem hs
    have henclosing : m.store.enclosing? scope = m.store.scopes[scope].enclosing := by
      unfold Store.enclosing?
      rw [hsome]
      rfl
    unfold Store.chainFrom
    rw [hsome]
    dsimp only
    cases he : m.store.scopes[scope].enclosing with
    | none =>
      rw [he] at henclosing
      obtain rfl := h.rooted scope hs henclosing
      exact .root hs henclosing
    | some outer =>
      rw [he] at henclosing
      have hinward := h.inward scope outer henclosing
      exact .step hs henclosing hinward
        (ih (Nat.lt_trans hinward hs) (Nat.lt_of_lt_of_le hinward (Nat.le_of_lt_succ hfuel)))

/-- The search for the scope that binds a name goes on outward where a scope does not bind it. -/
theorem binder_eq (name : String) : m.store.binder? scope name =
    if (m.store.binding? scope name).isSome then some scope
    else (m.store.enclosing? scope).bind fun outer => m.store.binder? outer name :=
  Store.Inward.binder_eq h.inward scope name

theorem lookup_eq (name : String) : m.store.lookup? scope name = (m.store.binding? scope name).or
    ((m.store.enclosing? scope).bind fun outer => m.store.lookup? outer name) := by
  unfold Store.lookup?
  rw [h.binder_eq]
  cases hb : m.store.binding? scope name with
  | some value => simp [hb]
  | none => cases m.store.enclosing? scope <;> rfl

theorem assign_eq (name : String) (value : Value) : m.store.assign? scope name value =
    if (m.store.binding? scope name).isSome then some (m.store.define scope name value)
    else (m.store.enclosing? scope).bind fun outer => m.store.assign? outer name value := by
  unfold Store.assign?
  rw [h.binder_eq]
  split
  · rfl
  · cases m.store.enclosing? scope <;> rfl

/-- Nothing lies around the globals. -/
theorem enclosing_globals : m.store.enclosing? m.globals = none := by
  cases he : m.store.enclosing? m.globals with
  | none => rfl
  | some outer =>
    have hinward := h.inward m.globals outer he
    have hout := h.outward (Nat.lt_trans hinward h.globals) (Nat.lt_succ_self outer)
    exact absurd hout.root_le (Nat.not_le.2 hinward)

theorem lookup_globals (name : String) :
    m.store.lookup? m.globals name = m.store.binding? m.globals name := by
  rw [h.lookup_eq, h.enclosing_globals, Option.bind_none, Option.or_none]

/-- The walk over a number of scopes stays on the way out, and stops at the globals. -/
theorem ancestor_eq (distance : Nat) (hs : scope < m.store.scopes.size) :
    m.store.ancestor distance scope = (m.store.chain scope)[distance]?.getD m.globals := by
  have hout := h.outward hs (Nat.lt_succ_self scope)
  change Outward m.store m.globals scope (m.store.chain scope) at hout
  generalize m.store.chain scope = path at hout
  clear hs
  induction hout generalizing distance with
  | root hs he => cases distance <;> simp [Store.ancestor, he]
  | step hs he _ _ ih =>
    cases distance with
    | zero => rfl
    | succ distance => simpa [Store.ancestor, he] using ih distance

theorem ancestor_lt (distance : Nat) (hs : scope < m.store.scopes.size) :
    m.store.ancestor distance scope < m.store.scopes.size := by
  have hout := h.outward hs (Nat.lt_succ_self scope)
  rw [h.ancestor_eq distance hs]
  cases hd : (m.store.chain scope)[distance]? with
  | none => exact h.globals
  | some outer => exact hout.lt_size outer (List.mem_of_getElem? hd)

end Machine.WellFormed

end LoxLang
