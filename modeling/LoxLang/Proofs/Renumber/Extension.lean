import LoxLang.Proofs.Renumber.Run

/-!
# Machines with further entries

A machine extends another one if it has all entries of it, as they are there, and differs in nothing else but
further entries. An effect that comes to an end from a machine does so from an extension of it as well, with
the same result up to numbers, and leaves the entries that were already there alone if it does so in the
first run.
-/

namespace LoxLang

section Arrays
variable {α : Type} {xs ys : Array α}

theorem getElem?_take (xs : Array α) (n i : Nat) : (xs.take n)[i]? = if i < n then xs[i]? else none := by
  rw [Array.take_eq_extract, Array.getElem?_extract]
  simp only [Nat.zero_add, Nat.sub_zero]
  by_cases hi : i < n
  · rw [if_pos hi]
    split
    · rfl
    · exact (Array.getElem?_eq_none (by omega)).symm
  · rw [if_neg hi, if_neg (by omega)]

theorem take_eq_iff : xs.take ys.size = ys ↔ ∀ i < ys.size, xs[i]? = ys[i]? := by
  constructor
  · intro h i hi
    have hentry := congrArg (fun zs : Array α => zs[i]?) h
    simpa only [getElem?_take, if_pos hi] using hentry
  · intro h
    apply Array.ext_getElem?
    intro i
    rw [getElem?_take]
    split
    · exact h i ‹_›
    · exact (Array.getElem?_eq_none (by omega)).symm

theorem take_self (xs : Array α) : xs.take xs.size = xs := take_eq_iff.2 fun _ _ => rfl

theorem take_take_of_le (xs : Array α) {m n : Nat} (h : m ≤ n) : (xs.take n).take m = xs.take m := by
  apply Array.ext_getElem?
  intro i
  simp only [getElem?_take]
  split
  · rw [if_pos (by omega)]
  · rfl

theorem le_size_of_take (h : xs.take ys.size = ys) : ys.size ≤ xs.size := by
  have hsize := congrArg Array.size h
  simp only [Array.take_eq_extract, Array.size_extract] at hsize
  omega

theorem take_push (xs : Array α) (a : α) : (xs.push a).take xs.size = xs := by
  rw [take_eq_iff]
  intro i hi
  rw [Array.getElem?_push, if_neg (Nat.ne_of_lt hi)]

theorem take_modify (xs : Array α) (n i : Nat) (f : α → α) :
    (xs.modify i f).take n = (xs.take n).modify i f := by
  apply Array.ext_getElem?
  intro j
  simp only [getElem?_take, Array.getElem?_modify]
  split <;> split <;> rfl

/-- An array beside one with more entries, if the change is none to the first ones. -/
theorem Spread.of_take {f : α → α} (h : ys.take xs.size = xs)
    (hf : ∀ (i : Nat) (a : α), xs[i]? = some a → f a = a) :
    Spread xs.size (ys.size - xs.size) f ys xs ys where
  base_le := Nat.le_refl _
  size := by
    have hle := le_size_of_take h
    omega
  entry i := by
    by_cases hi : i < xs.size
    · rw [skip_of_lt hi, take_eq_iff.1 h i hi]
      cases ha : xs[i]? with
      | none => rfl
      | some a => exact congrArg some (hf i a ha).symm
    · have hle := le_size_of_take h
      have hi := Nat.not_lt.1 hi
      rw [skip_of_le hi, Array.getElem?_eq_none hi, Array.getElem?_eq_none (by omega)]
      rfl
  gap j hj hj' := rfl

/-- Without a gap, an array stands beside itself. -/
theorem Spread.of_empty {f : α → α} (hf : ∀ (i : Nat) (a : α), xs[i]? = some a → f a = a) (kept : Array α) :
    Spread 0 0 f kept xs xs where
  base_le := Nat.zero_le _
  size := rfl
  entry i := by
    rw [skip_of_le (Nat.zero_le i), Nat.add_zero]
    cases ha : xs[i]? with
    | none => rfl
    | some a => exact congrArg some (hf i a ha).symm
  gap j _ hj := absurd hj (Nat.not_lt_zero j)

theorem Spread.unique {base width : Nat} {f : α → α} {kept zs : Array α}
    (h : Spread base width f kept xs ys) (h' : Spread base width f kept xs zs) : ys = zs := by
  have hentry (i : Nat) : ys[skip base width i]? = zs[skip base width i]? :=
    (h.entry i).trans (h'.entry i).symm
  apply Array.ext_getElem?
  intro j
  by_cases hj : j < base
  · have hsame := hentry j
    rwa [skip_of_lt hj] at hsame
  · by_cases hgap : j < base + width
    · exact (h.gap j (Nat.not_lt.1 hj) hgap).trans (h'.gap j (Nat.not_lt.1 hj) hgap).symm
    · have hsame := hentry (j - width)
      rwa [skip_of_le (by omega), Nat.sub_add_cancel (by omega)] at hsame

/-- If the first of two arrays still has the entries it started with, so has the second one. -/
theorem Spread.take {f : α → α} {xs' ys' : Array α} (h : Spread xs.size (ys.size - xs.size) f ys xs' ys')
    (hx : xs'.take xs.size = xs) (hy : ys.take xs.size = xs)
    (hf : ∀ (i : Nat) (a : α), xs[i]? = some a → f a = a) : ys'.take ys.size = ys := by
  have hspread := Spread.of_take hy hf
  rw [take_eq_iff]
  intro i hi
  by_cases hlt : i < xs.size
  · have hentry := h.entry i
    rw [take_eq_iff.1 hx i hlt, ← hspread.entry i, skip_of_lt hlt] at hentry
    exact hentry
  · exact h.gap i (Nat.not_lt.1 hlt) (by omega)

end Arrays

/-! ## The first entries -/

/-- The store with its first entries only. -/
def Store.first (x : Extent) (s : Store) : Store where
  scopes := s.scopes.take x.scopes
  lists := s.lists.take x.lists
  instances := s.instances.take x.instances
  nextIdentity := min x.identities s.nextIdentity

def Store.Extends (s' s : Store) : Prop := s'.first s.extent = s

/-- The machine with its first entries only. -/
def Machine.first (x : Extent) (m : Machine) : Machine := { m with store := m.store.first x }

/-- The machine is the other one, but for further entries. -/
def Machine.Extends (m' m : Machine) : Prop := m'.first m.extent = m

namespace Store
variable {s s' s'' : Store}

theorem first_first {x y : Extent} (h : x ≤ y) (s : Store) : (s.first y).first x = s.first x := by
  have hidentities := h.identities
  simp only [first, take_take_of_le _ h.scopes, take_take_of_le _ h.lists, take_take_of_le _ h.instances,
    ← Nat.min_assoc, Nat.min_eq_left hidentities]

theorem extends_of_take (hscopes : s'.scopes.take s.scopes.size = s.scopes)
    (hlists : s'.lists.take s.lists.size = s.lists)
    (hinstances : s'.instances.take s.instances.size = s.instances)
    (hidentities : s.nextIdentity ≤ s'.nextIdentity) : s'.Extends s := by
  unfold Extends first extent
  rw [hscopes, hlists, hinstances, Nat.min_eq_left hidentities]

theorem extends_refl (s : Store) : s.Extends s :=
  extends_of_take (take_self _) (take_self _) (take_self _) (Nat.le_refl _)

namespace Extends

theorem scopes (h : s'.Extends s) : s'.scopes.take s.scopes.size = s.scopes := congrArg Store.scopes h

theorem lists (h : s'.Extends s) : s'.lists.take s.lists.size = s.lists := congrArg Store.lists h

theorem instances (h : s'.Extends s) : s'.instances.take s.instances.size = s.instances :=
  congrArg Store.instances h

theorem identities_le (h : s'.Extends s) : s.nextIdentity ≤ s'.nextIdentity := by
  have hmin : min s.nextIdentity s'.nextIdentity = s.nextIdentity := congrArg Store.nextIdentity h
  exact hmin ▸ Nat.min_le_right _ _

theorem extent_le (h : s'.Extends s) : s.extent ≤ s'.extent :=
  ⟨le_size_of_take h.scopes, le_size_of_take h.lists, le_size_of_take h.instances, h.identities_le⟩

theorem trans (h' : s''.Extends s') (h : s'.Extends s) : s''.Extends s := by
  have hfirst := congrArg (Store.first s.extent) h'
  rw [first_first h.extent_le] at hfirst
  exact hfirst.trans h

end Extends

theorem newScope_extends (s : Store) (bindings : Table Value) (around : Option ScopeId) :
    (s.newScope bindings around).2.Extends s :=
  extends_of_take (take_push _ _) (take_self _) (take_self _) (Nat.le_refl _)

theorem newIdentity_extends (s : Store) : s.newIdentity.2.Extends s :=
  extends_of_take (take_self _) (take_self _) (take_self _) (Nat.le_succ _)

/-! ### Changes of the first entries -/

section
variable (x : Extent) (s : Store)

theorem first_define (scope : ScopeId) (name : String) (value : Value) :
    (s.define scope name value).first x = (s.first x).define scope name value := by
  simp only [first, define, take_modify]

theorem first_setField (object : InstanceId) (name : String) (value : Value) :
    (s.setField object name value).first x = (s.first x).setField object name value := by
  simp only [first, setField, take_modify]

theorem first_modifyList (list : ListId) (change : Array Value → Array Value) :
    (s.modifyList list change).first x = (s.first x).modifyList list change := by
  simp only [first, modifyList, take_modify]

end

/-! ### References to the first entries -/

section
variable {g : Gap} {x : Extent} (hg : g.Fixes x)
include hg

theorem Refers.renumber_scope (h : s.Refers x) (hle : s.scopes.size ≤ x.scopes) (i : ScopeId)
    (scope : Scope) (hs : s.scopes[i]? = some scope) : scope.renumber g = scope := by
  have hbindings : scope.bindings.mapValues (Value.renumber g) = scope.bindings :=
    Table.mapValues_eq_self ((h.bindings i scope hs).imp fun _ hv => Value.renumber_of_within hg hv)
  have henclosing : scope.enclosing.map g.scope = scope.enclosing := by
    cases ho : scope.enclosing with
    | none => rfl
    | some outer =>
      have hinward := h.inward i scope outer hs ho
      have hi : i < s.scopes.size := (Array.getElem?_eq_some_iff.1 hs).1
      exact congrArg some (hg.scope outer (Nat.lt_trans hinward (Nat.lt_of_lt_of_le hi hle)))
  exact congrArg₂ Scope.mk hbindings henclosing

theorem Refers.renumber_items (h : s.Refers x) (i : ListId) (items : Array Value)
    (hs : s.lists[i]? = some items) : items.map (Value.renumber g) = items := by
  refine (Array.map_congr_left fun v hv => ?_).trans (Array.map_id items)
  exact Value.renumber_of_within hg (h.items i items hs v hv)

theorem Refers.renumber_fields (h : s.Refers x) (i : InstanceId) (fields : Table Value)
    (hs : s.instances[i]? = some fields) : fields.mapValues (Value.renumber g) = fields :=
  Table.mapValues_eq_self ((h.fields i fields hs).imp fun _ hv => Value.renumber_of_within hg hv)

end

end Store

/-! ## Machines beside themselves -/

/-- The gap that leaves out no numbers. -/
def Gap.empty : Gap := ⟨⟨0, 0, 0, 0⟩, ⟨0, 0, 0, 0⟩, {}⟩

theorem Gap.empty_fixes (x : Extent) : Gap.empty.Fixes x :=
  ⟨fun _ _ => skip_of_le (Nat.zero_le _), fun _ _ => skip_of_le (Nat.zero_le _),
    fun _ _ => skip_of_le (Nat.zero_le _), fun _ _ => skip_of_le (Nat.zero_le _)⟩

theorem Store.Sound.beside_self {s : Store} (h : s.Sound) : s.Beside .empty s where
  sound := h
  scopes := .of_empty (Store.Refers.renumber_scope (Gap.empty_fixes _) h (Nat.le_refl _)) _
  lists := .of_empty (Store.Refers.renumber_items (Gap.empty_fixes _) h) _
  instances := .of_empty (Store.Refers.renumber_fields (Gap.empty_fixes _) h) _
  identities_le := Nat.zero_le _
  identities := rfl

theorem Machine.Sound.beside_self {m : Machine} (h : m.Sound) : m.Beside .empty m where
  store := h.store.beside_self
  current_lt := h.current
  globals_lt := h.globals
  current := ((Gap.empty_fixes m.extent).scope _ h.current).symm
  globals := ((Gap.empty_fixes m.extent).scope _ h.globals).symm
  depths := rfl
  console := rfl
  clock := rfl

theorem Store.Beside.unique {g : Gap} {s s' s'' : Store} (h : s.Beside g s') (h' : s.Beside g s'') :
    s' = s'' := by
  have hscopes := h.scopes.unique h'.scopes
  have hlists := h.lists.unique h'.lists
  have hinstances := h.instances.unique h'.instances
  have hidentities := h.identities.trans h'.identities.symm
  cases s'
  cases s''
  cases hscopes
  cases hlists
  cases hinstances
  cases hidentities
  rfl

/-- A machine has only one other beside it with a certain gap. -/
theorem Machine.Beside.unique {g : Gap} {m m' m'' : Machine} (h : m.Beside g m') (h' : m.Beside g m'') :
    m' = m'' := by
  have hstore := h.store.unique h'.store
  have hcurrent := h.current.trans h'.current.symm
  have hglobals := h.globals.trans h'.globals.symm
  have hdepths := h.depths.trans h'.depths.symm
  have hconsole := h.console.trans h'.console.symm
  have hclock := h.clock.trans h'.clock.symm
  cases m'
  cases m''
  cases hstore
  cases hcurrent
  cases hglobals
  cases hdepths
  cases hconsole
  cases hclock
  rfl

/-! ## Extensions have a gap behind the first entries -/

/-- The entries of a store behind those of another one. -/
def Gap.between (s s' : Store) : Gap where
  base := s.extent
  width := ⟨s'.scopes.size - s.scopes.size, s'.lists.size - s.lists.size,
    s'.instances.size - s.instances.size, s'.nextIdentity - s.nextIdentity⟩
  kept := s'

section
variable {s s' r r' : Store}

theorem Store.Extends.beside (h : s'.Extends s) (hs : s.Sound) : s.Beside (.between s s') s' where
  sound := hs
  scopes := .of_take h.scopes (Store.Refers.renumber_scope (Gap.fixes_base _) hs (Nat.le_refl _))
  lists := .of_take h.lists (Store.Refers.renumber_items (Gap.fixes_base _) hs)
  instances := .of_take h.instances (Store.Refers.renumber_fields (Gap.fixes_base _) hs)
  identities_le := Nat.le_refl _
  identities := (Nat.add_sub_of_le h.identities_le).symm

/-- A run that leaves the first entries alone leaves the entries of the extension alone. -/
theorem Store.Extends.after (h : s'.Extends s) (hs : s.Sound) (hr : r.Extends s)
    (hb : r.Beside (.between s s') r') : r'.Extends s' := by
  apply Store.extends_of_take
  · exact hb.scopes.take hr.scopes h.scopes
      (Store.Refers.renumber_scope (Gap.fixes_base _) hs (Nat.le_refl _))
  · exact hb.lists.take hr.lists h.lists (Store.Refers.renumber_items (Gap.fixes_base _) hs)
  · exact hb.instances.take hr.instances h.instances
      (Store.Refers.renumber_fields (Gap.fixes_base _) hs)
  · have hnumber : r'.nextIdentity = r.nextIdentity + (s'.nextIdentity - s.nextIdentity) := hb.identities
    have hle := h.identities_le
    have hle' := hr.identities_le
    rw [hnumber]
    exact Nat.le_trans (Nat.le_of_eq (Nat.add_sub_of_le hle).symm) (Nat.add_le_add_right hle' _)

end

namespace Machine.Extends
variable {m m' m'' r r' : Machine}

theorem part {α : Type} (h : m'.Extends m) (f : Machine → α) : f (m'.first m.extent) = f m := congrArg f h

theorem store (h : m'.Extends m) : m'.store.Extends m.store := h.part Machine.store

theorem current (h : m'.Extends m) : m'.current = m.current := h.part Machine.current

theorem globals (h : m'.Extends m) : m'.globals = m.globals := h.part Machine.globals

theorem depths (h : m'.Extends m) : m'.depths = m.depths := h.part Machine.depths

theorem console (h : m'.Extends m) : m'.console = m.console := h.part Machine.console

theorem clock (h : m'.Extends m) : m'.clock = m.clock := h.part Machine.clock

theorem changed {s : Store} (h : s.Extends m.store) : Machine.Extends { m with store := s } m := by
  have hfirst : s.first m.extent = m.store := h
  unfold Machine.Extends Machine.first
  rw [hfirst]

theorem refl (m : Machine) : m.Extends m := changed m.store.extends_refl

theorem trans (h' : m''.Extends m') (h : m'.Extends m) : m''.Extends m := by
  have hfirst := congrArg (Machine.first m.extent) h'
  have hstore : (m''.first m'.extent).first m.extent = m''.first m.extent :=
    congrArg (fun s => { m'' with store := s }) (Store.first_first h.store.extent_le m''.store)
  rw [hstore] at hfirst
  exact hfirst.trans h

theorem beside (h : m'.Extends m) (hm : m.Sound) : m.Beside (.between m.store m'.store) m' where
  store := h.store.beside hm.store
  current_lt := hm.current
  globals_lt := hm.globals
  current := h.current.trans (skip_of_lt hm.current).symm
  globals := h.globals.trans (skip_of_lt hm.globals).symm
  depths := h.depths
  console := h.console
  clock := h.clock

theorem after (h : m'.Extends m) (hm : m.Sound) (hr : r.Extends m)
    (hb : r.Beside (.between m.store m'.store) r') : r'.Extends m' := by
  have hstore : r'.store.first m'.extent = m'.store := h.store.after hm.store hr.store hb.store
  have hcurrent : r'.current = m'.current := by
    rw [hb.current, hr.current, h.current]
    exact skip_of_lt hm.current
  have hglobals : r'.globals = m'.globals := by
    rw [hb.globals, hr.globals, h.globals]
    exact skip_of_lt hm.globals
  have hdepths := (hb.depths.trans hr.depths).trans h.depths.symm
  have hconsole := (hb.console.trans hr.console).trans h.console.symm
  have hclock := (hb.clock.trans hr.clock).trans h.clock.symm
  unfold Machine.Extends Machine.first
  rw [hstore, hcurrent, hglobals, hdepths, hconsole, hclock]

end Machine.Extends

/-! ## Changes of entries -/

/-- The change puts something in the place of an entry. What it does to the first entries does not depend on
later ones. -/
structure Overwrites (change : Store → Store) : Prop where
  extent (s : Store) : (change s).extent = s.extent
  first (x : Extent) (s : Store) : (change s).first x = change (s.first x)
  refers {x : Extent} {s : Store} : s.Refers x → (change s).Refers x

section Overwrites
variable {value : Value} (hv : ∀ x, value.Within x)
include hv

theorem overwrites_define (scope : ScopeId) (name : String) :
    Overwrites fun s => s.define scope name value :=
  ⟨fun s => s.define_extent scope name value, fun x s => s.first_define x scope name value,
    fun h => h.define scope name (hv _)⟩

theorem overwrites_setField (object : InstanceId) (name : String) :
    Overwrites fun s => s.setField object name value :=
  ⟨fun s => s.setField_extent object name value, fun x s => s.first_setField x object name value,
    fun h => h.setField object name (hv _)⟩

theorem overwrites_item (list : ListId) (i : Nat) :
    Overwrites fun s => s.modifyList list fun items => items.setIfInBounds i value :=
  ⟨fun s => s.modifyList_extent list _, fun x s => s.first_modifyList x list _,
    fun h => h.modifyList list fun _ hi => items_setIfInBounds hi i (hv _)⟩

end Overwrites

namespace Overwrites
variable {m n : Machine} {change : Store → Store} (hc : Overwrites change)
include hc

theorem sound (hm : m.Sound) : Machine.Sound { m with store := change m.store } := by
  have hextent := hc.extent m.store
  have hscopes : (change m.store).scopes.size = m.store.scopes.size := congrArg Extent.scopes hextent
  refine ⟨?_, hscopes ▸ hm.current, hscopes ▸ hm.globals⟩
  change (change m.store).Refers (change m.store).extent
  rw [hextent]
  exact hc.refers hm.store

theorem first_machine (h : n.Extends m) :
    Machine.first m.extent { n with store := change n.store } = { m with store := change m.store } := by
  have hstore : (change n.store).first m.extent = change m.store :=
    (hc.first m.extent n.store).trans (congrArg change h.store)
  unfold Machine.first
  dsimp only
  rw [hstore, h.current, h.globals, h.depths, h.console, h.clock]

end Overwrites

/-! ## Runs -/

section Runs
variable {m m' r : Machine} {e : Expr} {v : Value} {n k : Nat}

/-- No run makes a dangling reference. -/
theorem evaluate_sound (hm : m.Sound) (he : evaluate n e m = .done v r) :
    r.Sound ∧ v.Within r.extent := by
  have hrun := shadows_evaluate .empty (Nat.le_refl n) hm.beside_self e
  rw [he] at hrun
  cases hrun with
  | done hb _ hr => exact ⟨hb.sound, hr.within⟩

/-- More fuel makes no difference to a run that comes to an end. -/
theorem evaluate_more (hm : m.Sound) (he : evaluate n e m = .done v r) (hk : n ≤ k) :
    evaluate k e m = .done v r := by
  have hrun := shadows_evaluate .empty hk hm.beside_self e
  rw [he] at hrun
  generalize evaluate k e m = ending at hrun
  cases hrun with
  | done hb _ hv =>
    rw [hv.eq, Value.renumber_of_within (Gap.empty_fixes _) hv.within, hb.unique hb.sound.beside_self]

/-- A run from an extension, with at least as much fuel. -/
theorem evaluate_extension (hm : m.Sound) (he : evaluate n e m = .done v r) (hr : r.Extends m)
    (h : m'.Extends m) (hk : n ≤ k) :
    ∃ v' r', evaluate k e m' = .done v' r' ∧ r'.Extends m' ∧
      v.Beside (.between m.store m'.store) r.extent v' ∧ r.Beside (.between m.store m'.store) r' := by
  have hrun := shadows_evaluate (.between m.store m'.store) hk (h.beside hm) e
  rw [he] at hrun
  generalize evaluate k e m' = ending at hrun
  cases hrun with
  | done hb _ hv => exact ⟨_, _, rfl, h.after hm hr hb, hv, hb⟩

end Runs

end LoxLang
