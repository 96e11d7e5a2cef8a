import LoxLang.Proofs.Relabel.Value

/-!
# Values with other numbers

The numbers of the entries of a store are given out in the order in which the entries are made. If some
entries had been made before that nothing refers to, all later ones would have greater numbers. No operation
on values tells the difference: numbers are only compared with each other, and greater ones are as different
as they were.
-/

namespace LoxLang

/-! ## Extents -/

/-- How many entries of each kind a store has, and how many identities were given out. -/
structure Extent where
  scopes : Nat
  lists : Nat
  instances : Nat
  identities : Nat

structure Extent.Le (x y : Extent) : Prop where
  scopes : x.scopes ≤ y.scopes
  lists : x.lists ≤ y.lists
  instances : x.instances ≤ y.instances
  identities : x.identities ≤ y.identities

instance : LE Extent := ⟨Extent.Le⟩

theorem Extent.le_refl (x : Extent) : x ≤ x := ⟨Nat.le_refl _, Nat.le_refl _, Nat.le_refl _, Nat.le_refl _⟩

theorem Extent.le_trans {x y z : Extent} (h : x ≤ y) (h' : y ≤ z) : x ≤ z :=
  ⟨Nat.le_trans h.scopes h'.scopes, Nat.le_trans h.lists h'.lists, Nat.le_trans h.instances h'.instances,
    Nat.le_trans h.identities h'.identities⟩

/-! ## Tables -/

namespace Table
variable {α β : Type} {P Q : α → Prop} {table : Table α}

/-- All entries of the table have a property. -/
def All (P : α → Prop) (table : Table α) : Prop := ∀ entry ∈ table, P entry.2

theorem All.imp (h : table.All P) (hpq : ∀ a, P a → Q a) : table.All Q :=
  fun entry he => hpq _ (h entry he)

theorem All.get? (h : table.All P) {name : String} {a : α} (hg : table.get? name = some a) : P a := by
  induction table with
  | nil => cases hg
  | cons entry rest ih =>
    obtain ⟨key, value⟩ := entry
    unfold Table.get? at hg
    split at hg
    · cases hg
      exact h _ List.mem_cons_self
    · exact ih (fun entry he => h entry (List.mem_cons_of_mem _ he)) hg

theorem All.put (h : table.All P) (name : String) {a : α} (ha : P a) : (table.put name a).All P := by
  induction table with
  | nil => exact List.forall_mem_singleton.2 ha
  | cons entry rest ih =>
    obtain ⟨key, value⟩ := entry
    have hrest : Table.All P rest := fun entry he => h entry (List.mem_cons_of_mem _ he)
    unfold Table.put
    split
    · exact List.forall_mem_cons.2 ⟨ha, hrest⟩
    · exact List.forall_mem_cons.2 ⟨h (key, value) List.mem_cons_self, ih hrest⟩

theorem All.foldl_put {β : Type} {key : β → String} {value : β → α} {entries : List β} (h : table.All P)
    (he : ∀ entry ∈ entries, P (value entry)) :
    (entries.foldl (fun table entry => table.put (key entry) (value entry)) table).All P := by
  induction entries generalizing table with
  | nil => exact h
  | cons entry rest ih =>
    rw [List.forall_mem_cons] at he
    exact ih (h.put _ he.1) he.2

theorem mapValues_eq_self {f : α → α} (h : table.All fun a => f a = a) : table.mapValues f = table := by
  refine (List.map_congr_left fun entry he => ?_).trans (List.map_id table)
  exact Prod.ext rfl (h entry he)

end Table

/-! ## References to entries -/

/-- The scope of the closure is one of the first entries. -/
def Closure.Within (x : Extent) (c : Closure) : Prop := c.scope < x.scopes

mutual

def ClassObject.Within (x : Extent) : ClassObject → Prop
  | ⟨id, _, superclass, methods⟩ =>
    id < x.identities ∧ ExtendedWithin x superclass ∧ methods.All (Closure.Within x)

def ExtendedWithin (x : Extent) : Option ClassObject → Prop
  | some c => c.Within x
  | none => True

end

/-- All that the value refers to is among the first entries. -/
def Value.Within (x : Extent) : Value → Prop
  | .function id closure => id < x.identities ∧ closure.Within x
  | .classObject c => c.Within x
  | .instanceOf id c => id < x.instances ∧ c.Within x
  | .list id => id < x.lists
  | .listMethod id _ => id < x.lists
  | _ => True

section
variable {x y : Extent}

theorem Closure.Within.mono {c : Closure} (h : c.Within x) (hxy : x ≤ y) : c.Within y :=
  Nat.lt_of_lt_of_le h hxy.scopes

mutual

theorem ClassObject.Within.mono : {c : ClassObject} → c.Within x → x ≤ y → c.Within y
  | ⟨_, _, _, _⟩, h, hxy =>
    ⟨Nat.lt_of_lt_of_le h.1 hxy.identities, ExtendedWithin.mono h.2.1 hxy,
      h.2.2.imp fun _ hm => hm.mono hxy⟩

theorem ExtendedWithin.mono : {o : Option ClassObject} → ExtendedWithin x o → x ≤ y → ExtendedWithin y o
  | some _, h, hxy => ClassObject.Within.mono h hxy
  | none, _, _ => trivial

end

theorem Value.Within.mono {v : Value} (h : v.Within x) (hxy : x ≤ y) : v.Within y := by
  cases v with
  | function => exact ⟨Nat.lt_of_lt_of_le h.1 hxy.identities, h.2.mono hxy⟩
  | classObject => exact ClassObject.Within.mono h hxy
  | instanceOf => exact ⟨Nat.lt_of_lt_of_le h.1 hxy.instances, h.2.mono hxy⟩
  | list | listMethod => exact Nat.lt_of_lt_of_le h hxy.lists
  | _ => trivial

mutual

theorem ClassObject.Within.method? {name : String} {f : Closure} : {c : ClassObject} → c.Within x →
    c.method? name = some f → f.Within x
  | ⟨id, class_, superclass, methods⟩, h, hf => by
    unfold ClassObject.method? at hf
    cases hm : methods.get? name with
    | some own =>
      rw [hm] at hf
      cases hf
      exact h.2.2.get? hm
    | none =>
      rw [hm] at hf
      exact ExtendedWithin.method? h.2.1 hf

theorem ExtendedWithin.method? {name : String} {f : Closure} : {o : Option ClassObject} →
    ExtendedWithin x o → ClassObject.inheritedMethod? name o = some f → f.Within x
  | some _, h, hf => ClassObject.Within.method? h hf
  | none, _, hf => nomatch hf

end

end

theorem Value.Simple.within {v : Value} (h : v.Simple) (x : Extent) : v.Within x := by
  cases v <;> first | exact h.elim | trivial

/-! ## Other numbers -/

/-- A number when some are left out from a place on. -/
def skip (base width i : Nat) : Nat := if i < base then i else i + width

section
variable {base width i j n : Nat}

theorem skip_of_lt (h : i < base) : skip base width i = i := if_pos h

theorem skip_of_le (h : base ≤ i) : skip base width i = i + width := if_neg (Nat.not_lt.2 h)

theorem skip_inj : skip base width i = skip base width j ↔ i = j := by
  unfold skip
  split <;> split <;> omega

theorem skip_beq : (skip base width i == skip base width j) = (i == j) :=
  beq_eq_beq.2 skip_inj

theorem skip_lt (h : base ≤ n) : skip base width i < n + width ↔ i < n := by
  unfold skip
  split <;> omega

theorem skip_lt_skip (h : i < j) : skip base width i < skip base width j := by
  unfold skip
  split <;> split <;> omega

/-- No number is in the gap. -/
theorem skip_outside : skip base width i < base ∨ base + width ≤ skip base width i := by
  unfold skip
  split <;> omega

end

/-- Numbers that are left out: so many of each kind, behind those of the first entries. They are the numbers
of entries of a store. -/
structure Gap where
  base : Extent
  width : Extent
  kept : Store

namespace Gap

def scope (g : Gap) (i : ScopeId) : ScopeId := skip g.base.scopes g.width.scopes i

def list (g : Gap) (i : ListId) : ListId := skip g.base.lists g.width.lists i

def instance_ (g : Gap) (i : InstanceId) : InstanceId := skip g.base.instances g.width.instances i

def identity (g : Gap) (i : Identity) : Identity := skip g.base.identities g.width.identities i

end Gap

def Closure.renumber (g : Gap) (c : Closure) : Closure := { c with scope := g.scope c.scope }

mutual

def ClassObject.renumber (g : Gap) : ClassObject → ClassObject
  | ⟨id, name, superclass, methods⟩ =>
    ⟨g.identity id, name, renumberExtended g superclass, methods.mapValues (Closure.renumber g)⟩

def renumberExtended (g : Gap) : Option ClassObject → Option ClassObject
  | some c => some (c.renumber g)
  | none => none

end

/-- The value with the numbers that its references have when the numbers in the gap are left out. -/
def Value.renumber (g : Gap) : Value → Value
  | .function id closure => .function (g.identity id) (closure.renumber g)
  | .classObject c => .classObject (c.renumber g)
  | .instanceOf id c => .instanceOf (g.instance_ id) (c.renumber g)
  | .list id => .list (g.list id)
  | .listMethod id method => .listMethod (g.list id) method
  | value => value

section
variable (g : Gap)

theorem ClassObject.renumber_name (c : ClassObject) : (c.renumber g).name = c.name := by
  cases c
  rfl

theorem ClassObject.renumber_identity (c : ClassObject) : (c.renumber g).id = g.identity c.id := by
  cases c
  rfl

mutual

theorem ClassObject.method?_renumber (name : String) : (c : ClassObject) →
    (c.renumber g).method? name = (c.method? name).map (Closure.renumber g)
  | ⟨id, class_, superclass, methods⟩ => by
    unfold ClassObject.renumber ClassObject.method?
    rw [Table.get?_mapValues, inheritedMethod?_renumber name superclass]
    cases methods.get? name <;> rfl

theorem inheritedMethod?_renumber (name : String) : (o : Option ClassObject) →
    ClassObject.inheritedMethod? name (renumberExtended g o) =
      (ClassObject.inheritedMethod? name o).map (Closure.renumber g)
  | some c => c.method?_renumber name
  | none => rfl

end

@[simp] theorem ClassObject.renumber_arity (c : ClassObject) : (c.renumber g).arity = c.arity := by
  unfold ClassObject.arity
  rw [method?_renumber]
  cases c.method? initializerName <;> rfl

/-! ## References that stay -/

/-- The gap leaves the numbers of the first entries as they are. -/
structure Gap.Fixes (g : Gap) (x : Extent) : Prop where
  scope (i : ScopeId) : i < x.scopes → g.scope i = i
  list (i : ListId) : i < x.lists → g.list i = i
  instance_ (i : InstanceId) : i < x.instances → g.instance_ i = i
  identity (i : Identity) : i < x.identities → g.identity i = i

theorem Gap.fixes_base : g.Fixes g.base :=
  ⟨fun _ => skip_of_lt, fun _ => skip_of_lt, fun _ => skip_of_lt, fun _ => skip_of_lt⟩

variable {g} {x : Extent}

theorem Closure.renumber_of_within (hg : g.Fixes x) {c : Closure} (h : c.Within x) : c.renumber g = c :=
  congrArg (Closure.mk c.declaration · c.isInitializer) (hg.scope c.scope h)

mutual

theorem ClassObject.renumber_of_within (hg : g.Fixes x) : {c : ClassObject} → c.Within x → c.renumber g = c
  | ⟨id, name, superclass, methods⟩, h => by
    have hmethods : methods.mapValues (Closure.renumber g) = methods :=
      Table.mapValues_eq_self (h.2.2.imp fun _ hm => Closure.renumber_of_within hg hm)
    rw [ClassObject.renumber, hg.identity id h.1, renumberExtended_of_within hg h.2.1, hmethods]

theorem renumberExtended_of_within (hg : g.Fixes x) : {o : Option ClassObject} → ExtendedWithin x o →
    renumberExtended g o = o
  | some _, h => congrArg some (ClassObject.renumber_of_within hg h)
  | none, _ => rfl

end

theorem Value.renumber_of_within (hg : g.Fixes x) {v : Value} (h : v.Within x) : v.renumber g = v := by
  cases v with
  | function id closure =>
    exact congrArg₂ Value.function (hg.identity id h.1) (Closure.renumber_of_within hg h.2)
  | classObject c => exact congrArg Value.classObject (ClassObject.renumber_of_within hg h)
  | instanceOf id c =>
    exact congrArg₂ Value.instanceOf (hg.instance_ id h.1) (ClassObject.renumber_of_within hg h.2)
  | list id => exact congrArg Value.list (hg.list id h)
  | listMethod id method => exact congrArg (Value.listMethod · method) (hg.list id h)
  | _ => rfl

end

namespace Value
variable (g : Gap)

theorem Simple.renumber {v : Value} (h : v.Simple) : v.renumber g = v :=
  renumber_of_within g.fixes_base (h.within g.base)

/-! ## Operations on values -/

@[simp] theorem renumber_isTruthy (v : Value) : (v.renumber g).isTruthy = v.isTruthy := by
  cases v <;> rfl

theorem renumber_equals (left right : Value) :
    (left.renumber g).equals (right.renumber g) = left.equals right := by
  cases left <;> cases right <;>
    simp [equals, renumber, Gap.identity, Gap.instance_, Gap.list, ClassObject.renumber_identity, skip_beq]

@[simp] theorem renumber_plainText (v : Value) : (v.renumber g).plainText = v.plainText := by
  cases v with
  | classObject c => exact congrArg (fun name => "<class " ++ name ++ ">") (c.renumber_name g)
  | instanceOf id c => exact congrArg (fun name => name ++ " instance") (c.renumber_name g)
  | _ => rfl

@[simp] theorem renumber_typeText (v : Value) : (v.renumber g).typeText = v.typeText := by
  have hplain := renumber_plainText g v
  cases v with
  | function | classObject => exact hplain
  | instanceOf => exact congrArg (fun text => "<" ++ text ++ ">") hplain
  | _ => rfl

theorem renumber_toInteger (v : Value) : (v.renumber g).toInteger = v.toInteger := by
  cases v <;> rfl

theorem renumber_toFloating (v : Value) : (v.renumber g).toFloating = v.toFloating := by
  cases v <;> rfl

end Value

/-! ## Operators -/

/-- What the value is to an operator that does not compare references. -/
def Value.bare : Value → Value
  | .int n => .int n
  | .float x => .float x
  | .string text => .string text
  | .bool b => .bool b
  | _ => .nil

theorem Value.bare_renumber (g : Gap) (v : Value) : (v.renumber g).bare = v.bare := by
  cases v <;> rfl

namespace Arithmetic
variable (left right : Value)

theorem numbers_bare : numbers left.bare right.bare = numbers left right := by
  cases left <;> cases right <;> rfl

theorem integers_bare : integers left.bare right.bare = integers left right := by
  cases left <;> cases right <;> rfl

theorem sum_bare : sum left.bare right.bare = sum left right := by
  cases left <;> cases right <;> rfl

end Arithmetic

namespace BinaryOperator
open Arithmetic

theorem apply_bare {operator : BinaryOperator} (he : operator ≠ .equal) (hn : operator ≠ .notEqual)
    (left right : Value) : operator.apply left.bare right.bare = operator.apply left right := by
  cases operator with
  | add => exact sum_bare left right
  | subtract | multiply => simp only [apply, arithmetic, numbers_bare]
  | divide | modulo => simp only [apply, quotient, numbers_bare]
  | power => simp only [apply, Arithmetic.power, numbers_bare]
  | equal => exact absurd rfl he
  | notEqual => exact absurd rfl hn
  | less | lessEqual | greater | greaterEqual => simp only [apply, comparison, numbers_bare]
  | bitOr | bitXor | bitAnd | shiftLeft | shiftRight => simp only [apply, bitwise, integers_bare]

theorem apply_renumber (g : Gap) (operator : BinaryOperator) (left right : Value) :
    operator.apply (left.renumber g) (right.renumber g) = operator.apply left right := by
  by_cases he : operator = .equal
  · simp only [he, apply, Value.renumber_equals]
  · by_cases hn : operator = .notEqual
    · simp only [hn, apply, Value.renumber_equals]
    · rw [← apply_bare he hn, Value.bare_renumber, Value.bare_renumber, apply_bare he hn]

end BinaryOperator

theorem UnaryOperator.apply_renumber (g : Gap) (operator : UnaryOperator) (value : Value) :
    operator.apply (value.renumber g) = operator.apply value := by
  cases operator with
  | not => rw [apply, apply, Value.renumber_isTruthy]
  | _ => cases value <;> rfl

end LoxLang
