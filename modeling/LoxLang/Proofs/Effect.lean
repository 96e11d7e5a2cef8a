import LoxLang.Evaluate
import LoxLang.Proofs.Store

/-!
# What effects preserve

A relation between the machine before an effect and the machine after it, however the effect ends. If the
relation holds of every single change that the evaluator makes to a machine, and if coming back from another
scope does not break it, then it holds of all functions of the evaluator. Nothing is assumed here about the
program or about the machine.
-/

namespace LoxLang

/-- However the effect ends, the machine after it is related to the one before. -/
def Preserves {α : Type} (R : Machine → Machine → Prop) (effect : Effect α) : Prop :=
  ∀ m, R m (effect m).machine

/-- A relation that holds of every change that the evaluator makes to a machine in one step. -/
structure Stepwise (R : Machine → Machine → Prop) : Prop where
  refl (m : Machine) : R m m
  trans {m m' m'' : Machine} : R m m' → R m' m'' → R m m''
  newScope (m : Machine) (bindings : Table Value) (around : Option ScopeId) :
    R m { m with store := (m.store.newScope bindings around).2 }
  define (m : Machine) (scope : ScopeId) (name : String) (value : Value) :
    R m { m with store := m.store.define scope name value }
  lists (m : Machine) (lists : Array (Array Value)) : R m { m with store := { m.store with lists } }
  newInstance (m : Machine) : R m { m with store := m.store.newInstance.2 }
  setField (m : Machine) (object : InstanceId) (name : String) (value : Value) :
    R m { m with store := m.store.setField object name value }
  newIdentity (m : Machine) : R m { m with store := m.store.newIdentity.2 }
  console (m : Machine) (console : Console) : R m { m with console }
  clock (m : Machine) : R m { m with clock := fun reading => m.clock (reading + 1) }
  /-- Coming back to the scope that was current before. -/
  within {m m' : Machine} {scope : ScopeId} :
    R { m with current := scope } m' → R m { m' with current := m.current }

/-! ## Holders of names -/

theorem holder_bound {m : Machine} {depth : Option Nat} {name : String} {holder : ScopeId}
    (h : m.holder? depth name = some holder) : (m.store.binding? holder name).isSome := by
  unfold Machine.holder? at h
  cases depth with
  | none => exact Store.binder_bound h
  | some depth => exact Store.binderAt_bound h

/-! ## One effect after another -/

namespace Effect
variable {α β : Type} {effect : Effect α} {next : α → Effect β} {m n : Machine}

theorem bind_done {a : α} (h : effect m = .done a n) : (effect >>= next) m = next a n := by
  change andThen effect next m = _
  unfold andThen
  rw [h]

theorem bind_failed {e : RuntimeError} (h : effect m = .failed e n) : (effect >>= next) m = .failed e n := by
  change andThen effect next m = _
  unfold andThen
  rw [h]

theorem read_bind (find : Machine → α) (next : α → Effect β) (m : Machine) :
    (read find >>= next) m = next (find m) m := bind_done rfl

theorem done_of_bind {b : β} (h : (effect >>= next) m = .done b n) :
    ∃ a middle, effect m = .done a middle ∧ next a middle = .done b n := by
  change andThen effect next m = _ at h
  unfold andThen at h
  cases hr : effect m with
  | done a middle =>
    rw [hr] at h
    exact ⟨a, middle, rfl, h⟩
  | failed e middle =>
    rw [hr] at h
    cases h
  | outOfFuel middle =>
    rw [hr] at h
    cases h

theorem bind_congr {effect' : Effect α} {next' : α → Effect β} (h : effect m = effect' m)
    (hn : ∀ a after, effect' m = .done a after → next a after = next' a after) :
    (effect >>= next) m = (effect' >>= next') m := by
  change andThen effect next m = andThen effect' next' m
  unfold andThen
  rw [h]
  cases hr : effect' m with
  | done a after => exact hn a after hr
  | failed e after => rfl
  | outOfFuel after => rfl

end Effect

/-! ## The machine after an operation -/

section
variable {α : Type} {line : Nat} {m : Machine}

theorem ofExcept_done {result : Except Fault α} {a : α} {after : Machine}
    (h : Effect.ofExcept line result m = .done a after) : after = m := by
  unfold Effect.ofExcept at h
  cases result with
  | ok found =>
    cases h
    rfl
  | error fault => cases h

theorem onStore_machine {operation : Store → Except Fault α × Store} :
    (Effect.onStore line operation m).machine = { m with store := (operation m.store).2 } := by
  unfold Effect.onStore
  rcases operation m.store with ⟨_ | a, store⟩ <;> rfl

theorem ok_of_onStore_done {operation : Store → Except Fault α × Store} {a : α} {after : Machine}
    (h : Effect.onStore line operation m = .done a after) : (operation m.store).1 = .ok a := by
  unfold Effect.onStore at h
  rcases hresult : operation m.store with ⟨_ | b, store⟩
  · rw [hresult] at h
    cases h
  · rw [hresult] at h
    cases h
    rfl

theorem error_of_onStore_failed {operation : Store → Except Fault α × Store} {e : RuntimeError}
    {after : Machine} (h : Effect.onStore line operation m = .failed e after) :
    (operation m.store).1 = .error e.fault := by
  unfold Effect.onStore at h
  rcases hresult : operation m.store with ⟨_ | b, store⟩
  · rw [hresult] at h
    cases h
    rfl
  · rw [hresult] at h
    cases h

theorem onConsole_machine {operation : Console → Except Fault α × Console} :
    (Effect.onConsole line operation m).machine = { m with console := (operation m.console).2 } := by
  unfold Effect.onConsole
  rcases operation m.console with ⟨_ | a, console⟩ <;> rfl

theorem error_of_onConsole_failed {operation : Console → Except Fault α × Console} {e : RuntimeError}
    {after : Machine} (h : Effect.onConsole line operation m = .failed e after) :
    (operation m.console).1 = .error e.fault := by
  unfold Effect.onConsole at h
  rcases hresult : operation m.console with ⟨_ | b, console⟩
  · rw [hresult] at h
    cases h
    rfl
  · rw [hresult] at h
    cases h

end

namespace Store

theorem setItemAt_eq (s : Store) (list : ListId) (index value : Value) :
    ∃ lists, (s.setItemAt list index value).2 = { s with lists } := by
  unfold setItemAt
  split
  · exact ⟨_, rfl⟩
  · exact ⟨s.lists, rfl⟩

theorem sliceOf_eq (s : Store) (list : ListId) (start stop : Value) :
    ∃ lists, (s.sliceOf list start stop).2 = { s with lists } := by
  unfold sliceOf
  dsimp only
  split
  · exact ⟨_, rfl⟩
  · exact ⟨s.lists, rfl⟩

/-- A method of a list changes nothing but lists. -/
theorem callListMethod_eq (s : Store) (list : ListId) (method : ListMethod) (arguments : List Value) :
    ∃ lists, (s.callListMethod list method arguments).2 = { s with lists } := by
  have hsame : ∃ lists, s = { s with lists } := ⟨s.lists, rfl⟩
  unfold callListMethod
  split
  · exact ⟨_, rfl⟩
  · split
    · exact ⟨_, rfl⟩
    · exact hsame
  · exact ⟨_, rfl⟩
  · exact hsame
  · exact hsame
  · exact setItemAt_eq s list _ _
  · exact sliceOf_eq s list _ _
  · exact hsame

end Store

/-- Methods are made without a change of the machine. -/
theorem methodsIn_eq (scope : ScopeId) (methods : List FunctionDecl) :
    methodsIn scope methods = pure (methodTable scope methods) := rfl

/-! ## Rules -/

namespace Stepwise
variable {R : Machine → Machine → Prop} {α β : Type}

theorem yield (h : Stepwise R) (a : α) : Preserves R (pure a) := h.refl

theorem exhausted (h : Stepwise R) : Preserves (α := α) R Effect.exhausted := h.refl

theorem fail (h : Stepwise R) (line : Nat) (fault : Fault) : Preserves (α := α) R (Effect.fail line fault) :=
  h.refl

theorem read (h : Stepwise R) (find : Machine → α) : Preserves R (Effect.read find) := h.refl

theorem bind (h : Stepwise R) {effect : Effect α} {next : α → Effect β} (he : Preserves R effect)
    (hn : ∀ a, Preserves R (next a)) : Preserves R (effect >>= next) := by
  intro m
  have hm := he m
  change R m (Effect.andThen effect next m).machine
  unfold Effect.andThen
  cases hr : effect m with
  | done a after =>
    rw [hr] at hm
    exact h.trans hm (hn a after)
  | failed e after =>
    rw [hr] at hm
    exact hm
  | outOfFuel after =>
    rw [hr] at hm
    exact hm

theorem inside (h : Stepwise R) (scope : ScopeId) {effect : Effect α} (he : Preserves R effect) :
    Preserves R (Effect.within scope effect) := by
  intro m
  have hm := he { m with current := scope }
  unfold Effect.within
  cases hr : effect { m with current := scope } with
  | done a after =>
    rw [hr] at hm
    exact h.within hm
  | failed e after =>
    rw [hr] at hm
    exact h.within hm
  | outOfFuel after =>
    rw [hr] at hm
    exact h.within hm

theorem ofExcept (h : Stepwise R) (line : Nat) (result : Except Fault α) :
    Preserves R (Effect.ofExcept line result) := by
  intro m
  cases result with
  | ok a => exact h.refl m
  | error fault => exact h.refl m

theorem ofOption (h : Stepwise R) (line : Nat) (fault : Fault) (found : Option α) :
    Preserves R (Effect.ofOption line fault found) := h.ofExcept line _

theorem make (_ : Stepwise R) {making : Store → α × Store}
    (hm : ∀ m : Machine, R m { m with store := (making m.store).2 }) : Preserves R (Effect.make making) :=
  hm

theorem modifyStore (_ : Stepwise R) {change : Store → Store}
    (hc : ∀ m : Machine, R m { m with store := change m.store }) :
    Preserves R (Effect.modifyStore change) := hc

/-- An operation on lists, whether it faults or not. -/
theorem onLists (h : Stepwise R) (line : Nat) {operation : Store → Except Fault α × Store}
    (ho : ∀ s, ∃ lists, (operation s).2 = { s with lists }) :
    Preserves R (Effect.onStore line operation) := by
  intro m
  obtain ⟨lists, hl⟩ := ho m.store
  rw [onStore_machine, hl]
  exact h.lists m lists

theorem onConsole (h : Stepwise R) (line : Nat) (operation : Console → Except Fault α × Console) :
    Preserves R (Effect.onConsole line operation) := by
  intro m
  rw [onConsole_machine]
  exact h.console m _

theorem textOf (h : Stepwise R) (fuel : Nat) (value : Value) : Preserves R (Effect.textOf fuel value) := by
  intro m
  unfold Effect.textOf
  cases m.store.text? fuel value with
  | some text => exact h.refl m
  | none => exact h.refl m

theorem readLine (h : Stepwise R) (line : Nat) : Preserves R (Effect.readLine line) := by
  apply h.bind (h.onConsole line Console.readLine)
  intro text
  cases text with
  | some text => exact h.yield _
  | none => exact h.yield _

theorem builtin (h : Stepwise R) (builtin : Builtin) (fuel : Nat) (arguments : List Value) (line : Nat) :
    Preserves R (builtin.call fuel arguments line) := by
  have hlist : Preserves R (Effect.make fun s => s.newList #[]) := h.make fun m => h.lists m _
  unfold Builtin.call
  split
  · exact h.bind (h.textOf fuel _) fun _ => h.bind (h.onConsole line _) fun _ => h.yield _
  · exact h.clock
  · exact h.bind (h.textOf fuel _) fun _ => h.bind (h.onConsole line _) fun _ => h.readLine line
  · exact h.ofExcept line _
  · exact h.ofExcept line _
  · exact h.bind (h.textOf fuel _) fun _ => h.yield _
  · exact h.yield _
  · exact h.bind hlist fun _ => h.yield _
  · exact h.fail line _

/-! ## Names, properties and classes -/

theorem depthOf (h : Stepwise R) (id : NodeId) : Preserves R (LoxLang.depthOf id) := h.read _

theorem readName (h : Stepwise R) (depth : Option Nat) (name : Name) :
    Preserves R (LoxLang.readName depth name) :=
  h.bind (h.read _) fun _ => h.ofOption _ _ _

theorem writeName (h : Stepwise R) (depth : Option Nat) (name : Name) (value : Value) :
    Preserves R (LoxLang.writeName depth name value) := by
  have hholder : Preserves R (holderOf depth name) := h.bind (h.read _) fun _ => h.ofOption _ _ _
  exact h.bind hholder fun holder => h.modifyStore fun m => h.define m holder name.text value

theorem readReference (h : Stepwise R) (target : Reference) :
    Preserves R (LoxLang.readReference target) :=
  h.bind (h.depthOf target.id) fun depth => h.readName depth target.name

theorem defineHere (h : Stepwise R) (name : String) (value : Value) :
    Preserves R (LoxLang.defineHere name value) :=
  h.bind (h.read _) fun scope => h.modifyStore fun m => h.define m scope name value

theorem combine (h : Stepwise R) (operator : AssignOperator) (line : Nat) (value : Value)
    {old : Effect Value} (ho : Preserves R old) :
    Preserves R (LoxLang.combine operator line value old) := by
  cases operator with
  | plain => exact h.yield value
  | compound operator => exact h.bind ho fun _ => h.ofExcept line _

theorem openScope (h : Stepwise R) (bindings : Table Value) (around : Option ScopeId) :
    Preserves R (Effect.make fun s => s.newScope bindings around) :=
  h.make fun m => h.newScope m bindings around

theorem bindReceiver (h : Stepwise R) (method : Closure) (receiver : Value) :
    Preserves R (LoxLang.bindReceiver method receiver) :=
  h.bind (h.openScope _ _) fun _ => h.yield _

theorem newFunction (h : Stepwise R) (closure : Closure) : Preserves R (LoxLang.newFunction closure) :=
  h.bind (h.make h.newIdentity) fun _ => h.yield _

theorem boundMethod (h : Stepwise R) (method : Closure) (receiver : Value) :
    Preserves R (LoxLang.boundMethod method receiver) :=
  h.bind (h.bindReceiver method receiver) h.newFunction

theorem instanceProperty (h : Stepwise R) (id : InstanceId) (class_ : ClassObject) (name : Name) :
    Preserves R (LoxLang.instanceProperty id class_ name) := by
  apply h.bind (h.read _)
  intro field
  cases field with
  | some value => exact h.yield value
  | none =>
    dsimp only
    cases class_.method? name.text with
    | some method => exact h.boundMethod method _
    | none => exact h.fail _ _

theorem property (h : Stepwise R) (object : Value) (name : Name) :
    Preserves R (LoxLang.property object name) := by
  cases object with
  | instanceOf id class_ => exact h.instanceProperty id class_ name
  | list id =>
    unfold LoxLang.property
    dsimp only
    cases ListMethod.ofName? name.text with
    | some method => exact h.yield _
    | none => exact h.fail _ _
  | _ => exact h.fail _ _

theorem inheritedMethod (h : Stepwise R) (target : Reference) (method : Name) :
    Preserves R (LoxLang.inheritedMethod target method) := by
  apply h.bind (h.depthOf target.id)
  intro depth
  apply h.bind (h.ofOption _ _ depth)
  intro depth
  apply h.bind (h.readName (some depth) _)
  intro superclass
  apply h.bind (h.readName (some (depth - 1)) _)
  intro receiver
  split
  · split
    · exact h.boundMethod _ _
    · exact h.fail _ _
  · exact h.fail _ _

theorem itemOf (h : Stepwise R) (list : ListId) (index : Value) (line : Nat) :
    Preserves R (LoxLang.itemOf list index line) := h.bind (h.read _) fun _ => h.ofExcept line _

theorem superclassOf (h : Stepwise R) (line : Nat) (superclass : Option Reference) :
    Preserves R (LoxLang.superclassOf line superclass) := by
  cases superclass with
  | none => exact h.yield none
  | some target =>
    apply h.bind (h.readReference target)
    intro value
    cases value with
    | classObject c => exact h.yield _
    | _ => exact h.fail _ _

theorem methodScope (h : Stepwise R) (superclass : Option ClassObject) :
    Preserves R (LoxLang.methodScope superclass) := by
  cases superclass with
  | none => exact h.read _
  | some superclass => exact h.bind (h.read _) fun current => h.openScope _ (some current)

theorem defineClass (h : Stepwise R) (name : Name) (superclass : Option Reference)
    (methods : List FunctionDecl) : Preserves R (LoxLang.defineClass name superclass methods) := by
  apply h.bind (h.superclassOf name.line superclass)
  intro found
  apply h.bind (h.defineHere name.text .nil)
  intro _
  apply h.bind (h.methodScope found)
  intro scope
  apply h.bind (h.inside scope (h.read _))
  intro table
  apply h.bind (h.make h.newIdentity)
  intro id
  apply h.bind (h.read _)
  intro holder
  apply h.bind (h.ofOption _ _ holder)
  intro holder
  exact h.modifyStore fun m => h.define m holder name.text _

end Stepwise

end LoxLang
