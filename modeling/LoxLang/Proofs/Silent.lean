import LoxLang.Proofs.Effect

/-!
# Effects beside the scopes

Effects that neither open a scope nor give a value to a name. The functions of the language and the operations on
lists and fields are such effects, and all that only looks something up.
-/

namespace LoxLang

/-- The scopes stay as they are. -/
structure SameScopes (m m' : Machine) : Prop where
  globals : m'.globals = m.globals
  scopes : m'.store.scopes = m.store.scopes

theorem SameScopes.refl (m : Machine) : SameScopes m m := ⟨rfl, rfl⟩

theorem SameScopes.bindings {m m' : Machine} (h : SameScopes m m') :
    m'.store.binding? = m.store.binding? := by
  unfold Store.binding?
  rw [h.scopes]

/-- The effect leaves all scopes as they are. -/
abbrev Silent {α : Type} (effect : Effect α) : Prop := Preserves SameScopes effect

namespace Silent
variable {α β : Type} {line : Nat}

theorem yield (a : α) : Silent (pure a) := SameScopes.refl

theorem exhausted : Silent (α := α) .exhausted := SameScopes.refl

theorem fail (fault : Fault) : Silent (α := α) (.fail line fault) := SameScopes.refl

theorem read (find : Machine → α) : Silent (.read find) := SameScopes.refl

theorem ofExcept (result : Except Fault α) : Silent (.ofExcept line result) := by
  intro m
  cases result with
  | ok a => exact .refl m
  | error fault => exact .refl m

theorem ofOption (fault : Fault) (found : Option α) : Silent (.ofOption line fault found) := ofExcept _

theorem make {making : Store → α × Store} (h : ∀ s, (making s).2.scopes = s.scopes) :
    Silent (.make making) := fun m => ⟨rfl, h m.store⟩

theorem modifyStore {change : Store → Store} (h : ∀ s, (change s).scopes = s.scopes) :
    Silent (.modifyStore change) := fun m => ⟨rfl, h m.store⟩

theorem onStore {operation : Store → Except Fault α × Store} (h : ∀ s, (operation s).2.scopes = s.scopes) :
    Silent (.onStore line operation) := by
  intro m
  rw [onStore_machine]
  exact ⟨rfl, h m.store⟩

theorem onConsole (operation : Console → Except Fault α × Console) : Silent (.onConsole line operation) := by
  intro m
  rw [onConsole_machine]
  exact ⟨rfl, rfl⟩

theorem bind {effect : Effect α} {next : α → Effect β} (he : Silent effect) (hn : ∀ a, Silent (next a)) :
    Silent (effect >>= next) := by
  intro m
  have hm := he m
  change SameScopes m (Effect.andThen effect next m).machine
  unfold Effect.andThen
  cases hr : effect m with
  | done a after =>
    rw [hr] at hm
    have hafter := hn a after
    exact ⟨hafter.globals.trans hm.globals, hafter.scopes.trans hm.scopes⟩
  | failed e after =>
    rw [hr] at hm
    exact hm
  | outOfFuel after =>
    rw [hr] at hm
    exact hm

theorem textOf (fuel : Nat) (value : Value) : Silent (.textOf fuel value) := by
  intro m
  unfold Effect.textOf
  cases m.store.text? fuel value with
  | some text => exact .refl m
  | none => exact .refl m

theorem readLine : Silent (.readLine line) := by
  apply (onConsole Console.readLine).bind
  intro text
  cases text with
  | some text => exact yield _
  | none => exact yield _

theorem builtin (builtin : Builtin) (fuel : Nat) (arguments : List Value) :
    Silent (builtin.call fuel arguments line) := by
  have hlist : Silent (.make fun s => s.newList #[]) := make fun _ => rfl
  unfold Builtin.call
  split
  · exact (textOf fuel _).bind fun _ => (onConsole _).bind fun _ => yield _
  · exact fun m => ⟨rfl, rfl⟩
  · exact (textOf fuel _).bind fun _ => (onConsole _).bind fun _ => readLine
  · exact ofExcept _
  · exact ofExcept _
  · exact (textOf fuel _).bind fun _ => yield _
  · exact yield _
  · exact hlist.bind fun _ => yield _
  · exact fail _

theorem readName (depth : Option Nat) (name : Name) : Silent (LoxLang.readName depth name) :=
  (read _).bind fun _ => ofOption _ _

theorem itemOf (list : ListId) (index : Value) : Silent (LoxLang.itemOf list index line) :=
  (read _).bind fun _ => ofExcept _

theorem newFunction (closure : Closure) : Silent (LoxLang.newFunction closure) :=
  (make fun _ => rfl).bind fun _ => yield _

end Silent

end LoxLang
