import Std.Data.TreeMap
import LoxLang.Console
import LoxLang.Store

/-!
# Machines and effects

A machine is the whole state of a running program: its store, the current scope, the depths that
resolution noted, the console and the clock. An effect takes a machine and ends in one of three ways:
with a value, with a runtime error, or out of fuel. The machine after it is kept in every case.
-/

namespace LoxLang

/-- Depths noted for references. -/
abbrev Depths := Std.TreeMap NodeId Nat

/-- The microseconds that the readings of a clock show, by the number of readings before. -/
def Clock := Nat → Int64

/-- A clock that shows these microseconds at first and one more at each further reading. -/
def Clock.ticking (first : Nat) : Clock := fun reading => Int64.ofNat (first + reading)

instance : Coe Nat Clock := ⟨Clock.ticking⟩

/-- The state of a running program. -/
structure Machine where
  store : Store
  current : ScopeId
  globals : ScopeId
  depths : Depths := {}
  console : Console := {}
  /-- The clock, from its next reading on. -/
  clock : Clock := fun _ => 0

namespace Machine

/-- A machine before anything ran: one scope, which binds the functions of the language. -/
def start (console : Console) (clock : Clock) : Machine :=
  let (globals, store) := Store.newScope {} [] none
  { store := store.defineBuiltins globals, current := globals, globals, console, clock }

/-- Notes the depth of a reference, in place of an earlier one. -/
def note (m : Machine) (id : NodeId) (depth : Nat) : Machine :=
  { m with depths := m.depths.insert id depth }

/-- The printed text so far, and the machine with none. -/
def takeOutput (m : Machine) : String × Machine :=
  (m.console.written, { m with console := { m.console with written := "" } })

end Machine

/-- How an effect ends. -/
inductive Outcome (α : Type) where
  | done (value : α) (machine : Machine)
  | failed (error : RuntimeError) (machine : Machine)
  | outOfFuel (machine : Machine)

/-- The machine after an effect. -/
def Outcome.machine {α : Type} : Outcome α → Machine
  | done _ m => m
  | failed _ m => m
  | outOfFuel m => m

/-- A change of the machine that yields a value. -/
def Effect (α : Type) : Type := Machine → Outcome α

namespace Effect

/-- The effect that only yields a value. -/
@[inline] def yield {α : Type} (a : α) : Effect α := fun m => .done a m

/-- One effect after another. -/
@[inline] def andThen {α β : Type} (effect : Effect α) (next : α → Effect β) : Effect β := fun m =>
  match effect m with
  | .done a m => next a m
  | .failed e m => .failed e m
  | .outOfFuel m => .outOfFuel m

@[inline] instance : Monad Effect where
  pure := yield
  bind := andThen

/-- The end of the fuel. -/
def exhausted {α : Type} : Effect α := fun m => .outOfFuel m

/-- Ends in a fault, with the line to blame. -/
def fail {α : Type} (line : Nat) (fault : Fault) : Effect α := fun m => .failed ⟨fault, line⟩ m

/-- What a function finds in the machine. -/
def read {α : Type} (find : Machine → α) : Effect α := fun m => .done (find m) m

/-- The current scope. -/
def currentScope : Effect ScopeId := read Machine.current

/-- A result, or its fault with the line to blame. -/
def ofExcept {α : Type} (line : Nat) (result : Except Fault α) : Effect α := fun m =>
  match result with
  | .ok a => .done a m
  | .error fault => .failed ⟨fault, line⟩ m

/-- A value, or else a fault with the line to blame. -/
def ofOption {α : Type} (line : Nat) (fault : Fault) (found : Option α) : Effect α :=
  ofExcept line (match found with | some a => .ok a | none => .error fault)

/-- Changes the store. -/
def modifyStore (change : Store → Store) : Effect Unit := fun m =>
  .done () { m with store := change m.store }

/-- Makes something in the store. -/
def make {α : Type} (making : Store → α × Store) : Effect α := fun m =>
  let (a, store) := making m.store
  .done a { m with store }

/-- An operation on the store that may fault. -/
def onStore {α : Type} (line : Nat) (operation : Store → Except Fault α × Store) : Effect α :=
  fun m =>
    let (result, store) := operation m.store
    match result with
    | .ok a => .done a { m with store }
    | .error fault => .failed ⟨fault, line⟩ { m with store }

/-- An operation on the console that may fault. -/
def onConsole {α : Type} (line : Nat) (operation : Console → Except Fault α × Console) : Effect α :=
  fun m =>
    let (result, console) := operation m.console
    match result with
    | .ok a => .done a { m with console }
    | .error fault => .failed ⟨fault, line⟩ { m with console }

/-- Runs an effect in a scope and comes back from it, however the effect ends. -/
def within {α : Type} (scope : ScopeId) (effect : Effect α) : Effect α := fun m =>
  match effect { m with current := scope } with
  | .done a after => .done a { after with current := m.current }
  | .failed e after => .failed e { after with current := m.current }
  | .outOfFuel after => .outOfFuel { after with current := m.current }

end Effect

end LoxLang
