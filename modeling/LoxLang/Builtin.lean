import LoxLang.Machine
import LoxLang.Store.Rendering
import LoxLang.Value.Conversion

/-!
# The functions of the language

What calls of the built-in functions do. A call with another number of arguments than the function takes
is a fault; callers check that before.
-/

namespace LoxLang

namespace Effect

/-- The text of a value. -/
def textOf (fuel : Nat) (value : Value) : Effect String := fun m =>
  match m.store.text? fuel value with
  | some text => .done text m
  | none => .outOfFuel m

/-- Prints a text. -/
def write (line : Nat) (text : String) : Effect Unit := onConsole line fun c => c.write text

/-- Reads a line; `nil` when the input is used up. -/
def readLine (line : Nat) : Effect Value := do
  match ← onConsole line Console.readLine with
  | some text => pure (.string text)
  | none => pure .nil

/-- The time in seconds. Nothing is known about the readings: they may stand still or go back. -/
def readClock : Effect Value := fun m =>
  .done (.float ((m.clock 0).toFloat / 1000000.0)) { m with clock := fun reading => m.clock (reading + 1) }

end Effect

/-- Calls a built-in function. The fuel is for writing out lists. -/
def Builtin.call (builtin : Builtin) (fuel : Nat) (arguments : List Value) (line : Nat) :
    Effect Value :=
  match builtin, arguments with
  | .print, [value] => do
    let text ← Effect.textOf fuel value
    Effect.write line (text ++ "\n")
    pure .nil
  | .clock, [] => Effect.readClock
  | .readline, [prompt] => do
    let text ← Effect.textOf fuel prompt
    Effect.write line text
    Effect.readLine line
  | .int, [value] => Effect.ofExcept line value.toInteger
  | .float, [value] => Effect.ofExcept line value.toFloating
  | .str, [value] => do
    let text ← Effect.textOf fuel value
    pure (.string text)
  | .type, [value] => pure (.string value.typeText)
  | .list, [] => do
    let id ← Effect.make fun s => s.newList #[]
    pure (.list id)
  | builtin, arguments => Effect.fail line (.argumentCount builtin.arity arguments.length)

end LoxLang
