import LoxLang.Decimal.Reading
import LoxLang.Fault
import LoxLang.Text.Blank
import LoxLang.Value

/-!
# Conversions

Values as integers and as floats. A string is read as a number when nothing but white space stands
around it. A float loses its decimals when it becomes an integer, and one out of range becomes the
nearest integer that a signed 64-bit word holds.
-/

namespace LoxLang

/-- The least integer of a word. -/
def leastInt : Int := -2 ^ 63

/-- The greatest integer of a word. -/
def greatestInt : Int := 2 ^ 63 - 1

/-- The integer that a word holds, or the nearest one if it holds none. -/
def clampToWord (n : Int) : Int64 := Int64.ofInt (max leastInt (min n greatestInt))

/-- The word for an integer, if it holds it. -/
def word? (n : Int) : Option Int64 :=
  if leastInt ≤ n ∧ n ≤ greatestInt then some (Int64.ofInt n) else none

/-- The text without the white space at its ends. -/
def trimmed (text : String) : List Char := Text.trimBlank text.toList

/-- A value as an integer. -/
def Value.toInteger : Value → Except Fault Value
  | .int n => .ok (.int n)
  | .float x =>
    match Decimal.Binary64.ofFloat x with
    | .finite d => .ok (.int (clampToWord d.truncate))
    | _ => .error .notAnInteger
  | .string text =>
    match (Decimal.readInteger (trimmed text)).bind word? with
    | some n => .ok (.int n)
    | none => .error .notAnInteger
  | _ => .error .notAnInteger

/-- A value as a float. -/
def Value.toFloating : Value → Except Fault Value
  | .int n => .ok (.float n.toFloat)
  | .float x => .ok (.float x)
  | .string text =>
    match Decimal.readNumber (trimmed text) with
    | some x => .ok (.float x)
    | none => .error .notAFloat
  | _ => .error .notAFloat

end LoxLang
