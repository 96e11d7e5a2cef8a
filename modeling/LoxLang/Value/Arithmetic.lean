import LoxLang.Decimal.Dyadic
import LoxLang.Fault
import LoxLang.Value

/-!
# Operators on values

What the operators of the language yield, or the fault they end in. Two integers are combined as signed
64-bit words, which wrap around; if one number is a float, both are taken as floats. Only addition also
joins strings, and only equality takes operands of any kind.
-/

namespace LoxLang

namespace Arithmetic

/-- Two numbers of one kind. -/
inductive Numbers where
  | ints (a b : Int64)
  | floats (a b : Float)

/-- Two numbers brought to one kind. -/
def numbers : Value → Value → Except Fault Numbers
  | .int a, .int b => .ok (.ints a b)
  | .int a, .float b => .ok (.floats a.toFloat b)
  | .float a, .int b => .ok (.floats a b.toFloat)
  | .float a, .float b => .ok (.floats a b)
  | _, _ => .error .operandsNotNumbers

/-- Two integers. -/
def integers : Value → Value → Except Fault (Int64 × Int64)
  | .int a, .int b => .ok (a, b)
  | _, _ => .error .operandsNotIntegers

/-- A number for two numbers: `ints` for integers, `floats` for floats. -/
def arithmetic (ints : Int64 → Int64 → Int64) (floats : Float → Float → Float)
    (left right : Value) : Except Fault Value := do
  match ← numbers left right with
  | .ints a b => .ok (.int (ints a b))
  | .floats a b => .ok (.float (floats a b))

/-- The same, for an operation that no zero may stand to the right of. -/
def quotient (ints : Int64 → Int64 → Int64) (floats : Float → Float → Float)
    (left right : Value) : Except Fault Value := do
  match ← numbers left right with
  | .ints a b => if b = 0 then .error .divisionByZero else .ok (.int (ints a b))
  | .floats a b => if b == 0.0 then .error .divisionByZero else .ok (.float (floats a b))

/-- A truth value for two numbers. -/
def comparison (ints : Int64 → Int64 → Bool) (floats : Float → Float → Bool)
    (left right : Value) : Except Fault Value := do
  match ← numbers left right with
  | .ints a b => .ok (.bool (ints a b))
  | .floats a b => .ok (.bool (floats a b))

/-- An integer for two integers. -/
def bitwise (ints : Int64 → Int64 → Int64) (left right : Value) : Except Fault Value := do
  let (a, b) ← integers left right
  .ok (.int (ints a b))

/-- The power of a word for an exponent below `2 ^ bits`, by repeated squaring. -/
def wordPower : Nat → Int64 → Nat → Int64
  | 0, _, _ => 1
  | bits + 1, base, exponent =>
    let rest := wordPower bits (base * base) (exponent / 2)
    if exponent % 2 = 1 then base * rest else rest

/-- The greatest exponent of an integer power; a greater one counts as this one. -/
def greatestExponent : Nat := 2 ^ 32 - 1

/-- A power. A negative exponent of an integer makes it a power of floats. -/
def power (left right : Value) : Except Fault Value := do
  match ← numbers left right with
  | .ints a b =>
    if b < 0 then .ok (.float (a.toFloat.pow b.toFloat))
    else .ok (.int (wordPower 32 a (min b.toInt.toNat greatestExponent)))
  | .floats a b => .ok (.float (a.pow b))

/-- A sum, or two strings joined. -/
def sum : Value → Value → Except Fault Value
  | .string a, .string b => .ok (.string (a ++ b))
  | .string _, _ => .error .operandsNotAddable
  | _, .string _ => .error .operandsNotAddable
  | left, right => arithmetic (· + ·) (· + ·) left right

end Arithmetic

open Arithmetic

/-- The operand of a unary operator changed by it. -/
def UnaryOperator.apply : UnaryOperator → Value → Except Fault Value
  | not, value => .ok (.bool !value.isTruthy)
  | negate, .int n => .ok (.int (-n))
  | negate, .float x => .ok (.float (-x))
  | negate, _ => .error .operandNotNumber
  | bitNot, .int n => .ok (.int (~~~n))
  | bitNot, _ => .error .operandNotInteger

/-- Two operands combined by a binary operator. Shifts use the low six bits of their right operand, and
a shift to the right keeps the sign. -/
def BinaryOperator.apply : BinaryOperator → Value → Value → Except Fault Value
  | add => sum
  | subtract => arithmetic (· - ·) (· - ·)
  | multiply => arithmetic (· * ·) (· * ·)
  | divide => quotient (· / ·) (· / ·)
  | modulo => quotient (· % ·) Decimal.remainder
  | power => Arithmetic.power
  | equal => fun left right => .ok (.bool (left.equals right))
  | notEqual => fun left right => .ok (.bool !(left.equals right))
  | less => comparison (fun a b => decide (a < b)) (fun a b => decide (a < b))
  | lessEqual => comparison (fun a b => decide (a ≤ b)) (fun a b => decide (a ≤ b))
  | greater => comparison (fun a b => decide (b < a)) (fun a b => decide (b < a))
  | greaterEqual => comparison (fun a b => decide (b ≤ a)) (fun a b => decide (b ≤ a))
  | bitOr => bitwise (· ||| ·)
  | bitXor => bitwise (· ^^^ ·)
  | bitAnd => bitwise (· &&& ·)
  | shiftLeft => bitwise (· <<< ·)
  | shiftRight => bitwise (· >>> ·)

end LoxLang
