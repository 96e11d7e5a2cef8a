import LoxLang.Value.Arithmetic
import LoxLang.Value.Conversion

/-!
# Values without code

Numbers, strings, truth values and `nil` refer to nothing in the store; operators and conversions yield such
values only. Lists and the functions of the language carry no part of a program either.
-/

namespace LoxLang

/-- The value is a number, a string, a truth value or `nil`. -/
def Value.Simple : Value → Prop
  | .int _ => True
  | .float _ => True
  | .string _ => True
  | .bool _ => True
  | .nil => True
  | _ => False

/-- The value holds neither a function of a program nor a class. -/
def Value.CodeFree : Value → Prop
  | .function _ _ => False
  | .classObject _ => False
  | .instanceOf _ _ => False
  | _ => True

theorem Value.Simple.codeFree {v : Value} (h : v.Simple) : v.CodeFree := by
  cases v <;> trivial

theorem Literal.value_simple (l : Literal) : l.value.Simple := by
  cases l <;> trivial

theorem Literal.value_codeFree (l : Literal) : l.value.CodeFree := l.value_simple.codeFree

namespace Arithmetic
variable {left right value : Value}

theorem arithmetic_simple {ints : Int64 → Int64 → Int64} {floats : Float → Float → Float}
    (h : arithmetic ints floats left right = .ok value) : value.Simple := by
  unfold arithmetic at h
  generalize numbers left right = both at h
  rcases both with _ | ⟨a, b⟩ | ⟨a, b⟩ <;> cases h <;> trivial

theorem quotient_simple {ints : Int64 → Int64 → Int64} {floats : Float → Float → Float}
    (h : quotient ints floats left right = .ok value) : value.Simple := by
  unfold quotient at h
  generalize numbers left right = both at h
  rcases both with _ | ⟨a, b⟩ | ⟨a, b⟩
  · cases h
  · change (if b = 0 then _ else _) = _ at h
    split at h <;> cases h
    trivial
  · change (if (b == 0.0) = true then _ else _) = _ at h
    split at h <;> cases h
    trivial

theorem comparison_simple {ints : Int64 → Int64 → Bool} {floats : Float → Float → Bool}
    (h : comparison ints floats left right = .ok value) : value.Simple := by
  unfold comparison at h
  generalize numbers left right = both at h
  rcases both with _ | ⟨a, b⟩ | ⟨a, b⟩ <;> cases h <;> trivial

theorem bitwise_simple {ints : Int64 → Int64 → Int64}
    (h : bitwise ints left right = .ok value) : value.Simple := by
  unfold bitwise at h
  generalize integers left right = both at h
  rcases both with _ | ⟨a, b⟩ <;> cases h
  trivial

theorem power_simple (h : power left right = .ok value) : value.Simple := by
  unfold power at h
  generalize numbers left right = both at h
  rcases both with _ | ⟨a, b⟩ | ⟨a, b⟩
  · cases h
  · change (if b < 0 then _ else _) = _ at h
    split at h <;> cases h <;> trivial
  · cases h
    trivial

theorem sum_simple (h : sum left right = .ok value) : value.Simple := by
  unfold sum at h
  split at h
  · cases h
    trivial
  · cases h
  · cases h
  · exact arithmetic_simple h

end Arithmetic

section Operators
variable {value : Value}

open Arithmetic

theorem UnaryOperator.apply_simple {operator : UnaryOperator} {right : Value}
    (h : operator.apply right = .ok value) : value.Simple := by
  unfold UnaryOperator.apply at h
  split at h <;> cases h <;> trivial

theorem BinaryOperator.apply_simple {operator : BinaryOperator} {left right : Value}
    (h : operator.apply left right = .ok value) : value.Simple := by
  cases operator with
  | add => exact sum_simple h
  | subtract | multiply => exact arithmetic_simple h
  | divide | modulo => exact quotient_simple h
  | power => exact power_simple h
  | equal | notEqual =>
    cases h
    trivial
  | less | lessEqual | greater | greaterEqual => exact comparison_simple h
  | bitOr | bitXor | bitAnd | shiftLeft | shiftRight => exact bitwise_simple h

theorem Value.toInteger_simple {v : Value} (h : v.toInteger = .ok value) : value.Simple := by
  unfold Value.toInteger at h
  split at h
  · cases h
    trivial
  · split at h <;> cases h
    trivial
  · split at h <;> cases h
    trivial
  · cases h

theorem Value.toFloating_simple {v : Value} (h : v.toFloating = .ok value) : value.Simple := by
  unfold Value.toFloating at h
  split at h
  · cases h
    trivial
  · cases h
    trivial
  · split at h <;> cases h
    trivial
  · cases h

theorem UnaryOperator.apply_codeFree {operator : UnaryOperator} {right : Value}
    (h : operator.apply right = .ok value) : value.CodeFree := (apply_simple h).codeFree

theorem BinaryOperator.apply_codeFree {operator : BinaryOperator} {left right : Value}
    (h : operator.apply left right = .ok value) : value.CodeFree := (apply_simple h).codeFree

theorem Value.toInteger_codeFree {v : Value} (h : v.toInteger = .ok value) : value.CodeFree :=
  (toInteger_simple h).codeFree

theorem Value.toFloating_codeFree {v : Value} (h : v.toFloating = .ok value) : value.CodeFree :=
  (toFloating_simple h).codeFree

end Operators

end LoxLang
