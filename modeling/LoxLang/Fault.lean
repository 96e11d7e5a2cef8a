/-!
# Runtime errors

What can go wrong while a program runs. A fault is a cause without a place; an error is a fault with the
line to blame. Every fault belongs to one kind and has one wording.
-/

namespace LoxLang

/-- The kind of a fault. -/
inductive FaultKind where
  | type
  | divisionByZero
  | undefinedVariable
  | undefinedProperty
  | notCallable
  | arity
  | index
  | conversion
  | io
deriving DecidableEq, Repr

/-- The kind in words. -/
def FaultKind.text : FaultKind → String
  | type => "type error"
  | divisionByZero => "division by zero"
  | undefinedVariable => "undefined variable"
  | undefinedProperty => "undefined property"
  | notCallable => "not callable"
  | arity => "arity mismatch"
  | index => "index error"
  | conversion => "conversion error"
  | io => "io error"

/-- The cause of a runtime error. -/
inductive Fault where
  | operandNotNumber
  | operandNotInteger
  | operandsNotNumbers
  | operandsNotIntegers
  | operandsNotAddable
  | divisionByZero
  | undefinedVariable (name : String)
  | undefinedProperty (name : String)
  | notCallable
  | argumentCount (expected found : Nat)
  | superclassNotClass
  | inheritedNotBound
  | fieldOfBuiltin
  | fieldOfNonInstance
  | propertyOfNonInstance
  | elementOfNonList
  | indexNotInteger
  | indexOutOfRange (index : Int64)
  | listEmpty
  | sliceNotIntegers
  | sliceOutOfRange
  | sliceEmpty
  | notAnInteger
  | notAFloat
  | outputFull
  | inputNotText
deriving DecidableEq, Repr

namespace Fault

/-- The kind of the fault. -/
def kind : Fault → FaultKind
  | operandNotNumber => .type
  | operandNotInteger => .type
  | operandsNotNumbers => .type
  | operandsNotIntegers => .type
  | operandsNotAddable => .type
  | divisionByZero => .divisionByZero
  | undefinedVariable _ => .undefinedVariable
  | undefinedProperty _ => .undefinedProperty
  | notCallable => .notCallable
  | argumentCount .. => .arity
  | superclassNotClass => .type
  | inheritedNotBound => .type
  | fieldOfBuiltin => .type
  | fieldOfNonInstance => .type
  | propertyOfNonInstance => .type
  | elementOfNonList => .type
  | indexNotInteger => .type
  | indexOutOfRange _ => .index
  | listEmpty => .index
  | sliceNotIntegers => .type
  | sliceOutOfRange => .index
  | sliceEmpty => .index
  | notAnInteger => .conversion
  | notAFloat => .conversion
  | outputFull => .io
  | inputNotText => .io

/-- The fault in words. -/
def message : Fault → String
  | operandNotNumber => "Operand must be a number."
  | operandNotInteger => "Operand must be an integer."
  | operandsNotNumbers => "Operands must be numbers."
  | operandsNotIntegers => "Operands must be integers."
  | operandsNotAddable => "Operands must be two numbers or two strings."
  | divisionByZero => "Division by zero."
  | undefinedVariable name => "Undefined variable '" ++ name ++ "'."
  | undefinedProperty name => "Undefined property '" ++ name ++ "'."
  | notCallable => "Can only call functions and classes."
  | argumentCount expected found =>
    "Expected " ++ toString expected ++ " arguments but got " ++ toString found ++ "."
  | superclassNotClass => "Superclass must be a class."
  | inheritedNotBound => "Invalid 'super' binding."
  | fieldOfBuiltin => "Can't set attribute for builtin classes."
  | fieldOfNonInstance => "Only instances have fields."
  | propertyOfNonInstance => "Only instances have properties."
  | elementOfNonList => "Only lists support indexed assignment."
  | indexNotInteger => "Index should be an integer."
  | indexOutOfRange index => "Index " ++ toString index.toInt ++ " is out of range."
  | listEmpty => "List is empty."
  | sliceNotIntegers => "slice: parameters should be integers."
  | sliceOutOfRange => "slice: parameters are not in valid range."
  | sliceEmpty => "slice: first index should be smaller than second index."
  | notAnInteger => "Can not convert argument to integer."
  | notAFloat => "Can not convert argument to float."
  | outputFull => "output is full"
  | inputNotText => "stream did not contain valid UTF-8"

end Fault

/-- A fault and the line to blame. -/
structure RuntimeError where
  fault : Fault
  line : Nat
deriving DecidableEq, Repr

/-- The whole error text. -/
def RuntimeError.text (e : RuntimeError) : String :=
  "[line " ++ toString e.line ++ "] Runtime error: " ++ e.fault.message

end LoxLang
