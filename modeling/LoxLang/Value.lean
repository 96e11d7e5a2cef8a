import LoxLang.Table
import LoxLang.Tree

/-!
# Values

Numbers, strings, truth values and `nil` are values by themselves. Lists and instances are numbers of
entries in a store, so that changes through one copy show in all. A function keeps its declaration and
the scope around it; a class keeps its methods and its superclass.

Functions and classes carry an identity, new for every one that is made, by which they are compared.
-/

namespace LoxLang

/-- The number of a scope in a store. -/
abbrev ScopeId := Nat

/-- The number of a list in a store. -/
abbrev ListId := Nat

/-- The number of an instance in a store. -/
abbrev InstanceId := Nat

/-- What tells functions and classes apart. -/
abbrev Identity := Nat

/-- A function of the language itself. -/
inductive Builtin where
  | print
  | clock
  | readline
  | int
  | float
  | str
  | type
  | list
deriving DecidableEq, Repr

namespace Builtin

/-- The global name of the function. -/
def name : Builtin → String
  | print => "print"
  | clock => "clock"
  | readline => "readline"
  | int => "int"
  | float => "float"
  | str => "str"
  | type => "type"
  | list => "list"

/-- The number of arguments it takes. -/
def arity : Builtin → Nat
  | clock => 0
  | list => 0
  | _ => 1

/-- All functions of the language. -/
def all : List Builtin := [print, clock, readline, int, float, str, type, list]

theorem mem_all (n : Builtin) : n ∈ all := by cases n <;> decide

end Builtin

/-- A method of lists. -/
inductive ListMethod where
  | push
  | pop
  | clear
  | len
  | getAt
  | setAt
  | slice
deriving DecidableEq, Repr

namespace ListMethod

/-- The name of the method. -/
def name : ListMethod → String
  | push => "push"
  | pop => "pop"
  | clear => "clear"
  | len => "len"
  | getAt => "get_at"
  | setAt => "set_at"
  | slice => "slice"

/-- The number of arguments it takes. -/
def arity : ListMethod → Nat
  | pop => 0
  | clear => 0
  | len => 0
  | push => 1
  | getAt => 1
  | setAt => 2
  | slice => 2

/-- All methods of lists. -/
def all : List ListMethod := [push, pop, clear, len, getAt, setAt, slice]

theorem mem_all (m : ListMethod) : m ∈ all := by cases m <;> decide

/-- The method with this name. -/
def ofName? (text : String) : Option ListMethod := all.find? fun m => m.name == text

end ListMethod

/-- A declaration with the scope it was made in. -/
structure Closure where
  declaration : FunctionDecl
  scope : ScopeId
  /-- Whether a call yields the instance whatever the body returns. -/
  isInitializer : Bool

/-- The number of arguments a closure takes. -/
def Closure.arity (c : Closure) : Nat := c.declaration.params.length

/-- A class: its own methods by name, and the class it extends. -/
structure ClassObject where
  id : Identity
  name : String
  superclass : Option ClassObject
  methods : Table Closure

/-- The name of the method that initializes new instances. -/
def initializerName : String := "init"

mutual

/-- The nearest method with this name, on the class itself or on one that it extends. -/
def ClassObject.method? (name : String) : ClassObject → Option Closure
  | ⟨_, _, superclass, methods⟩ =>
    match methods.get? name with
    | some method => some method
    | none => ClassObject.inheritedMethod? name superclass

/-- The nearest method with this name, of a class that may be missing. -/
def ClassObject.inheritedMethod? (name : String) : Option ClassObject → Option Closure
  | some c => ClassObject.method? name c
  | none => none

end

/-- The number of arguments a class takes: those of its initializer. -/
def ClassObject.arity (c : ClassObject) : Nat :=
  match c.method? initializerName with
  | some initializer => initializer.arity
  | none => 0

/-- A value. -/
inductive Value where
  | int (value : Int64)
  | float (value : Float)
  | string (value : String)
  | bool (value : Bool)
  | nil
  | function (id : Identity) (closure : Closure)
  | builtin (builtin : Builtin)
  | classObject (value : ClassObject)
  | instanceOf (id : InstanceId) (class_ : ClassObject)
  | list (id : ListId)
  /-- A method of a list together with the list. -/
  | listMethod (list : ListId) (method : ListMethod)

instance : Inhabited Value := ⟨.nil⟩

/-- The value of a literal. -/
def Literal.value : Literal → Value
  | int value => .int value
  | float value => .float value
  | string value => .string value
  | bool value => .bool value
  | nil => .nil

namespace Value

/-- Only `nil` and `false` do not hold. -/
def isTruthy : Value → Bool
  | nil => false
  | bool value => value
  | _ => true

/-- Equality of values: by content for simple values, by identity for all others. Values of different
kinds are never equal, so an integer differs from every float; a float that is not a number differs
from itself. -/
def equals : Value → Value → Bool
  | nil, nil => true
  | bool a, bool b => a == b
  | int a, int b => a == b
  | float a, float b => a == b
  | string a, string b => a == b
  | function a _, function b _ => a == b
  | builtin a, builtin b => a == b
  | classObject a, classObject b => a.id == b.id
  | instanceOf a _, instanceOf b _ => a == b
  | list a, list b => a == b
  | listMethod a m, listMethod b n => a == b && m == n
  | _, _ => false

end Value

end LoxLang
