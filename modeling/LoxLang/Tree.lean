import LoxLang.Token

/-!
# Program trees

Expressions, statements and declarations. A tree keeps the lines that errors at run time point to.

Every use of a name that may lie in a local scope (a read, an assignment, `this`, `super`, the name of a
superclass) is a `Reference` and carries an identity of its own. Resolution notes depths by identity, so
two uses of one name can lie at different depths.

A `for` loop has no form of its own; it is a loop inside a block. A compound assignment has: it keeps its
operator and its target is evaluated once.
-/

namespace LoxLang

/-- A name in the program and its line. -/
structure Name where
  text : String
  line : Nat
deriving DecidableEq, Repr

/-- The name that a token spells. -/
def Token.toName (t : Token) : Name := ⟨t.lexeme, t.line⟩

/-- The identity of a reference. -/
abbrev NodeId := Nat

/-- A use of a name. -/
structure Reference where
  id : NodeId
  name : Name
deriving DecidableEq, Repr

/-- A literal. -/
inductive Literal where
  | int (value : Int64)
  | float (value : Float)
  | string (value : String)
  | bool (value : Bool)
  | nil
deriving DecidableEq, Repr

/-- The value of a literal token. -/
def TokenKind.literal? : TokenKind → Option Literal
  | int value => some (.int value)
  | float value => some (.float value)
  | string value => some (.string value)
  | keyword .trueWord => some (.bool true)
  | keyword .falseWord => some (.bool false)
  | keyword .nilWord => some .nil
  | _ => none

/-- An operator before its operand. -/
inductive UnaryOperator where
  | negate
  | not
  | bitNot
deriving DecidableEq, Repr

namespace UnaryOperator

/-- The mark of the operator. -/
def mark : UnaryOperator → Mark
  | negate => .minus
  | not => .bang
  | bitNot => .bitNot

/-- The operator that a token stands for before an operand. -/
def ofToken? : TokenKind → Option UnaryOperator
  | .mark .minus => some negate
  | .mark .bang => some not
  | .mark .bitNot => some bitNot
  | _ => none

end UnaryOperator

/-- An operator between two operands that are both evaluated. -/
inductive BinaryOperator where
  | add
  | subtract
  | multiply
  | divide
  | modulo
  | power
  | equal
  | notEqual
  | less
  | lessEqual
  | greater
  | greaterEqual
  | bitOr
  | bitXor
  | bitAnd
  | shiftLeft
  | shiftRight
deriving DecidableEq, Repr

/-- The mark of the operator. -/
def BinaryOperator.mark : BinaryOperator → Mark
  | add => .plus
  | subtract => .minus
  | multiply => .star
  | divide => .slash
  | modulo => .percent
  | power => .starStar
  | equal => .equalEqual
  | notEqual => .bangEqual
  | less => .less
  | lessEqual => .lessEqual
  | greater => .greater
  | greaterEqual => .greaterEqual
  | bitOr => .bitOr
  | bitXor => .bitXor
  | bitAnd => .bitAnd
  | shiftLeft => .shiftLeft
  | shiftRight => .shiftRight

/-- An operator that may leave its right operand alone. -/
inductive LogicalOperator where
  | and
  | or
deriving DecidableEq, Repr

/-- The keyword of the operator. -/
def LogicalOperator.keyword : LogicalOperator → Keyword
  | and => .andWord
  | or => .orWord

/-- A plain assignment, or one that first combines the old value with the new one. -/
inductive AssignOperator where
  | plain
  | compound (operator : BinaryOperator)
deriving DecidableEq, Repr

namespace AssignOperator

/-- How the operator is written. -/
def spelling : AssignOperator → List Char
  | plain => ['=']
  | compound operator => operator.mark.spelling ++ ['=']

/-- The assignment that a token stands for. -/
def ofToken? : TokenKind → Option AssignOperator
  | .mark .equal => some plain
  | .mark .plusEqual => some (compound .add)
  | .mark .minusEqual => some (compound .subtract)
  | .mark .starEqual => some (compound .multiply)
  | .mark .slashEqual => some (compound .divide)
  | .mark .percentEqual => some (compound .modulo)
  | .mark .starStarEqual => some (compound .power)
  | .mark .bitOrEqual => some (compound .bitOr)
  | .mark .bitXorEqual => some (compound .bitXor)
  | .mark .bitAndEqual => some (compound .bitAnd)
  | .mark .shiftLeftEqual => some (compound .shiftLeft)
  | .mark .shiftRightEqual => some (compound .shiftRight)
  | _ => none

end AssignOperator

/-- Which brackets a call was written with. -/
inductive CallStyle where
  | parens
  | brackets
deriving DecidableEq, Repr

/-- An expression. -/
inductive Expr where
  | literal (value : Literal)
  | unary (operator : UnaryOperator) (line : Nat) (right : Expr)
  | binary (left : Expr) (operator : BinaryOperator) (line : Nat) (right : Expr)
  | logical (left : Expr) (operator : LogicalOperator) (right : Expr)
  | grouping (inner : Expr)
  | reference (target : Reference)
  | assign (target : Reference) (operator : AssignOperator) (value : Expr)
  /-- A call, or an element in brackets; `line` is that of the closing bracket. -/
  | call (callee : Expr) (style : CallStyle) (line : Nat) (arguments : List Expr)
  | list (line : Nat) (elements : List Expr)
  | get (object : Expr) (name : Name)
  | set (object : Expr) (name : Name) (operator : AssignOperator) (value : Expr)
  | setElement (object : Expr) (arguments : List Expr) (operator : AssignOperator) (line : Nat)
      (value : Expr)
  /-- The object whose method runs. -/
  | receiver (target : Reference)
  /-- A method of the superclass, bound to the object whose method runs. -/
  | inherited (target : Reference) (method : Name)
deriving Repr

mutual

/-- A statement. -/
inductive Stmt where
  | expression (value : Expr)
  | declare (name : Name) (initializer : Option Expr)
  | block (body : List Stmt)
  | branch (condition : Expr) (thenBranch : Stmt) (elseBranch : Option Stmt)
  | loop (condition : Expr) (body : Stmt)
  | function (declaration : FunctionDecl)
  | giveBack (keyword : Name) (value : Option Expr)
  | declareClass (name : Name) (superclass : Option Reference) (methods : List FunctionDecl)

/-- A function or a method. -/
structure FunctionDecl where
  name : Name
  params : List Name
  body : List Stmt

end

end LoxLang
