import LoxLang.Tree

/-!
# Precedence

The operators that lean to the left, by how tightly they bind. The operands of a level belong to the next
tighter level; those of the tightest one are unary expressions. Powers and assignments lean to the right
and are no part of this order.
-/

namespace LoxLang

/-- A level of operators that lean to the left, the loosest first. -/
inductive Level where
  | disjunction
  | conjunction
  | equality
  | comparison
  | bitOr
  | bitXor
  | bitAnd
  | shift
  | additive
  | multiplicative
deriving DecidableEq, Repr

/-- The next tighter level; the operands of the tightest one have none. -/
def Level.tighter? : Level → Option Level
  | disjunction => some conjunction
  | conjunction => some equality
  | equality => some comparison
  | comparison => some bitOr
  | bitOr => some bitXor
  | bitXor => some bitAnd
  | bitAnd => some shift
  | shift => some additive
  | additive => some multiplicative
  | multiplicative => none

/-- An operator that leans to the left. -/
inductive Joiner where
  | logical (operator : LogicalOperator)
  | binary (operator : BinaryOperator)
deriving DecidableEq, Repr

namespace Joiner

/-- Two operands joined by an operator on `line`. -/
def join (left : Expr) (operator : Joiner) (line : Nat) (right : Expr) : Expr :=
  match operator with
  | logical operator => .logical left operator right
  | binary operator => .binary left operator line right

/-- The operator that a token stands for between two operands, with its level. -/
def ofToken? : TokenKind → Option (Level × Joiner)
  | .keyword .orWord => some (.disjunction, logical .or)
  | .keyword .andWord => some (.conjunction, logical .and)
  | .mark .bangEqual => some (.equality, binary .notEqual)
  | .mark .equalEqual => some (.equality, binary .equal)
  | .mark .greater => some (.comparison, binary .greater)
  | .mark .greaterEqual => some (.comparison, binary .greaterEqual)
  | .mark .less => some (.comparison, binary .less)
  | .mark .lessEqual => some (.comparison, binary .lessEqual)
  | .mark .bitOr => some (.bitOr, binary .bitOr)
  | .mark .bitXor => some (.bitXor, binary .bitXor)
  | .mark .bitAnd => some (.bitAnd, binary .bitAnd)
  | .mark .shiftLeft => some (.shift, binary .shiftLeft)
  | .mark .shiftRight => some (.shift, binary .shiftRight)
  | .mark .minus => some (.additive, binary .subtract)
  | .mark .plus => some (.additive, binary .add)
  | .mark .slash => some (.multiplicative, binary .divide)
  | .mark .star => some (.multiplicative, binary .multiply)
  | .mark .percent => some (.multiplicative, binary .modulo)
  | _ => none

/-- The operator that a token stands for at one level. -/
def atLevel? (level : Level) (kind : TokenKind) : Option Joiner :=
  match ofToken? kind with
  | some (found, operator) => if found = level then some operator else none
  | none => none

end Joiner

/-- The assignment whose target is this expression, if it can be one. -/
def Expr.assigned? (target : Expr) (operator : AssignOperator) (value : Expr) : Option Expr :=
  match target with
  | .reference target => some (.assign target operator value)
  | .get object name => some (.set object name operator value)
  | .call object .brackets line arguments =>
    some (.setElement object arguments operator line value)
  | _ => none

end LoxLang
