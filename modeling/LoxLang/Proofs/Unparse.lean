import LoxLang.Proofs.Grammar.First
import LoxLang.Proofs.Scan

/-!
# Writing a tree out

The tokens that a tree is written with, and which trees can be written at all. A tree has no parentheses
but those of its own groupings, so an operand must bind at least as tightly as its place asks for.

Lines, identities and the lexemes of literals are no part of what is written. Keywords that a tree keeps a
name for (`this`, `super`, `return`) are written with that name.
-/

namespace LoxLang

/-! ## Tokens -/

/-- The mark as a token. -/
def Mark.word (m : Mark) : Token := ⟨.mark m, m.text, 0⟩

/-- The keyword as a token. -/
def Keyword.word (k : Keyword) : Token := ⟨.keyword k, k.text, 0⟩

/-- A keyword whose name is kept in the tree. -/
def Keyword.wordFor (k : Keyword) (name : Name) : Token := ⟨.keyword k, name.text, 0⟩

/-- A name as a token. -/
def Name.word (n : Name) : Token := ⟨.identifier, n.text, 0⟩

/-- A literal as a token. -/
def Literal.word : Literal → Token
  | int value => ⟨.int value, "", 0⟩
  | float value => ⟨.float value, "", 0⟩
  | string value => ⟨.string value, "", 0⟩
  | bool true => Keyword.word .trueWord
  | bool false => Keyword.word .falseWord
  | nil => Keyword.word .nilWord

/-- The end token. -/
def endWord : Token := ⟨.eof, "", 0⟩

/-- The token without its line, and a literal without its lexeme. -/
def Token.bare (t : Token) : Token :=
  match t.kind with
  | .int value => ⟨.int value, "", 0⟩
  | .float value => ⟨.float value, "", 0⟩
  | .string value => ⟨.string value, "", 0⟩
  | kind => ⟨kind, t.lexeme, 0⟩

/-- The mark of an assignment, if it has one. -/
def AssignOperator.mark? : AssignOperator → Option Mark
  | plain => some .equal
  | compound .add => some .plusEqual
  | compound .subtract => some .minusEqual
  | compound .multiply => some .starEqual
  | compound .divide => some .slashEqual
  | compound .modulo => some .percentEqual
  | compound .power => some .starStarEqual
  | compound .bitOr => some .bitOrEqual
  | compound .bitXor => some .bitXorEqual
  | compound .bitAnd => some .bitAndEqual
  | compound .shiftLeft => some .shiftLeftEqual
  | compound .shiftRight => some .shiftRightEqual
  | compound _ => none

/-- The tokens of an assignment operator. -/
def AssignOperator.words (operator : AssignOperator) : List Token := operator.mark?.toList.map Mark.word

/-! ## The words of a tree -/

mutual

/-- The tokens of an expression. -/
def Expr.words : Expr → List Token
  | .literal value => [value.word]
  | .unary operator _ right => operator.mark.word :: right.words
  | .binary left operator _ right => left.words ++ operator.mark.word :: right.words
  | .logical left operator right => left.words ++ operator.keyword.word :: right.words
  | .grouping inner => Mark.leftParen.word :: (inner.words ++ [Mark.rightParen.word])
  | .reference target => [target.name.word]
  | .assign target operator value => target.name.word :: (operator.words ++ value.words)
  | .call callee style _ arguments =>
    callee.words ++ style.opening.word :: (itemWords arguments ++ [style.closing.word])
  | .list _ elements => Mark.leftBracket.word :: (itemWords elements ++ [Mark.rightBracket.word])
  | .get object name => object.words ++ [Mark.dot.word, name.word]
  | .set object name operator value =>
    object.words ++ Mark.dot.word :: name.word :: (operator.words ++ value.words)
  | .setElement object arguments operator _ value =>
    object.words ++ Mark.leftBracket.word ::
      (itemWords arguments ++ Mark.rightBracket.word :: (operator.words ++ value.words))
  | .receiver target => [Keyword.thisWord.wordFor target.name]
  | .inherited target method =>
    [Keyword.superWord.wordFor target.name, Mark.dot.word, method.word]

/-- The tokens of expressions with commas between them. -/
def itemWords : List Expr → List Token
  | [] => []
  | [e] => e.words
  | e :: rest => e.words ++ Mark.comma.word :: itemWords rest

end

/-- The tokens of names with commas between them. -/
def nameWords : List Name → List Token
  | [] => []
  | [name] => [name.word]
  | name :: rest => name.word :: Mark.comma.word :: nameWords rest

/-- The tokens of an expression that may be missing. -/
def optionalWords : Option Expr → List Token
  | some e => e.words
  | none => []

mutual

/-- The tokens of a statement. -/
def Stmt.words : Stmt → List Token
  | .expression value => value.words ++ [Mark.semicolon.word]
  | .declare name (some value) =>
    Keyword.varWord.word :: name.word :: Mark.equal.word :: (value.words ++ [Mark.semicolon.word])
  | .declare name none => [Keyword.varWord.word, name.word, Mark.semicolon.word]
  | .block body => Mark.leftBrace.word :: (bodyWords body ++ [Mark.rightBrace.word])
  | .branch condition thenBranch (some elseBranch) =>
    Keyword.ifWord.word :: Mark.leftParen.word :: (condition.words ++ Mark.rightParen.word ::
      (thenBranch.words ++ Keyword.elseWord.word :: elseBranch.words))
  | .branch condition thenBranch none =>
    Keyword.ifWord.word :: Mark.leftParen.word ::
      (condition.words ++ Mark.rightParen.word :: thenBranch.words)
  | .loop condition body =>
    Keyword.whileWord.word :: Mark.leftParen.word ::
      (condition.words ++ Mark.rightParen.word :: body.words)
  | .function declaration => Keyword.funWord.word :: declaration.words
  | .giveBack keyword value =>
    Keyword.returnWord.wordFor keyword :: (optionalWords value ++ [Mark.semicolon.word])
  | .declareClass name (some superclass) methods =>
    Keyword.classWord.word :: name.word :: Mark.less.word :: superclass.name.word ::
      Mark.leftBrace.word :: (methodWords methods ++ [Mark.rightBrace.word])
  | .declareClass name none methods =>
    Keyword.classWord.word :: name.word :: Mark.leftBrace.word ::
      (methodWords methods ++ [Mark.rightBrace.word])

/-- The tokens of a function behind its keyword. -/
def FunctionDecl.words : FunctionDecl → List Token
  | ⟨name, params, body⟩ =>
    name.word :: Mark.leftParen.word :: (nameWords params ++ Mark.rightParen.word ::
      Mark.leftBrace.word :: (bodyWords body ++ [Mark.rightBrace.word]))

/-- The tokens of statements one after the other. -/
def bodyWords : List Stmt → List Token
  | [] => []
  | s :: rest => s.words ++ bodyWords rest

/-- The tokens of methods one after the other. -/
def methodWords : List FunctionDecl → List Token
  | [] => []
  | f :: rest => f.words ++ methodWords rest

end

/-! ## Trees without identities and lines -/

/-- A name without its line. -/
def Name.bare (n : Name) : Name := ⟨n.text, 0⟩

/-- A reference without its identity and line. -/
def Reference.bare (r : Reference) : Reference := ⟨0, r.name.bare⟩

mutual

/-- An expression without identities and lines. -/
@[simp] def Expr.bare : Expr → Expr
  | .literal value => .literal value
  | .unary operator _ right => .unary operator 0 right.bare
  | .binary left operator _ right => .binary left.bare operator 0 right.bare
  | .logical left operator right => .logical left.bare operator right.bare
  | .grouping inner => .grouping inner.bare
  | .reference target => .reference target.bare
  | .assign target operator value => .assign target.bare operator value.bare
  | .call callee style _ arguments => .call callee.bare style 0 (bareItems arguments)
  | .list _ elements => .list 0 (bareItems elements)
  | .get object name => .get object.bare name.bare
  | .set object name operator value => .set object.bare name.bare operator value.bare
  | .setElement object arguments operator _ value =>
    .setElement object.bare (bareItems arguments) operator 0 value.bare
  | .receiver target => .receiver target.bare
  | .inherited target method => .inherited target.bare method.bare

/-- Expressions without identities and lines. -/
@[simp] def bareItems : List Expr → List Expr
  | [] => []
  | e :: rest => e.bare :: bareItems rest

end

/-- An expression that may be missing, without identities and lines. -/
def bareOptional : Option Expr → Option Expr
  | some e => some e.bare
  | none => none

mutual

/-- A statement without identities and lines. -/
@[simp] def Stmt.bare : Stmt → Stmt
  | .expression value => .expression value.bare
  | .declare name initializer => .declare name.bare (bareOptional initializer)
  | .block body => .block (bareBody body)
  | .branch condition thenBranch (some elseBranch) =>
    .branch condition.bare thenBranch.bare (some elseBranch.bare)
  | .branch condition thenBranch none => .branch condition.bare thenBranch.bare none
  | .loop condition body => .loop condition.bare body.bare
  | .function declaration => .function declaration.bare
  | .giveBack keyword value => .giveBack keyword.bare (bareOptional value)
  | .declareClass name superclass methods =>
    .declareClass name.bare (superclass.map Reference.bare) (bareMethods methods)

/-- A function without identities and lines. -/
@[simp] def FunctionDecl.bare : FunctionDecl → FunctionDecl
  | ⟨name, params, body⟩ => ⟨name.bare, params.map Name.bare, bareBody body⟩

/-- Statements without identities and lines. -/
@[simp] def bareBody : List Stmt → List Stmt
  | [] => []
  | s :: rest => s.bare :: bareBody rest

/-- Methods without identities and lines. -/
@[simp] def bareMethods : List FunctionDecl → List FunctionDecl
  | [] => []
  | f :: rest => f.bare :: bareMethods rest

end

/-! ## Trees that can be written -/

/-- The level of an operator; a power has none. -/
def BinaryOperator.level? : BinaryOperator → Option Level
  | add => some .additive
  | subtract => some .additive
  | multiply => some .multiplicative
  | divide => some .multiplicative
  | modulo => some .multiplicative
  | power => none
  | equal => some .equality
  | notEqual => some .equality
  | less => some .comparison
  | lessEqual => some .comparison
  | greater => some .comparison
  | greaterEqual => some .comparison
  | bitOr => some .bitOr
  | bitXor => some .bitXor
  | bitAnd => some .bitAnd
  | shiftLeft => some .shift
  | shiftRight => some .shift

/-- The level of a logical operator. -/
def LogicalOperator.level : LogicalOperator → Level
  | and => .conjunction
  | or => .disjunction

/-- How loosely a rank binds. -/
def Rank.height : Rank → Nat
  | .primary => 1
  | .call => 2
  | .power => 3
  | .unary => 4
  | .level l => l.height
  | .assignment => 16

/-- One rank is at most as loose as another. -/
instance : LE Rank := ⟨fun q r => q.height ≤ r.height⟩

instance (q r : Rank) : Decidable (q ≤ r) := Nat.decLe q.height r.height

/-- The rank of an expression by its outermost form. -/
def Expr.rank : Expr → Rank
  | .literal _ => .primary
  | .unary .. => .unary
  | .binary _ operator _ _ =>
    match operator.level? with
    | some l => .level l
    | none => .power
  | .logical _ operator _ => .level operator.level
  | .grouping _ => .primary
  | .reference _ => .primary
  | .assign .. => .assignment
  | .call .. => .call
  | .list .. => .primary
  | .get .. => .call
  | .set .. => .assignment
  | .setElement .. => .assignment
  | .receiver _ => .primary
  | .inherited .. => .primary

mutual

/-- Every operand binds as tightly as its place asks for, every assignment has a token, and no limit on
arguments is exceeded. -/
def Expr.Shaped : Expr → Prop
  | .literal _ => True
  | .unary _ _ right => right.Shaped ∧ right.rank ≤ .unary
  | .binary left operator _ right =>
    left.Shaped ∧ right.Shaped ∧
      match operator.level? with
      | some l => left.rank ≤ .level l ∧ right.rank ≤ .operand l.tighter?
      | none => left.rank ≤ .call ∧ right.rank ≤ .unary
  | .logical left operator right =>
    left.Shaped ∧ right.Shaped ∧
      left.rank ≤ .level operator.level ∧ right.rank ≤ .operand operator.level.tighter?
  | .grouping inner => inner.Shaped
  | .reference _ => True
  | .assign _ operator value => operator.mark?.isSome ∧ value.Shaped
  | .call callee style _ arguments =>
    callee.Shaped ∧ callee.rank ≤ .call ∧ AllShaped arguments ∧ arguments.length ≤ style.limit
  | .list _ elements => AllShaped elements
  | .get object _ => object.Shaped ∧ object.rank ≤ .call
  | .set object _ operator value =>
    object.Shaped ∧ object.rank ≤ .call ∧ operator.mark?.isSome ∧ value.Shaped
  | .setElement object arguments operator _ value =>
    object.Shaped ∧ object.rank ≤ .call ∧ AllShaped arguments ∧ arguments.length ≤ 1 ∧
      operator.mark?.isSome ∧ value.Shaped
  | .receiver _ => True
  | .inherited .. => True

/-- Every one of the expressions is shaped. -/
def AllShaped : List Expr → Prop
  | [] => True
  | e :: rest => e.Shaped ∧ AllShaped rest

end

/-- The expression is shaped, if there is one. -/
def OptionalShaped : Option Expr → Prop
  | some e => e.Shaped
  | none => True

/-- Whether a statement ends in an `if` without `else`. -/
def Stmt.endsOpen : Stmt → Bool
  | .branch _ _ none => true
  | .branch _ _ (some elseBranch) => elseBranch.endsOpen
  | .loop _ body => body.endsOpen
  | _ => false

/-- Whether a statement declares a name. -/
def Stmt.isDeclaration : Stmt → Bool
  | .declare .. => true
  | .function _ => true
  | .declareClass .. => true
  | _ => false

mutual

/-- Every expression is shaped, no branch in front of an `else` ends in an `if` without one, and no limit
on parameters is exceeded. -/
def Stmt.Shaped : Stmt → Prop
  | .expression value => value.Shaped
  | .declare _ initializer => OptionalShaped initializer
  | .block body => BodyShaped body
  | .branch condition thenBranch none => condition.Shaped ∧ thenBranch.Shaped
  | .branch condition thenBranch (some elseBranch) =>
    condition.Shaped ∧ thenBranch.Shaped ∧ thenBranch.endsOpen = false ∧ elseBranch.Shaped
  | .loop condition body => condition.Shaped ∧ body.Shaped
  | .function declaration => declaration.Shaped
  | .giveBack _ value => OptionalShaped value
  | .declareClass _ _ methods => MethodsShaped methods

/-- The body is shaped, and there are not too many parameters. -/
def FunctionDecl.Shaped : FunctionDecl → Prop
  | ⟨_, params, body⟩ => params.length ≤ argumentLimit ∧ BodyShaped body

/-- Every one of the statements is shaped. -/
def BodyShaped : List Stmt → Prop
  | [] => True
  | s :: rest => s.Shaped ∧ BodyShaped rest

/-- Every one of the methods is shaped. -/
def MethodsShaped : List FunctionDecl → Prop
  | [] => True
  | f :: rest => f.Shaped ∧ MethodsShaped rest

end

mutual

/-- No declaration is a branch of an `if` or the body of a loop. -/
def Stmt.Placed : Stmt → Prop
  | .expression _ => True
  | .declare .. => True
  | .block body => BodyPlaced body
  | .branch _ thenBranch none => thenBranch.isDeclaration = false ∧ thenBranch.Placed
  | .branch _ thenBranch (some elseBranch) =>
    thenBranch.isDeclaration = false ∧ thenBranch.Placed ∧
      elseBranch.isDeclaration = false ∧ elseBranch.Placed
  | .loop _ body => body.isDeclaration = false ∧ body.Placed
  | .function declaration => declaration.Placed
  | .giveBack .. => True
  | .declareClass _ _ methods => MethodsPlaced methods

/-- The declarations in a function are placed. -/
def FunctionDecl.Placed : FunctionDecl → Prop
  | ⟨_, _, body⟩ => BodyPlaced body

/-- The declarations in every one of the statements are placed. -/
def BodyPlaced : List Stmt → Prop
  | [] => True
  | s :: rest => s.Placed ∧ BodyPlaced rest

/-- The declarations in every one of the methods are placed. -/
def MethodsPlaced : List FunctionDecl → Prop
  | [] => True
  | f :: rest => f.Placed ∧ MethodsPlaced rest

end

end LoxLang
