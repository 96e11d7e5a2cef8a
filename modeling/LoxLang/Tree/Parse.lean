import LoxLang.Tree.Precedence
import LoxLang.Tree.Reader

/-!
# From tokens to a tree

The grammar of the language as a reading of tokens, one function for each rule. Every error is kept: a
declaration that fails is given up, and the reading goes on at the next place where one may begin, so
that a tree is returned in any case together with all errors.

The limits on parameters and arguments are soft. Exceeding one is an error, but the declaration or call
is kept.

The functions take fuel, one unit for each entry. `enoughFuel` is what `parse` gives them: between two
tokens that are taken, the rules nest no deeper than their number.
-/

namespace LoxLang

open Reader

/-- The greatest number of parameters and of arguments in parentheses. -/
def argumentLimit : Nat := 255

mutual

/-- An assignment, or an expression of the loosest level. Whether the target can be assigned to is
decided after the value was read; the error then stands at the operator. -/
def readExpr : Nat → Reader Expr
  | 0 => exhausted
  | fuel + 1 => do
    let target ← readLevel fuel (some .disjunction)
    match ← takeIf AssignOperator.ofToken? with
    | none => pure target
    | some (operator, token) =>
      let value ← readExpr fuel
      match target.assigned? operator value with
      | some assignment => pure assignment
      | none => failWith (.grammar token.line token.place .invalidTarget)

/-- Operands joined by the operators of a level, or a unary expression. -/
def readLevel : Nat → Option Level → Reader Expr
  | 0, _ => exhausted
  | fuel + 1, none => readUnary fuel
  | fuel + 1, some level => do
    let first ← readLevel fuel level.tighter?
    readJoined fuel level first

/-- What follows the first operand of a level. -/
def readJoined : Nat → Level → Expr → Reader Expr
  | 0, _, _ => exhausted
  | fuel + 1, level, left => do
    match ← takeIf (Joiner.atLevel? level) with
    | none => pure left
    | some (operator, token) =>
      let right ← readLevel fuel level.tighter?
      readJoined fuel level (operator.join left token.line right)

/-- A unary operator with its operand, or a power. -/
def readUnary : Nat → Reader Expr
  | 0 => exhausted
  | fuel + 1 => do
    match ← takeIf UnaryOperator.ofToken? with
    | some (operator, token) =>
      let right ← readUnary fuel
      pure (.unary operator token.line right)
    | none => readPower fuel

/-- A call, raised to a unary expression or not. -/
def readPower : Nat → Reader Expr
  | 0 => exhausted
  | fuel + 1 => do
    let base ← readCall fuel
    match ← acceptMark .starStar with
    | some token =>
      let exponent ← readUnary fuel
      pure (.binary base .power token.line exponent)
    | none => pure base

/-- A primary expression with the calls, elements and properties behind it. -/
def readCall : Nat → Reader Expr
  | 0 => exhausted
  | fuel + 1 => do
    let first ← readPrimary fuel
    readSelectors fuel first

/-- Calls, elements and properties of an expression. -/
def readSelectors : Nat → Expr → Reader Expr
  | 0, _ => exhausted
  | fuel + 1, object => do
    match ← acceptMark .leftParen with
    | some _ =>
      let (arguments, line) ← readArguments fuel .rightParen (some argumentLimit)
      readSelectors fuel (.call object .parens line arguments)
    | none =>
      match ← acceptMark .leftBracket with
      | some _ =>
        let (arguments, line) ← readArguments fuel .rightBracket (some 1)
        readSelectors fuel (.call object .brackets line arguments)
      | none =>
        match ← acceptMark .dot with
        | some _ =>
          let name ← expectName .propertyName
          readSelectors fuel (.get object name)
        | none => pure object

/-- Expressions up to a closing mark, and the line of that mark. -/
def readArguments : Nat → Mark → Option Nat → Reader (List Expr × Nat)
  | 0, _, _ => exhausted
  | fuel + 1, closing, limit => do
    let arguments ← unlessAt closing (readItems fuel limit 0)
    let token ← expectMark closing .afterArguments
    pure (arguments.getD [], token.line)

/-- One or more expressions with commas between them, after `count` earlier ones. The one that reaches
the limit is noted as an error. -/
def readItems : Nat → Option Nat → Nat → Reader (List Expr)
  | 0, _, _ => exhausted
  | fuel + 1, limit, count => do
    reportIf (limit == some count) (.tooManyArguments count)
    let first ← readExpr fuel
    match ← acceptMark .comma with
    | some _ =>
      let rest ← readItems fuel limit (count + 1)
      pure (first :: rest)
    | none => pure [first]

/-- A literal, a name, an expression in parentheses, a list, `this`, or a method of the superclass. -/
def readPrimary : Nat → Reader Expr
  | 0 => exhausted
  | fuel + 1 => do
    match ← takeIf TokenKind.literal? with
    | some (value, _) => pure (.literal value)
    | none =>
      match ← accept .identifier with
      | some token =>
        let target ← newReference token.toName
        pure (.reference target)
      | none =>
        match ← acceptMark .leftParen with
        | some _ =>
          let inner ← readExpr fuel
          let _ ← expectMark .rightParen .afterGrouping
          pure (.grouping inner)
        | none =>
          match ← acceptMark .leftBracket with
          | some _ =>
            let (elements, line) ← readArguments fuel .rightBracket none
            pure (.list line elements)
          | none =>
            match ← acceptKeyword .thisWord with
            | some token =>
              let target ← newReference token.toName
              pure (.receiver target)
            | none =>
              match ← acceptKeyword .superWord with
              | some token =>
                let _ ← expectMark .dot .afterSuper
                let method ← expectName .superclassMethodName
                let target ← newReference token.toName
                pure (.inherited target method)
              | none => fail .missingExpression

end

/-- One or more parameters with commas between them, after `count` earlier ones. Each one beyond the
limit is noted as an error. -/
def readParameters : Nat → Nat → Reader (List Name)
  | 0, _ => exhausted
  | fuel + 1, count => do
    reportIf (argumentLimit ≤ count) (.tooManyParameters argumentLimit)
    let first ← expectName .parameterName
    match ← acceptMark .comma with
    | some _ =>
      let rest ← readParameters fuel (count + 1)
      pure (first :: rest)
    | none => pure [first]

/-- A variable declaration behind its keyword. -/
def readVariable (fuel : Nat) : Reader Stmt := do
  let name ← expectName .variableName
  let initializer ← behind? (.mark .equal) (readExpr fuel)
  let _ ← expectMark .semicolon .afterDeclaration
  pure (.declare name initializer)

/-- An expression as a statement. -/
def readExpressionStatement (fuel : Nat) : Reader Stmt := do
  let value ← readExpr fuel
  let _ ← expectMark .semicolon .afterStatement
  pure (.expression value)

/-- The value of a return statement, and its semicolon. -/
def readReturn (fuel : Nat) (keyword : Name) : Reader Stmt := do
  let value ← unlessAt .semicolon (readExpr fuel)
  let _ ← expectMark .semicolon .afterReturnValue
  pure (.giveBack keyword value)

/-- The three parts between the parentheses of a `for` loop. -/
structure ForClauses where
  initializer : Option Stmt
  condition : Option Expr
  increment : Option Expr

/-- What a `for` loop does first, with its semicolon. -/
def readInitializer (fuel : Nat) : Reader (Option Stmt) := do
  match ← acceptMark .semicolon with
  | some _ => pure none
  | none =>
    match ← acceptKeyword .varWord with
    | some _ => some <$> readVariable fuel
    | none => some <$> readExpressionStatement fuel

/-- The clauses of a `for` loop with its parentheses. -/
def readForClauses (fuel : Nat) : Reader ForClauses := do
  let _ ← expectMark .leftParen .afterFor
  let initializer ← readInitializer fuel
  let condition ← unlessAt .semicolon (readExpr fuel)
  let _ ← expectMark .semicolon .afterLoopCondition
  let increment ← unlessAt .rightParen (readExpr fuel)
  let _ ← expectMark .rightParen .afterForClauses
  pure ⟨initializer, condition, increment⟩

/-- One round of a `for` loop: the increment runs behind the body in a block of both. -/
def ForClauses.round (clauses : ForClauses) (body : Stmt) : Stmt :=
  match clauses.increment with
  | some increment => .block [body, .expression increment]
  | none => body

/-- The loop that the clauses make of a body. A missing condition is true; the initializer stands in front
of the loop in a block of both. -/
def ForClauses.loop (clauses : ForClauses) (body : Stmt) : Stmt :=
  let loop := .loop (clauses.condition.getD (.literal (.bool true))) (clauses.round body)
  match clauses.initializer with
  | some initializer => .block [initializer, loop]
  | none => loop

/-- The name of a superclass. -/
def readSuperclass : Reader Reference := do
  let name ← expectName .superclassName
  newReference name

mutual

/-- A declaration or a statement; nothing if it fails. -/
def readDeclaration : Nat → Reader (Option Stmt)
  | 0 => exhausted
  | fuel + 1 => attempt do
    match ← acceptKeyword .classWord with
    | some _ => readClass fuel
    | none =>
      match ← acceptKeyword .funWord with
      | some _ => .function <$> readFunction fuel .function
      | none =>
        match ← acceptKeyword .varWord with
        | some _ => readVariable fuel
        | none => readStatement fuel

/-- A class behind its keyword. -/
def readClass : Nat → Reader Stmt
  | 0 => exhausted
  | fuel + 1 => do
    let name ← expectName .className
    let superclass ← behind? (.mark .less) readSuperclass
    let _ ← expectMark .leftBrace .beforeClassBody
    let methods ← readMethods fuel
    let _ ← expectMark .rightBrace .afterClassBody
    pure (.declareClass name superclass methods)

/-- Methods up to a closing brace or the end. -/
def readMethods : Nat → Reader (List FunctionDecl)
  | 0 => exhausted
  | fuel + 1 => do
    if (← at? .rightBrace) || (← atEnd) then pure []
    else
      let first ← readFunction fuel .method
      let rest ← readMethods fuel
      pure (first :: rest)

/-- A function: its name, its parameters and its body. -/
def readFunction : Nat → FunctionForm → Reader FunctionDecl
  | 0, _ => exhausted
  | fuel + 1, form => do
    let name ← expectName (.functionName form)
    let _ ← expectMark .leftParen (.afterFunctionName form)
    let params ← unlessAt .rightParen (readParameters fuel 0)
    let _ ← expectMark .rightParen .afterParameters
    let _ ← expectMark .leftBrace (.beforeFunctionBody form)
    let body ← readBlock fuel
    pure ⟨name, params.getD [], body⟩

/-- The inside of a block and its closing brace. -/
def readBlock : Nat → Reader (List Stmt)
  | 0 => exhausted
  | fuel + 1 => do
    let body ← readBody fuel
    let _ ← expectMark .rightBrace .afterBlock
    pure body

/-- Declarations up to a closing brace or the end. -/
def readBody : Nat → Reader (List Stmt)
  | 0 => exhausted
  | fuel + 1 => do
    if (← at? .rightBrace) || (← atEnd) then pure []
    else
      let first ← readDeclaration fuel
      let rest ← readBody fuel
      pure (first.toList ++ rest)

/-- A statement. -/
def readStatement : Nat → Reader Stmt
  | 0 => exhausted
  | fuel + 1 => do
    match ← acceptKeyword .forWord with
    | some _ =>
      let clauses ← readForClauses fuel
      let body ← readStatement fuel
      pure (clauses.loop body)
    | none =>
      match ← acceptKeyword .ifWord with
      | some _ => readBranch fuel
      | none =>
        match ← acceptKeyword .whileWord with
        | some _ =>
          let _ ← expectMark .leftParen .afterWhile
          let condition ← readExpr fuel
          let _ ← expectMark .rightParen .afterWhileCondition
          let body ← readStatement fuel
          pure (.loop condition body)
        | none =>
          match ← acceptKeyword .returnWord with
          | some token => readReturn fuel token.toName
          | none =>
            match ← acceptMark .leftBrace with
            | some _ => .block <$> readBlock fuel
            | none => readExpressionStatement fuel

/-- A conditional statement behind its keyword. An `else` belongs to the nearest `if`. -/
def readBranch : Nat → Reader Stmt
  | 0 => exhausted
  | fuel + 1 => do
    let _ ← expectMark .leftParen .afterIf
    let condition ← readExpr fuel
    let _ ← expectMark .rightParen .afterIfCondition
    let thenBranch ← readStatement fuel
    let elseBranch ← behind? (.keyword .elseWord) (readStatement fuel)
    pure (.branch condition thenBranch elseBranch)

end

/-- Declarations up to the end. -/
def readProgram : Nat → Reader (List Stmt)
  | 0 => exhausted
  | fuel + 1 => do
    if ← atEnd then pure []
    else
      let first ← readDeclaration fuel
      let rest ← readProgram fuel
      pure (first.toList ++ rest)

/-- The fuel for a number of tokens. -/
def enoughFuel (count : Nat) : Nat := 32 * (count + 2)

/-- What a reading yields: the statements that did not fail, all errors in the order in which they were
found, and the first identity that no reference carries. -/
structure Parsing where
  statements : List Stmt
  errors : List StaticError
  nextId : NodeId

/-- The state before the first of these tokens. Everything from the end token on is left out. -/
def ReadState.start (tokens : List Token) (firstId : NodeId) : ReadState where
  pending := tokens.takeWhile fun t => t.kind != .eof
  endLine := ((tokens.find? fun t => t.kind == .eof).map Token.line).getD 0
  nextId := firstId

/-- Reads a program. References are numbered from `firstId` on. -/
def parse (tokens : List Token) (firstId : NodeId) : Parsing :=
  let start := ReadState.start tokens firstId
  match readProgram (enoughFuel start.pending.length) start with
  | .ok statements s => ⟨statements, s.errors, s.nextId⟩
  | .fail _ s => ⟨[], s.errors, s.nextId⟩
  | .outOfFuel => ⟨[], [], firstId⟩

/-- The statements, if there was no error. -/
def Parsing.result (p : Parsing) : Except (List StaticError) (List Stmt) :=
  if p.errors.isEmpty then .ok p.statements else .error p.errors

end LoxLang
