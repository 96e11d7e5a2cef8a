import LoxLang.Proofs.Grammar.Recovery
import LoxLang.Proofs.Position.Steps
import LoxLang.Proofs.Unparse.RoundTrip

/-!
# The grammar over tokens with a position

The rules of the language as walks over all tokens. Where the end token is the last one and no other, every rule
goes along with the rule that reads pending tokens. A walk over a program therefore comes to an end, on the end
token, and never looks beyond the tokens on either side.
-/

namespace LoxLang

open Walk

/-! ## Expressions -/

mutual

/-- An assignment, or an expression of the loosest level. -/
def walkExpr : Nat → Walk Expr
  | 0 => exhausted
  | fuel + 1 => do
    let target ← walkLevel fuel (some .disjunction)
    match ← takeIf AssignOperator.ofToken? with
    | none => pure target
    | some (operator, token) =>
      let value ← walkExpr fuel
      match target.assigned? operator value with
      | some assignment => pure assignment
      | none => failWith (.grammar token.line token.place .invalidTarget)

/-- Operands joined by the operators of a level, or a unary expression. -/
def walkLevel : Nat → Option Level → Walk Expr
  | 0, _ => exhausted
  | fuel + 1, none => walkUnary fuel
  | fuel + 1, some level => do
    let first ← walkLevel fuel level.tighter?
    walkJoined fuel level first

/-- What follows the first operand of a level. -/
def walkJoined : Nat → Level → Expr → Walk Expr
  | 0, _, _ => exhausted
  | fuel + 1, level, left => do
    match ← takeIf (Joiner.atLevel? level) with
    | none => pure left
    | some (operator, token) =>
      let right ← walkLevel fuel level.tighter?
      walkJoined fuel level (operator.join left token.line right)

/-- A unary operator with its operand, or a power. -/
def walkUnary : Nat → Walk Expr
  | 0 => exhausted
  | fuel + 1 => do
    match ← takeIf UnaryOperator.ofToken? with
    | some (operator, token) =>
      let right ← walkUnary fuel
      pure (.unary operator token.line right)
    | none => walkPower fuel

/-- A call, raised to a unary expression or not. -/
def walkPower : Nat → Walk Expr
  | 0 => exhausted
  | fuel + 1 => do
    let base ← walkCall fuel
    if ← accepts (.mark .starStar) then
      let token ← previous
      let exponent ← walkUnary fuel
      pure (.binary base .power token.line exponent)
    else pure base

/-- A primary expression with the calls, elements and properties behind it. -/
def walkCall : Nat → Walk Expr
  | 0 => exhausted
  | fuel + 1 => do
    let first ← walkPrimary fuel
    walkSelectors fuel first

/-- Calls, elements and properties of an expression. -/
def walkSelectors : Nat → Expr → Walk Expr
  | 0, _ => exhausted
  | fuel + 1, object => do
    if ← accepts (.mark .leftParen) then
      let (arguments, line) ← walkArguments fuel .rightParen (some argumentLimit)
      walkSelectors fuel (.call object .parens line arguments)
    else if ← accepts (.mark .leftBracket) then
      let (arguments, line) ← walkArguments fuel .rightBracket (some 1)
      walkSelectors fuel (.call object .brackets line arguments)
    else if ← accepts (.mark .dot) then
      let name ← consumeName .propertyName
      walkSelectors fuel (.get object name)
    else pure object

/-- Expressions up to a closing mark, and the line of that mark. -/
def walkArguments : Nat → Mark → Option Nat → Walk (List Expr × Nat)
  | 0, _, _ => exhausted
  | fuel + 1, closing, limit => do
    let arguments ← unlessAt closing (walkItems fuel limit 0)
    let token ← consumeMark closing .afterArguments
    pure (arguments.getD [], token.line)

/-- One or more expressions with commas between them, after `count` earlier ones. -/
def walkItems : Nat → Option Nat → Nat → Walk (List Expr)
  | 0, _, _ => exhausted
  | fuel + 1, limit, count => do
    reportIf (limit == some count) (.tooManyArguments count)
    let first ← walkExpr fuel
    if ← accepts (.mark .comma) then
      let rest ← walkItems fuel limit (count + 1)
      pure (first :: rest)
    else pure [first]

/-- A literal, a name, an expression in parentheses, a list, `this`, or a method of the superclass. -/
def walkPrimary : Nat → Walk Expr
  | 0 => exhausted
  | fuel + 1 => do
    match ← takeIf TokenKind.literal? with
    | some (value, _) => pure (.literal value)
    | none =>
      if ← accepts .identifier then
        let token ← previous
        let target ← newReference token.toName
        pure (.reference target)
      else if ← accepts (.mark .leftParen) then
        let inner ← walkExpr fuel
        let _ ← consumeMark .rightParen .afterGrouping
        pure (.grouping inner)
      else if ← accepts (.mark .leftBracket) then
        let (elements, line) ← walkArguments fuel .rightBracket none
        pure (.list line elements)
      else if ← accepts (.keyword .thisWord) then
        let token ← previous
        let target ← newReference token.toName
        pure (.receiver target)
      else if ← accepts (.keyword .superWord) then
        let token ← previous
        let _ ← consumeMark .dot .afterSuper
        let method ← consumeName .superclassMethodName
        let target ← newReference token.toName
        pure (.inherited target method)
      else fail .missingExpression

end

/-! ## Statements -/

/-- One or more parameters with commas between them, after `count` earlier ones. -/
def walkParameters : Nat → Nat → Walk (List Name)
  | 0, _ => exhausted
  | fuel + 1, count => do
    reportIf (argumentLimit ≤ count) (.tooManyParameters argumentLimit)
    let first ← consumeName .parameterName
    if ← accepts (.mark .comma) then
      let rest ← walkParameters fuel (count + 1)
      pure (first :: rest)
    else pure [first]

/-- A variable declaration behind its keyword. -/
def walkVariable (fuel : Nat) : Walk Stmt := do
  let name ← consumeName .variableName
  let initializer ← behind? (.mark .equal) (walkExpr fuel)
  let _ ← consumeMark .semicolon .afterDeclaration
  pure (.declare name initializer)

/-- An expression as a statement. -/
def walkExpressionStatement (fuel : Nat) : Walk Stmt := do
  let value ← walkExpr fuel
  let _ ← consumeMark .semicolon .afterStatement
  pure (.expression value)

/-- A return statement behind its keyword, which is looked back at. -/
def walkReturn (fuel : Nat) : Walk Stmt := do
  let keyword ← previous
  let value ← unlessAt .semicolon (walkExpr fuel)
  let _ ← consumeMark .semicolon .afterReturnValue
  pure (.giveBack keyword.toName value)

/-- What a `for` loop does first, with its semicolon. -/
def walkInitializer (fuel : Nat) : Walk (Option Stmt) := do
  if ← accepts (.mark .semicolon) then pure none
  else if ← accepts (.keyword .varWord) then some <$> walkVariable fuel
  else some <$> walkExpressionStatement fuel

/-- The clauses of a `for` loop with its parentheses. -/
def walkForClauses (fuel : Nat) : Walk ForClauses := do
  let _ ← consumeMark .leftParen .afterFor
  let initializer ← walkInitializer fuel
  let condition ← unlessAt .semicolon (walkExpr fuel)
  let _ ← consumeMark .semicolon .afterLoopCondition
  let increment ← unlessAt .rightParen (walkExpr fuel)
  let _ ← consumeMark .rightParen .afterForClauses
  pure ⟨initializer, condition, increment⟩

/-- The name of a superclass. -/
def walkSuperclass : Walk Reference := do
  let name ← consumeName .superclassName
  newReference name

mutual

/-- A declaration or a statement; nothing if it fails. -/
def walkDeclaration : Nat → Walk (Option Stmt)
  | 0 => exhausted
  | fuel + 1 => recorded <| attempt do
    if ← accepts (.keyword .classWord) then walkClass fuel
    else if ← accepts (.keyword .funWord) then .function <$> walkFunction fuel .function
    else if ← accepts (.keyword .varWord) then walkVariable fuel
    else walkStatement fuel

/-- A class behind its keyword. -/
def walkClass : Nat → Walk Stmt
  | 0 => exhausted
  | fuel + 1 => do
    let name ← consumeName .className
    let superclass ← behind? (.mark .less) walkSuperclass
    let _ ← consumeMark .leftBrace .beforeClassBody
    let methods ← walkMethods fuel
    let _ ← consumeMark .rightBrace .afterClassBody
    pure (.declareClass name superclass methods)

/-- Methods up to a closing brace or the end. -/
def walkMethods : Nat → Walk (List FunctionDecl)
  | 0 => exhausted
  | fuel + 1 => do
    if (← check (.mark .rightBrace)) || (← isAtEnd) then pure []
    else
      let first ← walkFunction fuel .method
      let rest ← walkMethods fuel
      pure (first :: rest)

/-- A function: its name, its parameters and its body. -/
def walkFunction : Nat → FunctionForm → Walk FunctionDecl
  | 0, _ => exhausted
  | fuel + 1, form => do
    let name ← consumeName (.functionName form)
    let _ ← consumeMark .leftParen (.afterFunctionName form)
    let params ← unlessAt .rightParen (walkParameters fuel 0)
    let _ ← consumeMark .rightParen .afterParameters
    let _ ← consumeMark .leftBrace (.beforeFunctionBody form)
    let body ← walkBlock fuel
    pure ⟨name, params.getD [], body⟩

/-- The inside of a block and its closing brace. -/
def walkBlock : Nat → Walk (List Stmt)
  | 0 => exhausted
  | fuel + 1 => do
    let body ← walkBody fuel
    let _ ← consumeMark .rightBrace .afterBlock
    pure body

/-- Declarations up to a closing brace or the end. -/
def walkBody : Nat → Walk (List Stmt)
  | 0 => exhausted
  | fuel + 1 => do
    if (← check (.mark .rightBrace)) || (← isAtEnd) then pure []
    else
      let first ← walkDeclaration fuel
      let rest ← walkBody fuel
      pure (first.toList ++ rest)

/-- A statement. The line of its first token is asked for in any case. -/
def walkStatement : Nat → Walk Stmt
  | 0 => exhausted
  | fuel + 1 => do
    let _ ← peek
    if ← accepts (.keyword .forWord) then
      let clauses ← walkForClauses fuel
      let body ← walkStatement fuel
      pure (clauses.loop body)
    else if ← accepts (.keyword .ifWord) then walkBranch fuel
    else if ← accepts (.keyword .whileWord) then
      let _ ← consumeMark .leftParen .afterWhile
      let condition ← walkExpr fuel
      let _ ← consumeMark .rightParen .afterWhileCondition
      let body ← walkStatement fuel
      pure (.loop condition body)
    else if ← accepts (.keyword .returnWord) then walkReturn fuel
    else if ← accepts (.mark .leftBrace) then .block <$> walkBlock fuel
    else walkExpressionStatement fuel

/-- A conditional statement behind its keyword. -/
def walkBranch : Nat → Walk Stmt
  | 0 => exhausted
  | fuel + 1 => do
    let _ ← consumeMark .leftParen .afterIf
    let condition ← walkExpr fuel
    let _ ← consumeMark .rightParen .afterIfCondition
    let thenBranch ← walkStatement fuel
    let elseBranch ← behind? (.keyword .elseWord) (walkStatement fuel)
    pure (.branch condition thenBranch elseBranch)

end

/-- Declarations up to the end. -/
def walkProgram : Nat → Walk (List Stmt)
  | 0 => exhausted
  | fuel + 1 => do
    if ← isAtEnd then pure []
    else
      let first ← walkDeclaration fuel
      let rest ← walkProgram fuel
      pure (first.toList ++ rest)

/-! ## The rules of expressions beside readings -/

/-- With this fuel the rules of expressions go along with a reading. -/
structure ExprKeeps (words : List Token) (final : Token) (n : Nat) : Prop where
  expr : (walkExpr n).Keeps words final (readExpr n)
  level (o : Option Level) : (walkLevel n o).Keeps words final (readLevel n o)
  joined (l : Level) (left : Expr) : (walkJoined n l left).Keeps words final (readJoined n l left)
  unary : (walkUnary n).Keeps words final (readUnary n)
  power : (walkPower n).Keeps words final (readPower n)
  call : (walkCall n).Keeps words final (readCall n)
  selectors (object : Expr) : (walkSelectors n object).Keeps words final (readSelectors n object)
  arguments (closing : Mark) (limit : Option Nat) :
    (walkArguments n closing limit).Keeps words final (readArguments n closing limit)
  items (limit : Option Nat) (count : Nat) : (walkItems n limit count).Keeps words final (readItems n limit count)
  primary : (walkPrimary n).Keeps words final (readPrimary n)

namespace ExprKeeps
variable {words : List Token} {final : Token} {n : Nat} (h : EndsOnce words final) (ih : ExprKeeps words final n)
include h ih

theorem walkExpr_keeps : (walkExpr (n + 1)).Keeps words final (readExpr (n + 1)) := by
  rw [walkExpr, readExpr]
  refine (ih.level _).bind fun target => (h.takeIf rfl).bind fun found => ?_
  cases found with
  | none => exact keeps_pure target
  | some found =>
    refine ih.expr.bind fun value => ?_
    cases target.assigned? found.1 value with
    | none => exact keeps_failWith _
    | some assignment => exact keeps_pure assignment

omit h in
theorem walkLevel_keeps (o : Option Level) : (walkLevel (n + 1) o).Keeps words final (readLevel (n + 1) o) := by
  cases o with
  | none =>
    rw [walkLevel, readLevel]
    exact ih.unary
  | some l =>
    rw [walkLevel, readLevel]
    exact (ih.level _).bind fun first => ih.joined l first

theorem walkJoined_keeps (l : Level) (left : Expr) :
    (walkJoined (n + 1) l left).Keeps words final (readJoined (n + 1) l left) := by
  rw [walkJoined, readJoined]
  refine (h.takeIf rfl).bind fun found => ?_
  cases found with
  | none => exact keeps_pure left
  | some found => exact (ih.level _).bind fun right => ih.joined l _

theorem walkUnary_keeps : (walkUnary (n + 1)).Keeps words final (readUnary (n + 1)) := by
  rw [walkUnary, readUnary]
  refine (h.takeIf rfl).bind fun found => ?_
  cases found with
  | none => exact ih.power
  | some found => exact ih.unary.bind fun right => keeps_pure _

theorem walkPower_keeps : (walkPower (n + 1)).Keeps words final (readPower (n + 1)) := by
  rw [walkPower, readPower]
  refine ih.call.bind fun base => h.accepts _ (fun token => ?_) (keeps_pure base)
  exact Along.previous (Along.anywhere (ih.unary.bind fun exponent => keeps_pure _))

omit h in
theorem walkCall_keeps : (walkCall (n + 1)).Keeps words final (readCall (n + 1)) := by
  rw [walkCall, readCall]
  exact ih.primary.bind fun first => ih.selectors first

theorem walkSelectors_keeps (object : Expr) :
    (walkSelectors (n + 1) object).Keeps words final (readSelectors (n + 1) object) := by
  rw [walkSelectors, readSelectors]
  refine h.accepts _ (fun _ => Along.anywhere ?_) ?_
  · exact (ih.arguments _ _).bind fun _ => ih.selectors _
  refine h.accepts _ (fun _ => Along.anywhere ?_) ?_
  · exact (ih.arguments _ _).bind fun _ => ih.selectors _
  refine h.accepts _ (fun _ => Along.anywhere ?_) (keeps_pure object)
  exact (h.consumeName _).bind fun name => ih.selectors _

theorem walkArguments_keeps (closing : Mark) (limit : Option Nat) :
    (walkArguments (n + 1) closing limit).Keeps words final (readArguments (n + 1) closing limit) := by
  rw [walkArguments, readArguments]
  refine (h.unlessAt closing (ih.items limit 0)).bind fun arguments => ?_
  exact (h.consumeMark closing _).bind fun token => keeps_pure _

theorem walkItems_keeps (limit : Option Nat) (count : Nat) :
    (walkItems (n + 1) limit count).Keeps words final (readItems (n + 1) limit count) := by
  rw [walkItems, readItems]
  refine (h.reportIf _ _).bind fun _ => ih.expr.bind fun first => ?_
  refine h.accepts _ (fun _ => Along.anywhere ?_) (keeps_pure _)
  exact (ih.items limit _).bind fun rest => keeps_pure _

theorem walkPrimary_keeps : (walkPrimary (n + 1)).Keeps words final (readPrimary (n + 1)) := by
  rw [walkPrimary, readPrimary]
  refine (h.takeIf rfl).bind fun found => ?_
  cases found with
  | some found => exact keeps_pure _
  | none =>
  refine h.accepts _ (fun token => Along.previous (Along.anywhere ?_)) ?_
  · exact (keeps_newReference _).bind fun target => keeps_pure _
  refine h.accepts _ (fun _ => Along.anywhere ?_) ?_
  · exact ih.expr.bind fun inner => (h.consumeMark _ _).bind fun _ => keeps_pure _
  refine h.accepts _ (fun _ => Along.anywhere ?_) ?_
  · exact (ih.arguments _ _).bind fun _ => keeps_pure _
  refine h.accepts _ (fun token => Along.previous (Along.anywhere ?_)) ?_
  · exact (keeps_newReference _).bind fun target => keeps_pure _
  refine h.accepts _ (fun token => Along.previous (Along.anywhere ?_)) (h.fail _)
  refine (h.consumeMark _ _).bind fun _ => (h.consumeName _).bind fun method => ?_
  exact (keeps_newReference _).bind fun target => keeps_pure _

end ExprKeeps

theorem exprKeeps {words : List Token} {final : Token} (h : EndsOnce words final) (n : Nat) :
    ExprKeeps words final n := by
  induction n with
  | zero => constructor <;> intros <;> exact keeps_exhausted
  | succ n ih =>
    exact ⟨ih.walkExpr_keeps h, ih.walkLevel_keeps, ih.walkJoined_keeps h, ih.walkUnary_keeps h,
      ih.walkPower_keeps h, ih.walkCall_keeps, ih.walkSelectors_keeps h, ih.walkArguments_keeps h,
      ih.walkItems_keeps h, ih.walkPrimary_keeps h⟩

/-! ## The rules of statements beside readings -/

section Statements
variable {words : List Token} {final : Token} (h : EndsOnce words final) (n : Nat)
include h

theorem walkExpr_keeps : (walkExpr n).Keeps words final (readExpr n) := (exprKeeps h n).expr

theorem walkParameters_keeps (count : Nat) :
    (walkParameters n count).Keeps words final (readParameters n count) := by
  induction n generalizing count with
  | zero => exact keeps_exhausted
  | succ n ih =>
    rw [walkParameters, readParameters]
    refine (h.reportIf _ _).bind fun _ => (h.consumeName _).bind fun first => ?_
    refine h.accepts _ (fun _ => Along.anywhere ?_) (keeps_pure _)
    exact (ih _).bind fun rest => keeps_pure _

theorem walkVariable_keeps : (walkVariable n).Keeps words final (readVariable n) := by
  refine (h.consumeName _).bind fun name => (h.behind? _ (walkExpr_keeps h n)).bind fun value => ?_
  exact (h.consumeMark _ _).bind fun _ => keeps_pure _

theorem walkExpressionStatement_keeps :
    (walkExpressionStatement n).Keeps words final (readExpressionStatement n) :=
  (walkExpr_keeps h n).bind fun _ => (h.consumeMark _ _).bind fun _ => keeps_pure _

/-- The look back of a return statement finds its keyword. -/
theorem walkReturn_along (keyword : Token) :
    (walkReturn n).Along words final (TracksBehind words final keyword) (readReturn n keyword.toName)
      fun a b w s => a = b ∧ Tracks words final w s := by
  refine Along.previous (Along.anywhere ?_)
  exact (h.unlessAt _ (walkExpr_keeps h n)).bind fun _ => (h.consumeMark _ _).bind fun _ => keeps_pure _

theorem walkInitializer_keeps : (walkInitializer n).Keeps words final (readInitializer n) := by
  refine h.accepts _ (fun _ => Along.anywhere (keeps_pure none)) ?_
  refine h.accepts _ (fun _ => Along.anywhere ?_) ?_
  · exact (walkVariable_keeps h n).map some
  · exact (walkExpressionStatement_keeps h n).map some

theorem walkForClauses_keeps : (walkForClauses n).Keeps words final (readForClauses n) := by
  refine (h.consumeMark _ _).bind fun _ => (walkInitializer_keeps h n).bind fun initializer => ?_
  refine (h.unlessAt _ (walkExpr_keeps h n)).bind fun condition => (h.consumeMark _ _).bind fun _ => ?_
  refine (h.unlessAt _ (walkExpr_keeps h n)).bind fun increment => ?_
  exact (h.consumeMark _ _).bind fun _ => keeps_pure _

theorem walkSuperclass_keeps : walkSuperclass.Keeps words final readSuperclass :=
  (h.consumeName _).bind fun name => keeps_newReference name

omit h in
/-- A declaration that goes along with a reading goes on, as the reading takes a token. -/
theorem recorded_keeps {walk : Walk (Option Stmt)} (hw : walk.Keeps words final (readDeclaration n)) :
    (recorded walk).Keeps words final (readDeclaration n) := by
  intro w s hws
  have hresult := hw w s hws
  unfold recorded
  generalize walk (words ++ [final]) w = r at hresult ⊢
  cases hread : readDeclaration n s with
  | ok a s' =>
    rw [hread] at hresult
    cases hresult with
    | @ok _ _ w' _ hafter =>
    obtain ⟨rfl, hafter⟩ := hafter
    refine .ok ⟨rfl, hafter.pending, hafter.endLine, hafter.nextId, hafter.errors, hafter.sound.declare ?_⟩
    intro hlt
    have hbefore := hws.length
    have hlater := hafter.length
    have hs : s.pending ≠ [] := fun hnone => by
      rw [hnone, List.length_nil] at hbefore
      omega
    have htaken := readDeclaration_length_lt hread hs
    omega
  | fail e s' =>
    rw [hread] at hresult
    cases hresult with
    | fail _ hfail => exact .fail e hfail
  | outOfFuel =>
    rw [hread] at hresult
    cases hresult
    exact .outOfFuel

end Statements

/-- With this fuel the rules of statements go along with a reading. -/
structure StmtKeeps (words : List Token) (final : Token) (n : Nat) : Prop where
  declaration : (walkDeclaration n).Keeps words final (readDeclaration n)
  class_ : (walkClass n).Keeps words final (readClass n)
  methods : (walkMethods n).Keeps words final (readMethods n)
  function (form : FunctionForm) : (walkFunction n form).Keeps words final (readFunction n form)
  block : (walkBlock n).Keeps words final (readBlock n)
  body : (walkBody n).Keeps words final (readBody n)
  statement : (walkStatement n).Keeps words final (readStatement n)
  branch : (walkBranch n).Keeps words final (readBranch n)

namespace StmtKeeps
variable {words : List Token} {final : Token} {n : Nat} (h : EndsOnce words final) (ih : StmtKeeps words final n)
include h ih

theorem walkDeclaration_keeps : (walkDeclaration (n + 1)).Keeps words final (readDeclaration (n + 1)) := by
  rw [walkDeclaration]
  refine recorded_keeps _ ?_
  rw [readDeclaration]
  refine h.attempt ?_
  refine h.accepts _ (fun _ => Along.anywhere ih.class_) ?_
  refine h.accepts _ (fun _ => Along.anywhere ((ih.function _).map _)) ?_
  exact h.accepts _ (fun _ => Along.anywhere (walkVariable_keeps h n)) ih.statement

theorem walkClass_keeps : (walkClass (n + 1)).Keeps words final (readClass (n + 1)) := by
  rw [walkClass, readClass]
  refine (h.consumeName _).bind fun name => (h.behind? _ (walkSuperclass_keeps h)).bind fun superclass => ?_
  refine (h.consumeMark _ _).bind fun _ => ih.methods.bind fun methods => ?_
  exact (h.consumeMark _ _).bind fun _ => keeps_pure _

theorem walkMethods_keeps : (walkMethods (n + 1)).Keeps words final (readMethods (n + 1)) := by
  rw [walkMethods, readMethods]
  refine (h.check _).bind fun brace => h.isAtEnd.bind fun ended => ?_
  split
  · exact keeps_pure _
  · exact (ih.function _).bind fun first => ih.methods.bind fun rest => keeps_pure _

theorem walkFunction_keeps (form : FunctionForm) :
    (walkFunction (n + 1) form).Keeps words final (readFunction (n + 1) form) := by
  rw [walkFunction, readFunction]
  refine (h.consumeName _).bind fun name => (h.consumeMark _ _).bind fun _ => ?_
  refine (h.unlessAt _ (walkParameters_keeps h n 0)).bind fun params => (h.consumeMark _ _).bind fun _ => ?_
  exact (h.consumeMark _ _).bind fun _ => ih.block.bind fun body => keeps_pure _

theorem walkBlock_keeps : (walkBlock (n + 1)).Keeps words final (readBlock (n + 1)) := by
  rw [walkBlock, readBlock]
  exact ih.body.bind fun body => (h.consumeMark _ _).bind fun _ => keeps_pure _

theorem walkBody_keeps : (walkBody (n + 1)).Keeps words final (readBody (n + 1)) := by
  rw [walkBody, readBody]
  refine (h.check _).bind fun brace => h.isAtEnd.bind fun ended => ?_
  split
  · exact keeps_pure _
  · exact ih.declaration.bind fun first => ih.body.bind fun rest => keeps_pure _

theorem walkStatement_keeps : (walkStatement (n + 1)).Keeps words final (readStatement (n + 1)) := by
  rw [walkStatement, readStatement]
  refine h.glance ?_
  refine h.accepts _ (fun _ => Along.anywhere ?_) ?_
  · exact (walkForClauses_keeps h n).bind fun clauses => ih.statement.bind fun body => keeps_pure _
  refine h.accepts _ (fun _ => Along.anywhere ih.branch) ?_
  refine h.accepts _ (fun _ => Along.anywhere ?_) ?_
  · refine (h.consumeMark _ _).bind fun _ => (walkExpr_keeps h n).bind fun condition => ?_
    exact (h.consumeMark _ _).bind fun _ => ih.statement.bind fun body => keeps_pure _
  refine h.accepts _ (fun token => walkReturn_along h n token) ?_
  exact h.accepts _ (fun _ => Along.anywhere (ih.block.map _)) (walkExpressionStatement_keeps h n)

theorem walkBranch_keeps : (walkBranch (n + 1)).Keeps words final (readBranch (n + 1)) := by
  rw [walkBranch, readBranch]
  refine (h.consumeMark _ _).bind fun _ => (walkExpr_keeps h n).bind fun condition => ?_
  refine (h.consumeMark _ _).bind fun _ => ih.statement.bind fun thenBranch => ?_
  exact (h.behind? _ ih.statement).bind fun elseBranch => keeps_pure _

end StmtKeeps

section Programs
variable {words : List Token} {final : Token}

theorem stmtKeeps (h : EndsOnce words final) (n : Nat) : StmtKeeps words final n := by
  induction n with
  | zero => constructor <;> intros <;> exact keeps_exhausted
  | succ n ih =>
    exact ⟨ih.walkDeclaration_keeps h, ih.walkClass_keeps h, ih.walkMethods_keeps h, ih.walkFunction_keeps h,
      ih.walkBlock_keeps h, ih.walkBody_keeps h, ih.walkStatement_keeps h, ih.walkBranch_keeps h⟩

theorem walkProgram_keeps (h : EndsOnce words final) (n : Nat) :
    (walkProgram n).Keeps words final (readProgram n) := by
  induction n with
  | zero => exact keeps_exhausted
  | succ n ih =>
    rw [walkProgram, readProgram]
    refine h.isAtEnd.bind fun ended => ?_
    split
    · exact keeps_pure _
    · exact (stmtKeeps h n).declaration.bind fun first => ih.bind fun rest => keeps_pure _

/-- A program ends where no token is left. -/
theorem readProgram_stops {n : Nat} {s s' : ReadState} {program : List Stmt}
    (h : readProgram n s = .ok program s') : s'.pending = [] := by
  induction n generalizing s program with
  | zero => cases h
  | succ n ih =>
    by_cases hs : s.pending = []
    · rw [readProgram_end n hs] at h
      cases h
      exact hs
    · rw [readProgram_next n hs] at h
      unfold Reader.andThen at h
      split at h
      · obtain ⟨rest, hrest, -⟩ := map_eq_ok h
        exact ih hrest
      · cases h
      · cases h

/-- A walk over a program does what the reading of its tokens does. -/
theorem walkProgram_parses (firstId : NodeId) (hwords : ∀ t ∈ words, t.kind ≠ .eof) (hfinal : final.kind = .eof) :
    ∃ w s, walkProgram (enoughFuel words.length) (words ++ [final]) (.start firstId) =
        .ok (parse (words ++ [final]) firstId).statements w ∧
      Tracks words final w s ∧ s.pending = [] ∧ s.errors = (parse (words ++ [final]) firstId).errors ∧
      s.nextId = (parse (words ++ [final]) firstId).nextId := by
  have hstart : Tracks words final (.start firstId) ⟨words, final.line, firstId, []⟩ :=
    ⟨rfl, rfl, rfl, rfl, .start firstId⟩
  obtain ⟨program, s, hs, hparse, -⟩ := parse_eq (words ++ [final]) firstId
  rw [start_eq hwords hfinal, wordsOf_append_end hwords hfinal] at hs
  rw [hparse]
  by_cases hnone : words = []
  · subst hnone
    -- The walk is over before it takes a step, and no token ever stands in front of its position.
    have hend : Walk.isAtEnd ([] ++ [final]) (.start firstId) = .ok true (.start firstId) := by
      refine (Walk.bind_ok (hstart.peek_nil rfl) _).trans ?_
      rw [hfinal]
      rfl
    have hwalk : walkProgram (enoughFuel 0) ([] ++ [final]) (.start firstId) = .ok [] (.start firstId) :=
      Walk.bind_ok hend _
    rw [show enoughFuel [].length = 63 + 1 from rfl, readProgram_end _ rfl] at hs
    cases hs
    exact ⟨_, _, hwalk, hstart, rfl, rfl, rfl⟩
  · have hresult := walkProgram_keeps ⟨hwords, hfinal, hnone⟩ (enoughFuel words.length) _ _ hstart
    rw [hs] at hresult
    generalize walkProgram (enoughFuel words.length) (words ++ [final]) (.start firstId) = r at hresult ⊢
    cases hresult with
    | @ok _ _ w _ hafter =>
      obtain ⟨rfl, hafter⟩ := hafter
      exact ⟨w, s, rfl, hafter, readProgram_stops hs, rfl, rfl⟩

end Programs

/-- Where the last token is the only end token, a walk over a program comes to an end, with the statements, errors
and identities of the reading. Its position goes from 0 to the end token by one token at a time, so that it neither
goes back nor beyond the end token. It looks back only where a token stands in front, and every declaration that
began in front of the end token, nested or given up, ended at a later position. -/
theorem walk_stays_inside_tokens {words : List Token} {final : Token} (firstId : NodeId)
    (hwords : ∀ t ∈ words, t.kind ≠ .eof) (hfinal : final.kind = .eof) :
    let parsing := parse (words ++ [final]) firstId
    ∃ w, walkProgram (enoughFuel words.length) (words ++ [final]) (.start firstId) = .ok parsing.statements w ∧
      w.errors = parsing.errors ∧ w.nextId = parsing.nextId ∧ w.position = words.length ∧
      w.moves = List.range' 1 words.length ∧
      (∀ position, .lookedBack position ∈ w.history → 0 < position) ∧
      ∀ start stop, .declared start stop ∈ w.history → start < words.length → start < stop := by
  intro parsing
  obtain ⟨w, s, hwalk, htracks, hend, herrors, hnext⟩ := walkProgram_parses firstId hwords hfinal
  have hposition := htracks.position_nil hend
  refine ⟨w, hwalk, htracks.errors.trans herrors, htracks.nextId.trans hnext, hposition, ?_,
    htracks.sound.looksBack, htracks.sound.advances⟩
  rw [htracks.sound.moves, hposition]

/-- The tokens of `{ 1 }`, a block that lacks a semicolon. -/
def blockWithoutSemicolon : List Token :=
  [⟨.mark .leftBrace, "\x7b", 1⟩, ⟨.int 1, "1", 1⟩, ⟨.mark .rightBrace, "\x7d", 1⟩]

/-- Nothing is left of `{ 1 }`, but the walk ends on its end token and not beyond it, although both declarations
fail in front of the end. -/
theorem walk_stays_inside_tokens_unclosed :
    (∀ t ∈ blockWithoutSemicolon, t.kind ≠ .eof) ∧
      ∃ w, walkProgram (enoughFuel 3) (blockWithoutSemicolon ++ [endWord]) (.start 0) = .ok [] w ∧
        w.errors.length = 2 ∧ w.position = 3 ∧ w.moves = [1, 2, 3] := by
  have hwords : ∀ t ∈ blockWithoutSemicolon, t.kind ≠ .eof := by decide
  obtain ⟨w, hwalk, herrors, -, hposition, hmoves, -⟩ :=
    @walk_stays_inside_tokens blockWithoutSemicolon endWord 0 hwords rfl
  exact ⟨hwords, w, hwalk, congrArg List.length herrors, hposition, hmoves⟩

end LoxLang
