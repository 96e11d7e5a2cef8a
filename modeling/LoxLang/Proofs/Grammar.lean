import LoxLang.Tree.Parse

/-!
# The grammar as a relation

Which tokens spell which tree, said without a reader: no fuel, no look ahead and no errors. The rules are
those of the language, one constructor for each way to write a phrase. Between `first` and `next` lie the
identities of the references of a phrase, in the order in which their tokens stand.

Expressions are spelled at a rank. A level of operators leans to the left, so its left operand stands at
the same rank and its right operand at the next tighter one; powers and assignments lean to the right.

A statement is open if it ends in an `if` without `else`. An `else` may follow only a statement that is
not open, which is what makes it belong to the nearest `if`.
-/

namespace LoxLang

/-- A place in an expression, by how tightly what stands there binds. -/
inductive Rank where
  | assignment
  | level (level : Level)
  | unary
  | power
  | call
  | primary
deriving DecidableEq, Repr

/-- The rank of an operand of a level, given the next tighter level. -/
def Rank.operand : Option Level → Rank
  | some tighter => .level tighter
  | none => .unary

/-- The number of arguments that brackets or parentheses may hold. -/
def CallStyle.limit : CallStyle → Nat
  | .parens => argumentLimit
  | .brackets => 1

/-- The mark in front of the arguments. -/
def CallStyle.opening : CallStyle → Mark
  | .parens => .leftParen
  | .brackets => .leftBracket

/-- The mark behind the arguments. -/
def CallStyle.closing : CallStyle → Mark
  | .parens => .rightParen
  | .brackets => .rightBracket

mutual

/-- The tokens spell the expression at the rank. -/
inductive SpellsExpr : Rank → NodeId → List Token → Expr → NodeId → Prop
  | literal {first : NodeId} {t : Token} {value : Literal} :
      t.kind.literal? = some value → SpellsExpr .primary first [t] (.literal value) first
  | reference {first : NodeId} {t : Token} :
      t.kind = .identifier →
      SpellsExpr .primary first [t] (.reference ⟨first, t.toName⟩) (first + 1)
  | grouping {first next : NodeId} {before after : Token} {ts : List Token} {e : Expr} :
      before.kind = .mark .leftParen → SpellsExpr .assignment first ts e next →
      after.kind = .mark .rightParen →
      SpellsExpr .primary first (before :: (ts ++ [after])) (.grouping e) next
  | list {first next : NodeId} {before after : Token} {ts : List Token} {es : List Expr} :
      before.kind = .mark .leftBracket → SpellsArguments first ts es next →
      after.kind = .mark .rightBracket →
      SpellsExpr .primary first (before :: (ts ++ [after])) (.list after.line es) next
  | receiver {first : NodeId} {t : Token} :
      t.kind = .keyword .thisWord →
      SpellsExpr .primary first [t] (.receiver ⟨first, t.toName⟩) (first + 1)
  | inherited {first : NodeId} {t dot name : Token} :
      t.kind = .keyword .superWord → dot.kind = .mark .dot → name.kind = .identifier →
      SpellsExpr .primary first [t, dot, name] (.inherited ⟨first, t.toName⟩ name.toName) (first + 1)
  | ofPrimary {first next : NodeId} {ts : List Token} {e : Expr} :
      SpellsExpr .primary first ts e next → SpellsExpr .call first ts e next
  | call {first middle next : NodeId} {style : CallStyle} {before after : Token}
      {ts us : List Token} {e : Expr} {es : List Expr} :
      SpellsExpr .call first ts e middle → before.kind = .mark style.opening →
      SpellsArguments middle us es next → es.length ≤ style.limit →
      after.kind = .mark style.closing →
      SpellsExpr .call first (ts ++ before :: (us ++ [after])) (.call e style after.line es) next
  | get {first next : NodeId} {dot name : Token} {ts : List Token} {e : Expr} :
      SpellsExpr .call first ts e next → dot.kind = .mark .dot → name.kind = .identifier →
      SpellsExpr .call first (ts ++ [dot, name]) (.get e name.toName) next
  | ofCall {first next : NodeId} {ts : List Token} {e : Expr} :
      SpellsExpr .call first ts e next → SpellsExpr .power first ts e next
  | power {first middle next : NodeId} {t : Token} {ts us : List Token} {base exponent : Expr} :
      SpellsExpr .call first ts base middle → t.kind = .mark .starStar →
      SpellsExpr .unary middle us exponent next →
      SpellsExpr .power first (ts ++ t :: us) (.binary base .power t.line exponent) next
  | ofPower {first next : NodeId} {ts : List Token} {e : Expr} :
      SpellsExpr .power first ts e next → SpellsExpr .unary first ts e next
  | unary {first next : NodeId} {operator : UnaryOperator} {t : Token} {ts : List Token} {e : Expr} :
      UnaryOperator.ofToken? t.kind = some operator → SpellsExpr .unary first ts e next →
      SpellsExpr .unary first (t :: ts) (.unary operator t.line e) next
  | ofOperand {first next : NodeId} {l : Level} {ts : List Token} {e : Expr} :
      SpellsExpr (.operand l.tighter?) first ts e next → SpellsExpr (.level l) first ts e next
  | join {first middle next : NodeId} {l : Level} {operator : Joiner} {t : Token}
      {ts us : List Token} {left right : Expr} :
      SpellsExpr (.level l) first ts left middle → Joiner.atLevel? l t.kind = some operator →
      SpellsExpr (.operand l.tighter?) middle us right next →
      SpellsExpr (.level l) first (ts ++ t :: us) (operator.join left t.line right) next
  | ofLevel {first next : NodeId} {ts : List Token} {e : Expr} :
      SpellsExpr (.level .disjunction) first ts e next → SpellsExpr .assignment first ts e next
  | assign {first middle next : NodeId} {operator : AssignOperator} {t : Token}
      {ts us : List Token} {target value e : Expr} :
      SpellsExpr (.level .disjunction) first ts target middle →
      AssignOperator.ofToken? t.kind = some operator →
      SpellsExpr .assignment middle us value next → target.assigned? operator value = some e →
      SpellsExpr .assignment first (ts ++ t :: us) e next

/-- The tokens spell expressions with commas between them, if there are any. -/
inductive SpellsArguments : NodeId → List Token → List Expr → NodeId → Prop
  | nil {first : NodeId} : SpellsArguments first [] [] first
  | items {first next : NodeId} {ts : List Token} {es : List Expr} :
      SpellsItems first ts es next → SpellsArguments first ts es next

/-- The tokens spell one or more expressions with commas between them. -/
inductive SpellsItems : NodeId → List Token → List Expr → NodeId → Prop
  | last {first next : NodeId} {ts : List Token} {e : Expr} :
      SpellsExpr .assignment first ts e next → SpellsItems first ts [e] next
  | more {first middle next : NodeId} {comma : Token} {ts us : List Token} {e : Expr}
      {es : List Expr} :
      SpellsExpr .assignment first ts e middle → comma.kind = .mark .comma →
      SpellsItems middle us es next → SpellsItems first (ts ++ comma :: us) (e :: es) next

end

/-- The tokens spell one or more names with commas between them. -/
inductive SpellsNames : List Token → List Name → Prop
  | last {t : Token} : t.kind = .identifier → SpellsNames [t] [t.toName]
  | more {t comma : Token} {ts : List Token} {names : List Name} :
      t.kind = .identifier → comma.kind = .mark .comma → SpellsNames ts names →
      SpellsNames (t :: comma :: ts) (t.toName :: names)

/-- The tokens spell the parameters of a function, if it has any. -/
inductive SpellsParameters : List Token → List Name → Prop
  | nil : SpellsParameters [] []
  | names {ts : List Token} {names : List Name} :
      SpellsNames ts names → names.length ≤ argumentLimit → SpellsParameters ts names

/-- The tokens spell an expression, if there is one. -/
inductive SpellsOptional : NodeId → List Token → Option Expr → NodeId → Prop
  | none {first : NodeId} : SpellsOptional first [] none first
  | some {first next : NodeId} {ts : List Token} {e : Expr} :
      SpellsExpr .assignment first ts e next → SpellsOptional first ts (some e) next

/-- The tokens behind `var` spell the declaration of a variable. -/
inductive SpellsVariable : NodeId → List Token → Stmt → NodeId → Prop
  | bare {first : NodeId} {name semicolon : Token} :
      name.kind = .identifier → semicolon.kind = .mark .semicolon →
      SpellsVariable first [name, semicolon] (.declare name.toName none) first
  | initialized {first next : NodeId} {name equal semicolon : Token} {ts : List Token} {e : Expr} :
      name.kind = .identifier → equal.kind = .mark .equal →
      SpellsExpr .assignment first ts e next → semicolon.kind = .mark .semicolon →
      SpellsVariable first (name :: equal :: (ts ++ [semicolon])) (.declare name.toName (some e)) next

/-- The tokens spell an expression as a statement. -/
inductive SpellsPlain : NodeId → List Token → Stmt → NodeId → Prop
  | intro {first next : NodeId} {semicolon : Token} {ts : List Token} {e : Expr} :
      SpellsExpr .assignment first ts e next → semicolon.kind = .mark .semicolon →
      SpellsPlain first (ts ++ [semicolon]) (.expression e) next

/-- The tokens spell what stands first between the parentheses of a `for` loop, with its semicolon. -/
inductive SpellsInitializer : NodeId → List Token → Option Stmt → NodeId → Prop
  | none {first : NodeId} {semicolon : Token} :
      semicolon.kind = .mark .semicolon → SpellsInitializer first [semicolon] none first
  | declare {first next : NodeId} {keyword : Token} {ts : List Token} {s : Stmt} :
      keyword.kind = .keyword .varWord → SpellsVariable first ts s next →
      SpellsInitializer first (keyword :: ts) (some s) next
  | plain {first next : NodeId} {ts : List Token} {s : Stmt} :
      SpellsPlain first ts s next → SpellsInitializer first ts (some s) next

/-- The tokens spell the clauses of a `for` loop with their parentheses. -/
inductive SpellsClauses : NodeId → List Token → ForClauses → NodeId → Prop
  | intro {first second third next : NodeId} {before middle after : Token}
      {ts us vs : List Token} {initializer : Option Stmt} {condition increment : Option Expr} :
      before.kind = .mark .leftParen → SpellsInitializer first ts initializer second →
      SpellsOptional second us condition third → middle.kind = .mark .semicolon →
      SpellsOptional third vs increment next → after.kind = .mark .rightParen →
      SpellsClauses first (before :: (ts ++ (us ++ middle :: (vs ++ [after]))))
        ⟨initializer, condition, increment⟩ next

mutual

/-- The tokens spell the statement, which is open or not. -/
inductive SpellsStmt : Bool → NodeId → List Token → Stmt → NodeId → Prop
  | plain {first next : NodeId} {ts : List Token} {s : Stmt} :
      SpellsPlain first ts s next → SpellsStmt false first ts s next
  | giveBack {first next : NodeId} {keyword semicolon : Token} {ts : List Token}
      {value : Option Expr} :
      keyword.kind = .keyword .returnWord → SpellsOptional first ts value next →
      semicolon.kind = .mark .semicolon →
      SpellsStmt false first (keyword :: (ts ++ [semicolon])) (.giveBack keyword.toName value) next
  | block {first next : NodeId} {before after : Token} {ts : List Token} {body : List Stmt} :
      before.kind = .mark .leftBrace → SpellsBody first ts body next →
      after.kind = .mark .rightBrace →
      SpellsStmt false first (before :: (ts ++ [after])) (.block body) next
  | loop {isOpen : Bool} {first middle next : NodeId} {keyword before after : Token}
      {ts us : List Token} {condition : Expr} {body : Stmt} :
      keyword.kind = .keyword .whileWord → before.kind = .mark .leftParen →
      SpellsExpr .assignment first ts condition middle → after.kind = .mark .rightParen →
      SpellsStmt isOpen middle us body next →
      SpellsStmt isOpen first (keyword :: before :: (ts ++ after :: us)) (.loop condition body) next
  | forLoop {isOpen : Bool} {first middle next : NodeId} {keyword : Token} {ts us : List Token}
      {clauses : ForClauses} {body : Stmt} :
      keyword.kind = .keyword .forWord → SpellsClauses first ts clauses middle →
      SpellsStmt isOpen middle us body next →
      SpellsStmt isOpen first (keyword :: (ts ++ us)) (clauses.loop body) next
  | branch {isOpen : Bool} {first middle next : NodeId} {keyword before after : Token}
      {ts us : List Token} {condition : Expr} {thenBranch : Stmt} :
      keyword.kind = .keyword .ifWord → before.kind = .mark .leftParen →
      SpellsExpr .assignment first ts condition middle → after.kind = .mark .rightParen →
      SpellsStmt isOpen middle us thenBranch next →
      SpellsStmt true first (keyword :: before :: (ts ++ after :: us))
        (.branch condition thenBranch none) next
  | branchElse {isOpen : Bool} {first second third next : NodeId}
      {keyword before after elseWord : Token} {ts us vs : List Token} {condition : Expr}
      {thenBranch elseBranch : Stmt} :
      keyword.kind = .keyword .ifWord → before.kind = .mark .leftParen →
      SpellsExpr .assignment first ts condition second → after.kind = .mark .rightParen →
      SpellsStmt false second us thenBranch third → elseWord.kind = .keyword .elseWord →
      SpellsStmt isOpen third vs elseBranch next →
      SpellsStmt isOpen first (keyword :: before :: (ts ++ after :: (us ++ elseWord :: vs)))
        (.branch condition thenBranch (some elseBranch)) next

/-- The tokens spell a declaration or a statement, which is open or not. -/
inductive SpellsDeclaration : Bool → NodeId → List Token → Stmt → NodeId → Prop
  | declare {first next : NodeId} {keyword : Token} {ts : List Token} {s : Stmt} :
      keyword.kind = .keyword .varWord → SpellsVariable first ts s next →
      SpellsDeclaration false first (keyword :: ts) s next
  | function {first next : NodeId} {keyword : Token} {ts : List Token} {f : FunctionDecl} :
      keyword.kind = .keyword .funWord → SpellsFunction first ts f next →
      SpellsDeclaration false first (keyword :: ts) (.function f) next
  | base {first next : NodeId} {keyword name before after : Token} {ts : List Token}
      {methods : List FunctionDecl} :
      keyword.kind = .keyword .classWord → name.kind = .identifier →
      before.kind = .mark .leftBrace → SpellsMethods first ts methods next →
      after.kind = .mark .rightBrace →
      SpellsDeclaration false first (keyword :: name :: before :: (ts ++ [after]))
        (.declareClass name.toName none methods) next
  | derived {first next : NodeId} {keyword name less superName before after : Token}
      {ts : List Token} {methods : List FunctionDecl} :
      keyword.kind = .keyword .classWord → name.kind = .identifier → less.kind = .mark .less →
      superName.kind = .identifier → before.kind = .mark .leftBrace →
      SpellsMethods (first + 1) ts methods next → after.kind = .mark .rightBrace →
      SpellsDeclaration false first (keyword :: name :: less :: superName :: before :: (ts ++ [after]))
        (.declareClass name.toName (some ⟨first, superName.toName⟩) methods) next
  | statement {isOpen : Bool} {first next : NodeId} {ts : List Token} {s : Stmt} :
      SpellsStmt isOpen first ts s next → SpellsDeclaration isOpen first ts s next

/-- The tokens spell declarations one after the other. -/
inductive SpellsBody : NodeId → List Token → List Stmt → NodeId → Prop
  | nil {first : NodeId} : SpellsBody first [] [] first
  | cons {isOpen : Bool} {first middle next : NodeId} {ts us : List Token} {s : Stmt}
      {rest : List Stmt} :
      SpellsDeclaration isOpen first ts s middle → SpellsBody middle us rest next →
      SpellsBody first (ts ++ us) (s :: rest) next

/-- The tokens spell a function: its name, its parameters and its body. -/
inductive SpellsFunction : NodeId → List Token → FunctionDecl → NodeId → Prop
  | intro {first next : NodeId} {name before after opening closing : Token} {ts us : List Token}
      {params : List Name} {body : List Stmt} :
      name.kind = .identifier → before.kind = .mark .leftParen → SpellsParameters ts params →
      after.kind = .mark .rightParen → opening.kind = .mark .leftBrace →
      SpellsBody first us body next → closing.kind = .mark .rightBrace →
      SpellsFunction first (name :: before :: (ts ++ after :: opening :: (us ++ [closing])))
        ⟨name.toName, params, body⟩ next

/-- The tokens spell functions one after the other. -/
inductive SpellsMethods : NodeId → List Token → List FunctionDecl → NodeId → Prop
  | nil {first : NodeId} : SpellsMethods first [] [] first
  | cons {first middle next : NodeId} {ts us : List Token} {f : FunctionDecl}
      {rest : List FunctionDecl} :
      SpellsFunction first ts f middle → SpellsMethods middle us rest next →
      SpellsMethods first (ts ++ us) (f :: rest) next

end

end LoxLang
