import LoxLang.Proofs.Prefix
import LoxLang.Proofs.Program

/-!
# Reading a prefix text

The parts that the prefix text of a program consists of, and how to get the program back from them. The word
in front tells what a group stands for, and for an operator how many parts there are: a minus with one operand
is a sign. The parts of an assignment are its target, as it is written where it is read, and its value.

What is got back has no identities and no lines. A string and a number with a point may look like anything; a
program without them, with identifiers for names, is got back from its prefix text.
-/

namespace LoxLang

/-! ## The parts of a program -/

/-- The prefix text of a literal as a part. -/
def Literal.prefixTree : Literal → PrefixTree
  | int value => .number value
  | value => .word value.prefixText

mutual

/-- The parts of an expression. -/
def Expr.prefixTree : Expr → PrefixTree
  | .literal value => value.prefixTree
  | .unary operator _ right => .group [.word operator.mark.text, right.prefixTree]
  | .binary left operator _ right =>
    .group [.word operator.mark.text, left.prefixTree, right.prefixTree]
  | .logical left operator right => .group [.word operator.keyword.text, left.prefixTree, right.prefixTree]
  | .grouping inner => .group [.word "group", inner.prefixTree]
  | .reference target => .word target.name.text
  | .assign target operator value => .group [.word operator.text, .word target.name.text, value.prefixTree]
  | .call callee style _ arguments =>
    .group (.word style.prefixText :: callee.prefixTree :: Expr.prefixTrees arguments)
  | .list _ elements => .group (.word "list" :: Expr.prefixTrees elements)
  | .get object name => .group [.word ".", object.prefixTree, .word name.text]
  | .set object name operator value =>
    .group [.word operator.text, .group [.word ".", object.prefixTree, .word name.text], value.prefixTree]
  | .setElement object arguments operator _ value =>
    .group [.word operator.text, .group (.word "index" :: object.prefixTree :: Expr.prefixTrees arguments),
      value.prefixTree]
  | .receiver _ => .word "this"
  | .inherited _ method => .group [.word "super", .word method.text]

def Expr.prefixTrees : List Expr → List PrefixTree
  | [] => []
  | e :: rest => e.prefixTree :: Expr.prefixTrees rest

end

def Expr.prefixTree? : Option Expr → List PrefixTree
  | some e => [e.prefixTree]
  | none => []

mutual

/-- The parts of a statement. -/
def Stmt.prefixTree : Stmt → PrefixTree
  | .expression value => .group [.word ";", value.prefixTree]
  | .declare name initializer => .group (.word "var" :: .word name.text :: Expr.prefixTree? initializer)
  | .block body => .group (.word "block" :: Stmt.prefixTrees body)
  | .branch condition thenBranch elseBranch =>
    .group (.word "if" :: condition.prefixTree :: thenBranch.prefixTree :: Stmt.prefixTree? elseBranch)
  | .loop condition body => .group [.word "while", condition.prefixTree, body.prefixTree]
  | .function declaration => .group (.word "fun" :: declaration.prefixParts)
  | .giveBack _ value => .group (.word "return" :: Expr.prefixTree? value)
  | .declareClass name (some superclass) methods =>
    .group (.word "class" :: .word name.text :: .word "<" :: .word superclass.name.text ::
      FunctionDecl.prefixTrees methods)
  | .declareClass name none methods =>
    .group (.word "class" :: .word name.text :: FunctionDecl.prefixTrees methods)

def Stmt.prefixTrees : List Stmt → List PrefixTree
  | [] => []
  | s :: rest => s.prefixTree :: Stmt.prefixTrees rest

def Stmt.prefixTree? : Option Stmt → List PrefixTree
  | some s => [s.prefixTree]
  | none => []

/-- The parts of a function behind the word in front. -/
def FunctionDecl.prefixParts : FunctionDecl → List PrefixTree
  | ⟨name, params, body⟩ =>
    .word name.text :: .group (params.map fun p => .word p.text) :: Stmt.prefixTrees body

def FunctionDecl.prefixTrees : List FunctionDecl → List PrefixTree
  | [] => []
  | f :: rest => .group (.word "fun" :: f.prefixParts) :: FunctionDecl.prefixTrees rest

end

/-! ## The text of the parts -/

section Text
open PrefixTree (text texts)

theorem Literal.text_prefixTree (value : Literal) : value.prefixTree.text = value.prefixText := by
  cases value <;> rfl

mutual

theorem Expr.text_prefixTree : (e : Expr) → e.prefixTree.text = e.prefixText
  | .literal value => value.text_prefixTree
  | .unary _ _ right => by simp [prefixTree, prefixText, text, texts, right.text_prefixTree]
  | .binary left _ _ right => by
    simp [prefixTree, prefixText, text, texts, left.text_prefixTree, right.text_prefixTree]
  | .logical left _ right => by
    simp [prefixTree, prefixText, text, texts, left.text_prefixTree, right.text_prefixTree, Keyword.text]
  | .grouping inner => by simp [prefixTree, prefixText, text, texts, inner.text_prefixTree]
  | .reference _ => rfl
  | .assign _ _ value => by simp [prefixTree, prefixText, text, texts, value.text_prefixTree]
  | .call callee _ _ arguments => by
    simp [prefixTree, prefixText, text, texts, callee.text_prefixTree, Expr.texts_prefixTrees arguments]
  | .list _ elements => by simp [prefixTree, prefixText, text, texts, Expr.texts_prefixTrees elements]
  | .get object _ => by simp [prefixTree, prefixText, text, texts, object.text_prefixTree]
  | .set object _ _ value => by
    simp [prefixTree, prefixText, text, texts, object.text_prefixTree, value.text_prefixTree]
  | .setElement object arguments _ _ value => by
    simp [prefixTree, prefixText, text, texts, object.text_prefixTree, value.text_prefixTree,
      Expr.texts_prefixTrees arguments]
  | .receiver _ => rfl
  | .inherited _ _ => rfl

theorem Expr.texts_prefixTrees : (es : List Expr) → texts (Expr.prefixTrees es) = Expr.prefixTexts es
  | [] => rfl
  | e :: rest => by
    rw [Expr.prefixTrees, texts, e.text_prefixTree, Expr.texts_prefixTrees rest, Expr.prefixTexts]

end

theorem Expr.texts_prefixTree? (o : Option Expr) : texts (Expr.prefixTree? o) = Expr.prefixText? o := by
  cases o with
  | none => rfl
  | some e => simp [Expr.prefixTree?, texts, e.text_prefixTree, Expr.prefixText?]

theorem texts_words (names : List Name) :
    texts (names.map fun n => PrefixTree.word n.text) = names.map Name.text := by
  induction names with
  | nil => rfl
  | cons n names ih => simp [texts, text, ih]

mutual

theorem Stmt.text_prefixTree : (s : Stmt) → s.prefixTree.text = s.prefixText
  | .expression value => by simp [Stmt.prefixTree, Stmt.prefixText, text, texts, value.text_prefixTree]
  | .declare _ initializer => by
    simp [Stmt.prefixTree, Stmt.prefixText, text, texts, Expr.texts_prefixTree? initializer]
  | .block body => by simp [Stmt.prefixTree, Stmt.prefixText, text, texts, Stmt.texts_prefixTrees body]
  | .branch condition thenBranch elseBranch => by
    simp [Stmt.prefixTree, Stmt.prefixText, text, texts, condition.text_prefixTree, thenBranch.text_prefixTree,
      Stmt.texts_prefixTree? elseBranch]
  | .loop condition body => by
    simp [Stmt.prefixTree, Stmt.prefixText, text, texts, condition.text_prefixTree, body.text_prefixTree]
  | .function declaration => by rw [Stmt.prefixTree, Stmt.prefixText, declaration.text_prefixParts]
  | .giveBack _ value => by simp [Stmt.prefixTree, Stmt.prefixText, text, texts, Expr.texts_prefixTree? value]
  | .declareClass _ (some _) methods => by
    simp [Stmt.prefixTree, Stmt.prefixText, text, texts, FunctionDecl.texts_prefixTrees methods]
  | .declareClass _ none methods => by
    simp [Stmt.prefixTree, Stmt.prefixText, text, texts, FunctionDecl.texts_prefixTrees methods]

theorem Stmt.texts_prefixTrees : (body : List Stmt) → texts (Stmt.prefixTrees body) = Stmt.prefixTexts body
  | [] => rfl
  | s :: rest => by
    rw [Stmt.prefixTrees, texts, s.text_prefixTree, Stmt.texts_prefixTrees rest, Stmt.prefixTexts]

theorem Stmt.texts_prefixTree? : (o : Option Stmt) → texts (Stmt.prefixTree? o) = Stmt.prefixText? o
  | none => rfl
  | some s => by rw [Stmt.prefixTree?, texts, s.text_prefixTree, texts, Stmt.prefixText?]

theorem FunctionDecl.text_prefixParts : (f : FunctionDecl) →
    text (.group (.word "fun" :: f.prefixParts)) = f.prefixText
  | ⟨_, params, body⟩ => by
    simp [FunctionDecl.prefixParts, FunctionDecl.prefixText, text, texts, texts_words, parenthesized,
      Stmt.texts_prefixTrees body]

theorem FunctionDecl.texts_prefixTrees : (methods : List FunctionDecl) →
    texts (FunctionDecl.prefixTrees methods) = FunctionDecl.prefixTexts methods
  | [] => rfl
  | f :: rest => by
    rw [FunctionDecl.prefixTrees, texts, f.text_prefixParts, FunctionDecl.texts_prefixTrees rest,
      FunctionDecl.prefixTexts]

end

end Text

/-! ## From the parts back to the program -/

/-- The mark with this spelling. -/
def Mark.ofSpelling? (text : List Char) : Option Mark := byLength.find? fun m => m.spelling == text

/-- The operator that a word in front of a group names. -/
def operatorKind? (head : String) : Option TokenKind :=
  match Mark.ofSpelling? head.toList with
  | some m => some (.mark m)
  | none => (Keyword.ofSpelling? head.toList).map .keyword

/-- An operator with one or two operands. -/
def operation? (kind : TokenKind) : List Expr → Option Expr
  | [right] => (UnaryOperator.ofToken? kind).map fun operator => .unary operator 0 right
  | [left, right] =>
    match AssignOperator.ofToken? kind, kind with
    | some operator, _ => left.assigned? operator right
    | none, .mark .starStar => some (.binary left .power 0 right)
    | none, _ => (Joiner.ofToken? kind).map fun found => found.2.join left 0 right
  | _ => none

/-- The expression that a word stands for. -/
def wordExpr (text : String) : Expr :=
  match Keyword.ofSpelling? text.toList with
  | some .trueWord => .literal (.bool true)
  | some .falseWord => .literal (.bool false)
  | some .nilWord => .literal .nil
  | some .thisWord => .receiver ⟨0, text, 0⟩
  | _ => .reference ⟨0, text, 0⟩

namespace PrefixTree

/-- A word as a name. -/
def name? : PrefixTree → Option Name
  | word text => some ⟨text, 0⟩
  | _ => none

mutual

/-- The expression with these parts. -/
def expr? : PrefixTree → Option Expr
  | number value => some (.literal (.int value))
  | word text => some (wordExpr text)
  | group (word head :: parts) =>
    match head, parts with
    | "group", [inner] => do return .grouping (← inner.expr?)
    | "list", elements => do return .list 0 (← exprs? elements)
    | "call", callee :: arguments => do return .call (← callee.expr?) .parens 0 (← exprs? arguments)
    | "index", callee :: arguments => do return .call (← callee.expr?) .brackets 0 (← exprs? arguments)
    | ".", [object, word name] => do return .get (← object.expr?) ⟨name, 0⟩
    | "super", [word method] => some (.inherited ⟨0, "super", 0⟩ ⟨method, 0⟩)
    | head, operands => do operation? (← operatorKind? head) (← exprs? operands)
  | group _ => none

def exprs? : List PrefixTree → Option (List Expr)
  | [] => some []
  | t :: rest => do return (← t.expr?) :: (← exprs? rest)

end

mutual

/-- The statement with these parts. -/
def stmt? : PrefixTree → Option Stmt
  | group (word head :: parts) =>
    match head, parts with
    | ";", [value] => do return .expression (← value.expr?)
    | "var", [word name] => some (.declare ⟨name, 0⟩ none)
    | "var", [word name, value] => do return .declare ⟨name, 0⟩ (some (← value.expr?))
    | "block", body => do return .block (← stmts? body)
    | "if", [condition, thenBranch] => do
      return .branch (← condition.expr?) (← thenBranch.stmt?) none
    | "if", [condition, thenBranch, elseBranch] => do
      return .branch (← condition.expr?) (← thenBranch.stmt?) (some (← elseBranch.stmt?))
    | "while", [condition, body] => do return .loop (← condition.expr?) (← body.stmt?)
    | "fun", declaration => do return .function (← function? declaration)
    | "return", [] => some (.giveBack ⟨"return", 0⟩ none)
    | "return", [value] => do return .giveBack ⟨"return", 0⟩ (some (← value.expr?))
    | "class", word name :: word "<" :: word superclass :: methods => do
      return .declareClass ⟨name, 0⟩ (some ⟨0, superclass, 0⟩) (← functions? methods)
    | "class", word name :: methods => do return .declareClass ⟨name, 0⟩ none (← functions? methods)
    | _, _ => none
  | _ => none

def stmts? : List PrefixTree → Option (List Stmt)
  | [] => some []
  | t :: rest => do return (← t.stmt?) :: (← stmts? rest)

/-- The function with these parts behind the word in front. -/
def function? : List PrefixTree → Option FunctionDecl
  | word name :: group params :: body => do return ⟨⟨name, 0⟩, ← params.mapM name?, ← stmts? body⟩
  | _ => none

def functions? : List PrefixTree → Option (List FunctionDecl)
  | [] => some []
  | group (word "fun" :: declaration) :: rest => do return (← function? declaration) :: (← functions? rest)
  | _ => none

end

/-! What each word in front asks for. -/

section Equations
variable {name superclass : String} {t value object callee condition thenBranch elseBranch : PrefixTree}
  {parts params : List PrefixTree}

@[simp] theorem exprs?_cons : exprs? (t :: parts) = do return (← t.expr?) :: (← exprs? parts) := rfl

@[simp] theorem stmts?_cons : stmts? (t :: parts) = do return (← t.stmt?) :: (← stmts? parts) := rfl

@[simp] theorem functions?_cons : functions? (group (word "fun" :: params) :: parts) =
    do return (← function? params) :: (← functions? parts) := rfl

theorem expr?_grouping : (group [word "group", t]).expr? = do return .grouping (← t.expr?) := rfl

theorem expr?_list : (group (word "list" :: parts)).expr? = do return .list 0 (← exprs? parts) := rfl

theorem expr?_call (style : CallStyle) : (group (word style.prefixText :: callee :: parts)).expr? =
    do return .call (← callee.expr?) style 0 (← exprs? parts) := by
  cases style <;> rfl

theorem expr?_get : (group [word ".", object, word name]).expr? =
    do return .get (← object.expr?) ⟨name, 0⟩ := rfl

theorem expr?_mark (m : Mark) (hm : m ≠ .dot) : (group (word m.text :: parts)).expr? =
    (exprs? parts).bind (operation? (.mark m)) := by
  cases m <;> first | rfl | exact absurd rfl hm

theorem expr?_logical (operator : LogicalOperator) : (group (word operator.keyword.text :: parts)).expr? =
    (exprs? parts).bind (operation? (.keyword operator.keyword)) := by
  cases operator <;> rfl

theorem stmt?_expression : (group [word ";", value]).stmt? = do return .expression (← value.expr?) := rfl

theorem stmt?_initialized : (group [word "var", word name, value]).stmt? =
    do return .declare ⟨name, 0⟩ (some (← value.expr?)) := rfl

theorem stmt?_block : (group (word "block" :: parts)).stmt? = do return .block (← stmts? parts) := rfl

theorem stmt?_branch : (group [word "if", condition, thenBranch]).stmt? =
    do return .branch (← condition.expr?) (← thenBranch.stmt?) none := rfl

theorem stmt?_branchElse : (group [word "if", condition, thenBranch, elseBranch]).stmt? =
    do return .branch (← condition.expr?) (← thenBranch.stmt?) (some (← elseBranch.stmt?)) := rfl

theorem stmt?_loop : (group [word "while", condition, t]).stmt? =
    do return .loop (← condition.expr?) (← t.stmt?) := rfl

theorem stmt?_function : (group (word "fun" :: parts)).stmt? = do return .function (← function? parts) := rfl

theorem stmt?_giveBack : (group [word "return", value]).stmt? =
    do return .giveBack ⟨"return", 0⟩ (some (← value.expr?)) := rfl

theorem stmt?_derived : (group (word "class" :: word name :: word "<" :: word superclass :: parts)).stmt? =
    do return .declareClass ⟨name, 0⟩ (some ⟨0, superclass, 0⟩) (← functions? parts) := rfl

/-- The parts of a method do not look like the mark in front of a superclass. -/
theorem stmt?_base (methods : List FunctionDecl) :
    (group (word "class" :: word name :: FunctionDecl.prefixTrees methods)).stmt? =
      do return .declareClass ⟨name, 0⟩ none (← functions? (FunctionDecl.prefixTrees methods)) := by
  cases methods <;> rfl

theorem function?_eq : function? (word name :: group params :: parts) =
    do return ⟨⟨name, 0⟩, ← params.mapM name?, ← stmts? parts⟩ := rfl

end Equations

end PrefixTree

end LoxLang
