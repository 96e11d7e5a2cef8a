import LoxLang.Tree

/-!
# Prefix texts

The text of a tree with every operator in front of its operands and parentheses around both. Literals
stand for themselves, a string without quotes. Lines and identities do not show.
-/

namespace LoxLang

/-- Parts between parentheses, with a blank between neighbours. -/
def parenthesized (parts : List String) : String := "(" ++ String.intercalate " " parts ++ ")"

/-- The prefix text of a literal. -/
def Literal.prefixText : Literal → String
  | int value => toString value.toInt
  | float value => Decimal.plain ".0" value
  | string value => value
  | bool value => if value then "true" else "false"
  | nil => "nil"

/-- The word in front of a call. -/
def CallStyle.prefixText : CallStyle → String
  | parens => "call"
  | brackets => "index"

/-- The text of an assignment operator. -/
def AssignOperator.text (operator : AssignOperator) : String := String.ofList operator.spelling

mutual

/-- The prefix text of an expression. -/
def Expr.prefixText : Expr → String
  | .literal value => value.prefixText
  | .unary operator _ right => parenthesized [operator.mark.text, right.prefixText]
  | .binary left operator _ right =>
    parenthesized [operator.mark.text, left.prefixText, right.prefixText]
  | .logical left operator right =>
    parenthesized [String.ofList operator.keyword.spelling, left.prefixText, right.prefixText]
  | .grouping inner => parenthesized ["group", inner.prefixText]
  | .reference target => target.name.text
  | .assign target operator value =>
    parenthesized [operator.text, target.name.text, value.prefixText]
  | .call callee style _ arguments =>
    parenthesized (style.prefixText :: callee.prefixText :: Expr.prefixTexts arguments)
  | .list _ elements => parenthesized ("list" :: Expr.prefixTexts elements)
  | .get object name => parenthesized [".", object.prefixText, name.text]
  | .set object name operator value =>
    parenthesized
      [operator.text, parenthesized [".", object.prefixText, name.text], value.prefixText]
  | .setElement object arguments operator _ value =>
    parenthesized
      [operator.text,
       parenthesized ("index" :: object.prefixText :: Expr.prefixTexts arguments),
       value.prefixText]
  | .receiver _ => "this"
  | .inherited _ method => parenthesized ["super", method.text]

/-- The prefix texts of several expressions. -/
def Expr.prefixTexts : List Expr → List String
  | [] => []
  | e :: rest => e.prefixText :: Expr.prefixTexts rest

end

/-- The prefix text of an expression that may be missing. -/
def Expr.prefixText? : Option Expr → List String
  | some e => [e.prefixText]
  | none => []

mutual

/-- The prefix text of a statement. -/
def Stmt.prefixText : Stmt → String
  | .expression value => parenthesized [";", value.prefixText]
  | .declare name initializer =>
    parenthesized (["var", name.text] ++ Expr.prefixText? initializer)
  | .block body => parenthesized ("block" :: Stmt.prefixTexts body)
  | .branch condition thenBranch elseBranch =>
    parenthesized
      (["if", condition.prefixText, thenBranch.prefixText] ++ Stmt.prefixText? elseBranch)
  | .loop condition body => parenthesized ["while", condition.prefixText, body.prefixText]
  | .function declaration => declaration.prefixText
  | .giveBack _ value => parenthesized ("return" :: Expr.prefixText? value)
  | .declareClass name superclass methods =>
    parenthesized
      (["class", name.text] ++ (superclass.map fun s => ["<", s.name.text]).getD [] ++
        FunctionDecl.prefixTexts methods)

/-- The prefix texts of several statements. -/
def Stmt.prefixTexts : List Stmt → List String
  | [] => []
  | s :: rest => s.prefixText :: Stmt.prefixTexts rest

/-- The prefix text of a statement that may be missing. -/
def Stmt.prefixText? : Option Stmt → List String
  | some s => [s.prefixText]
  | none => []

/-- The prefix text of a function. -/
def FunctionDecl.prefixText : FunctionDecl → String
  | ⟨name, params, body⟩ =>
    parenthesized
      (["fun", name.text, "(" ++ String.intercalate " " (params.map Name.text) ++ ")"] ++
        Stmt.prefixTexts body)

/-- The prefix texts of several functions. -/
def FunctionDecl.prefixTexts : List FunctionDecl → List String
  | [] => []
  | f :: rest => f.prefixText :: FunctionDecl.prefixTexts rest

end

end LoxLang
