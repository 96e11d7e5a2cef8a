import LoxLang.Tree

/-!
# Trees as JSON

Every form of expression and statement becomes an object with one field, named for the form, that holds
the parts in a fixed order. A form without parts is a string.
-/

namespace LoxLang

/-- An object with one field. -/
def Json.tagged (tag : String) (content : Json) : Json := .object [(tag, content)]

/-- A name with its line. -/
def Name.toJson (name : Name) : Json := .object [("name", .string name.text), ("line", .int name.line)]

/-- A literal with its kind. -/
def Literal.toJson : Literal → Json
  | int value => .tagged "Int" (.int value.toInt)
  | float value => .tagged "Float" (.float value)
  | string value => .tagged "Str" (.string value)
  | bool true => .string "True"
  | bool false => .string "False"
  | nil => .string "Nil"

/-- The name of a unary operator. -/
def UnaryOperator.label : UnaryOperator → String
  | negate => "Negate"
  | not => "Not"
  | bitNot => "BitNot"

/-- The name of a binary operator. -/
def BinaryOperator.label : BinaryOperator → String
  | add => "Add"
  | subtract => "Subtract"
  | multiply => "Multiply"
  | divide => "Divide"
  | modulo => "Modulo"
  | power => "Power"
  | equal => "Equal"
  | notEqual => "NotEqual"
  | less => "Less"
  | lessEqual => "LessEqual"
  | greater => "Greater"
  | greaterEqual => "GreaterEqual"
  | bitOr => "BitOr"
  | bitXor => "BitXor"
  | bitAnd => "BitAnd"
  | shiftLeft => "ShiftLeft"
  | shiftRight => "ShiftRight"

/-- The name of a logical operator. -/
def LogicalOperator.label : LogicalOperator → String
  | and => "And"
  | or => "Or"

/-- An assignment operator, with the operator it combines with. -/
def AssignOperator.toJson : AssignOperator → Json
  | plain => .string "Assign"
  | compound operator => .tagged "Compound" (.string operator.label)

/-- The name of a call style. -/
def CallStyle.label : CallStyle → String
  | parens => "Parens"
  | brackets => "Brackets"

/-- A use of a name as an expression. -/
def Reference.toJson (r : Reference) : Json :=
  .tagged "Variable" (.object [("id", .int r.id), ("name", r.name.toJson)])

mutual

/-- An expression as JSON. -/
def Expr.toJson : Expr → Json
  | .literal value => .tagged "Literal" value.toJson
  | .unary operator line right =>
    .tagged "Unary" (.object
      [("operator", .string operator.label), ("line", .int line), ("right", right.toJson)])
  | .binary left operator line right =>
    .tagged "Binary" (.object
      [("left", left.toJson), ("operator", .string operator.label), ("line", .int line),
       ("right", right.toJson)])
  | .logical left operator right =>
    .tagged "Logical" (.object
      [("left", left.toJson), ("operator", .string operator.label), ("right", right.toJson)])
  | .grouping inner => .tagged "Grouping" inner.toJson
  | .reference target => target.toJson
  | .assign target operator value =>
    .tagged "Assign" (.object
      [("id", .int target.id), ("name", target.name.toJson), ("operator", operator.toJson),
       ("value", value.toJson)])
  | .call callee style line arguments =>
    .tagged "Call" (.object
      [("callee", callee.toJson), ("style", .string style.label), ("line", .int line),
       ("arguments", .array (Expr.toJsons arguments))])
  | .list line elements =>
    .tagged "List" (.object [("line", .int line), ("elements", .array (Expr.toJsons elements))])
  | .get object name => .tagged "Get" (.object [("object", object.toJson), ("name", name.toJson)])
  | .set object name operator value =>
    .tagged "Set" (.object
      [("object", object.toJson), ("name", name.toJson), ("operator", operator.toJson),
       ("value", value.toJson)])
  | .setElement object arguments operator line value =>
    .tagged "IndexSet" (.object
      [("object", object.toJson), ("arguments", .array (Expr.toJsons arguments)),
       ("operator", operator.toJson), ("line", .int line), ("value", value.toJson)])
  | .receiver target =>
    .tagged "This" (.object [("id", .int target.id), ("keyword", target.name.toJson)])
  | .inherited target method =>
    .tagged "Super" (.object
      [("id", .int target.id), ("keyword", target.name.toJson), ("method", method.toJson)])

/-- Several expressions as JSON. -/
def Expr.toJsons : List Expr → List Json
  | [] => []
  | e :: rest => e.toJson :: Expr.toJsons rest

end

/-- An expression that may be missing. -/
def Expr.toJson? : Option Expr → Json
  | some e => e.toJson
  | none => .null

mutual

/-- A statement as JSON. -/
def Stmt.toJson : Stmt → Json
  | .expression value => .tagged "Expression" value.toJson
  | .declare name initializer =>
    .tagged "Var" (.object [("name", name.toJson), ("initializer", Expr.toJson? initializer)])
  | .block body => .tagged "Block" (.array (Stmt.toJsons body))
  | .branch condition thenBranch elseBranch =>
    .tagged "If" (.object
      [("condition", condition.toJson), ("then_branch", thenBranch.toJson),
       ("else_branch", Stmt.toJson? elseBranch)])
  | .loop condition body =>
    .tagged "While" (.object [("condition", condition.toJson), ("body", body.toJson)])
  | .function declaration => .tagged "Function" declaration.toJson
  | .giveBack keyword value =>
    .tagged "Return" (.object [("keyword", keyword.toJson), ("value", Expr.toJson? value)])
  | .declareClass name superclass methods =>
    .tagged "Class" (.object
      [("name", name.toJson), ("superclass", (superclass.map Reference.toJson).getD .null),
       ("methods", .array (FunctionDecl.toJsons methods))])

/-- Several statements as JSON. -/
def Stmt.toJsons : List Stmt → List Json
  | [] => []
  | s :: rest => s.toJson :: Stmt.toJsons rest

/-- A statement that may be missing. -/
def Stmt.toJson? : Option Stmt → Json
  | some s => s.toJson
  | none => .null

/-- A function as JSON. -/
def FunctionDecl.toJson : FunctionDecl → Json
  | ⟨name, params, body⟩ =>
    .object [("name", name.toJson), ("params", .array (params.map Name.toJson)),
      ("body", .array (Stmt.toJsons body))]

/-- Several functions as JSON. -/
def FunctionDecl.toJsons : List FunctionDecl → List Json
  | [] => []
  | f :: rest => f.toJson :: FunctionDecl.toJsons rest

end

end LoxLang
