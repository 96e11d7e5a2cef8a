import LoxLang.Token.Lexeme

/-!
# Static errors

What can be wrong with a program before it runs: its text, its grammar, or its use of names. Errors are
causes with a line; the wording of each stands in this module and nowhere else.

Grammar and scope errors also name a place, the token at which they were found. A lexical error has no
token and so no place.
-/

namespace LoxLang

/-- Whether a declaration is a function on its own or a method of a class. -/
inductive FunctionForm where
  | function
  | method
deriving DecidableEq, Repr

/-- The form in words. -/
def FunctionForm.text : FunctionForm → String
  | function => "function"
  | method => "method"

/-- What a name that the grammar asks for names. -/
inductive NameRole where
  | className
  | superclassName
  | functionName (form : FunctionForm)
  | parameterName
  | variableName
  | propertyName
  | superclassMethodName
deriving DecidableEq, Repr

/-- The missing name in words. -/
def NameRole.text : NameRole → String
  | className => "class name"
  | superclassName => "superclass name"
  | functionName form => form.text ++ " name"
  | parameterName => "parameter name"
  | variableName => "variable name"
  | propertyName => "property name after '.'"
  | superclassMethodName => "superclass method name"

/-- Where the grammar asks for a mark. -/
inductive MarkContext where
  | beforeClassBody
  | afterClassBody
  | afterFunctionName (form : FunctionForm)
  | afterParameters
  | beforeFunctionBody (form : FunctionForm)
  | afterDeclaration
  | afterFor
  | afterLoopCondition
  | afterForClauses
  | afterStatement
  | afterIf
  | afterIfCondition
  | afterWhile
  | afterWhileCondition
  | afterReturnValue
  | afterBlock
  | afterArguments
  | afterGrouping
  | afterSuper
deriving DecidableEq, Repr

/-- The context in words. -/
def MarkContext.text : MarkContext → String
  | beforeClassBody => "before class body"
  | afterClassBody => "after class body"
  | afterFunctionName form => "after " ++ form.text ++ " name"
  | afterParameters => "after parameters"
  | beforeFunctionBody form => "before " ++ form.text ++ " body"
  | afterDeclaration => "after variable declaration"
  | afterFor => "after 'for'"
  | afterLoopCondition => "after loop condition"
  | afterForClauses => "after for clauses"
  | afterStatement => "after expression"
  | afterIf => "after 'if'"
  | afterIfCondition => "after if condition"
  | afterWhile => "after 'while'"
  | afterWhileCondition => "after condition"
  | afterReturnValue => "after return value"
  | afterBlock => "after block"
  | afterArguments => "after arguments"
  | afterGrouping => "after expression"
  | afterSuper => "after 'super'"

/-- A departure from the grammar. -/
inductive GrammarFault where
  | missingName (role : NameRole)
  | missingMark (mark : Mark) (context : MarkContext)
  | missingExpression
  | invalidTarget
  | tooManyParameters (limit : Nat)
  | tooManyArguments (limit : Nat)
deriving DecidableEq, Repr

/-- The fault in words. -/
def GrammarFault.message : GrammarFault → String
  | missingName role => "Expect " ++ role.text ++ "."
  | missingMark mark context => "Expect '" ++ mark.text ++ "' " ++ context.text ++ "."
  | missingExpression => "Expect expression."
  | invalidTarget => "Invalid assignment target."
  | tooManyParameters limit => "Can't have more than " ++ toString limit ++ " parameters."
  | tooManyArguments limit =>
    "Can't have more than " ++ toString limit ++ (if limit = 1 then " argument." else " arguments.")

/-- A misuse of names or of words that need a surrounding declaration. -/
inductive ScopeFault where
  | ownInitializer
  | redeclared
  | returnOutsideFunction
  | valueFromInitializer
  | receiverOutsideClass
  | inheritedOutsideClass
  | inheritedWithoutSuperclass
  | inheritsFromItself
deriving DecidableEq, Repr

/-- The fault in words. -/
def ScopeFault.message : ScopeFault → String
  | ownInitializer => "Can't read local variable in its own initializer."
  | redeclared => "Already a variable with this name in this scope."
  | returnOutsideFunction => "Can't return from top-level code."
  | valueFromInitializer => "Can't return a value from an initializer."
  | receiverOutsideClass => "Can't use 'this' outside of a class."
  | inheritedOutsideClass => "Can't use 'super' outside of a class."
  | inheritedWithoutSuperclass => "Can't use 'super' in a class with no superclass."
  | inheritsFromItself => "A class can't inherit from itself."

/-- Where an error was found: at a token, or behind the last one. -/
inductive Place where
  | lexeme (text : String)
  | endOfText
deriving DecidableEq, Repr

/-- The place as it stands in an error text. -/
def Place.text : Place → String
  | lexeme text => " at '" ++ text ++ "'"
  | endOfText => " at end"

/-- The place of a token. -/
def Token.place (t : Token) : Place :=
  match t.kind with
  | .eof => .endOfText
  | _ => .lexeme t.lexeme

/-- The stage that finds an error. -/
inductive Phase where
  | lexical
  | grammar
  | scope
  | runtime
deriving DecidableEq, Repr

/-- An error found before the program runs. -/
inductive StaticError where
  | lexical (line : Nat) (fault : LexicalFault)
  | grammar (line : Nat) (place : Place) (fault : GrammarFault)
  | scope (line : Nat) (name : String) (fault : ScopeFault)
deriving DecidableEq, Repr

namespace StaticError

/-- The stage that finds the error. -/
def phase : StaticError → Phase
  | lexical .. => .lexical
  | grammar .. => .grammar
  | scope .. => .scope

/-- The line of the error. -/
def line : StaticError → Nat
  | lexical line _ => line
  | grammar line _ _ => line
  | scope line _ _ => line

/-- The cause in words. -/
def message : StaticError → String
  | lexical _ fault => fault.message
  | grammar _ _ fault => fault.message
  | scope _ _ fault => fault.message

/-- The place as it stands in the text of the error. -/
def placeText : StaticError → String
  | lexical .. => ""
  | grammar _ place _ => place.text
  | scope _ name _ => (Place.lexeme name).text

/-- The whole error text. -/
def text (e : StaticError) : String :=
  "[line " ++ toString e.line ++ "] Error" ++ e.placeText ++ ": " ++ e.message

end StaticError

end LoxLang
