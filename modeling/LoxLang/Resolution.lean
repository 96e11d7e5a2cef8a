import LoxLang.Diagnostic
import LoxLang.Machine

/-!
# Resolution

Before a program runs, every reference to a local name is given its depth: the number of scopes between
the place of use and the scope that declares the name. References without a depth are global. The walk
also finds every breach of the rules on names, `return`, `this` and `super`; a breach does not stop it.

Frames stand for the scopes that will be there at run time, the innermost first: one for each block, one
for the parameters and body of a function, and for a class one that holds `this` inside one that holds
`super`. The outermost scope has no frame.
-/

namespace LoxLang

/-- The names that a scope declares so far, with whether each is ready to be read. -/
abbrev Frame := Table Bool

/-- What kind of function surrounds a place. -/
inductive FunctionSetting where
  | outside
  | function
  | method
  | initializer
deriving DecidableEq, Repr

/-- What kind of class surrounds a place. -/
inductive ClassSetting where
  | outside
  | base
  | derived
deriving DecidableEq, Repr

/-- The declarations around a place. -/
structure Setting where
  function : FunctionSetting := .outside
  class_ : ClassSetting := .outside
deriving DecidableEq, Repr

/-- A depth noted for a reference. -/
structure Note where
  id : NodeId
  depth : Nat
deriving DecidableEq, Repr

/-- The state of the walk. -/
structure Resolution where
  /-- The frames around the place that was reached, innermost first. -/
  frames : List Frame := []
  /-- The depths, the last one first. -/
  notes : List Note := []
  /-- The errors, the last one first. -/
  errors : List StaticError := []
deriving Repr

/-- The depth of a name in frames. -/
def depthIn? (name : String) (frames : List Frame) : Option Nat :=
  frames.findIdx? fun frame => frame.has name

namespace Resolution

/-- Finds a breach at a name. -/
def report (name : Name) (fault : ScopeFault) (r : Resolution) : Resolution :=
  { r with errors := .scope name.line name.text fault :: r.errors }

/-- Puts a frame with these names around what follows. -/
def enter (names : List String) (r : Resolution) : Resolution :=
  { r with frames := names.map (fun name => (name, true)) :: r.frames }

/-- Takes the innermost frame away. -/
def leave (r : Resolution) : Resolution := { r with frames := r.frames.tail }

/-- Declares a name in the innermost frame, not yet ready to be read. -/
def declare (name : Name) (r : Resolution) : Resolution :=
  match r.frames with
  | [] => r
  | frame :: outer =>
    let declared := { r with frames := frame.put name.text false :: outer }
    if frame.has name.text then declared.report name .redeclared else declared

/-- Makes a name of the innermost frame ready to be read. -/
def define (name : Name) (r : Resolution) : Resolution :=
  match r.frames with
  | [] => r
  | frame :: outer => { r with frames := frame.put name.text true :: outer }

/-- Notes the depth of a name for a reference, if a frame declares the name. -/
def bind (id : NodeId) (name : String) (r : Resolution) : Resolution :=
  match depthIn? name r.frames with
  | some depth => { r with notes := ⟨id, depth⟩ :: r.notes }
  | none => r

/-- Whether the innermost frame declares a name that is not ready. -/
def isUnready (name : String) (r : Resolution) : Bool :=
  match r.frames with
  | [] => false
  | frame :: _ => frame.get? name == some false

/-- Resolves a name that is read. -/
def reference (target : Reference) (r : Resolution) : Resolution :=
  let r := if r.isUnready target.name.text then r.report target.name .ownInitializer else r
  r.bind target.id target.name.text

/-- Resolves `this`. -/
def receiver (setting : Setting) (target : Reference) (r : Resolution) : Resolution :=
  match setting.class_ with
  | .outside => r.report target.name .receiverOutsideClass
  | _ => r.bind target.id "this"

/-- Resolves `super`. -/
def inherited (setting : Setting) (target : Reference) (r : Resolution) : Resolution :=
  match setting.class_ with
  | .outside => r.report target.name .inheritedOutsideClass
  | .base => r.report target.name .inheritedWithoutSuperclass
  | .derived => r.bind target.id "super"

mutual

/-- Resolves an expression. The value of an assignment comes before its target. -/
def expr (setting : Setting) : Expr → Resolution → Resolution
  | .literal _, r => r
  | .grouping inner, r => expr setting inner r
  | .unary _ _ right, r => expr setting right r
  | .binary left _ _ right, r => expr setting right (expr setting left r)
  | .logical left _ right, r => expr setting right (expr setting left r)
  | .reference target, r => r.reference target
  | .assign target _ value, r => (expr setting value r).bind target.id target.name.text
  | .call callee _ _ arguments, r => exprs setting arguments (expr setting callee r)
  | .list _ elements, r => exprs setting elements r
  | .get object _, r => expr setting object r
  | .set object _ _ value, r => expr setting object (expr setting value r)
  | .setElement object arguments _ _ value, r =>
    exprs setting arguments (expr setting object (expr setting value r))
  | .receiver target, r => r.receiver setting target
  | .inherited target _, r => r.inherited setting target

/-- Resolves expressions in order. -/
def exprs (setting : Setting) : List Expr → Resolution → Resolution
  | [], r => r
  | e :: rest, r => exprs setting rest (expr setting e r)

end

/-- Resolves an expression that may be missing. -/
def expr? (setting : Setting) : Option Expr → Resolution → Resolution
  | some e, r => expr setting e r
  | none, r => r

/-- Declares parameters, each ready at once. -/
def parameters (params : List Name) (r : Resolution) : Resolution :=
  params.foldl (fun r name => (r.declare name).define name) r

/-- Checks a return statement against the function around it. -/
def checkReturn (setting : Setting) (keyword : Name) (hasValue : Bool) (r : Resolution) : Resolution :=
  match setting.function with
  | .outside => r.report keyword .returnOutsideFunction
  | .initializer => if hasValue then r.report keyword .valueFromInitializer else r
  | _ => r

/-- Resolves the name of a superclass, which may not be that of the class, and puts the frame of `super`
around the methods. -/
def superclass (name : Name) : Option Reference → Resolution → Resolution
  | none, r => r
  | some target, r =>
    let r := if target.name.text = name.text then r.report target.name .inheritsFromItself else r
    (r.reference target).enter ["super"]

/-- The setting of the methods of a class. -/
def classSetting (superclass : Option Reference) : ClassSetting :=
  if superclass.isSome then .derived else .base

/-- The setting of the body of a method. -/
def methodSetting (class_ : ClassSetting) (name : Name) : Setting :=
  { function := if name.text = initializerName then .initializer else .method, class_ }

mutual

/-- Resolves a statement. A variable is declared before its initializer and ready after it; functions
and classes are ready at once. -/
def stmt (setting : Setting) : Stmt → Resolution → Resolution
  | .expression value, r => expr setting value r
  | .declare name initializer, r => (expr? setting initializer (r.declare name)).define name
  | .block body, r => (stmts setting body (r.enter [])).leave
  | .branch condition thenBranch elseBranch, r =>
    stmt? setting elseBranch (stmt setting thenBranch (expr setting condition r))
  | .loop condition body, r => stmt setting body (expr setting condition r)
  | .function declaration, r =>
    functionBody { setting with function := .function } declaration
      ((r.declare declaration.name).define declaration.name)
  | .giveBack keyword value, r =>
    expr? setting value (r.checkReturn setting keyword value.isSome)
  | .declareClass name superclassName classMethods, r =>
    let r := superclass name superclassName ((r.declare name).define name)
    let r := methods (classSetting superclassName) classMethods (r.enter ["this"])
    if superclassName.isSome then r.leave.leave else r.leave

/-- Resolves a statement that may be missing. -/
def stmt? (setting : Setting) : Option Stmt → Resolution → Resolution
  | some s, r => stmt setting s r
  | none, r => r

/-- Resolves statements in order. -/
def stmts (setting : Setting) : List Stmt → Resolution → Resolution
  | [], r => r
  | s :: rest, r => stmts setting rest (stmt setting s r)

/-- Resolves the parameters and the body of a function in a frame of their own. -/
def functionBody (setting : Setting) : FunctionDecl → Resolution → Resolution
  | ⟨_, params, body⟩, r => (stmts setting body ((r.enter []).parameters params)).leave

/-- Resolves the methods of a class. -/
def methods (class_ : ClassSetting) : List FunctionDecl → Resolution → Resolution
  | [], r => r
  | declaration :: rest, r =>
    methods class_ rest
      (functionBody (methodSetting class_ declaration.name) declaration r)

end

end Resolution

/-- Resolves a program. -/
def resolve (program : List Stmt) : Resolution := Resolution.stmts {} program {}

/-- The machine with all depths noted, in the order in which they were found. -/
def Machine.noteAll (m : Machine) (notes : List Note) : Machine :=
  notes.foldr (fun note m => m.note note.id note.depth) m

end LoxLang
