import LoxLang.Builtin
import LoxLang.Store.Sequence
import LoxLang.Value.Arithmetic

/-!
# Running a tree

Expressions yield values, statements flows. Operands are evaluated from left to right, and each of them
once; an error ends everything up to the top-level statement.

The functions take fuel, which bounds how deep calls of these functions nest and how often a loop turns
round. A run that ends without using up its fuel ends in the same way with more of it.
-/

namespace LoxLang

open Effect

/-- How a statement ends. -/
inductive Flow where
  | normal
  /-- A value on its way to the nearest call. -/
  | returned (value : Value)

/-! ## Names -/

/-- The depth noted for a reference. -/
def depthOf (id : NodeId) : Effect (Option Nat) := read fun m => m.depths[id]?

/-- The scope that a name belongs to: the one at a depth, or that of the global name if there is no
depth. -/
def Machine.holder? (m : Machine) (depth : Option Nat) (name : String) : Option ScopeId :=
  match depth with
  | some depth => m.store.binderAt? m.current depth name
  | none => m.store.binder? m.globals name

/-- The scope that a name belongs to, which must be there. -/
def holderOf (depth : Option Nat) (name : Name) : Effect ScopeId := do
  let holder ← read fun m => m.holder? depth name.text
  ofOption name.line (.undefinedVariable name.text) holder

/-- The value of a name at a depth, or of a global name if there is no depth. -/
def readName (depth : Option Nat) (name : Name) : Effect Value := do
  let value ← read fun m =>
    (m.holder? depth name.text).bind fun holder => m.store.binding? holder name.text
  ofOption name.line (.undefinedVariable name.text) value

/-- Changes the value of a name at a depth, or of a global name if there is no depth. -/
def writeName (depth : Option Nat) (name : Name) (value : Value) : Effect Unit := do
  let holder ← holderOf depth name
  modifyStore fun s => s.define holder name.text value

/-- The value of a reference. -/
def readReference (target : Reference) : Effect Value := do
  let depth ← depthOf target.id
  readName depth target.name

/-- Binds a name in the current scope. -/
def defineHere (name : String) (value : Value) : Effect Unit := do
  let scope ← currentScope
  modifyStore fun s => s.define scope name value

/-- The value that an assignment stores: the new one, or the old one combined with it. -/
def combine (operator : AssignOperator) (line : Nat) (value : Value) (old : Effect Value) :
    Effect Value :=
  match operator with
  | .plain => pure value
  | .compound operator => do
    let old ← old
    ofExcept line (operator.apply old value)

/-! ## Properties -/

/-- A closure whose own scope binds `this` to an instance. -/
def bindReceiver (method : Closure) (receiver : Value) : Effect Closure := do
  let scope ← make fun s => s.newScope [("this", receiver)] (some method.scope)
  pure { method with scope }

/-- A function value for a closure. -/
def newFunction (closure : Closure) : Effect Value := do
  let id ← make Store.newIdentity
  pure (.function id closure)

/-- A method bound to an instance, as a value. -/
def boundMethod (method : Closure) (receiver : Value) : Effect Value := do
  let closure ← bindReceiver method receiver
  newFunction closure

/-- A field of an instance, or else a method bound to it. -/
def instanceProperty (id : InstanceId) (class_ : ClassObject) (name : Name) : Effect Value := do
  match ← read fun m => m.store.field? id name.text with
  | some value => pure value
  | none =>
    match class_.method? name.text with
    | some method => boundMethod method (.instanceOf id class_)
    | none => fail name.line (.undefinedProperty name.text)

/-- A property of a value. -/
def property (object : Value) (name : Name) : Effect Value :=
  match object with
  | .instanceOf id class_ => instanceProperty id class_ name
  | .list id =>
    match ListMethod.ofName? name.text with
    | some method => pure (.listMethod id method)
    | none => fail name.line (.undefinedProperty name.text)
  | _ => fail name.line .propertyOfNonInstance

/-- A method of the superclass, bound to the instance whose method runs. The scope of the instance lies
directly inside the one that names the superclass. -/
def inheritedMethod (target : Reference) (method : Name) : Effect Value := do
  let line := target.name.line
  let depth ← depthOf target.id
  let depth ← ofOption line (.undefinedVariable "super") depth
  let superclass ← readName (some depth) ⟨"super", line⟩
  let receiver ← readName (some (depth - 1)) ⟨"this", line⟩
  match superclass, receiver with
  | .classObject superclass, .instanceOf id class_ =>
    match superclass.method? method.text with
    | some found => boundMethod found (.instanceOf id class_)
    | none => fail method.line (.undefinedProperty method.text)
  | _, _ => fail line .inheritedNotBound

/-- The item of a list at an index. -/
def itemOf (list : ListId) (index : Value) (line : Nat) : Effect Value := do
  let item ← read fun m => m.store.itemAt list index
  ofExcept line item

/-! ## Classes -/

/-- The class that a class statement extends. -/
def superclassOf (line : Nat) : Option Reference → Effect (Option ClassObject)
  | none => pure none
  | some target => do
    match ← readReference target with
    | .classObject c => pure (some c)
    | _ => fail line .superclassNotClass

/-- The methods of a class by name; of two with one name the later one counts. -/
def methodTable (scope : ScopeId) (methods : List FunctionDecl) : Table Closure :=
  methods.foldl
    (fun table declaration =>
      table.put declaration.name.text
        ⟨declaration, scope, declaration.name.text == initializerName⟩) []

/-- The scope that methods close over: one that names the superclass, if there is one. -/
def methodScope : Option ClassObject → Effect ScopeId
  | none => currentScope
  | some superclass => do
    let current ← currentScope
    make fun s => s.newScope [("super", .classObject superclass)] (some current)

/-- The methods of a class, made in the scope that they close over; then the scope from before is current
again. -/
def methodsIn (scope : ScopeId) (methods : List FunctionDecl) : Effect (Table Closure) :=
  within scope (read fun m => methodTable m.current methods)

/-- Runs a class statement. The name is bound to `nil` until the class is there. -/
def defineClass (name : Name) (superclass : Option Reference) (methods : List FunctionDecl) :
    Effect Unit := do
  let superclass ← superclassOf name.line superclass
  defineHere name.text .nil
  let scope ← methodScope superclass
  let methods ← methodsIn scope methods
  let id ← make Store.newIdentity
  let value := Value.classObject ⟨id, name.text, superclass, methods⟩
  let holder ← read fun m => m.store.binder? m.current name.text
  let holder ← ofOption name.line (.undefinedVariable name.text) holder
  modifyStore fun s => s.define holder name.text value

/-! ## Expressions and statements -/

/-- The bindings of parameters to the arguments at their places. -/
def parameterTable (params : List Name) (arguments : List Value) : Table Value :=
  (params.zip arguments).foldl (fun table pair => table.put pair.1.text pair.2) []

mutual

/-- The value of an expression. -/
def evaluate : Nat → Expr → Effect Value
  | 0, _ => exhausted
  | fuel + 1, e =>
    match e with
    | .literal value => pure value.value
    | .grouping inner => evaluate fuel inner
    | .unary operator line right => do
      let right ← evaluate fuel right
      ofExcept line (operator.apply right)
    | .binary left operator line right => do
      let left ← evaluate fuel left
      let right ← evaluate fuel right
      ofExcept line (operator.apply left right)
    | .logical left operator right => do
      let left ← evaluate fuel left
      match operator, left.isTruthy with
      | .or, true => pure left
      | .and, false => pure left
      | _, _ => evaluate fuel right
    | .reference target => readReference target
    | .assign target operator value => do
      let value ← evaluate fuel value
      let depth ← depthOf target.id
      let value ← combine operator target.name.line value (readName depth target.name)
      writeName depth target.name value
      pure value
    | .call callee _ line arguments => do
      let callee ← evaluate fuel callee
      let arguments ← evaluateAll fuel arguments
      call fuel callee arguments line
    | .list _ elements => do
      let items ← evaluateAll fuel elements
      let id ← make fun s => s.newList items.toArray
      pure (.list id)
    | .get object name => do
      let object ← evaluate fuel object
      property object name
    | .set object name operator value => do
      match ← evaluate fuel object with
      | .instanceOf id class_ => do
        let value ← evaluate fuel value
        let value ← combine operator name.line value (instanceProperty id class_ name)
        modifyStore fun s => s.setField id name.text value
        pure value
      | .list _ => fail name.line .fieldOfBuiltin
      | _ => fail name.line .fieldOfNonInstance
    | .setElement object arguments operator line value => do
      match ← evaluate fuel object with
      | .list id => do
        match ← evaluateAll fuel arguments with
        | [index] => do
          let value ← evaluate fuel value
          let value ← combine operator line value (itemOf id index line)
          onStore line fun s => s.setItemAt id index value
          pure value
        | indices => fail line (.argumentCount 1 indices.length)
      | _ => fail line .elementOfNonList
    | .receiver target => readReference target
    | .inherited target method => inheritedMethod target method

/-- The values of expressions, from left to right. -/
def evaluateAll : Nat → List Expr → Effect (List Value)
  | 0, _ => exhausted
  | _ + 1, [] => pure []
  | fuel + 1, e :: rest => do
    let first ← evaluate fuel e
    let rest ← evaluateAll fuel rest
    pure (first :: rest)

/-- Calls a value with arguments. A list called with an index yields the item there. -/
def call : Nat → Value → List Value → Nat → Effect Value
  | 0, _, _, _ => exhausted
  | fuel + 1, callee, arguments, line =>
    match callee with
    | .function _ closure =>
      if arguments.length = closure.arity then callClosure fuel closure arguments
      else fail line (.argumentCount closure.arity arguments.length)
    | .builtin builtin =>
      if arguments.length = builtin.arity then builtin.call fuel arguments line
      else fail line (.argumentCount builtin.arity arguments.length)
    | .classObject c =>
      if arguments.length = c.arity then instantiate fuel c arguments
      else fail line (.argumentCount c.arity arguments.length)
    | .listMethod list method =>
      if arguments.length = method.arity then
        onStore line fun s => s.callListMethod list method arguments
      else fail line (.argumentCount method.arity arguments.length)
    | .list id =>
      match arguments with
      | [index] => itemOf id index line
      | _ => fail line (.argumentCount 1 arguments.length)
    | _ => fail line .notCallable

/-- Runs the body of a closure in a new scope. An initializer yields the instance it is bound to. -/
def callClosure : Nat → Closure → List Value → Effect Value
  | 0, _, _ => exhausted
  | fuel + 1, closure, arguments => do
    let declaration := closure.declaration
    let scope ← make fun s =>
      s.newScope (parameterTable declaration.params arguments) (some closure.scope)
    let flow ← within scope (executeAll fuel declaration.body)
    if closure.isInitializer then do
      let receiver ← read fun m => m.store.lookupAt? closure.scope 0 "this"
      ofOption declaration.name.line (.undefinedVariable "this") receiver
    else
      match flow with
      | .returned value => pure value
      | .normal => pure .nil

/-- A new instance of a class, after its initializer has run. -/
def instantiate : Nat → ClassObject → List Value → Effect Value
  | 0, _, _ => exhausted
  | fuel + 1, c, arguments => do
    let id ← make Store.newInstance
    let value := Value.instanceOf id c
    match c.method? initializerName with
    | some initializer => do
      let closure ← bindReceiver initializer value
      let _ ← callClosure fuel closure arguments
      pure value
    | none => pure value

/-- Runs a statement. -/
def execute : Nat → Stmt → Effect Flow
  | 0, _ => exhausted
  | fuel + 1, s =>
    match s with
    | .expression value => do
      let _ ← evaluate fuel value
      pure .normal
    | .declare name initializer => do
      let value ←
        match initializer with
        | some e => evaluate fuel e
        | none => pure .nil
      defineHere name.text value
      pure .normal
    | .block body => do
      let current ← currentScope
      let scope ← make fun s => s.newScope [] (some current)
      within scope (executeAll fuel body)
    | .branch condition thenBranch elseBranch => do
      let value ← evaluate fuel condition
      if value.isTruthy then execute fuel thenBranch
      else
        match elseBranch with
        | some elseBranch => execute fuel elseBranch
        | none => pure .normal
    | .loop condition body => executeLoop fuel condition body
    | .function declaration => do
      let current ← currentScope
      let value ← newFunction ⟨declaration, current, false⟩
      defineHere declaration.name.text value
      pure .normal
    | .giveBack _ value => do
      let value ←
        match value with
        | some e => evaluate fuel e
        | none => pure .nil
      pure (.returned value)
    | .declareClass name superclass methods => do
      defineClass name superclass methods
      pure .normal

/-- Runs statements up to the first one that returns. -/
def executeAll : Nat → List Stmt → Effect Flow
  | 0, _ => exhausted
  | _ + 1, [] => pure .normal
  | fuel + 1, s :: rest => do
    match ← execute fuel s with
    | .returned value => pure (.returned value)
    | .normal => executeAll fuel rest

/-- Runs a body as long as a condition holds. -/
def executeLoop : Nat → Expr → Stmt → Effect Flow
  | 0, _, _ => exhausted
  | fuel + 1, condition, body => do
    let value ← evaluate fuel condition
    if value.isTruthy then
      match ← execute fuel body with
      | .returned value => pure (.returned value)
      | .normal => executeLoop fuel condition body
    else pure .normal

end

end LoxLang
