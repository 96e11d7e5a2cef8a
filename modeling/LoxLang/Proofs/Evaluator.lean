import LoxLang.Proofs.Table
import LoxLang.Session

/-!
# The evaluator over its operations

The evaluator is written here once more, over any functions in place of those that it calls itself and over any
operations in place of its effects. With the effects themselves it is the evaluator. With operations that note
down what they do it is the evaluator with a record of the run, and with other functions behind its calls
it tells what a run depends on.
-/

namespace LoxLang

/-- What a function of the evaluator is called for. -/
inductive Task where
  | evaluate (e : Expr)
  | evaluateAll (es : List Expr)
  | call (callee : Value) (arguments : List Value) (line : Nat)
  | callClosure (f : Closure) (arguments : List Value)
  | instantiate (c : ClassObject) (arguments : List Value)
  | execute (s : Stmt)
  | executeAll (body : List Stmt)
  | executeLoop (condition : Expr) (body : Stmt)

/-- What a scope is opened for, with what it takes from there. -/
inductive Opening where
  | block (body : List Stmt) (around : ScopeId)
  | call (f : Closure) (arguments : List Value)
  | receiver (method : Closure) (receiver : Value)
  | superclass (name : Name) (superclass : Option Reference) (methods : List FunctionDecl)
      (found : ClassObject) (around : ScopeId)

/-- Parameters are bound to arguments only. -/
theorem parameterTable_values {params : List Name} {arguments : List Value} {name : String} {value : Value}
    (h : (parameterTable params arguments).get? name = some value) : value ∈ arguments := by
  rcases Table.of_get?_foldl_put h with ⟨pair, hp, -, rfl⟩ | h
  · exact (List.of_mem_zip hp).2
  · cases h

namespace Opening

/-- The bindings of the new scope. -/
def bindings : Opening → Table Value
  | block _ _ => []
  | call f arguments => parameterTable f.declaration.params arguments
  | receiver _ value => [("this", value)]
  | superclass _ _ _ found _ => [("super", .classObject found)]

/-- The same bindings from the first that is made to the last. -/
def entries : Opening → List (String × Value)
  | call f arguments => (f.declaration.params.zip arguments).map fun pair => (pair.1.text, pair.2)
  | opening => opening.bindings

theorem bindings_eq (opening : Opening) : opening.bindings =
    opening.entries.foldl (fun (table : Table Value) entry => table.put entry.1 entry.2) [] := by
  cases opening with
  | call f arguments =>
    unfold entries
    rw [List.foldl_map]
    rfl
  | _ => rfl

/-- The scope around the new one. -/
def around : Opening → ScopeId
  | block _ scope => scope
  | call f _ => f.scope
  | receiver method _ => method.scope
  | superclass _ _ _ _ scope => scope

end Opening

/-- What the evaluator does besides calling itself. -/
structure Operations (M : Type → Type) where
  /-- An effect of which no more is said here. -/
  effect {α : Type} : Effect α → M α
  within {α : Type} : ScopeId → M α → M α
  /-- These values are held on to meanwhile. -/
  holding {α : Type} : List Value → M α → M α
  /-- A task is begun, with so much fuel. -/
  entering {α : Type} : Nat → Task → M α → M α
  /-- The depth noted for the reference of a node. -/
  depthOf : Expr → NodeId → M (Option Nat)
  openScope : Opening → M ScopeId
  /-- Binds a name in the current scope. -/
  define : String → Value → M Unit
  /-- Changes the value of a name at a depth, or of a global name. -/
  assign : Option Nat → Name → Value → M Unit
  /-- Changes the value of a name where it is bound, seen from the current scope. -/
  conclude : Name → Value → M Unit

/-- The functions of an evaluator. -/
structure Evaluator (M : Type → Type) where
  evaluate : Expr → M Value
  evaluateAll : List Expr → M (List Value)
  call : Value → List Value → Nat → M Value
  callClosure : Closure → List Value → M Value
  instantiate : ClassObject → List Value → M Value
  execute : Stmt → M Flow
  executeAll : List Stmt → M Flow
  executeLoop : Expr → Stmt → M Flow

namespace Operations
variable {M : Type → Type} [Monad M] (O : Operations M)

/-! ## Names, properties and classes -/

/-- The value of a name that a node refers to. -/
def readReference (node : Expr) (target : Reference) : M Value := do
  let depth ← O.depthOf node target.id
  O.effect (readName depth target.name)

def combine (operator : AssignOperator) (line : Nat) (value : Value) (old : M Value) : M Value :=
  match operator with
  | .plain => pure value
  | .compound operator => do
    let old ← old
    O.effect (.ofExcept line (operator.apply old value))

/-- An assignment to a name, behind its value. -/
def assignName (node : Expr) (target : Reference) (operator : AssignOperator) (value : Value) : M Value := do
  let depth ← O.depthOf node target.id
  let value ← O.combine operator target.name.line value (O.effect (readName depth target.name))
  O.assign depth target.name value
  pure value

def bindReceiver (method : Closure) (receiver : Value) : M Closure := do
  let scope ← O.openScope (.receiver method receiver)
  pure { method with scope }

def boundMethod (method : Closure) (receiver : Value) : M Value := do
  let closure ← O.bindReceiver method receiver
  O.effect (newFunction closure)

def instanceProperty (id : InstanceId) (class_ : ClassObject) (name : Name) : M Value := do
  match ← O.effect (.read fun m => m.store.field? id name.text) with
  | some value => pure value
  | none =>
    match class_.method? name.text with
    | some method => O.boundMethod method (.instanceOf id class_)
    | none => O.effect (.fail name.line (.undefinedProperty name.text))

def property (object : Value) (name : Name) : M Value :=
  match object with
  | .instanceOf id class_ => O.instanceProperty id class_ name
  | .list id =>
    match ListMethod.ofName? name.text with
    | some method => pure (.listMethod id method)
    | none => O.effect (.fail name.line (.undefinedProperty name.text))
  | _ => O.effect (.fail name.line .propertyOfNonInstance)

/-- An assignment to a field, behind its value. -/
def assignField (id : InstanceId) (class_ : ClassObject) (name : Name) (operator : AssignOperator)
    (value : Value) : M Value := do
  let value ← O.combine operator name.line value (O.instanceProperty id class_ name)
  O.effect (.modifyStore fun s => s.setField id name.text value)
  pure value

/-- An assignment to an item of a list, behind its value. -/
def assignItem (list : ListId) (index : Value) (operator : AssignOperator) (line : Nat) (value : Value) :
    M Value := do
  let value ← O.combine operator line value (O.effect (itemOf list index line))
  O.effect (.onStore line fun s => s.setItemAt list index value)
  pure value

def newList (items : List Value) : M Value := do
  let id ← O.effect (.make fun s => s.newList items.toArray)
  pure (.list id)

def inheritedMethod (node : Expr) (target : Reference) (method : Name) : M Value := do
  let line := target.name.line
  let depth ← O.depthOf node target.id
  let depth ← O.effect (.ofOption line (.undefinedVariable "super") depth)
  let superclass ← O.effect (readName (some depth) ⟨"super", line⟩)
  let receiver ← O.effect (readName (some (depth - 1)) ⟨"this", line⟩)
  match superclass, receiver with
  | .classObject superclass, .instanceOf id class_ =>
    match superclass.method? method.text with
    | some found => O.boundMethod found (.instanceOf id class_)
    | none => O.effect (.fail method.line (.undefinedProperty method.text))
  | _, _ => O.effect (.fail line .inheritedNotBound)

def superclassOf (line : Nat) : Option Reference → M (Option ClassObject)
  | none => pure none
  | some target => do
    match ← O.readReference (.reference target) target with
    | .classObject c => pure (some c)
    | _ => O.effect (.fail line .superclassNotClass)

def methodScope (name : Name) (superclass : Option Reference) (methods : List FunctionDecl) :
    Option ClassObject → M ScopeId
  | none => O.effect .currentScope
  | some found => do
    let current ← O.effect .currentScope
    O.openScope (.superclass name superclass methods found current)

def defineClass (name : Name) (superclass : Option Reference) (methods : List FunctionDecl) : M Unit := do
  let found ← O.superclassOf name.line superclass
  O.define name.text .nil
  let scope ← O.methodScope name superclass methods found
  let table ← O.effect (methodsIn scope methods)
  let id ← O.effect (.make Store.newIdentity)
  O.conclude name (.classObject ⟨id, name.text, found, table⟩)

def defineFunction (declaration : FunctionDecl) : M Unit := do
  let current ← O.effect .currentScope
  let value ← O.effect (newFunction ⟨declaration, current, false⟩)
  O.define declaration.name.text value

/-! ## Scopes for bodies -/

/-- Runs the body of a block in a scope of its own. -/
def inBlock (body : List Stmt) (run : M Flow) : M Flow := do
  let current ← O.effect .currentScope
  let scope ← O.openScope (.block body current)
  O.within scope run

/-- What a call yields behind the body. -/
def resultOf (f : Closure) (flow : Flow) : M Value :=
  if f.isInitializer then
    O.effect do
      let receiver ← Effect.read fun m => m.store.lookupAt? f.scope 0 "this"
      Effect.ofOption f.declaration.name.line (.undefinedVariable "this") receiver
  else
    match flow with
    | .returned value => pure value
    | .normal => pure .nil

/-- Runs the body of a function in a scope of its own. -/
def inCall (f : Closure) (arguments : List Value) (run : M Flow) : M Value := do
  let scope ← O.openScope (.call f arguments)
  let flow ← O.within scope run
  O.resultOf f flow

/-! ## One round -/

section
variable (fuel : Nat) (E : Evaluator M)

def roundEvaluate : Expr → M Value
  | .literal value => pure value.value
  | .grouping inner => E.evaluate inner
  | .unary operator line right => do
    let right ← E.evaluate right
    O.effect (.ofExcept line (operator.apply right))
  | .binary left operator line right => do
    let left ← E.evaluate left
    let right ← O.holding [left] (E.evaluate right)
    O.effect (.ofExcept line (operator.apply left right))
  | .logical left operator right => do
    let left ← E.evaluate left
    match operator, left.isTruthy with
    | .or, true => pure left
    | .and, false => pure left
    | _, _ => E.evaluate right
  | .reference target => O.readReference (.reference target) target
  | .assign target operator value => do
    let result ← E.evaluate value
    O.assignName (.assign target operator value) target operator result
  | .call callee _ line arguments => do
    let callee ← E.evaluate callee
    let arguments ← O.holding [callee] (E.evaluateAll arguments)
    E.call callee arguments line
  | .list _ elements => do
    let items ← E.evaluateAll elements
    O.newList items
  | .get object name => do
    let object ← E.evaluate object
    O.property object name
  | .set object name operator value => do
    match ← E.evaluate object with
    | .instanceOf id class_ => do
      let value ← O.holding [.instanceOf id class_] (E.evaluate value)
      O.assignField id class_ name operator value
    | .list _ => O.effect (.fail name.line .fieldOfBuiltin)
    | _ => O.effect (.fail name.line .fieldOfNonInstance)
  | .setElement object arguments operator line value => do
    match ← E.evaluate object with
    | .list id => do
      match ← O.holding [.list id] (E.evaluateAll arguments) with
      | [index] => do
        let value ← O.holding [.list id, index] (E.evaluate value)
        O.assignItem id index operator line value
      | indices => O.effect (.fail line (.argumentCount 1 indices.length))
    | _ => O.effect (.fail line .elementOfNonList)
  | .receiver target => O.readReference (.receiver target) target
  | .inherited target method => O.inheritedMethod (.inherited target method) target method

def roundEvaluateAll : List Expr → M (List Value)
  | [] => pure []
  | e :: rest => do
    let first ← E.evaluate e
    let rest ← O.holding [first] (E.evaluateAll rest)
    pure (first :: rest)

def roundCall (callee : Value) (arguments : List Value) (line : Nat) : M Value :=
  match callee with
  | .function id f =>
    if arguments.length = f.arity then O.holding [.function id f] (E.callClosure f arguments)
    else O.effect (.fail line (.argumentCount f.arity arguments.length))
  | .builtin builtin =>
    if arguments.length = builtin.arity then O.effect (builtin.call fuel arguments line)
    else O.effect (.fail line (.argumentCount builtin.arity arguments.length))
  | .classObject c =>
    if arguments.length = c.arity then O.holding [.classObject c] (E.instantiate c arguments)
    else O.effect (.fail line (.argumentCount c.arity arguments.length))
  | .listMethod list method =>
    if arguments.length = method.arity then
      O.effect (.onStore line fun s => s.callListMethod list method arguments)
    else O.effect (.fail line (.argumentCount method.arity arguments.length))
  | .list id =>
    match arguments with
    | [index] => O.effect (itemOf id index line)
    | _ => O.effect (.fail line (.argumentCount 1 arguments.length))
  | _ => O.effect (.fail line .notCallable)

def roundInstantiate (c : ClassObject) (arguments : List Value) : M Value := do
  let id ← O.effect (.make Store.newInstance)
  match c.method? initializerName with
  | some initializer => do
    let f ← O.bindReceiver initializer (.instanceOf id c)
    let _ ← O.holding [.instanceOf id c] (E.callClosure f arguments)
    pure (.instanceOf id c)
  | none => pure (.instanceOf id c)

def roundExecute : Stmt → M Flow
  | .expression value => do
    let _ ← E.evaluate value
    pure .normal
  | .declare name none => do
    O.define name.text .nil
    pure .normal
  | .declare name (some e) => do
    let value ← E.evaluate e
    O.define name.text value
    pure .normal
  | .block body => O.inBlock body (E.executeAll body)
  | .branch condition thenBranch elseBranch => do
    let value ← E.evaluate condition
    if value.isTruthy then E.execute thenBranch
    else
      match elseBranch with
      | some elseBranch => E.execute elseBranch
      | none => pure .normal
  | .loop condition body => E.executeLoop condition body
  | .function declaration => do
    O.defineFunction declaration
    pure .normal
  | .giveBack _ none => pure (.returned .nil)
  | .giveBack _ (some e) => do
    let value ← E.evaluate e
    pure (.returned value)
  | .declareClass name superclass methods => do
    O.defineClass name superclass methods
    pure .normal

/-- A statement, and what is done behind it unless it returns. -/
def unlessReturned (run rest : M Flow) : M Flow := do
  match ← run with
  | .returned value => pure (.returned value)
  | .normal => rest

def roundExecuteAll : List Stmt → M Flow
  | [] => pure .normal
  | s :: rest => unlessReturned (E.execute s) (E.executeAll rest)

def roundExecuteLoop (condition : Expr) (body : Stmt) : M Flow := do
  let value ← E.evaluate condition
  if value.isTruthy then unlessReturned (E.execute body) (E.executeLoop condition body) else pure .normal

/-- What the evaluator does with these functions in place of its own; the fuel is for the functions of the
language. -/
def round : Evaluator M where
  evaluate := O.roundEvaluate E
  evaluateAll := O.roundEvaluateAll E
  call := O.roundCall fuel E
  callClosure f arguments := O.inCall f arguments (E.executeAll f.declaration.body)
  instantiate := O.roundInstantiate E
  execute := O.roundExecute E
  executeAll := roundExecuteAll E
  executeLoop := roundExecuteLoop E

/-- Functions that have their tasks begun, with so much fuel. -/
def entered : Evaluator M where
  evaluate e := O.entering fuel (.evaluate e) (E.evaluate e)
  evaluateAll es := O.entering fuel (.evaluateAll es) (E.evaluateAll es)
  call callee arguments line := O.entering fuel (.call callee arguments line) (E.call callee arguments line)
  callClosure f arguments := O.entering fuel (.callClosure f arguments) (E.callClosure f arguments)
  instantiate c arguments := O.entering fuel (.instantiate c arguments) (E.instantiate c arguments)
  execute s := O.entering fuel (.execute s) (E.execute s)
  executeAll body := O.entering fuel (.executeAll body) (E.executeAll body)
  executeLoop condition body := O.entering fuel (.executeLoop condition body) (E.executeLoop condition body)

end

/-- Functions without fuel. -/
def exhausted : Evaluator M where
  evaluate _ := O.effect .exhausted
  evaluateAll _ := O.effect .exhausted
  call _ _ _ := O.effect .exhausted
  callClosure _ _ := O.effect .exhausted
  instantiate _ _ := O.effect .exhausted
  execute _ := O.effect .exhausted
  executeAll _ := O.effect .exhausted
  executeLoop _ _ := O.effect .exhausted

/-- The evaluator over these operations. -/
def evaluator : Nat → Evaluator M
  | 0 => O.entered 0 O.exhausted
  | fuel + 1 => O.entered (fuel + 1) (O.round fuel (evaluator fuel))

/-- The operations on the machine alone. -/
def plain : Operations Effect where
  effect run := run
  within := .within
  holding _ run := run
  entering _ _ run := run
  depthOf _ id := LoxLang.depthOf id
  openScope opening := .make fun s => s.newScope opening.bindings (some opening.around)
  define := defineHere
  assign := writeName
  conclude name value := do
    let holder ← Effect.read fun m => m.store.binder? m.current name.text
    let holder ← Effect.ofOption name.line (.undefinedVariable name.text) holder
    Effect.modifyStore fun s => s.define holder name.text value

end Operations

namespace Evaluator

/-- Runs top-level statements. -/
def runProgram {M : Type → Type} [Monad M] (E : Evaluator M) : List Stmt → M Unit
  | [] => pure ()
  | s :: rest => do
    let _ ← E.execute s
    E.runProgram rest

/-- The functions of the evaluator. -/
def withFuel (fuel : Nat) : Evaluator Effect where
  evaluate := LoxLang.evaluate fuel
  evaluateAll := LoxLang.evaluateAll fuel
  call := LoxLang.call fuel
  callClosure := LoxLang.callClosure fuel
  instantiate := LoxLang.instantiate fuel
  execute := LoxLang.execute fuel
  executeAll := LoxLang.executeAll fuel
  executeLoop := LoxLang.executeLoop fuel

/-- One round over the evaluator is the evaluator with more fuel. -/
theorem withFuel_succ (fuel : Nat) : Operations.plain.round fuel (withFuel fuel) = withFuel (fuel + 1) := by
  have hexecute : Operations.plain.roundExecute (withFuel fuel) = LoxLang.execute (fuel + 1) := by
    funext s
    cases s with
    | declare name initializer => cases initializer <;> rfl
    | giveBack keyword value => cases value <;> rfl
    | _ => rfl
  have hevaluate : Operations.plain.roundEvaluate (withFuel fuel) = LoxLang.evaluate (fuel + 1) := by
    funext e
    cases e <;> rfl
  have hevaluateAll : Operations.plain.roundEvaluateAll (withFuel fuel) = LoxLang.evaluateAll (fuel + 1) := by
    funext es
    cases es <;> rfl
  have hexecuteAll : Operations.roundExecuteAll (withFuel fuel) = LoxLang.executeAll (fuel + 1) := by
    funext body
    cases body <;> rfl
  unfold Operations.round
  rw [hexecute, hevaluate, hevaluateAll, hexecuteAll]
  rfl

/-- The evaluator over the operations on the machine alone is the evaluator. -/
theorem evaluator_plain : ∀ fuel, Operations.plain.evaluator fuel = withFuel fuel
  | 0 => rfl
  | fuel + 1 => (congrArg (Operations.plain.round fuel) (evaluator_plain fuel)).trans (withFuel_succ fuel)

theorem runProgram_withFuel (fuel : Nat) (program : List Stmt) :
    (withFuel fuel).runProgram program = LoxLang.runProgram fuel program := by
  induction program with
  | nil => rfl
  | cons s rest ih =>
    unfold runProgram LoxLang.runProgram
    rw [ih]
    rfl

end Evaluator

end LoxLang
