import LoxLang.Proofs.Scoping.Session

/-!
# The writes of a run

A scope gives a value to a name in two ways. A definition binds the name: at a declaration in the current
scope, and for the parameters of a call, `this` and `super` in the new scope that is opened for them. An
assignment changes the value of a name where it is bound, and so does the end of a class statement, whose name
is bound to `nil` at first.

The writes of a run are its notes, in order, also where it ends in an error or out of fuel.
-/

namespace LoxLang

/-- How a scope comes to give a value to a name. -/
inductive WriteKind where
  | definition
  | assignment
deriving DecidableEq

/-- A scope gives a value to a name. -/
structure Write where
  kind : WriteKind
  scope : ScopeId
  name : String
  value : Value

/-- The values that scopes give to names. -/
abbrev Bindings : Type := ScopeId → String → Option Value

namespace Write

/-- The bindings behind a write. -/
def apply (w : Write) (bindings : Bindings) : Bindings := fun scope name =>
  if w.scope = scope ∧ w.name = name then some w.value else bindings scope name

/-- The write defines this name in this scope. -/
def defines (scope : ScopeId) (name : String) (w : Write) : Bool :=
  decide (w.kind = .definition ∧ w.scope = scope ∧ w.name = name)

end Write

/-- The bindings behind writes, made one after the other. -/
def replay (writes : List Write) (bindings : Bindings) : Bindings :=
  writes.foldl (fun bindings w => w.apply bindings) bindings

/-! ## The notes of writes -/

/-- A value is given to a name in the scope that the name belongs to, if there is one. -/
def Write.assigning (holder : Option ScopeId) (name : String) (value : Value) : List Write :=
  match holder with
  | some scope => [⟨.assignment, scope, name, value⟩]
  | none => []

/-- The notes of all writes. -/
def writeNotes : Notes Write where
  opened opening m := opening.entries.map fun entry => ⟨.definition, m.store.scopes.size, entry.1, entry.2⟩
  defined name value m := [⟨.definition, m.current, name, value⟩]
  assigned depth name value m := Write.assigning (m.holder? depth name.text) name.text value
  concluded name value m := Write.assigning (m.store.binder? m.current name.text) name.text value

namespace Session

/-- The writes of a program that is run in a session; a program with errors is not run. -/
def writesWith (fuel : Nat) (session : Session) (source : String) : List Write :=
  match checkProgram source session.nextId with
  | (.error _, _) => []
  | (.ok program, _) =>
    let resolution := resolve program
    if !resolution.errors.isEmpty then []
    else ((writeNotes.evaluator fuel).runProgram program (session.machine.noteAll resolution.notes)).2

/-- The writes of programs, each run with an amount of fuel of its own. -/
def writes (session : Session) : List (Nat × String) → List Write
  | [] => []
  | (fuel, source) :: rest =>
    session.writesWith fuel source ++ (session.runWith fuel source).2.writes rest

end Session

end LoxLang
