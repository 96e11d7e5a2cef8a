import LoxLang.Proofs.Scoping.Session

/-!
# The tasks of a run

A function of the evaluator that is called has a task: an expression to evaluate, a statement to execute, a
value to call. It fulfils it by giving itself smaller tasks, and holds on meanwhile to the values that it has
already: the left operand while the right one is evaluated, the callee while the arguments are, the new instance
while its initializer runs.

The notes of a run list all its tasks, each with the machine in which it is begun and with the values that are held
around it. Together with its store these are all values that a running program has.
-/

namespace LoxLang

/-- The values on their way to the nearest call. -/
def Flow.values : Flow → List Value
  | .normal => []
  | .returned value => [value]

/-- The values that an outcome yields. -/
def Outcome.values {α : Type} : Outcome (List α) → List α
  | .done values _ => values
  | _ => []

namespace Task

/-- The values that the task is about. -/
def values : Task → List Value
  | .call callee arguments _ => callee :: arguments
  | .callClosure _ arguments => arguments
  | .instantiate c arguments => .classObject c :: arguments
  | _ => []

/-- Fulfils the task, and yields the values that come back from it. -/
def run (fuel : Nat) : Task → Effect (List Value)
  | .evaluate e => do
    let value ← LoxLang.evaluate fuel e
    pure [value]
  | .evaluateAll es => LoxLang.evaluateAll fuel es
  | .call callee arguments line => do
    let value ← LoxLang.call fuel callee arguments line
    pure [value]
  | .callClosure f arguments => do
    let value ← LoxLang.callClosure fuel f arguments
    pure [value]
  | .instantiate c arguments => do
    let value ← LoxLang.instantiate fuel c arguments
    pure [value]
  | .execute s => do
    let flow ← LoxLang.execute fuel s
    pure flow.values
  | .executeAll body => do
    let flow ← LoxLang.executeAll fuel body
    pure flow.values
  | .executeLoop condition body => do
    let flow ← LoxLang.executeLoop fuel condition body
    pure flow.values

end Task

/-- A moment of a run: a task is begun with so much fuel, while these values are held around it. -/
structure Visit where
  fuel : Nat
  task : Task
  held : List Value
  machine : Machine

namespace Visit

/-- How the task ends. -/
def ending (visit : Visit) : Outcome (List Value) := visit.task.run visit.fuel visit.machine

/-- More values are held on to around the task. -/
def hold (values : List Value) (visit : Visit) : Visit := { visit with held := visit.held ++ values }

end Visit

/-- The notes of all tasks. -/
def visitNotes : Notes Visit where
  begun fuel task m := [⟨fuel, task, [], m⟩]
  held values := List.map (.hold values)

/-- The tasks of a program. -/
def programVisits (fuel : Nat) (program : List Stmt) (m : Machine) : List Visit :=
  ((visitNotes.evaluator fuel).runProgram program m).2

namespace Session

/-- The tasks of a program that is run in a session; a program with errors is not run. -/
def visitsWith (fuel : Nat) (session : Session) (source : String) : List Visit :=
  match checkProgram source session.nextId with
  | (.error _, _) => []
  | (.ok program, _) =>
    let resolution := resolve program
    if !resolution.errors.isEmpty then []
    else programVisits fuel program (session.machine.noteAll resolution.notes)

/-- The tasks of programs, each run with an amount of fuel of its own. -/
def visits (session : Session) : List (Nat × String) → List Visit
  | [] => []
  | (fuel, source) :: rest =>
    session.visitsWith fuel source ++ (session.runWith fuel source).2.visits rest

end Session

end LoxLang
