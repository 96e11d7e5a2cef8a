import LoxLang.Evaluate
import LoxLang.Resolution
import LoxLang.Token.Scan
import LoxLang.Tree.Parse

/-!
# Sessions

A session runs programs one after the other on one machine, so that a program sees the global names of
those before it. Scanning, parsing and resolution each find all of their errors; a stage with errors
keeps the program from running. A running program stops at its first error.

References keep their identities apart over a whole session: every program is numbered from the first
identity that the programs before it did not use, also those that were not run.
-/

namespace LoxLang

/-- An error of any stage. -/
inductive Diagnostic where
  | static (error : StaticError)
  | runtime (error : RuntimeError)
deriving DecidableEq, Repr

namespace Diagnostic

/-- The stage that finds the error. -/
def phase : Diagnostic → Phase
  | static e => e.phase
  | runtime _ => .runtime

/-- The cause in words. -/
def message : Diagnostic → String
  | static e => e.message
  | runtime e => e.fault.message

/-- The whole error text. -/
def text : Diagnostic → String
  | static e => e.text
  | runtime e => e.text

end Diagnostic

/-- How the run of a program ends. -/
inductive Ending where
  | completed
  /-- The program did not run. -/
  | rejected (errors : List StaticError)
  | stopped (error : RuntimeError)
  | outOfFuel
deriving DecidableEq, Repr

/-- The errors of a run, in the order in which they were found. -/
def Ending.diagnostics : Ending → List Diagnostic
  | completed => []
  | rejected errors => errors.map .static
  | stopped error => [.runtime error]
  | outOfFuel => []

/-- What a run shows: how it ended, and what it printed. -/
structure Report where
  ending : Ending
  output : String := ""
deriving DecidableEq, Repr

/-- The state between two programs. -/
structure Session where
  machine : Machine
  nextId : NodeId := 0

/-- Runs top-level statements up to the first error. -/
def runProgram (fuel : Nat) : List Stmt → Effect Unit
  | [] => pure ()
  | s :: rest => do
    let _ ← execute fuel s
    runProgram fuel rest

/-- The errors that keep a program from running, or the program itself; and the first identity that it
leaves free. -/
def checkProgram (source : String) (firstId : NodeId) : Except (List StaticError) (List Stmt) × NodeId :=
  match lexicalErrors source with
  | [] =>
    let parsing := parse (tokens source) firstId
    (parsing.result, parsing.nextId)
  | errors => (.error errors, firstId)

namespace Session

/-- A session before its first program. -/
def start (console : Console) (clock : Clock) : Session := { machine := Machine.start console clock }

/-- Runs a program with an amount of fuel. -/
def runWith (fuel : Nat) (session : Session) (source : String) : Report × Session :=
  match checkProgram source session.nextId with
  | (.error errors, nextId) => (⟨.rejected errors, ""⟩, { session with nextId })
  | (.ok program, nextId) =>
    let resolution := resolve program
    let machine := session.machine.noteAll resolution.notes
    if !resolution.errors.isEmpty then
      (⟨.rejected resolution.errors.reverse, ""⟩, { machine, nextId })
    else
      let outcome := runProgram fuel program machine
      let (output, machine) := outcome.machine.takeOutput
      let ending :=
        match outcome with
        | .done _ _ => .completed
        | .failed error _ => .stopped error
        | .outOfFuel _ => .outOfFuel
      (⟨ending, output⟩, { machine, nextId })

/-- More fuel than any run can use up. -/
def ampleFuel : Nat := 2 ^ 62

/-- Runs a program. -/
def run (session : Session) (source : String) : Report × Session :=
  session.runWith ampleFuel source

/-- Runs programs one after the other. -/
def runAll (session : Session) : List String → List Report × Session
  | [] => ([], session)
  | source :: rest =>
    let (report, session) := session.run source
    let (reports, session) := session.runAll rest
    (report :: reports, session)

end Session

end LoxLang
