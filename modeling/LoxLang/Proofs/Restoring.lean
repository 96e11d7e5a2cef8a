import LoxLang.Proofs.Effect
import LoxLang.Proofs.Scoping.Session

/-!
# The current scope comes back

Whatever is run, and however it ends, the current scope is the one that was current before, the globals are
the same, and no depth was noted. A session is therefore back in the globals behind every program, whether
the program ran to its end, was rejected, or stopped with an error deep inside of calls.

None of this depends on the program: it holds in every machine, also with a store and with depths that no
program leads to.
-/

namespace LoxLang

/-! ## Relations that the whole evaluator preserves -/

/-- With this much fuel, all functions of the evaluator preserve a relation. -/
structure PreservesAll (R : Machine → Machine → Prop) (fuel : Nat) : Prop where
  evaluate (e : Expr) : Preserves R (evaluate fuel e)
  evaluateAll (es : List Expr) : Preserves R (evaluateAll fuel es)
  call (callee : Value) (arguments : List Value) (line : Nat) :
    Preserves R (call fuel callee arguments line)
  callClosure (closure : Closure) (arguments : List Value) :
    Preserves R (callClosure fuel closure arguments)
  instantiate (c : ClassObject) (arguments : List Value) : Preserves R (instantiate fuel c arguments)
  execute (s : Stmt) : Preserves R (execute fuel s)
  executeAll (body : List Stmt) : Preserves R (executeAll fuel body)
  executeLoop (condition : Expr) (body : Stmt) : Preserves R (executeLoop fuel condition body)

section Step
variable {R : Machine → Machine → Prop} {fuel : Nat} (h : Stepwise R) (ih : PreservesAll R fuel)
include h ih

theorem preserves_evaluate (e : Expr) : Preserves R (evaluate (fuel + 1) e) := by
  cases e with
  | literal value => exact h.yield _
  | grouping inner => exact ih.evaluate inner
  | unary operator line right => exact h.bind (ih.evaluate right) fun _ => h.ofExcept line _
  | binary left operator line right =>
    exact h.bind (ih.evaluate left) fun _ => h.bind (ih.evaluate right) fun _ => h.ofExcept line _
  | logical left operator right =>
    apply h.bind (ih.evaluate left)
    intro value
    cases operator <;> cases value.isTruthy <;> first | exact h.yield _ | exact ih.evaluate right
  | reference target => exact h.readReference target
  | assign target operator value =>
    apply h.bind (ih.evaluate value)
    intro value
    apply h.bind (h.depthOf target.id)
    intro depth
    have hcombine : Preserves R
        (combine operator target.name.line value (readName depth target.name)) :=
      h.combine operator _ value (h.readName depth target.name)
    exact h.bind hcombine fun result => h.bind (h.writeName depth target.name result) fun _ => h.yield _
  | call callee style line arguments =>
    exact h.bind (ih.evaluate callee) fun f =>
      h.bind (ih.evaluateAll arguments) fun values => ih.call f values line
  | list line elements =>
    have hmake (items : List Value) : Preserves R (Effect.make fun s => s.newList items.toArray) :=
      h.make fun m => h.lists m _
    exact h.bind (ih.evaluateAll elements) fun items => h.bind (hmake items) fun _ => h.yield _
  | get object name => exact h.bind (ih.evaluate object) fun found => h.property found name
  | set object name operator value =>
    apply h.bind (ih.evaluate object)
    intro found
    cases found with
    | instanceOf id class_ =>
      apply h.bind (ih.evaluate value)
      intro value
      apply h.bind (h.combine operator name.line value (h.instanceProperty id class_ name))
      intro result
      have hset : Preserves R (Effect.modifyStore fun s => s.setField id name.text result) :=
        h.modifyStore fun m => h.setField m id name.text result
      exact h.bind hset fun _ => h.yield _
    | _ => exact h.fail _ _
  | setElement object arguments operator line value =>
    apply h.bind (ih.evaluate object)
    intro found
    cases found with
    | list id =>
      apply h.bind (ih.evaluateAll arguments)
      intro indices
      rcases indices with _ | ⟨index, _ | ⟨second, rest⟩⟩
      · exact h.fail _ _
      · apply h.bind (ih.evaluate value)
        intro value
        apply h.bind (h.combine operator line value (h.itemOf id index line))
        intro result
        have hset : Preserves R (Effect.onStore line fun s => s.setItemAt id index result) :=
          h.onLists line fun s => s.setItemAt_eq id index result
        exact h.bind hset fun _ => h.yield _
      · exact h.fail _ _
    | _ => exact h.fail _ _
  | receiver target => exact h.readReference target
  | inherited target method => exact h.inheritedMethod target method

theorem preserves_call (callee : Value) (arguments : List Value) (line : Nat) :
    Preserves R (call (fuel + 1) callee arguments line) := by
  cases callee with
  | function id closure =>
    unfold call
    dsimp only
    split
    · exact ih.callClosure closure arguments
    · exact h.fail _ _
  | builtin builtin =>
    unfold call
    dsimp only
    split
    · exact h.builtin builtin fuel arguments line
    · exact h.fail _ _
  | classObject c =>
    unfold call
    dsimp only
    split
    · exact ih.instantiate c arguments
    · exact h.fail _ _
  | listMethod list method =>
    unfold call
    dsimp only
    split
    · exact h.onLists line fun s => s.callListMethod_eq list method arguments
    · exact h.fail _ _
  | list id =>
    rcases arguments with _ | ⟨index, _ | ⟨second, rest⟩⟩
    · exact h.fail _ _
    · exact h.itemOf id index line
    · exact h.fail _ _
  | _ => exact h.fail _ _

theorem preserves_callClosure (closure : Closure) (arguments : List Value) :
    Preserves R (callClosure (fuel + 1) closure arguments) := by
  apply h.bind (h.openScope _ _)
  intro scope
  apply h.bind (h.inside scope (ih.executeAll closure.declaration.body))
  intro flow
  split
  · exact h.bind (h.read _) fun _ => h.ofOption _ _ _
  · cases flow with
    | returned value => exact h.yield value
    | normal => exact h.yield _

theorem preserves_instantiate (c : ClassObject) (arguments : List Value) :
    Preserves R (instantiate (fuel + 1) c arguments) := by
  apply h.bind (h.make h.newInstance)
  intro id
  dsimp only
  cases c.method? initializerName with
  | none => exact h.yield _
  | some initializer =>
    apply h.bind (h.bindReceiver initializer _)
    intro closure
    exact h.bind (ih.callClosure closure arguments) fun _ => h.yield _

theorem preserves_execute (s : Stmt) : Preserves R (execute (fuel + 1) s) := by
  cases s with
  | expression value => exact h.bind (ih.evaluate value) fun _ => h.yield _
  | declare name initializer =>
    have hdefine (value : Value) :
        Preserves R (do defineHere name.text value; pure Flow.normal) :=
      h.bind (h.defineHere name.text value) fun _ => h.yield _
    cases initializer with
    | some e => exact h.bind (ih.evaluate e) hdefine
    | none => exact h.bind (h.yield Value.nil) hdefine
  | block body =>
    exact h.bind (h.read _) fun current => h.bind (h.openScope [] (some current)) fun scope =>
      h.inside scope (ih.executeAll body)
  | branch condition thenBranch elseBranch =>
    apply h.bind (ih.evaluate condition)
    intro value
    split
    · exact ih.execute thenBranch
    · cases elseBranch with
      | some elseBranch => exact ih.execute elseBranch
      | none => exact h.yield _
  | loop condition body => exact ih.executeLoop condition body
  | function declaration =>
    exact h.bind (h.read _) fun current => h.bind (h.newFunction ⟨declaration, current, false⟩) fun value =>
      h.bind (h.defineHere declaration.name.text value) fun _ => h.yield _
  | giveBack keyword value =>
    cases value with
    | some e => exact h.bind (ih.evaluate e) fun value => h.yield (Flow.returned value)
    | none => exact h.bind (h.yield Value.nil) fun value => h.yield (Flow.returned value)
  | declareClass name superclass methods =>
    exact h.bind (h.defineClass name superclass methods) fun _ => h.yield _

theorem preserves_executeAll (body : List Stmt) : Preserves R (executeAll (fuel + 1) body) := by
  cases body with
  | nil => exact h.yield _
  | cons s rest =>
    apply h.bind (ih.execute s)
    intro flow
    cases flow with
    | returned value => exact h.yield _
    | normal => exact ih.executeAll rest

theorem preserves_executeLoop (condition : Expr) (body : Stmt) :
    Preserves R (executeLoop (fuel + 1) condition body) := by
  apply h.bind (ih.evaluate condition)
  intro value
  split
  · apply h.bind (ih.execute body)
    intro flow
    cases flow with
    | returned value => exact h.yield _
    | normal => exact ih.executeLoop condition body
  · exact h.yield _

end Step

/-- What holds of every single change holds of the whole evaluator, by induction on the fuel. -/
theorem Stepwise.preservesAll {R : Machine → Machine → Prop} (h : Stepwise R) (fuel : Nat) :
    PreservesAll R fuel := by
  induction fuel with
  | zero => constructor <;> intros <;> exact h.exhausted
  | succ fuel ih =>
    constructor
    case evaluate => exact preserves_evaluate h ih
    case evaluateAll =>
      intro es
      cases es with
      | nil => exact h.yield _
      | cons e rest => exact h.bind (ih.evaluate e) fun _ => h.bind (ih.evaluateAll rest) fun _ => h.yield _
    case call => exact preserves_call h ih
    case callClosure => exact preserves_callClosure h ih
    case instantiate => exact preserves_instantiate h ih
    case execute => exact preserves_execute h ih
    case executeAll => exact preserves_executeAll h ih
    case executeLoop => exact preserves_executeLoop h ih

theorem Stepwise.runProgram {R : Machine → Machine → Prop} (h : Stepwise R) (fuel : Nat)
    (program : List Stmt) : Preserves R (runProgram fuel program) := by
  induction program with
  | nil => exact h.yield ()
  | cons s rest ih => exact h.bind ((h.preservesAll fuel).execute s) fun _ => ih

/-! ## Coming back -/

/-- The machine has come back: the current scope, the globals and the depths are what they were. The scopes
that were there keep their numbers and what lies around them, so that the same number is the same scope. -/
structure Restored (m m' : Machine) : Prop where
  current : m'.current = m.current
  globals : m'.globals = m.globals
  depths : m'.depths = m.depths
  size : m.store.scopes.size ≤ m'.store.scopes.size
  enclosing : ∀ scope < m.store.scopes.size, m'.store.enclosing? scope = m.store.enclosing? scope

namespace Restored
variable {m m' m'' : Machine}

theorem refl (m : Machine) : Restored m m := ⟨rfl, rfl, rfl, Nat.le_refl _, fun _ _ => rfl⟩

theorem trans (h : Restored m m') (h' : Restored m' m'') : Restored m m'' where
  current := h'.current.trans h.current
  globals := h'.globals.trans h.globals
  depths := h'.depths.trans h.depths
  size := Nat.le_trans h.size h'.size
  enclosing scope hs :=
    (h'.enclosing scope (Nat.lt_of_lt_of_le hs h.size)).trans (h.enclosing scope hs)

/-- What leaves the scopes alone has nothing to bring back. -/
theorem of_scopes {store : Store} (h : store.scopes = m.store.scopes) : Restored m { m with store } := by
  refine ⟨rfl, rfl, rfl, Nat.le_of_eq (congrArg Array.size h.symm), ?_⟩
  intro scope _
  unfold Store.enclosing?
  rw [h]

end Restored

theorem restored_stepwise : Stepwise Restored where
  refl := .refl
  trans := .trans
  newScope m bindings around := by
    have hsize : m.store.scopes.size ≤ (m.store.newScope bindings around).2.scopes.size := by
      rw [Store.newScope_size]
      exact Nat.le_succ _
    refine ⟨rfl, rfl, rfl, hsize, ?_⟩
    intro scope hs
    rw [Store.newScope_enclosing, if_neg (Nat.ne_of_lt hs)]
  define m scope name value := by
    have hsize : m.store.scopes.size ≤ (m.store.define scope name value).scopes.size :=
      Nat.le_of_eq (Store.define_size ..).symm
    exact ⟨rfl, rfl, rfl, hsize, fun other _ => Store.define_enclosing ..⟩
  lists _ _ := .of_scopes rfl
  newInstance _ := .of_scopes rfl
  setField _ _ _ _ := .of_scopes rfl
  newIdentity _ := .of_scopes rfl
  console m _ := { Restored.refl m with }
  clock m := { Restored.refl m with }
  within h := { h with current := rfl }

/-- Runs statements in a new scope, as a block does and a call. -/
def executeBlock (fuel : Nat) (body : List Stmt) (bindings : Table Value) (around : Option ScopeId) :
    Effect Flow := do
  let scope ← Effect.make fun s => s.newScope bindings around
  Effect.within scope (executeAll fuel body)

theorem execute_block (fuel : Nat) (body : List Stmt) : execute (fuel + 1) (.block body) =
    (Effect.currentScope >>= fun current => executeBlock fuel body [] (some current)) := rfl

theorem callClosure_block (fuel : Nat) (closure : Closure) (arguments : List Value) :
    callClosure (fuel + 1) closure arguments = (do
      let declaration := closure.declaration
      let flow ← executeBlock fuel declaration.body (parameterTable declaration.params arguments)
        (some closure.scope)
      if closure.isInitializer then do
        let receiver ← Effect.read fun m => m.store.lookupAt? closure.scope 0 "this"
        Effect.ofOption declaration.name.line (.undefinedVariable "this") receiver
      else
        match flow with
        | .returned value => pure value
        | .normal => pure .nil) := rfl

/-! ## Between programs -/

theorem noteAll_scopes (m : Machine) (notes : List Note) :
    (m.noteAll notes).current = m.current ∧ (m.noteAll notes).globals = m.globals := by
  unfold Machine.noteAll
  induction notes with
  | nil => exact ⟨rfl, rfl⟩
  | cons note rest ih => exact ih

/-- Every program leaves the session in the scope in which it found it. -/
theorem runWith_scopes (session : Session) (fuel : Nat) (source : String) :
    (session.runWith fuel source).2.machine.current = session.machine.current ∧
      (session.runWith fuel source).2.machine.globals = session.machine.globals := by
  unfold Session.runWith
  rcases checkProgram source session.nextId with ⟨errors | program, nextId⟩
  · exact ⟨rfl, rfl⟩
  · have hnotes := noteAll_scopes session.machine (resolve program).notes
    dsimp only
    split
    · exact hnotes
    · have hrun := restored_stepwise.runProgram fuel program
        (session.machine.noteAll (resolve program).notes)
      exact ⟨hrun.current.trans hnotes.1, hrun.globals.trans hnotes.2⟩

/-- Behind any programs, each run with an amount of fuel of its own, the session is in the globals. -/
theorem runs_scopes (session : Session) (runs : List (Nat × String)) :
    (session.runs runs).machine.current = session.machine.current ∧
      (session.runs runs).machine.globals = session.machine.globals := by
  induction runs generalizing session with
  | nil => exact ⟨rfl, rfl⟩
  | cons first rest ih =>
    obtain ⟨fuel, source⟩ := first
    have hfirst := runWith_scopes session fuel source
    have hrest := ih (session.runWith fuel source).2
    exact ⟨hrest.1.trans hfirst.1, hrest.2.trans hfirst.2⟩

/-- Evaluation comes back to the scope in which it began, whatever it evaluates in whatever machine and
however it ends: with a value, a flow or an error, or out of fuel. It leaves the globals and the noted depths
as they are. So a session is in its globals before and behind each of its programs. -/
theorem current_scope_is_restored (fuel : Nat) :
    (∀ (e : Expr) (m : Machine), Restored m (evaluate fuel e m).machine) ∧
      (∀ (s : Stmt) (m : Machine), Restored m (execute fuel s m).machine) ∧
      (∀ (body : List Stmt) (bindings : Table Value) (around : Option ScopeId) (m : Machine),
        Restored m (executeBlock fuel body bindings around m).machine) ∧
      (∀ (callee : Value) (arguments : List Value) (line : Nat) (m : Machine),
        Restored m (call fuel callee arguments line m).machine) ∧
      ∀ (console : Console) (clock : Clock) (runs : List (Nat × String)),
        let first := (Session.start console clock).machine
        let machine := ((Session.start console clock).runs runs).machine
        machine.current = machine.globals ∧ machine.globals = first.globals := by
  have hall := restored_stepwise.preservesAll fuel
  refine ⟨hall.evaluate, hall.execute, ?_, hall.call, ?_⟩
  · intro body bindings around
    have hopen : Preserves Restored (Effect.make fun s => s.newScope bindings around) :=
      restored_stepwise.openScope bindings around
    have hblock : Preserves Restored (executeBlock fuel body bindings around) :=
      restored_stepwise.bind hopen fun scope => restored_stepwise.inside scope (hall.executeAll body)
    exact hblock
  · intro console clock runs
    have hstart : (Session.start console clock).machine.current =
        (Session.start console clock).machine.globals := rfl
    obtain ⟨hcurrent, hglobals⟩ := runs_scopes (Session.start console clock) runs
    exact ⟨hcurrent.trans (hstart.trans hglobals.symm), hglobals⟩

end LoxLang
