import LoxLang.Proofs.Visits

/-!
# The tasks of a run are all of them

Any functions may stand in for those of the evaluator, some for each amount of fuel. If they do a round of the
evaluator at each task that is listed of a run, over the functions with less fuel, and stop where no fuel is left,
then they run the program as the evaluator does, whatever they do elsewhere. So the evaluator gives itself no tasks
but those that are listed, and a run depends on no others.
-/

namespace LoxLang

namespace Evaluator

/-- In this machine the functions fulfil the task in the same way. -/
def SameOn (E E' : Evaluator Effect) (m : Machine) : Task → Prop
  | .evaluate e => E.evaluate e m = E'.evaluate e m
  | .evaluateAll es => E.evaluateAll es m = E'.evaluateAll es m
  | .call callee arguments line => E.call callee arguments line m = E'.call callee arguments line m
  | .callClosure f arguments => E.callClosure f arguments m = E'.callClosure f arguments m
  | .instantiate c arguments => E.instantiate c arguments m = E'.instantiate c arguments m
  | .execute s => E.execute s m = E'.execute s m
  | .executeAll body => E.executeAll body m = E'.executeAll body m
  | .executeLoop condition body => E.executeLoop condition body m = E'.executeLoop condition body m

/-- At this moment of a run the functions do a round over those with less fuel, and stop where no fuel is left. -/
def FollowsAt (functions : Nat → Evaluator Effect) (visit : Visit) : Prop :=
  match visit.fuel with
  | 0 => (functions 0).SameOn (withFuel 0) visit.machine visit.task
  | fuel + 1 =>
    (functions (fuel + 1)).SameOn (Operations.plain.round fuel (functions fuel)) visit.machine visit.task

section
variable {functions : Nat → Evaluator Effect} {α : Type} {R : α → α → Prop}

/-- Runs are compared where the functions follow the evaluator at all tasks. -/
def followed (functions : Nat → Evaluator Effect) : Simulation .same .plain visitNotes.operations :=
  visitNotes.simulation (P := FollowsAt functions) fun values _ h visit hv =>
    h (visit.hold values) (List.mem_map_of_mem hv)

/-- What is done for a task may be replaced where the task is listed. -/
theorem begun {fuel : Nat} {task : Task} {effect effect' : Effect α} {t : Traced Visit α}
    (h : Follows (FollowsAt functions) R effect t)
    (hs : ∀ m, FollowsAt functions ⟨fuel, task, [], m⟩ → effect' m = effect m) :
    Follows (FollowsAt functions) R effect' (visitNotes.operations.entering fuel task t) := by
  intro m hp
  obtain ⟨hfirst, hrest⟩ := List.forall_mem_cons.1 hp
  rw [hs m hfirst]
  exact h m hrest

theorem begun_agree {E E' : Evaluator Effect} {T : Evaluator (Traced Visit)} {fuel : Nat}
    (h : (followed functions).Agree E T)
    (hs : ∀ task m, FollowsAt functions ⟨fuel, task, [], m⟩ → E'.SameOn E m task) :
    (followed functions).Agree E' (visitNotes.operations.entered fuel T) := by
  constructor
  case evaluate =>
    rintro _ e _ rfl
    exact begun (h.evaluate (w := ()) rfl) fun m => hs (.evaluate e) m
  case evaluateAll =>
    intro _ es es' he
    cases List.forall₂_eq_eq_eq ▸ he
    exact begun (h.evaluateAll (w := ()) he) fun m => hs (.evaluateAll es) m
  case call =>
    rintro _ callee _ values values' line _ rfl hv rfl
    cases Likeness.same_values hv
    exact begun (h.call (w := ()) rfl hv rfl) fun m => hs (.call callee values line) m
  case callClosure =>
    rintro _ f _ values values' rfl hv hl
    cases Likeness.same_values hv
    exact begun (h.callClosure (w := ()) rfl hv hl) fun m => hs (.callClosure f values) m
  case instantiate =>
    rintro _ c _ values values' rfl hv hl
    cases Likeness.same_values hv
    exact begun (h.instantiate (w := ()) rfl hv hl) fun m => hs (.instantiate c values) m
  case execute =>
    rintro _ s _ rfl
    exact begun (h.execute (w := ()) rfl) fun m => hs (.execute s) m
  case executeAll =>
    intro _ body body' hb
    cases List.forall₂_eq_eq_eq ▸ hb
    exact begun (h.executeAll (w := ()) hb) fun m => hs (.executeAll body) m
  case executeLoop =>
    rintro _ e _ s _ rfl rfl
    exact begun (h.executeLoop (w := ()) rfl rfl) fun m => hs (.executeLoop e s) m

theorem visits_agree (functions : Nat → Evaluator Effect) (fuel : Nat) :
    (followed functions).Agree (functions fuel) (visitNotes.evaluator fuel) := by
  induction fuel with
  | zero =>
    have hstop : (followed functions).Agree (withFuel 0) visitNotes.operations.exhausted := by
      constructor <;> intros <;> exact Follows.exhausted
    exact begun_agree hstop fun _ _ h => h
  | succ fuel ih => exact begun_agree (ih.round rfl) fun _ _ h => h

/-- A whole run depends on the tasks that are listed and on no others: functions that do a round at each of them
yield the same run, whatever they do elsewhere. -/
theorem programVisits_complete {fuel : Nat} {program : List Stmt} {m : Machine}
    (h : ∀ visit ∈ programVisits fuel program m, FollowsAt functions visit) :
    (functions fuel).runProgram program m = LoxLang.runProgram fuel program m := by
  have hself : List.Forall₂ Eq program program := forall₂_self (fun _ => rfl) program
  have hrun : Follows (FollowsAt functions) Eq ((functions fuel).runProgram program)
      ((visitNotes.evaluator fuel).runProgram program) :=
    ((visits_agree functions fuel).runProgram (w := ()) hself).imp fun _ _ _ => rfl
  rw [← (watches_runProgram visitNotes fuel program).outcome]
  exact (hrun m h).eq

end

end Evaluator

end LoxLang
