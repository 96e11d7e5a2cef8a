import Mathlib.Data.List.Forall2
import LoxLang.Proofs.Visits.Complete
import LoxLang.Proofs.Visits.Run

/-!
# As many arguments as parameters

The number of arguments is looked at once, where a value is called. Behind that place it is relied on: parameters
and arguments are paired as far as both go, a class hands its arguments on to the initializer that it finds, and
the functions of the language and the methods of lists take their arguments by position. Rounds of the evaluator
are done here with a guard at each of these places. Where a guard does not hold, an effect is run that may be
anything; since the guarded evaluator is the evaluator whatever this effect is, all guards hold always.

What each parameter is bound to depends on the names of the parameters too. In a session those of one function
are different, so that no argument takes the place of another.
-/

namespace LoxLang

/-! ## Guards -/

namespace Effect
variable {α : Type}

/-- An effect behind a guard. -/
def guarded (otherwise : Effect α) (p : Prop) [Decidable p] (effect : Effect α) : Effect α :=
  if p then effect else otherwise

theorem guarded_of {otherwise effect : Effect α} {p : Prop} [Decidable p] (h : p) :
    guarded otherwise p effect = effect := if_pos h

/-- The argument at a place, which must be there. -/
def argument (otherwise : Effect Value) (arguments : List Value) (place : Nat) : Effect Value :=
  match arguments[place]? with
  | some value => pure value
  | none => otherwise

end Effect

section
variable (otherwise : Effect Value)

/-- A function of the language, which takes its arguments by their places. -/
def Builtin.callByPlace (builtin : Builtin) (fuel : Nat) (arguments : List Value) (line : Nat) :
    Effect Value :=
  match builtin with
  | .print => do
    let value ← .argument otherwise arguments 0
    let text ← .textOf fuel value
    .write line (text ++ "\n")
    pure .nil
  | .clock => .readClock
  | .readline => do
    let prompt ← .argument otherwise arguments 0
    let text ← .textOf fuel prompt
    .write line text
    .readLine line
  | .int => do
    let value ← .argument otherwise arguments 0
    .ofExcept line value.toInteger
  | .float => do
    let value ← .argument otherwise arguments 0
    .ofExcept line value.toFloating
  | .str => do
    let value ← .argument otherwise arguments 0
    let text ← .textOf fuel value
    pure (.string text)
  | .type => do
    let value ← .argument otherwise arguments 0
    pure (.string value.typeText)
  | .list => do
    let id ← .make fun s => s.newList #[]
    pure (.list id)

/-- A method of a list, which takes its arguments by their places. -/
def ListMethod.callByPlace (method : ListMethod) (list : ListId) (arguments : List Value) (line : Nat) :
    Effect Value :=
  match method with
  | .push => do
    let value ← .argument otherwise arguments 0
    .modifyStore fun s => s.modifyList list fun items => items.push value
    pure .nil
  | .pop =>
    .onStore line fun s =>
      match (s.items list).back? with
      | some last => (.ok last, s.modifyList list Array.pop)
      | none => (.error .listEmpty, s)
  | .clear => do
    .modifyStore fun s => s.modifyList list fun _ => #[]
    pure .nil
  | .len => .read fun m => .int (Int64.ofNat (m.store.items list).size)
  | .getAt => do
    let index ← .argument otherwise arguments 0
    itemOf list index line
  | .setAt => do
    let index ← .argument otherwise arguments 0
    let value ← .argument otherwise arguments 1
    .onStore line fun s => s.setItemAt list index value
    pure .nil
  | .slice => do
    let start ← .argument otherwise arguments 0
    let stop ← .argument otherwise arguments 1
    .onStore line fun s => s.sliceOf list start stop

end

/-- A value that is called with as many arguments as it takes. -/
inductive Callable where
  | function (f : Closure)
  | native (builtin : Builtin)
  | classObject (c : ClassObject)
  | listMethod (list : ListId) (method : ListMethod)

def Value.callable? : Value → Option Callable
  | .function _ f => some (.function f)
  | .builtin native => some (.native native)
  | .classObject c => some (.classObject c)
  | .listMethod id method => some (.listMethod id method)
  | _ => none

/-- The number of arguments it takes. -/
def Callable.arity : Callable → Nat
  | function f => f.arity
  | native builtin => builtin.arity
  | classObject c => c.arity
  | listMethod _ method => method.arity

namespace Evaluator

section
variable (otherwise : Effect Value) (fuel : Nat) (E : Evaluator Effect)

def enter (callable : Callable) (arguments : List Value) (line : Nat) : Effect Value :=
  .guarded otherwise (arguments.length = callable.arity) <|
    match callable with
    | .function f => E.callClosure f arguments
    | .native builtin => builtin.callByPlace otherwise fuel arguments line
    | .classObject c => E.instantiate c arguments
    | .listMethod list method => method.callByPlace otherwise list arguments line

def guardedCall (callee : Value) (arguments : List Value) (line : Nat) : Effect Value :=
  match callee.callable? with
  | some callable =>
    if arguments.length = callable.arity then enter otherwise fuel E callable arguments line
    else .fail line (.argumentCount callable.arity arguments.length)
  | none =>
    match callee with
    | .list id =>
      match arguments with
      | [index] => itemOf id index line
      | _ => .fail line (.argumentCount 1 arguments.length)
    | _ => .fail line .notCallable

/-- One round with guards: at the call of a value, of a closure and of a class. -/
def guardedRound : Evaluator Effect :=
  let round := Operations.plain.round fuel E
  { round with
    call := guardedCall otherwise fuel E
    callClosure := fun f arguments =>
      .guarded otherwise (arguments.length = f.arity) (round.callClosure f arguments)
    instantiate := fun c arguments =>
      .guarded otherwise (arguments.length = c.arity) (round.instantiate c arguments) }

end

/-- The evaluator with guards. -/
def guarded (otherwise : Effect Value) : Nat → Evaluator Effect
  | 0 => withFuel 0
  | fuel + 1 => guardedRound otherwise fuel (guarded otherwise fuel)

end Evaluator

/-! ## No guard is in the way -/

section
variable {otherwise : Effect Value} {fuel line : Nat} {arguments : List Value}

theorem Builtin.callByPlace_eq {builtin : Builtin} (h : arguments.length = builtin.arity) :
    builtin.callByPlace otherwise fuel arguments line = builtin.call fuel arguments line := by
  cases builtin with
  | clock | list =>
    cases List.length_eq_zero_iff.1 h
    rfl
  | print | readline | int | float | str | type =>
    obtain ⟨value, rfl⟩ := List.length_eq_one_iff.1 h
    rfl

theorem ListMethod.callByPlace_eq {method : ListMethod} {list : ListId} (h : arguments.length = method.arity) :
    method.callByPlace otherwise list arguments line =
      .onStore line fun s => s.callListMethod list method arguments := by
  cases method with
  | pop | clear | len =>
    cases List.length_eq_zero_iff.1 h
    rfl
  | push =>
    obtain ⟨value, rfl⟩ := List.length_eq_one_iff.1 h
    rfl
  | getAt =>
    obtain ⟨index, rfl⟩ := List.length_eq_one_iff.1 h
    rfl
  | setAt =>
    obtain ⟨index, value, rfl⟩ := List.length_eq_two.1 h
    funext m
    change Effect.andThen (.onStore line fun s => s.setItemAt list index value) _ m = _
    unfold Effect.andThen Effect.onStore Store.callListMethod
    dsimp only
    cases (m.store.setItemAt list index value).1 with
    | ok => rfl
    | error => rfl
  | slice =>
    obtain ⟨start, stop, rfl⟩ := List.length_eq_two.1 h
    rfl

namespace Evaluator

section
variable {E : Evaluator Effect}

theorem enter_eq {callee : Value} {callable : Callable} (hc : callee.callable? = some callable)
    (hl : arguments.length = callable.arity) :
    enter otherwise fuel E callable arguments line = Operations.plain.roundCall fuel E callee arguments line := by
  unfold enter
  rw [Effect.guarded_of hl]
  cases callee <;> cases hc
  case builtin => exact (Builtin.callByPlace_eq hl).trans (if_pos hl).symm
  case listMethod => exact (ListMethod.callByPlace_eq hl).trans (if_pos hl).symm
  all_goals exact (if_pos hl).symm

theorem guardedCall_eq (callee : Value) (arguments : List Value) (line : Nat) :
    guardedCall otherwise fuel E callee arguments line =
      Operations.plain.roundCall fuel E callee arguments line := by
  unfold guardedCall
  cases hc : callee.callable? with
  | some callable =>
    by_cases hl : arguments.length = callable.arity
    · exact (if_pos hl).trans (enter_eq hc hl)
    · refine (if_neg hl).trans ?_
      cases callee <;> cases hc <;> exact (if_neg hl).symm
  | none =>
    cases callee with
    | function | builtin | classObject | listMethod => cases hc
    | _ => rfl

/-- Closures and classes are called with as many arguments as they take, so that no guard is in the way. -/
theorem guardedRound_agree {Note : Type} {O : Operations (Traced Note)} {S : Simulation .same .plain O}
    {T : Evaluator (Traced Note)} (h : S.Agree (Operations.plain.round fuel E) T) :
    S.Agree (guardedRound otherwise fuel E) T where
  evaluate := h.evaluate
  evaluateAll := h.evaluateAll
  call {_ v _ vs _ line _} hv hvs hl := by
    have hcall := h.call hv hvs hl
    rwa [show (Operations.plain.round fuel E).call v vs line = (guardedRound otherwise fuel E).call v vs line from
      (guardedCall_eq v vs line).symm] at hcall
  callClosure {_ f _ vs _} hf hvs hl := by
    have hcall := h.callClosure hf hvs hl
    rwa [show (Operations.plain.round fuel E).callClosure f vs = (guardedRound otherwise fuel E).callClosure f vs from
      (Effect.guarded_of hl).symm] at hcall
  instantiate {_ c _ vs _} hc hvs hl := by
    have hcall := h.instantiate hc hvs hl
    rwa [show (Operations.plain.round fuel E).instantiate c vs = (guardedRound otherwise fuel E).instantiate c vs from
      (Effect.guarded_of hl).symm] at hcall
  execute := h.execute
  executeAll := h.executeAll
  executeLoop := h.executeLoop

end

/-- The guarded evaluator is the evaluator, as far as a watch without notes can tell. -/
theorem guarded_watches (otherwise : Effect Value) (fuel : Nat) :
    WatchesAll (({} : Notes Empty).evaluator fuel) (guarded otherwise fuel) := by
  apply watchesAll_of_agree
  induction fuel with
  | zero =>
    have hstop : ({} : Notes Empty).watching.Agree (withFuel 0) ({} : Notes Empty).operations.exhausted := by
      constructor <;> intros <;> exact Follows.exhausted
    exact hstop.entered 0 0
  | succ fuel ih => exact (guardedRound_agree (ih.round rfl)).entered (fuel + 1) (fuel + 1)

end Evaluator

end

/-! ## What parameters are bound to -/

theorem parameters_frame {params : List Name} {name : String} (h : name ∉ params.map Name.text)
    (arguments : List Value) (table : Table Value) :
    ((params.zip arguments).foldl (fun table pair => Table.put pair.1.text pair.2 table) table).get? name =
      table.get? name := by
  induction params generalizing arguments table with
  | nil => rfl
  | cons param rest ih =>
    cases arguments with
    | nil => rfl
    | cons value values =>
      obtain ⟨hne, hrest⟩ := List.ne_and_not_mem_of_not_mem_cons h
      exact (ih hrest values _).trans (Table.get?_put_ne (Ne.symm hne) _ _)

/-- Parameters with different names are bound to the arguments at their places. -/
theorem parameterTable_binds {params : List Name} {arguments : List Value}
    (hl : arguments.length = params.length) (hd : (params.map Name.text).Nodup) :
    List.Forall₂ (fun param argument => (parameterTable params arguments).get? param.text = some argument)
      params arguments := by
  suffices ∀ table : Table Value, List.Forall₂ (fun param argument =>
      ((params.zip arguments).foldl (fun table pair => Table.put pair.1.text pair.2 table) table).get?
        param.text = some argument) params arguments from this []
  induction params generalizing arguments with
  | nil =>
    cases List.length_eq_zero_iff.1 hl
    exact fun _ => .nil
  | cons param rest ih =>
    cases arguments with
    | nil => cases hl
    | cons value values =>
      obtain ⟨hnew, hrest⟩ := List.nodup_cons.1 hd
      intro table
      refine .cons ?_ (ih (Nat.succ.inj hl) hrest _)
      exact (parameters_frame hnew values _).trans (Table.get?_put_self ..)

/-- The body of the function is run in a scope that binds each parameter to the argument at its place. There is
no parameter and no argument but those that are paired. -/
structure BindsInPlace (m : Machine) (f : Closure) (arguments : List Value) : Prop where
  paired : (f.declaration.params.zip arguments).unzip = (f.declaration.params, arguments)
  body : ∃ inside, (∀ fuel, ((visitNotes.evaluator (fuel + 1)).callClosure f arguments m).2 =
      ⟨fuel + 1, .callClosure f arguments, [], m⟩ ::
        ((visitNotes.evaluator fuel).executeAll f.declaration.body inside).2) ∧
    List.Forall₂ (fun param argument => inside.store.binding? inside.current param.text = some argument)
      f.declaration.params arguments

theorem bindsInPlace {f : Closure} {arguments : List Value} (hl : arguments.length = f.arity)
    (hd : (f.declaration.params.map Name.text).Nodup) (m : Machine) : BindsInPlace m f arguments where
  paired := List.unzip_zip hl.symm
  body := by
    have hresult (flow : Flow) (after : Machine) : (visitNotes.operations.resultOf f flow after).2 = [] := by
      unfold Operations.resultOf
      split
      · rfl
      · cases flow <;> rfl
    let opened := m.store.newScope (parameterTable f.declaration.params arguments) (some f.scope)
    refine ⟨{ m with store := opened.2, current := opened.1 }, fun fuel => ?_,
      (parameterTable_binds hl hd).imp fun param argument h => ?_⟩
    · exact congrArg (List.cons _) ((Traced.bind_notes hresult _).trans (Traced.within_notes _ _ _))
    · exact (Store.newScope_binding ..).trans ((if_pos rfl).trans h)

/-! ## Sessions -/

/-- What a call of a closure or of a class is given is what it takes. -/
def Visit.ArgumentsMatch (visit : Visit) : Prop :=
  match visit.task with
  | .callClosure f arguments => arguments.length = f.arity ∧ BindsInPlace visit.machine f arguments
  | .instantiate c arguments => arguments.length = c.arity ∧
      match c.method? initializerName with
      | some f => arguments.length = f.arity
      | none => arguments = []
  | _ => True

theorem Visit.Sound.argumentsMatch {visit : Visit} {programs : List (List Stmt)} {now : Moment}
    (h : visit.Sound programs now) : visit.ArgumentsMatch := by
  obtain ⟨fuel, task, held, m⟩ := visit
  obtain ⟨-, hg, hdue, -⟩ := h
  cases task with
  | callClosure f arguments =>
    obtain ⟨⟨program, hp, c, hs, -⟩, -, hl⟩ := hdue
    exact ⟨hl, bindsInPlace hl (hs.parameters (hg.prepared program hp).toChecked) m⟩
  | instantiate c arguments =>
    have hl : arguments.length = c.arity := hdue.2.2
    refine ⟨hl, ?_⟩
    unfold ClassObject.arity at hl
    cases hm : c.method? initializerName with
    | some f => rwa [hm] at hl
    | none =>
      rw [hm] at hl
      exact List.length_eq_zero_iff.1 hl
  | _ => trivial

/-- Every call has as many arguments as what is called takes. With guards at the calls of values, of closures and
of classes, and with arguments that are taken by their places, the evaluator is the same, in any state and for any
effect that a guard may lead to. In a session that runs any programs one after the other, every call of a closure
pairs all parameters with all arguments and binds each parameter to the argument at its place, and a class is
called with what its own or inherited initializer takes, or with nothing if it has none. No call is left out:
functions that act as the evaluator at the tasks of a program, whatever they do elsewhere, run it in the same way. -/
theorem arguments_match_parameters (console : Console) (clock : Clock) (runs : List (Nat × String)) :
    (∀ otherwise fuel, (Evaluator.guarded otherwise fuel).execute = execute fuel ∧
      (Evaluator.guarded otherwise fuel).evaluate = evaluate fuel ∧
      (Evaluator.guarded otherwise fuel).call = call fuel) ∧
    (∀ visit ∈ (Session.start console clock).visits runs, visit.ArgumentsMatch) ∧
    ∀ (functions : Nat → Evaluator Effect) fuel program m,
      (∀ visit ∈ programVisits fuel program m, Evaluator.FollowsAt functions visit) →
      (functions fuel).runProgram program m = runProgram fuel program m := by
  refine ⟨?_, ?_, fun _ _ _ _ => Evaluator.programVisits_complete⟩
  · intro otherwise fuel
    have hguarded := Evaluator.guarded_watches otherwise fuel
    have hplain := watchesAll ({} : Notes Empty) fuel
    refine ⟨funext fun s => ?_, funext fun e => ?_, funext fun callee => funext fun values => funext fun line => ?_⟩
    · exact (hguarded.execute s).unique (hplain.execute s)
    · exact (hguarded.evaluate e).unique (hplain.evaluate e)
    · exact (hguarded.call callee values line).unique (hplain.call callee values line)
  · intro visit hv
    obtain ⟨programs, now, hsound⟩ := (Chronicle.sane_start console clock).visits runs visit hv
    exact hsound.argumentsMatch

/-- The class that a task makes an instance of without having methods of its own, but with an initializer. -/
def Task.heir? : Task → Option ClassObject
  | .instantiate c _ => if c.methods.isEmpty && (c.method? initializerName).isSome then some c else none
  | _ => none

theorem Task.of_heir? {task : Task} {c : ClassObject} (h : task.heir? = some c) :
    c.methods.isEmpty = true ∧ (∃ f, c.method? initializerName = some f) ∧
      ∃ arguments, task = .instantiate c arguments := by
  unfold Task.heir? at h
  split at h
  · rename_i class_ arguments
    obtain ⟨hheir, hc⟩ := Option.ite_none_right_eq_some.1 h
    cases hc
    obtain ⟨hempty, hf⟩ := Bool.and_eq_true_iff.1 hheir
    exact ⟨hempty, Option.isSome_iff_exists.1 hf, arguments, rfl⟩
  · cases h

/-- A class without methods is called with as many arguments as the initializer of its superclass takes. -/
theorem arguments_match_parameters_inherited :
    ∃ runs, ∃ visit ∈ (Session.start {} (fun _ => 0)).visits runs, ∃ c arguments f,
      visit.task = .instantiate c arguments ∧ c.methods.isEmpty = true ∧
        c.method? initializerName = some f ∧ arguments.length = f.arity := by
  let runs := [(9, "class A \x7b init(x, y) \x7b\x7d \x7d class B < A \x7b\x7d B(1, 2);")]
  have hcall : ((Session.start {} (fun _ => 0)).visits runs).any (fun visit => visit.task.heir?.isSome) = true := by
    decide +kernel
  obtain ⟨visit, hmem, hheir⟩ := List.any_eq_true.1 hcall
  obtain ⟨c, hc⟩ := Option.isSome_iff_exists.1 hheir
  obtain ⟨hempty, ⟨f, hf⟩, arguments, htask⟩ := Task.of_heir? hc
  have hmatch := (arguments_match_parameters {} (fun _ => 0) runs).2.1 visit hmem
  unfold Visit.ArgumentsMatch at hmatch
  rw [htask] at hmatch
  dsimp only at hmatch
  rw [hf] at hmatch
  exact ⟨runs, visit, hmem, c, arguments, f, htask, hempty, hf, hmatch.2⟩

end LoxLang
