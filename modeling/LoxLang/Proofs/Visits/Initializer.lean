import LoxLang.Proofs.Restoring
import LoxLang.Proofs.Visits.Complete
import LoxLang.Proofs.Visits.Run

/-!
# Initializers yield their instance

An initializer is a value only when it is bound: its own scope gives `this` an instance. This holds of all values
that a running program has at any time, those in its store, those that the tasks around hold on to and those
that come back from a task. What binds `this` in that scope never changes, since no program can declare or
assign the name. So a call of an initializer ends as its body ends, and yields that instance if the body comes
to an end, by whichever statement. A class that has an initializer runs it on a new instance, and yields this
instance.
-/

namespace LoxLang

/-! ## The values of a running program -/

/-- The values in a store. -/
inductive Store.Has (s : Store) : Value → Prop
  | bound {scope : ScopeId} {name : String} {value : Value} : s.binding? scope name = some value → s.Has value
  | item {list : ListId} {value : Value} : value ∈ s.items list → s.Has value
  | field {object : InstanceId} {name : String} {value : Value} :
      s.field? object name = some value → s.Has value

/-- The scope of the closure binds `this` to an instance. -/
def Closure.HasReceiver (s : Store) (f : Closure) : Prop :=
  ∃ id c, s.binding? f.scope "this" = some (.instanceOf id c)

/-- What goes by the name of an initializer in the class is one, and nothing else is. -/
def ClassObject.Marked (c : ClassObject) : Prop :=
  ∀ name f, c.method? name = some f → f.isInitializer = (name == initializerName)

/-- An initializer that is a value has an instance, and the classes of values know their initializers. -/
def Value.Settled (s : Store) : Value → Prop
  | .function _ f => f.isInitializer = true → f.HasReceiver s
  | .classObject c => c.Marked
  | .instanceOf _ c => c.Marked
  | _ => True

/-- All values of a state, in its store and beside it. -/
def AllSettled (s : Store) (values : List Value) : Prop := ∀ value, s.Has value ∨ value ∈ values → value.Settled s

/-! ## Calls -/

/-- The call of the closure ends as its body does, and yields the instance whatever the body returns. The scope
of the closure binds `this` to the instance before the call and behind it. -/
structure YieldsInstance (m : Machine) (f : Closure) (arguments : List Value) (id : InstanceId)
    (c : ClassObject) : Prop where
  bound : m.store.binding? f.scope "this" = some (.instanceOf id c)
  body : ∀ fuel, callClosure (fuel + 1) f arguments m =
    (executeBlock fuel f.declaration.body (parameterTable f.declaration.params arguments) (some f.scope)
      >>= fun _ => pure (.instanceOf id c)) m
  kept : ∀ fuel, (callClosure fuel f arguments m).machine.store.binding? f.scope "this" =
    some (.instanceOf id c)

/-- The call of the class is the call of its initializer on a new instance, which yields this instance. -/
def YieldsNewInstance (m : Machine) (c : ClassObject) (arguments : List Value) : Prop :=
  ∃ f m', YieldsInstance m' f arguments m.store.instances.size c ∧
    ∀ fuel, instantiate (fuel + 1) c arguments m = callClosure fuel f arguments m'

/-- What a task yields that calls an initializer or a class that has one. -/
def Visit.YieldsInstances (visit : Visit) : Prop :=
  match visit.task with
  | .call (.function id f) arguments line => f.isInitializer = true →
      ∃ object c, visit.machine.store.binding? f.scope "this" = some (.instanceOf object c) ∧
        ∀ fuel value after, call fuel (.function id f) arguments line visit.machine = .done value after →
          value = .instanceOf object c
  | .call (.classObject c) arguments line => (c.method? initializerName).isSome →
      ∀ fuel value after, call fuel (.classObject c) arguments line visit.machine = .done value after →
        value = .instanceOf visit.machine.store.instances.size c
  | .callClosure f arguments => f.isInitializer = true → ∃ id c, YieldsInstance visit.machine f arguments id c
  | .instantiate c arguments => (c.method? initializerName).isSome → YieldsNewInstance visit.machine c arguments
  | _ => True

section
variable {programs : List (List Stmt)} {now : Moment} {f : Closure} {c : ClassObject} {arguments : List Value}

theorem GoodClosure.hasReceiver (hf : GoodClosure programs now f) (hi : f.isInitializer = true) :
    f.HasReceiver now.store := by
  obtain ⟨program, -, context, -, he, hlayers⟩ := hf
  obtain ⟨outer, hl⟩ := hlayers hi
  rw [hl] at he
  obtain ⟨-, method, id, class_, -, -, -, hthis⟩ := he.holds
  exact ⟨id, class_, hthis⟩

theorem GoodClass.marked (hc : GoodClass programs now c) : c.Marked := fun name f h => (hc name f h).2

theorem GoodValue.settled {value : Value} (hv : GoodValue programs now value) : value.Settled now.store := by
  cases value with
  | function id f => exact GoodClosure.hasReceiver hv
  | classObject c => exact GoodClass.marked hv
  | instanceOf id c => exact GoodClass.marked hv
  | _ => trivial

theorem Good.has (hg : Good programs now) {value : Value} (h : now.store.Has value) :
    GoodValue programs now value := by
  cases h with
  | bound h => exact hg.bindings _ _ _ h
  | item h => exact hg.items _ _ h
  | field h => exact hg.fields _ _ _ h

theorem Good.allSettled (hg : Good programs now) {values : List Value} (hv : GoodValues programs now values) :
    AllSettled now.store values := by
  intro value h
  rcases h with h | h
  · exact (hg.has h).settled
  · exact (hv value h).settled

/-! ### Initializers -/

/-- The body of a function is run in a scope of its own and leaves `this` and `super` as they are. -/
theorem Ends.body (fuel : Nat) (hg : Good programs now) (hf : GoodClosure programs now f)
    (ha : GoodValues programs now arguments) (hlength : arguments.length = f.arity) :
    ∃ t : Traced Event Flow, Ends programs none t now (fun _ _ => True) ∧
      Watches t (executeBlock fuel f.declaration.body (parameterTable f.declaration.params arguments)
        (some f.scope)) := by
  obtain ⟨program, hp, context, hs, he, -⟩ := hf
  refine ⟨_, Ends.openScope ⟨.call f.declaration, Context.parameterFrame f.declaration.params⟩ hg he ?_ trivial
    (parameterTable_ready hlength) ?_, Watches.bind (Follows.noting _ _) fun scope =>
      ((traced_watches fuel).executeAll f.declaration.body).within scope⟩
  · exact fun name value h => ha value (parameterTable_values h)
  · intro scope now₁ hg₁ _ he₁ hx
    have hbody := (keeps programs fuel).executeAll (hg₁.at scope) hp hs.functionBody (.entered he₁ hx)
    exact .within (hbody.imp fun _ _ _ _ => trivial)

/-- What comes behind the body of an initializer finds the instance. -/
theorem callClosure_initializer (fuel : Nat) (hi : f.isInitializer = true) {m : Machine} {receiver : Value}
    (hk : (executeBlock fuel f.declaration.body (parameterTable f.declaration.params arguments) (some f.scope)
      m).machine.store.binding? f.scope "this" = some receiver) :
    callClosure (fuel + 1) f arguments m =
      (executeBlock fuel f.declaration.body (parameterTable f.declaration.params arguments) (some f.scope)
        >>= fun _ => pure receiver) m := by
  rw [callClosure_block]
  dsimp only
  generalize executeBlock fuel f.declaration.body _ _ = block at hk ⊢
  change Effect.andThen block _ m = Effect.andThen block _ m
  unfold Effect.andThen
  cases hr : block m with
  | done flow after =>
    rw [hr] at hk
    have hthis : after.store.binding? f.scope "this" = some receiver := hk
    dsimp only
    rw [if_pos hi, Effect.read_bind, Store.lookupAt_here, hthis]
    rfl
  | failed e after => rfl
  | outOfFuel after => rfl

theorem GoodClosure.yieldsInstance (hg : Good programs now) (hf : GoodClosure programs now f)
    (ha : GoodValues programs now arguments) (hlength : arguments.length = f.arity)
    (hi : f.isInitializer = true) {id : InstanceId}
    (hthis : now.store.binding? f.scope "this" = some (.instanceOf id c)) :
    YieldsInstance now.machine f arguments id c := by
  refine ⟨hthis, fun fuel => ?_, fun fuel => ?_⟩
  · obtain ⟨t, hends, hwatches⟩ := Ends.body fuel hg hf ha hlength
    apply callClosure_initializer fuel hi
    rw [← hwatches.outcome now.machine]
    exact hends.later.kept _ _ _ (.inl rfl) hthis
  · have hwatches : Watches ((traced fuel).callClosure f arguments) (callClosure fuel f arguments) :=
      (traced_watches fuel).callClosure f hlength
    rw [← hwatches.outcome now.machine]
    exact ((keeps programs fuel).callClosure hg hf ha hlength).later.kept _ _ _ (.inl rfl) hthis

theorem Effect.value_of_bind_pure {α β : Type} {effect : Effect α} {a b : β} {m after : Machine}
    (h : (effect >>= fun _ => pure a) m = .done b after) : b = a := by
  change andThen effect _ m = _ at h
  unfold andThen at h
  cases hr : effect m with
  | done _ n =>
    rw [hr] at h
    cases h
    rfl
  | failed e n => simp [hr] at h
  | outOfFuel n => simp [hr] at h

/-- The call of an initializer that comes to its end yields the instance. -/
theorem YieldsInstance.eq_of_done {m after : Machine} {id : InstanceId} {fuel : Nat} {value : Value}
    (h : YieldsInstance m f arguments id c) (hr : callClosure fuel f arguments m = .done value after) :
    value = .instanceOf id c := by
  cases fuel with
  | zero => cases hr
  | succ fuel =>
    rw [h.body fuel] at hr
    exact Effect.value_of_bind_pure hr

/-- To yield the instance behind the call instead of what the call yields changes nothing. -/
theorem YieldsInstance.bind_pure {m : Machine} {id : InstanceId} (h : YieldsInstance m f arguments id c)
    (fuel : Nat) : (callClosure fuel f arguments >>= fun _ => pure (.instanceOf id c)) m =
      callClosure fuel f arguments m := by
  change Effect.andThen _ _ m = _
  unfold Effect.andThen
  cases hr : callClosure fuel f arguments m with
  | done value after =>
    rw [h.eq_of_done hr]
    rfl
  | failed e after => rfl
  | outOfFuel after => rfl

/-! ### Classes -/

theorem instantiate_initializer {initializer : Closure} (hm : c.method? initializerName = some initializer)
    (fuel : Nat) : instantiate (fuel + 1) c arguments = (do
      let id ← Effect.make Store.newInstance
      let f ← bindReceiver initializer (.instanceOf id c)
      let _ ← callClosure fuel f arguments
      pure (.instanceOf id c)) := by
  unfold instantiate
  rw [hm]

theorem GoodClass.yieldsNewInstance (hg : Good programs now) (hc : GoodClass programs now c)
    (ha : GoodValues programs now arguments) (hlength : arguments.length = c.arity)
    (hi : (c.method? initializerName).isSome) : YieldsNewInstance now.machine c arguments := by
  obtain ⟨initializer, hm⟩ := Option.isSome_iff_exists.1 hi
  have hmarked : initializer.isInitializer = true := (hc _ _ hm).2.trans (beq_self_eq_true _)
  have hnew := Ends.newInstance hg hc ha
  obtain ⟨hc₁, ha₁⟩ := hnew.yields now.store.instances.size _ rfl
  have hbind := @Ends.bindReceiver programs _ initializer now.store.instances.size c hnew.good
    (hc₁ _ _ hm).1 hc₁
  obtain ⟨hf, hd⟩ := hbind.yields { initializer with scope := now.store.scopes.size } _ rfl
  have harity : arguments.length = initializer.arity := by
    unfold ClassObject.arity at hlength
    rwa [hm] at hlength
  have hyields := hf.yieldsInstance hbind.good (GoodValues.later ha₁ hbind.later) harity hmarked
    ((Store.newScope_binding ..).trans (if_pos rfl))
  refine ⟨_, _, hyields, fun fuel => ?_⟩
  rw [← hyields.bind_pure fuel, instantiate_initializer hm]
  rfl

/-! ### Calls of values -/

theorem call_function_done {fuel line : Nat} {id : Identity} {m after : Machine} {value : Value}
    (h : call fuel (.function id f) arguments line m = .done value after) :
    arguments.length = f.arity ∧ ∃ fuel, callClosure fuel f arguments m = .done value after := by
  cases fuel with
  | zero => cases h
  | succ fuel =>
    unfold call at h
    dsimp only at h
    split at h
    · rename_i hlength
      exact ⟨hlength, fuel, h⟩
    · cases h

theorem call_class_done {fuel line : Nat} {m after : Machine} {value : Value}
    (h : call fuel (.classObject c) arguments line m = .done value after) :
    arguments.length = c.arity ∧ ∃ fuel, instantiate fuel c arguments m = .done value after := by
  cases fuel with
  | zero => cases h
  | succ fuel =>
    unfold call at h
    dsimp only at h
    split at h
    · rename_i hlength
      exact ⟨hlength, fuel, h⟩
    · cases h

theorem YieldsNewInstance.eq_of_done {m after : Machine} {fuel : Nat} {value : Value}
    (h : YieldsNewInstance m c arguments) (hr : instantiate fuel c arguments m = .done value after) :
    value = .instanceOf m.store.instances.size c := by
  cases fuel with
  | zero => cases hr
  | succ fuel =>
    obtain ⟨f, m', hyields, heq⟩ := h
    rw [heq] at hr
    exact hyields.eq_of_done hr

theorem Visit.Sound.yieldsInstances {visit : Visit} (h : visit.Sound programs now) :
    visit.YieldsInstances := by
  obtain ⟨fuel, task, held, m⟩ := visit
  obtain ⟨rfl, hg, hdue, -⟩ := h
  cases task with
  | callClosure f arguments =>
    intro hi
    obtain ⟨hf, ha, hlength⟩ := hdue
    obtain ⟨id, c, hthis⟩ := hf.hasReceiver hi
    exact ⟨id, c, hf.yieldsInstance hg ha hlength hi hthis⟩
  | instantiate c arguments => exact GoodClass.yieldsNewInstance hg hdue.1 hdue.2.1 hdue.2.2
  | call callee arguments line =>
    obtain ⟨hcallee, ha⟩ := hdue
    cases callee with
    | function id f =>
      intro hi
      have hf : GoodClosure programs now f := hcallee
      obtain ⟨object, c, hthis⟩ := hf.hasReceiver hi
      refine ⟨object, c, hthis, fun fuel value after hr => ?_⟩
      obtain ⟨hlength, fuel, hr⟩ := call_function_done hr
      exact (hf.yieldsInstance hg ha hlength hi hthis).eq_of_done hr
    | classObject c =>
      intro hi fuel value after hr
      obtain ⟨hlength, fuel, hr⟩ := call_class_done hr
      exact (GoodClass.yieldsNewInstance hg hcallee ha hlength hi).eq_of_done hr
    | _ => trivial
  | _ => trivial

theorem Task.Due.goodValues {task : Task} (h : task.Due programs now) : GoodValues programs now task.values := by
  cases task with
  | call callee arguments line => exact List.forall_mem_cons.2 h
  | callClosure f arguments => exact h.2.1
  | instantiate c arguments => exact List.forall_mem_cons.2 ⟨h.1, h.2.1⟩
  | _ => exact .nil

theorem Visit.Sound.allSettled {visit : Visit} (h : visit.Sound programs now) :
    AllSettled visit.machine.store (visit.task.values ++ visit.held) ∧
      AllSettled visit.ending.machine.store (visit.ending.values ++ visit.held) := by
  obtain ⟨hmachine, hg, hdue, hheld⟩ := h
  obtain ⟨now', hends⟩ := hdue.endsAt visit.fuel hg
  obtain ⟨own, hlater⟩ := hends.later
  have hbefore := hg.allSettled (List.forall_mem_append.2 ⟨hdue.goodValues, hheld⟩)
  have hafter := hends.good.allSettled (List.forall_mem_append.2 ⟨hends.values, hheld.later hlater⟩)
  rw [hmachine] at hends
  unfold Visit.ending
  rw [← hends.machine, ← hmachine]
  exact ⟨hbefore, hafter⟩

end

/-! ### Tasks that call an initializer -/

/-- The initializer that a task calls as a function. -/
def Task.initializer? : Task → Option Closure
  | .call (.function _ f) _ _ => if f.isInitializer then some f else none
  | _ => none

theorem Task.of_initializer? {task : Task} {f : Closure} (h : task.initializer? = some f) :
    f.isInitializer = true ∧ ∃ id arguments line, task = .call (.function id f) arguments line := by
  unfold Task.initializer? at h
  split at h
  · rename_i id g arguments line
    obtain ⟨hi, hg⟩ := Option.ite_none_right_eq_some.1 h
    cases hg
    exact ⟨hi, id, arguments, line, rfl⟩
  · cases h

/-- A call that yields anything comes to an end and yields one value. -/
theorem Task.call_values {fuel line : Nat} {callee : Value} {arguments : List Value} {m : Machine}
    (h : ((Task.call callee arguments line).run fuel m).values ≠ []) : ∃ value after,
      LoxLang.call fuel callee arguments line m = .done value after ∧
        ((Task.call callee arguments line).run fuel m).values = [value] := by
  change (Effect.andThen (LoxLang.call fuel callee arguments line) _ m).values ≠ [] at h
  change ∃ value after, _ ∧ (Effect.andThen (LoxLang.call fuel callee arguments line) _ m).values = [value]
  unfold Effect.andThen at h ⊢
  cases hr : LoxLang.call fuel callee arguments line m with
  | done value after => exact ⟨value, after, rfl, rfl⟩
  | failed e after => simp [hr, Outcome.values] at h
  | outOfFuel after => simp [hr, Outcome.values] at h

/-! ## Sessions -/

/-- In a session that runs any programs one after the other, all initializers among the values of a running program
are bound to an instance, in the scope that they close over: at the beginning and at the end of every task,
in the store, beside it and among what the task yields, and in the store between the programs. A call of an
initializer that comes to an end yields this instance, by whatever statement the body comes to its end, and the
call of a class that has or inherits an initializer yields the new instance. The tasks are all that the runs of
the programs consist of: functions that act as the evaluator at these, whatever they do elsewhere, run a program in
the same way. -/
theorem initializers_yield_their_instance (console : Console) (clock : Clock) (runs : List (Nat × String)) :
    AllSettled ((Session.start console clock).runs runs).machine.store [] ∧
      (∀ visit ∈ (Session.start console clock).visits runs,
        AllSettled visit.machine.store (visit.task.values ++ visit.held) ∧
          AllSettled visit.ending.machine.store (visit.ending.values ++ visit.held) ∧
          visit.YieldsInstances) ∧
      ∀ (functions : Nat → Evaluator Effect) fuel program m,
        (∀ visit ∈ programVisits fuel program m, Evaluator.FollowsAt functions visit) →
        (functions fuel).runProgram program m = runProgram fuel program m := by
  refine ⟨?_, ?_, fun _ _ _ _ => Evaluator.programVisits_complete⟩
  · have hgood := (Chronicle.sane_of console clock runs).good.allSettled .nil
    rwa [Moment.store, Chronicle.of, Chronicle.runs_session] at hgood
  · intro visit hv
    obtain ⟨programs, now, hsound⟩ := (Chronicle.sane_start console clock).visits runs visit hv
    exact ⟨hsound.allSettled.1, hsound.allSettled.2, hsound.yieldsInstances⟩

/-- An initializer that is kept in a variable yields its instance when another program calls it, although a bare
`return` in a loop ends its body. -/
theorem initializers_yield_their_instance_returning :
    ∃ runs, ∃ visit ∈ (Session.start {} (fun _ => 0)).visits runs, ∃ id f arguments line,
      visit.task = .call (.function id f) arguments line ∧ f.isInitializer = true ∧
        ∃ object c, visit.ending.values = [.instanceOf object c] ∧
          visit.machine.store.binding? f.scope "this" = some (.instanceOf object c) := by
  let runs := [(14, "class A \x7b init() \x7b while (true) \x7b return; \x7d \x7d \x7d var f = A().init;"),
    (14, "f();")]
  have hcall : ((Session.start {} (fun _ => 0)).visits runs).any (fun visit =>
      visit.task.initializer?.isSome && !visit.ending.values.isEmpty) = true := by decide +kernel
  obtain ⟨visit, hmem, hvisit⟩ := List.any_eq_true.1 hcall
  obtain ⟨hinitializer, hends⟩ := Bool.and_eq_true_iff.1 hvisit
  obtain ⟨f, hf⟩ := Option.isSome_iff_exists.1 hinitializer
  obtain ⟨hi, id, arguments, line, htask⟩ := Task.of_initializer? hf
  obtain ⟨-, -, hyields⟩ := (initializers_yield_their_instance {} (fun _ => 0) runs).2.1 visit hmem
  unfold Visit.YieldsInstances at hyields
  rw [htask] at hyields
  obtain ⟨object, c, hthis, hcalls⟩ := hyields hi
  obtain ⟨fuel, task, held, m⟩ := visit
  cases htask
  have hsome : ((Task.call (.function id f) arguments line).run fuel m).values ≠ [] := by
    simpa [Visit.ending] using hends
  obtain ⟨value, after, hr, hvalues⟩ := Task.call_values hsome
  rw [hcalls fuel value after hr] at hvalues
  exact ⟨runs, _, hmem, id, f, arguments, line, rfl, hi, object, c, hvalues, hthis⟩

end LoxLang
