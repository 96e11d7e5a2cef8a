import LoxLang.Proofs.Scoping.Session

/-!
# `this` and `super`

At every use of `this` in a session the value is the instance that the method around the use was bound to for
its activation, also in functions inside of the method and in methods that were bound, stored and inherited
in any way. `super` looks for a method from the class on that the name of the superclass was evaluated to when
the class statement around was run, whatever the class of the instance, takes the nearest one and binds it to
the same instance. No run ends because `this` or `super` is missing or is bound to something else.
-/

namespace LoxLang

/-! ## The classes that a class extends -/

mutual

/-- A class, the class that it extends, the class that this one extends, and so on. -/
def ClassObject.lineage : ClassObject → List ClassObject
  | ⟨id, name, superclass, methods⟩ => ⟨id, name, superclass, methods⟩ :: ClassObject.ancestry superclass

def ClassObject.ancestry : Option ClassObject → List ClassObject
  | some c => c.lineage
  | none => []

end

mutual

/-- A method is taken from the nearest class that has it. -/
theorem ClassObject.method?_eq (name : String) :
    ∀ c : ClassObject, c.method? name = c.lineage.findSome? fun c => c.methods.get? name
  | ⟨_, _, superclass, methods⟩ => by
    unfold method? lineage
    rw [List.findSome?_cons]
    cases methods.get? name with
    | some method => rfl
    | none => exact ClassObject.inheritedMethod?_eq name superclass

theorem ClassObject.inheritedMethod?_eq (name : String) : ∀ superclass : Option ClassObject,
    inheritedMethod? name superclass = (ancestry superclass).findSome? fun c => c.methods.get? name
  | some c => ClassObject.method?_eq name c
  | none => rfl

end

/-! ## What uses yield -/

/-- The value is a function for the method, in a scope of its own that binds `this` to the instance and lies
directly inside the one that the method closes over. -/
def BindsMethod (m : Machine) (value : Value) (method : Closure) (receiver : Value) : Prop :=
  ∃ id scope, value = .function id { method with scope } ∧
    m.store.enclosing? scope = some method.scope ∧ m.store.binding? scope "this" = some receiver

theorem boundMethod_done (method : Closure) (receiver : Value) (m : Machine) :
    ∃ value m', boundMethod method receiver m = .done value m' ∧ BindsMethod m' value method receiver := by
  let opened := m.store.newScope [("this", receiver)] (some method.scope)
  refine ⟨_, _, rfl, opened.2.nextIdentity, m.store.scopes.size, rfl, ?_, ?_⟩
  · exact (Store.newScope_enclosing ..).trans (if_pos rfl)
  · exact (Store.newScope_binding ..).trans (if_pos rfl)

/-- The use of `this` yields the instance that the method around was bound to for its activation. -/
def YieldsReceiver (program : List Stmt) (c : Context) (t : Moment) (target : Reference) : Prop :=
  ∃ place inner method id class_, InMethod program c place inner ∧
    Activation t place inner.length method (.instanceOf id class_) ∧
    readReference target t.machine = .done (.instanceOf id class_) t.machine

/-- The use of `super` looks for the method in the class that the name of the superclass was evaluated to when
the class statement was run, and then in the ones that this class extends. The nearest one is bound to the
instance that the method around was bound to for its activation. -/
def YieldsInherited (program : List Stmt) (c : Context) (t : Moment) (target : Reference) (name : Name) :
    Prop :=
  ∃ place inner method id class_ superclass found, InMethod program c place inner ∧
    Activation t place inner.length method (.instanceOf id class_) ∧ place.superclass = some superclass ∧
    Extends t.log method.scope place.name superclass place.methods found ∧
    match found.lineage.findSome? fun c => c.methods.get? name.text with
    | some inherited => ∃ value m', inheritedMethod target name t.machine = .done value m' ∧
        BindsMethod m' value inherited (.instanceOf id class_)
    | none => inheritedMethod target name t.machine =
        .failed ⟨.undefinedProperty name.text, name.line⟩ t.machine

section
variable {program : List Stmt} {c : Context} {t : Moment} {target : Reference} {name : Name}

theorem Current.yieldsInherited (hc : Current c t) (ho : Orderly t) (hp : Prepared program t.machine)
    (hu : Uses program c (.inherited target name)) : YieldsInherited program c t target name := by
  obtain ⟨place, inner, method, id, class_, found, hm, hfinds⟩ := hc.inherited ho hp hu
  obtain ⟨superclass, hs, hextends⟩ := hfinds.extends_
  have hwatches : ((tracing.inheritedMethod (.inherited target name) target name).onto t.log t.machine).1 =
      inheritedMethod target name t.machine :=
    Watches.outcome (Follows.inheritedMethod (.inherited target name) target name) t.machine
  rw [inheritedMethod_at hfinds.depth hfinds.super hfinds.this] at hwatches
  refine ⟨place, inner, method, id, class_, superclass, found, hm, hfinds.activation, hs, hextends, ?_⟩
  rw [← ClassObject.method?_eq]
  cases hmethod : found.method? name.text with
  | some inherited =>
    rw [hmethod] at hwatches
    obtain ⟨value, m', hbound, hbinds⟩ := boundMethod_done inherited (.instanceOf id class_) t.machine
    have htraced : (tracing.boundMethod inherited (.instanceOf id class_) t.machine).1 =
        boundMethod inherited (.instanceOf id class_) t.machine :=
      Watches.outcome (Follows.boundMethod inherited (.instanceOf id class_)) t.machine
    exact ⟨value, m', hwatches.symm.trans (htraced.trans hbound), hbinds⟩
  | none =>
    rw [hmethod] at hwatches
    exact hwatches.symm

end

/-! ## Sessions -/

/-- No run ends with a fault about `this` or `super`. -/
theorem Chronicle.Sane.ordinary {c : Chronicle} (h : c.Sane) {fuel : Nat} {source : String}
    {error : RuntimeError} (he : (c.session.runWith fuel source).1.ending = .stopped error) :
    error.fault.Ordinary := by
  unfold Session.runWith at he
  rcases hcheck : checkProgram source c.session.nextId with ⟨errors | program, next⟩
  · rw [hcheck] at he
    cases he
  · rw [hcheck] at he
    dsimp only at he
    split at he
    · cases he
    · rename_i herrors
      obtain ⟨depths, hd⟩ := noteAll_machine c.session.machine (resolve program).notes
      have hends := h.ends fuel (wellRead_of_checkProgram hcheck) hd (by simpa using herrors)
      have hwatches := (watches_runProgram historyNotes fuel program).outcome
        { c.session.machine with depths }
      rw [hd] at he
      rcases hrun : runProgram fuel program { c.session.machine with depths } with ⟨a, m⟩ | ⟨e, m⟩ | m
      · rw [hrun] at he
        cases he
      · rw [hrun] at he
        cases he
        exact hends.fails error m (hwatches.trans hrun)
      · rw [hrun] at he
        cases he

/-- At every use of `this` in a session the value is the instance that the method around was bound to for its
activation, and at every use of `super` the method is the nearest one from the class on that the superclass of
the class statement around was evaluated to, bound to that instance. No run ends because `this` or `super` is
undefined or wrongly bound. -/
theorem this_and_super_dispatch (console : Console) (clock : Clock) (runs : List (Nat × String)) :
    (Chronicle.of console clock runs).session = (Session.start console clock).runs runs ∧
    (∀ later target m earlier,
      (Chronicle.of console clock runs).log = later ++ .used (.receiver target) m :: earlier →
      ∃ program ∈ (Chronicle.of console clock runs).programs, ∃ c, Uses program c (.receiver target) ∧
        YieldsReceiver program c ⟨earlier, m⟩ target) ∧
    (∀ later target name m earlier,
      (Chronicle.of console clock runs).log = later ++ .used (.inherited target name) m :: earlier →
      ∃ program ∈ (Chronicle.of console clock runs).programs, ∃ c,
        Uses program c (.inherited target name) ∧ YieldsInherited program c ⟨earlier, m⟩ target name) ∧
    ∀ fuel source error, (((Session.start console clock).runs runs).runWith fuel source).1.ending =
      .stopped error → error.fault.message ∉ bindingFaultMessages := by
  have hsane := Chronicle.sane_of console clock runs
  have hsession : (Chronicle.of console clock runs).session = (Session.start console clock).runs runs :=
    Chronicle.runs_session _ runs
  refine ⟨hsession, ?_, ?_, ?_⟩
  · intro later target m earlier hlog
    obtain ⟨ho, program, hp, hprepared, c, hu, hc⟩ := hsane.good.sound.justified hlog
    exact ⟨program, hp, c, hu, hc.receiver ho hprepared hu⟩
  · intro later target name m earlier hlog
    obtain ⟨ho, program, hp, hprepared, c, hu, hc⟩ := hsane.good.sound.justified hlog
    exact ⟨program, hp, c, hu, hc.yieldsInherited ho hprepared hu⟩
  · intro fuel source error he
    rw [← hsession] at he
    exact (hsane.ordinary he).message

/-- A function inside of an inherited method uses `super` and `this` when another program calls it. -/
theorem this_and_super_dispatch_inherited :
    ∃ runs later target name m earlier,
      (Chronicle.of {} (fun _ => 0) runs).log = later ++ .used (.inherited target name) m :: earlier ∧
      (∃ program c, YieldsInherited program c ⟨earlier, m⟩ target name) ∧
      ∃ later target m earlier,
        (Chronicle.of {} (fun _ => 0) runs).log = later ++ .used (.receiver target) m :: earlier ∧
        ∃ program c, YieldsReceiver program c ⟨earlier, m⟩ target := by
  let classes := "class A \x7b k() \x7b\x7d \x7d " ++
    "class B < A \x7b k() \x7b fun f() \x7b super.k(); this; \x7d return f; \x7d \x7d " ++
    "class C < B \x7b\x7d var f = C().k();"
  let runs := [(30, classes), (30, "f();")]
  have hsuper : (Chronicle.of {} (fun _ => 0) runs).log.any (fun event =>
      match event with
      | .used (.inherited _ _) _ => true
      | _ => false) = true := by decide +kernel
  have hthis : (Chronicle.of {} (fun _ => 0) runs).log.any (fun event =>
      match event with
      | .used (.receiver _) _ => true
      | _ => false) = true := by decide +kernel
  obtain ⟨-, hreceiver, hinherited, -⟩ := this_and_super_dispatch {} (fun _ => 0) runs
  obtain ⟨event, hmem, hevent⟩ := List.any_eq_true.1 hsuper
  obtain ⟨event', hmem', hevent'⟩ := List.any_eq_true.1 hthis
  split at hevent
  · rename_i target name m
    split at hevent'
    · rename_i target' m'
      obtain ⟨later, earlier, hlog⟩ := List.append_of_mem hmem
      obtain ⟨later', earlier', hlog'⟩ := List.append_of_mem hmem'
      obtain ⟨program, _, c, _, hyields⟩ := hinherited later target name m earlier hlog
      obtain ⟨program', _, c', _, hyields'⟩ := hreceiver later' target' m' earlier' hlog'
      exact ⟨runs, later, target, name, m, earlier, hlog, ⟨program, c, hyields⟩, later', target', m',
        earlier', hlog', program', c', hyields'⟩
    · cases hevent'
  · cases hevent

end LoxLang
