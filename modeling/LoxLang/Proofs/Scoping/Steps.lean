import LoxLang.Proofs.Effect
import LoxLang.Proofs.Scoping.Rules

/-!
# The steps of the evaluator

Names, properties, classes and the functions of the language: each of them keeps the invariant of a run, and
the values that it yields belong to places of the program.
-/

namespace LoxLang

section
variable {programs : List (List Stmt)} {α : Type} {own : Option ScopeId} {now : Moment}
variable {post : α → Moment → Prop}

/-! ## Effects beside the scopes -/

theorem Ends.aside {effect : Effect α} (hg : Good programs now)
    (hs : (effect now.machine).machine.store.scopes = now.store.scopes)
    (hc : (effect now.machine).machine.current = now.machine.current)
    (ho : (effect now.machine).machine.globals = now.machine.globals)
    (hd : (effect now.machine).machine.depths = now.machine.depths)
    (hi : ∀ list, ∀ value ∈ (effect now.machine).machine.store.items list, GoodValue programs now value)
    (hf : ∀ object name value, (effect now.machine).machine.store.field? object name = some value →
      GoodValue programs now value)
    (hp : ∀ a m, effect now.machine = .done a m → Later none now ⟨now.log, m⟩ → post a ⟨now.log, m⟩)
    (hx : ∀ e m, effect now.machine = .failed e m → e.fault.Ordinary) :
    Ends programs own (.quiet effect) now post := by
  have h := hg.aside hs hc ho hd hi hf
  refine ⟨h.1, h.2.widen own, fun a m hr => ?_, hx⟩
  have hm : (Traced.quiet effect).after now = ⟨now.log, m⟩ := by
    change Moment.mk now.log (effect now.machine).machine = _
    rw [show effect now.machine = .done a m from hr]
    rfl
  rw [hm]
  refine hp a m hr ?_
  have hl := h.2
  rwa [show effect now.machine = .done a m from hr] at hl

theorem Ends.make {making : Store → α × Store} (hg : Good programs now)
    (hs : (making now.store).2.scopes = now.store.scopes)
    (hi : ∀ list, ∀ value ∈ (making now.store).2.items list, GoodValue programs now value)
    (hf : ∀ object name value, (making now.store).2.field? object name = some value →
      GoodValue programs now value)
    (hp : ∀ now', Later none now now' → post (making now.store).1 now') :
    Ends programs own (.quiet (.make making)) now post := by
  refine Ends.aside hg ?_ rfl rfl rfl ?_ ?_ ?_ ?_
  · exact hs
  · exact hi
  · exact hf
  · intro a m hr hl
    cases hr
    exact hp _ hl
  · intro e m hr
    cases hr

theorem Ends.modifyStore {change : Store → Store} (hg : Good programs now)
    (hs : (change now.store).scopes = now.store.scopes)
    (hi : ∀ list, ∀ value ∈ (change now.store).items list, GoodValue programs now value)
    (hf : ∀ object name value, (change now.store).field? object name = some value →
      GoodValue programs now value) :
    Ends programs own (.quiet (.modifyStore change)) now fun _ _ => True := by
  refine .aside hg hs rfl rfl rfl hi hf (fun _ _ _ _ => trivial) ?_
  intro e m hr
  cases hr

theorem Ends.onStore {line : Nat} {operation : Store → Except Fault α × Store} (hg : Good programs now)
    (hs : (operation now.store).2.scopes = now.store.scopes)
    (hi : ∀ list, ∀ value ∈ (operation now.store).2.items list, GoodValue programs now value)
    (hf : ∀ object name value, (operation now.store).2.field? object name = some value →
      GoodValue programs now value)
    (hp : ∀ a now', (operation now.store).1 = .ok a → Later none now now' → post a now')
    (hx : ∀ fault, (operation now.store).1 = .error fault → fault.Ordinary) :
    Ends programs own (.quiet (.onStore line operation)) now post := by
  apply Ends.aside hg
  · rw [onStore_machine]
    exact hs
  · rw [onStore_machine]
  · rw [onStore_machine]
  · rw [onStore_machine]
  · rw [onStore_machine]
    exact hi
  · rw [onStore_machine]
    exact hf
  · intro a m hr hl
    exact hp a _ (ok_of_onStore_done hr) hl
  · exact fun e m hr => hx _ (error_of_onStore_failed hr)

theorem Ends.onConsole {line : Nat} {operation : Console → Except Fault α × Console}
    (hg : Good programs now) (hx : ∀ fault, (operation now.machine.console).1 = .error fault →
      fault.Ordinary) :
    Ends programs own (.quiet (.onConsole line operation)) now fun _ _ => True := by
  apply Ends.aside hg
  · rw [onConsole_machine]
  · rw [onConsole_machine]
  · rw [onConsole_machine]
  · rw [onConsole_machine]
  · rw [onConsole_machine]
    exact hg.items
  · rw [onConsole_machine]
    exact hg.fields
  · exact fun _ _ _ _ => trivial
  · exact fun e m hr => hx _ (error_of_onConsole_failed hr)

theorem Ends.textOf {fuel : Nat} {value : Value} (hg : Good programs now) :
    Ends programs own (.quiet (.textOf fuel value)) now fun _ _ => True := by
  cases ht : now.store.text? fuel value with
  | none =>
    have hm : Effect.textOf fuel value now.machine = .outOfFuel now.machine := by
      unfold Effect.textOf
      rw [show now.machine.store.text? fuel value = none from ht]
    exact .of_stopped (congrArg (·, now.log) hm) (by simp) (by simp) hg (.refl own now)
  | some text =>
    have hm : Effect.textOf fuel value now.machine = .done text now.machine := by
      unfold Effect.textOf
      rw [show now.machine.store.text? fuel value = some text from ht]
    exact .of_done (congrArg (·, now.log) hm) hg (.refl own now) trivial

/-! ## Names -/

theorem Ends.readName {depth : Option Nat} {name : Name} (hg : Good programs now)
    (hn : ¬ Reserved name.text) :
    Ends programs own (.quiet (readName depth name)) now fun value now' =>
      GoodValue programs now' value := by
  unfold LoxLang.readName
  rw [Traced.quiet_bind]
  have hread : Ends programs own (.quiet (.read fun m =>
      (m.holder? depth name.text).bind fun holder => m.store.binding? holder name.text)) now
      fun found now' => ∀ value, found = some value → GoodValue programs now' value := by
    apply Ends.read hg
    intro value hv
    obtain ⟨holder, -, hb⟩ := Option.bind_eq_some_iff.1 hv
    exact hg.bindings _ _ _ hb
  apply hread.bind
  intro found now' hg' _ hp
  exact Ends.ofOption hg' hp fun _ => hn

theorem Ends.define {scope : ScopeId} {name : String} {value : Value} (hg : Good programs now)
    (hn : ¬ Reserved name) (hs : scope < now.store.scopes.size) (ho : own = some scope ∨ now.Bound scope name)
    (hv : Later own now ⟨now.log, { now.machine with store := now.store.define scope name value }⟩ →
      GoodValue programs ⟨now.log, { now.machine with store := now.store.define scope name value }⟩
        value) :
    Ends programs own (.quiet (.modifyStore fun s => s.define scope name value)) now fun _ now' =>
      now' = ⟨now.log, { now.machine with store := now.store.define scope name value }⟩ :=
  .of_done rfl (hg.define hn hs ho hv).1 (hg.define hn hs ho hv).2 rfl

/-- A binding is changed that a lookup found. -/
theorem Ends.rebind {line : Nat} {find : Machine → Option ScopeId} {name : String}
    {value : Value} (hg : Good programs now) (hn : ¬ Reserved name) (hv : GoodValue programs now value)
    (hf : ∀ m holder, find m = some holder → (m.store.binding? holder name).isSome) :
    Ends programs own (.quiet do
      let found ← Effect.read find
      let holder ← Effect.ofOption line (.undefinedVariable name) found
      Effect.modifyStore fun s => s.define holder name value) now fun _ _ => True := by
  have hread : Ends programs own (.quiet (.read find)) now fun found now' =>
      ∀ holder, found = some holder → now'.Bound holder name :=
    .read hg fun holder h => hf _ _ h
  rw [Traced.quiet_bind]
  apply hread.bind
  intro found now₁ hg₁ hl₁ hp
  have hfound : Ends programs own (.quiet (.ofOption line (.undefinedVariable name) found)) now₁
      fun holder now' => now'.Bound holder name := .ofOption hg₁ hp fun _ => hn
  rw [Traced.quiet_bind]
  apply hfound.bind
  intro holder now₂ hg₂ hl₂ hb
  refine (Ends.define hg₂ hn (Store.lt_size_of_bound hb) (.inr hb)
    ((hv.later hl₁).later hl₂).later).imp ?_
  exact fun _ _ _ _ => trivial

end

/-! ## Declarations -/

section
variable {programs : List (List Stmt)} {own : Option ScopeId} {now : Moment} {c : Context}

/-- What leaves the current scope alone keeps the context. -/
theorem Ends.keeping {α : Type} {t : Traced Event α} {post : α → Moment → Prop}
    (h : Ends programs none t now post) (hc : Current c now) (hg : Good programs now) :
    Ends programs own t now fun a now' => Current c now' ∧ post a now' :=
  (h.imp fun _ _ hl hp => ⟨hc.later hl hg.present, hp⟩).widen own

theorem Ends.carrying {α : Type} {t : Traced Event α} {post : α → Moment → Prop} {value : Value}
    (h : Ends programs own t now post) (hv : GoodValue programs now value) :
    Ends programs own t now fun a now' => GoodValue programs now' value ∧ post a now' :=
  h.imp fun _ _ hl hp => ⟨hv.later hl, hp⟩

theorem Current.define (hc : Current c now) (hg : Good programs now) {name : String} {value : Value}
    (hl : Later own now ⟨now.log,
      { now.machine with store := now.store.define now.machine.current name value }⟩) :
    Current (c.declare name true)
      ⟨now.log, { now.machine with store := now.store.define now.machine.current name value }⟩ := by
  have hself := Store.define_binding_self (hc.scopes.lt_size hg.present) name
  obtain ⟨setting, layers⟩ := c
  obtain ⟨hs, hx⟩ := hc
  cases layers with
  | nil => exact ⟨hs.later hl, fun layer h => by cases h⟩
  | cons layer outer =>
    have hx := hx layer rfl
    have hx' : ∀ other, Moment.Bound
        ⟨now.log, { now.machine with store := now.store.define now.machine.current name value }⟩
        now.machine.current other ↔ Table.get? other (Table.put name true layer.frame) = some true := by
      intro other
      unfold Moment.Bound Moment.store
      rw [hself, Table.get?_put]
      split
      · simp
      · exact hx other
    refine ⟨?_, ?_⟩
    · generalize hcur : now.machine.current = current at hs
      cases hs with
      | scope hne hlog hh hs hb ho =>
        have henclosing := hl.enclosing _ (Store.lt_size_of_enclosing hs)
        subst hcur
        exact .scope hne hlog (hh.later hl) (henclosing.trans hs) (fun other h => (hx' other).2 h)
          (ho.later hl)
    · intro found hf
      cases hf
      exact hx'

/-- A variable that is declared and not ready yet is not bound. -/
theorem Current.declare (hc : Current c now) {name : String}
    (hf : ∀ frame ∈ c.frames.head?, frame.has name = false) : Current (c.declare name false) now := by
  obtain ⟨setting, layers⟩ := c
  obtain ⟨hs, hx⟩ := hc
  cases layers with
  | nil => exact ⟨hs, hx⟩
  | cons layer outer =>
    have hx := hx layer rfl
    have hnone : Table.get? name layer.frame = none := by
      have hfalse := hf layer.frame rfl
      unfold Table.has at hfalse
      exact Option.isSome_eq_false_iff.1 hfalse |> Option.isNone_iff_eq_none.1
    have hx' : ∀ other, now.Bound now.machine.current other ↔
        Table.get? other (Table.put name false layer.frame) = some true := by
      intro other
      rw [Table.get?_put, hx other]
      split
      · rename_i h
        subst h
        simp [hnone]
      · rfl
    refine ⟨?_, ?_⟩
    · generalize hcur : now.machine.current = current at hs
      cases hs with
      | scope hne hlog hh hs hb ho =>
        subst hcur
        exact .scope hne hlog hh hs (fun other h => (hx' other).2 h) ho
    · intro found hf
      cases hf
      exact hx'

/-- A name is bound in the current scope to a value that may belong to a place behind the declaration. -/
theorem Ends.defineHere {name : String} {value : Value} (hg : Good programs now) (hc : Current c now)
    (hn : ¬ Reserved name) (hv : ∀ now', Later (some now.machine.current) now now' → Current (c.declare name true) now' →
      GoodValue programs now' value) :
    Ends programs (some now.machine.current) (.quiet (defineHere name value)) now fun _ now' =>
      Current (c.declare name true) now' := by
  have hd := @Ends.define programs (some now.machine.current) now now.machine.current name value hg hn
    (hc.scopes.lt_size hg.present) (.inl rfl) fun hl => hv _ hl (hc.define hg hl)
  unfold LoxLang.defineHere
  rw [Traced.quiet_bind]
  have hread : Ends programs (some now.machine.current) (.quiet .currentScope) now fun scope now' =>
      scope = now.machine.current ∧ now' = now := .read hg ⟨rfl, rfl⟩
  apply hread.bind
  rintro scope now' _ _ ⟨rfl, rfl⟩
  apply hd.imp
  rintro _ _ hl he
  rw [he] at hl ⊢
  exact hc.define hg hl

end

/-! ## Properties -/

section
variable {programs : List (List Stmt)} {now : Moment}

theorem readReference_traced (node : Expr) (target : Reference) (log : History) (m : Machine) :
    (tracing.readReference node target).onto log m = (readReference target m, .used node m :: log) :=
  Traced.bind_done rfl

/-- A name is read; `this` only where it is bound. -/
theorem Ends.readReference {node : Expr} {target : Reference} (hg : Good programs now)
    (hj : Justified programs now node) (hn : Reserved target.name.text →
      ∃ value, readReference target now.machine = .done value now.machine) :
    Ends programs none (tracing.readReference node target) now fun value now' => GoodValue programs now' value ∧
      now'.log = .used node now.machine :: now.log ∧
      readReference target now.machine = .done value now.machine := by
  have he := readReference_traced node target now.log now.machine
  obtain ⟨hg', hl⟩ := hg.use hj
  rcases readReference_cases target now.machine with ⟨value, scope, hb, hr⟩ | hr
  · rw [hr] at he
    have hvalue : GoodValue programs now value := hg.bindings _ _ _ hb
    exact .of_done he hg' hl ⟨hvalue.later hl, rfl, hr⟩
  · rw [hr] at he
    refine .of_stopped he (by simp) (fun e m hfailed => ?_) hg' hl
    cases hfailed
    intro hreserved
    obtain ⟨value, hvalue⟩ := hn hreserved
    rw [hr] at hvalue
    cases hvalue

theorem Ends.receiver {target : Reference} (hg : Good programs now)
    (hj : Justified programs now (.receiver target)) :
    Ends programs none (tracing.readReference (.receiver target) target) now fun value now' =>
      GoodValue programs now' value := by
  have hthis : ∃ value, LoxLang.readReference target now.machine = .done value now.machine := by
    obtain ⟨ho, program, _, hprepared, c, hu, hc⟩ := hj
    obtain ⟨_, _, _, id, class_, _, _, hread⟩ := hc.receiver ho hprepared hu
    exact ⟨.instanceOf id class_, hread⟩
  exact (Ends.readReference hg hj fun _ => hthis).imp fun _ _ _ h => h.1

theorem Ends.combine {operator : AssignOperator} {line : Nat} {value : Value} {old : Traced Event Value}
    (hg : Good programs now) (hv : GoodValue programs now value)
    (ho : Ends programs none old now fun _ _ => True) :
    Ends programs none (tracing.combine operator line value old) now fun result now' =>
      GoodValue programs now' result := by
  cases operator with
  | plain => exact .yield hg hv
  | compound operator =>
    apply ho.bind
    intro old now' hg' _ _
    exact .ofExcept hg' (fun _ h => (BinaryOperator.apply_codeFree h).good)
      fun _ => BinaryOperator.apply_fault

/-- An assignment behind its value. -/
theorem Ends.assignName {node : Expr} {target : Reference} {operator : AssignOperator} {value : Value}
    (hg : Good programs now) (hj : Justified programs now node) (hn : ¬ Reserved target.name.text)
    (hv : GoodValue programs now value) :
    Ends programs none (tracing.assignName node target operator value) now fun result now' =>
      GoodValue programs now' result := by
  apply ((Ends.depthOf hg hj).carrying hv).bind
  rintro depth now₁ hg₁ _ ⟨hv₁, -⟩
  have hold : Ends programs none (.quiet (LoxLang.readName depth target.name)) now₁ fun _ _ => True :=
    (Ends.readName hg₁ hn).imp fun _ _ _ _ => trivial
  apply (Ends.combine hg₁ hv₁ hold).bind
  intro result now₂ hg₂ _ hresult
  have hwrite : Ends programs none (.quiet (writeName depth target.name result)) now₂ fun _ _ => True :=
    .rebind hg₂ hn hresult fun _ _ h => holder_bound h
  apply (hwrite.carrying hresult).bind
  rintro _ now₃ hg₃ _ ⟨hresult₃, -⟩
  exact .yield hg₃ hresult₃

/-- A method that is bound to an instance has a scope for `this`. -/
theorem Ends.bindReceiver {method : Closure} {id : InstanceId} {class_ : ClassObject}
    (hg : Good programs now) (hm : GoodMethod programs now method) (hc : GoodClass programs now class_) :
    Ends programs none (tracing.bindReceiver method (.instanceOf id class_)) now fun f now' =>
      GoodClosure programs now' f ∧ f.declaration = method.declaration := by
  obtain ⟨program, hp, c, outer, hs, hl, he⟩ := hm
  have hr : GoodValue programs now (.instanceOf id class_) := hc
  have hbind := hg.binding (he.lt_size hg.present) hr
  have hscopes := Encloses.binding hg he hbind.2
  rw [← hl] at hscopes
  have hclosure : GoodClosure programs (now.binding method (.instanceOf id class_))
      { method with scope := now.store.scopes.size } :=
    ⟨program, hp, c, hs, hscopes, fun _ => ⟨outer, hl⟩⟩
  exact .of_done rfl hbind.1 hbind.2 ⟨hclosure, rfl⟩

theorem Ends.newFunction {own : Option ScopeId} {f : Closure} (hg : Good programs now) :
    Ends programs own (.quiet (newFunction f)) now fun value _ => ∃ id, value = .function id f := by
  unfold LoxLang.newFunction
  rw [Traced.quiet_bind]
  have hmake : Ends programs own (.quiet (.make Store.newIdentity)) now fun _ _ => True :=
    .make hg rfl hg.items hg.fields fun _ _ => trivial
  apply hmake.bind
  intro id now' hg' _ _
  exact .yield hg' ⟨id, rfl⟩

theorem Ends.boundMethod {method : Closure} {id : InstanceId} {class_ : ClassObject}
    (hg : Good programs now) (hm : GoodMethod programs now method) (hc : GoodClass programs now class_) :
    Ends programs none (tracing.boundMethod method (.instanceOf id class_)) now fun value now' =>
      GoodValue programs now' value := by
  apply (Ends.bindReceiver hg hm hc).bind
  intro f now' hg' _ hf
  apply (Ends.newFunction hg').imp
  rintro _ _ hl ⟨id, rfl⟩
  exact hf.1.later hl

theorem Ends.instanceProperty {id : InstanceId} {class_ : ClassObject} {name : Name}
    (hg : Good programs now) (hc : GoodClass programs now class_) :
    Ends programs none (tracing.instanceProperty id class_ name) now fun value now' =>
      GoodValue programs now' value := by
  have hread : Ends programs none (.quiet (.read fun m => m.store.field? id name.text)) now
      fun found now' => ∀ value, found = some value → GoodValue programs now' value :=
    .read hg fun value h => hg.fields _ _ _ h
  apply hread.bind
  intro found now' hg' hl hf
  cases found with
  | some value => exact .yield hg' (hf value rfl)
  | none =>
    dsimp only
    cases hm : class_.method? name.text with
    | none => exact .fail hg' trivial
    | some method =>
      have hc' : GoodClass programs now' class_ := hc.later hl
      exact .boundMethod hg' (hc' _ _ hm).1 hc'

theorem Ends.property {object : Value} {name : Name} (hg : Good programs now)
    (ho : GoodValue programs now object) :
    Ends programs none (tracing.property object name) now fun value now' => GoodValue programs now' value := by
  cases object with
  | instanceOf id class_ => exact .instanceProperty hg ho
  | list id =>
    unfold Operations.property
    dsimp only
    cases ListMethod.ofName? name.text with
    | some method => exact .yield hg trivial
    | none => exact .fail hg trivial
  | _ => exact .fail hg trivial

/-- `super` is bound to a class wherever it is used, and `this` to an instance. -/
theorem Ends.inheritedMethod {target : Reference} {name : Name} (hg : Good programs now)
    (hj : Justified programs now (.inherited target name)) :
    Ends programs none (tracing.inheritedMethod (.inherited target name) target name) now fun value now' =>
      GoodValue programs now' value := by
  obtain ⟨ho, program, _, hprepared, c, hu, hc⟩ := id hj
  obtain ⟨place, inner, method, id, class_, found, -, hfinds⟩ := hc.inherited ho hprepared hu
  have he := @inheritedMethod_at (.inherited target name) target name now.log now.machine _ _ _ _
    hfinds.depth hfinds.super hfinds.this
  obtain ⟨hg', hl⟩ := hg.use hj
  refine @Ends.of_eq _ _ _ _ _ _ ⟨.used (.inherited target name) now.machine :: now.log, now.machine⟩ _
    he hl ?_
  cases hm : found.method? name.text with
  | none => exact .fail hg' trivial
  | some method =>
    have hfound : GoodClass programs now found := hg.bindings _ _ _ hfinds.super
    have hclass : GoodClass programs now class_ := hg.bindings _ _ _ hfinds.this
    exact .boundMethod hg' ((hfound _ _ hm).1.later hl) (hclass.later hl)

theorem Ends.itemOf {list : ListId} {index : Value} {line : Nat} (hg : Good programs now) :
    Ends programs none (.quiet (itemOf list index line)) now fun value now' =>
      GoodValue programs now' value := by
  unfold LoxLang.itemOf
  rw [Traced.quiet_bind]
  have hread : Ends programs none (.quiet (.read fun m => m.store.itemAt list index)) now
      fun found now' => (∀ value, found = .ok value → GoodValue programs now' value) ∧
        ∀ fault, found = .error fault → fault.Ordinary := by
    apply Ends.read hg
    refine ⟨fun value h => ?_, fun _ => Store.itemAt_fault⟩
    rcases Store.itemAt_cases h with rfl | h
    · trivial
    · exact hg.items _ _ h
  apply hread.bind
  rintro found now' hg' _ ⟨hvalue, hfault⟩
  exact .ofExcept hg' hvalue hfault

theorem Ends.makeList {values : Array Value} (hg : Good programs now)
    (hv : ∀ value ∈ values, GoodValue programs now value) :
    Ends programs none (.quiet (.make fun s => s.newList values)) now fun _ _ => True := by
  refine Ends.make hg rfl ?_ hg.fields fun _ _ => trivial
  intro list value h
  rcases Store.mem_items_newList h with h | h
  · exact hv value h
  · exact hg.items _ _ h

theorem Ends.setField {id : InstanceId} {name : String} {value : Value} (hg : Good programs now)
    (hv : GoodValue programs now value) :
    Ends programs none (.quiet (.modifyStore fun s => s.setField id name value)) now fun _ now' =>
      GoodValue programs now' value := by
  refine (Ends.modifyStore hg rfl hg.items ?_).imp fun _ _ hl _ => hv.later hl
  intro object found value h
  rcases Store.field_setField h with rfl | h
  · exact hv
  · exact hg.fields _ _ _ h

theorem Ends.setItemAt {list : ListId} {index value : Value} {line : Nat} (hg : Good programs now)
    (hv : GoodValue programs now value) :
    Ends programs none (.quiet (.onStore line fun s => s.setItemAt list index value)) now fun _ now' =>
      GoodValue programs now' value := by
  have hscopes := Store.setItemAt_scopes now.store list index value
  refine Ends.onStore hg hscopes.1 ?_ ?_ (fun _ _ _ hl => hv.later hl) fun _ => Store.setItemAt_fault
  · intro found value h
    rcases Store.mem_items_setItemAt h with rfl | ⟨list, h⟩
    · exact hv
    · exact hg.items _ _ h
  · intro object found value h
    unfold Store.field? at h
    rw [hscopes.2] at h
    exact hg.fields _ _ _ h

theorem Ends.newList {items : List Value} (hg : Good programs now)
    (hv : ∀ value ∈ items, GoodValue programs now value) :
    Ends programs none (tracing.newList items) now fun value now' => GoodValue programs now' value := by
  apply (Ends.makeList hg fun value h => hv value (List.mem_toArray.1 h)).bind
  intro id now' hg' _ _
  exact .yield hg' trivial

theorem Ends.assignField {id : InstanceId} {class_ : ClassObject} {name : Name} {operator : AssignOperator}
    {value : Value} (hg : Good programs now) (hc : GoodClass programs now class_)
    (hv : GoodValue programs now value) :
    Ends programs none (tracing.assignField id class_ name operator value) now fun result now' =>
      GoodValue programs now' result := by
  have hold : Ends programs none (tracing.instanceProperty id class_ name) now fun _ _ => True :=
    (Ends.instanceProperty hg hc).imp fun _ _ _ _ => trivial
  apply (Ends.combine hg hv hold).bind
  intro result now₁ hg₁ _ hresult
  apply (Ends.setField hg₁ hresult).bind
  intro _ now₂ hg₂ _ hresult₂
  exact .yield hg₂ hresult₂

theorem Ends.assignItem {list : ListId} {index : Value} {operator : AssignOperator} {line : Nat}
    {value : Value} (hg : Good programs now) (hv : GoodValue programs now value) :
    Ends programs none (tracing.assignItem list index operator line value) now fun result now' =>
      GoodValue programs now' result := by
  have hold : Ends programs none (.quiet (LoxLang.itemOf list index line)) now fun _ _ => True :=
    (Ends.itemOf hg).imp fun _ _ _ _ => trivial
  apply (Ends.combine hg hv hold).bind
  intro result now₁ hg₁ _ hresult
  apply (Ends.setItemAt hg₁ hresult).bind
  intro _ now₂ hg₂ _ hresult₂
  exact .yield hg₂ hresult₂

/-! ## The functions of the language -/

theorem Ends.builtin {builtin : Builtin} {fuel : Nat} {arguments : List Value} {line : Nat}
    (hg : Good programs now) :
    Ends programs none (.quiet (builtin.call fuel arguments line)) now fun value now' =>
      GoodValue programs now' value := by
  unfold Builtin.call
  split
  · rw [Traced.quiet_bind]
    apply (Ends.textOf hg).bind
    intro text now₁ hg₁ _ _
    rw [Traced.quiet_bind]
    apply (Ends.onConsole hg₁ fun _ => Console.write_fault).bind
    intro _ now₂ hg₂ _ _
    exact .yield hg₂ trivial
  · refine Ends.aside hg rfl rfl rfl rfl ?_ ?_ ?_ ?_
    · exact hg.items
    · exact hg.fields
    · intro a m h _
      cases h
      trivial
    · intro e m h
      cases h
  · rw [Traced.quiet_bind]
    apply (Ends.textOf hg).bind
    intro text now₁ hg₁ _ _
    rw [Traced.quiet_bind]
    apply (Ends.onConsole hg₁ fun _ => Console.write_fault).bind
    intro _ now₂ hg₂ _ _
    unfold Effect.readLine
    rw [Traced.quiet_bind]
    apply (Ends.onConsole hg₂ fun _ => Console.readLine_fault).bind
    intro line now₃ hg₃ _ _
    cases line with
    | some text => exact .yield hg₃ trivial
    | none => exact .yield hg₃ trivial
  · exact .ofExcept hg (fun _ h => (Value.toInteger_codeFree h).good) fun _ => Value.toInteger_fault
  · exact .ofExcept hg (fun _ h => (Value.toFloating_codeFree h).good) fun _ => Value.toFloating_fault
  · rw [Traced.quiet_bind]
    apply (Ends.textOf hg).bind
    intro text now₁ hg₁ _ _
    exact .yield hg₁ trivial
  · exact .yield hg trivial
  · rw [Traced.quiet_bind]
    apply (Ends.makeList hg fun value h => absurd h (Array.not_mem_empty value)).bind
    intro id now' hg' _ _
    exact .yield hg' trivial
  · exact .fail hg trivial

end

/-! ## Classes -/

section
variable {programs : List (List Stmt)} {now : Moment} {c : Context} {program : List Stmt}

/-- What a class statement makes of a method: a closure over the scope of its methods, which is an initializer if
it goes by the name of one. -/
structure MadeFrom (scope : ScopeId) (methods : List FunctionDecl) (name : String) (f : Closure) : Prop where
  declared : f.declaration ∈ methods
  scope : f.scope = scope
  initializer : f.isInitializer = (name == initializerName)

theorem methodTable_get {scope : ScopeId} {methods : List FunctionDecl} {name : String} {f : Closure}
    (h : (methodTable scope methods).get? name = some f) : MadeFrom scope methods name f := by
  rcases Table.of_get?_foldl_put h with ⟨declaration, hd, rfl, rfl⟩ | h
  · exact ⟨hd, rfl, rfl⟩
  · cases h

/-- The last thing that happened is that the name of the superclass was evaluated, to this class. -/
def JustRead (log : History) (superclass : Option Reference) (class_ : ClassObject) : Prop :=
  ∃ target m earlier, superclass = some target ∧ log = .used (.reference target) m :: earlier ∧
    readReference target m = .done (.classObject class_) m

theorem Ends.superclassOf {line : Nat} {superclass : Option Reference} (hg : Good programs now)
    (hj : ∀ target, superclass = some target →
      Justified programs now (.reference target) ∧ ¬ Reserved target.name.text) :
    Ends programs none (tracing.superclassOf line superclass) now fun found now' =>
      found.isSome = superclass.isSome ∧ ∀ c, found = some c →
        GoodClass programs now' c ∧ JustRead now'.log superclass c := by
  cases superclass with
  | none => exact .yield hg ⟨rfl, by simp⟩
  | some target =>
    obtain ⟨hj, hn⟩ := hj target rfl
    apply (Ends.readReference hg hj fun h => absurd h hn).bind
    rintro value now' hg' _ ⟨hv, hlog, hread⟩
    cases value with
    | classObject c =>
      refine .yield hg' ⟨rfl, fun c' h => ?_⟩
      cases h
      exact ⟨hv, target, now.machine, now.log, rfl, hlog, hread⟩
    | _ => exact .fail hg' trivial

theorem Ends.methodScope {name : Name} {superclass : Option Reference} {methods : List FunctionDecl}
    {found : Option ClassObject} (hg : Good programs now)
    (hc : Current (c.declare name.text true) now) (hs : found.isSome = superclass.isSome)
    (hf : ∀ c, found = some c → GoodClass programs now c ∧ JustRead now.log superclass c) :
    Ends programs none (tracing.methodScope name superclass methods found) now fun scope now' =>
      Encloses now' (c.class_ name superclass methods).layers scope := by
  cases found with
  | none =>
    cases superclass with
    | some target => cases hs
    | none => exact .read hg hc.scopes
  | some class_ =>
    obtain ⟨hclass, target, m, earlier, rfl, hlog, hread⟩ := hf class_ rfl
    have hscope : Ends programs none (.quiet .currentScope) now fun scope now' =>
        scope = now.machine.current ∧ now' = now := .read hg ⟨rfl, rfl⟩
    apply hscope.bind
    rintro scope now' _ _ ⟨rfl, rfl⟩
    apply Ends.opened ⟨.superclass name (some target) methods, [("super", true)]⟩ hg hc.scopes
    · intro key value h
      cases (Table.get?_single h).2
      exact hclass
    · have hextends : Extends (now'.opening (.superclass name (some target) methods)
          [("super", .classObject class_)] now'.machine.current).log now'.store.scopes.size name target methods
          class_ := ⟨[], m, earlier, congrArg (List.cons _) hlog, hread⟩
      exact ⟨target, class_, rfl, hextends, now'.opening_binding ..⟩
    · intro key h
      cases (Table.get?_single h).1
      rfl

/-- The methods of a class stand in the class and those that it inherits in the class that it extends. -/
theorem goodClass_of_methods {name : Name} {superclass : Option Reference} {methods : List FunctionDecl}
    {id : Identity} {found : Option ClassObject} {scope : ScopeId} (hp : program ∈ programs)
    (hstands : Stands program c (.stmt (.declareClass name superclass methods)))
    (he : Encloses now (c.class_ name superclass methods).layers scope)
    (hf : ∀ c, found = some c → GoodClass programs now c) :
    GoodClass programs now ⟨id, name.text, found, methodTable scope methods⟩ := by
  intro key f h
  unfold ClassObject.method? at h
  split at h
  · rename_i hm
    cases h
    obtain ⟨hd, hscope, hinitializer⟩ := methodTable_get hm
    have hmethod : GoodMethod programs now f :=
      ⟨program, hp, c.method name superclass methods f.declaration, _, hstands.method hd, rfl, hscope ▸ he⟩
    exact ⟨hmethod, hinitializer⟩
  · cases found with
    | none => cases h
    | some class_ => exact hf class_ rfl key f h

theorem Ends.defineClass {name : Name} {superclass : Option Reference} {methods : List FunctionDecl}
    (hg : Good programs now) (hc : Current c now) (hp : program ∈ programs)
    (hstands : Stands program c (.stmt (.declareClass name superclass methods)))
    (hn : ¬ Reserved name.text) (hj : ∀ target, superclass = some target →
      Justified programs now (.reference target) ∧ ¬ Reserved target.name.text) :
    Ends programs (some now.machine.current) (tracing.defineClass name superclass methods) now
      fun _ now' => Current (c.declare name.text true) now' := by
  apply ((Ends.superclassOf hg hj).keeping hc hg).bind
  rintro found now₁ hg₁ hl₁ ⟨hc₁, hsome, hf₁⟩
  have hhere : Ends programs (some now.machine.current) (.quiet (LoxLang.defineHere name.text .nil))
      now₁ fun _ now' => Current (c.declare name.text true) now' ∧
        ∀ c, found = some c → GoodClass programs now' c ∧ JustRead now'.log superclass c := by
    have h := @Ends.defineHere programs now₁ c name.text .nil hg₁ hc₁ hn fun _ _ _ => trivial
    rw [hl₁.current] at h
    exact h.imp fun _ _ hl hc => ⟨hc, fun c h => ⟨(hf₁ c h).1.later hl, (hf₁ c h).2⟩⟩
  apply hhere.bind
  rintro _ now₂ hg₂ hl₂ ⟨hc₂, hf₂⟩
  have hscope : Ends programs none (tracing.methodScope name superclass methods found) now₂ fun scope now' =>
      Encloses now' (c.class_ name superclass methods).layers scope ∧
        ∀ c, found = some c → GoodClass programs now' c :=
    (Ends.methodScope hg₂ hc₂ hsome hf₂).imp fun _ _ hl he => ⟨he, fun c h => (hf₂ c h).1.later hl⟩
  apply (hscope.keeping hc₂ hg₂).bind
  rintro scope now₃ hg₃ hl₃ ⟨hc₃, he₃, hf₃⟩
  rw [methodsIn_eq]
  have htable : Ends programs (some now.machine.current) (.quiet (pure (methodTable scope methods))) now₃
      fun table now' => table = methodTable scope methods ∧ now' = now₃ := .yield hg₃ ⟨rfl, rfl⟩
  apply htable.bind
  rintro _ now₃ hg₃ _ ⟨rfl, rfl⟩
  have hmake : Ends programs none (.quiet (.make Store.newIdentity)) now₃ fun _ now' =>
      Encloses now' (c.class_ name superclass methods).layers scope ∧
        ∀ c, found = some c → GoodClass programs now' c :=
    .make hg₃ rfl hg₃.items hg₃.fields fun _ hl => ⟨he₃.later hl, fun c h => (hf₃ c h).later hl⟩
  apply (hmake.keeping hc₃ hg₃).bind
  rintro id now₄ hg₄ hl₄ ⟨hc₄, he₄, hf₄⟩
  have hclass : GoodValue programs now₄
      (.classObject ⟨id, name.text, found, methodTable scope methods⟩) :=
    goodClass_of_methods hp hstands he₄ hf₄
  have hrebind := @Ends.rebind programs none now₄ name.line
    (fun m => m.store.binder? m.current name.text) name.text _ hg₄ hn hclass
    fun _ _ h => Store.binder_bound h
  exact (hrebind.keeping hc₄ hg₄).imp fun _ _ _ h => h.1

end

end LoxLang
