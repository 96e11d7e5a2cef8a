import LoxLang.Proofs.Scoping.Steps

/-!
# The invariant along a run

By induction on the fuel: a part of a program that is run in its context ends at a good moment, and behind a
statement the context is the one that the text has behind it.
-/

namespace LoxLang

/-- What a flow says about the moment behind a statement. -/
def FlowsTo (programs : List (List Stmt)) (c : Context) : Flow → Moment → Prop
  | .normal, now => Current c now
  | .returned value, now => GoodValue programs now value

def Returns (programs : List (List Stmt)) (flow : Flow) (now : Moment) : Prop :=
  ∀ value, flow = .returned value → GoodValue programs now value

theorem FlowsTo.returns {programs : List (List Stmt)} {c : Context} {flow : Flow} {now : Moment}
    (h : FlowsTo programs c flow now) : Returns programs flow now := by
  rintro value rfl
  exact h

/-- With this much fuel every part of the programs keeps the invariant. -/
structure Keeps (programs : List (List Stmt)) (fuel : Nat) : Prop where
  evaluate {now : Moment} {program : List Stmt} {c : Context} {e : Expr} : Good programs now →
    program ∈ programs → Stands program c (.expr e) → Current c now →
    Ends programs none ((traced fuel).evaluate e) now fun value now' => GoodValue programs now' value
  evaluateAll {now : Moment} {program : List Stmt} {c : Context} {es : List Expr} : Good programs now →
    program ∈ programs → (∀ e ∈ es, Stands program c (.expr e)) → Current c now →
    Ends programs none ((traced fuel).evaluateAll es) now fun values now' =>
      ∀ value ∈ values, GoodValue programs now' value
  call {now : Moment} {callee : Value} {arguments : List Value} {line : Nat} : Good programs now →
    GoodValue programs now callee → (∀ value ∈ arguments, GoodValue programs now value) →
    Ends programs none ((traced fuel).call callee arguments line) now fun value now' =>
      GoodValue programs now' value
  callClosure {now : Moment} {f : Closure} {arguments : List Value} : Good programs now →
    GoodClosure programs now f → (∀ value ∈ arguments, GoodValue programs now value) →
    arguments.length = f.arity →
    Ends programs none ((traced fuel).callClosure f arguments) now fun value now' =>
      GoodValue programs now' value
  instantiate {now : Moment} {class_ : ClassObject} {arguments : List Value} : Good programs now →
    GoodClass programs now class_ → (∀ value ∈ arguments, GoodValue programs now value) →
    arguments.length = class_.arity →
    Ends programs none ((traced fuel).instantiate class_ arguments) now fun value now' =>
      GoodValue programs now' value
  execute {now : Moment} {program : List Stmt} {c : Context} {s : Stmt} : Good programs now →
    program ∈ programs → Stands program c (.stmt s) → Current c now →
    Ends programs (some now.machine.current) ((traced fuel).execute s) now
      (FlowsTo programs (c.behind s))
  executeAll {now : Moment} {program : List Stmt} {c : Context} {body : List Stmt} : Good programs now →
    program ∈ programs → Stands program c (.body body) → Current c now →
    Ends programs (some now.machine.current) ((traced fuel).executeAll body) now (Returns programs)
  executeLoop {now : Moment} {program : List Stmt} {c : Context} {condition : Expr} {body : Stmt} :
    Good programs now → program ∈ programs → Stands program c (.stmt (.loop condition body)) →
    Current c now →
    Ends programs (some now.machine.current) ((traced fuel).executeLoop condition body) now
      (FlowsTo programs c)

theorem Good.justified {programs : List (List Stmt)} {now : Moment} {program : List Stmt} {c : Context}
    {node : Expr} (hg : Good programs now) (hp : program ∈ programs) (hu : Uses program c node)
    (hc : Current c now) : Justified programs now node :=
  ⟨hg.toOrderly, program, hp, hg.prepared program hp, c, hu, hc⟩

/-- Inside of a new scope, the names that it binds are those that are ready. -/
theorem Current.entered {c : Context} {now : Moment} {site : Site} {frame : Frame} {scope : ScopeId}
    (he : Encloses now (⟨site, frame⟩ :: c.layers) scope)
    (hx : ∀ name, now.Bound scope name ↔ frame.get? name = some true) :
    Current (c.enter site frame) (now.at scope) := by
  constructor
  · exact he.at scope
  · intro layer hl
    cases hl
    exact hx

/-- The name of a superclass is used where the class statement stands. -/
theorem Good.justifiedSuperclass {programs : List (List Stmt)} {now : Moment} {program : List Stmt}
    {c : Context} {name : Name} {superclass : Option Reference} {methods : List FunctionDecl}
    (hg : Good programs now) (hp : program ∈ programs)
    (hs : Stands program c (.stmt (.declareClass name superclass methods))) (hc : Current c now) :
    ∀ target, superclass = some target →
      Justified programs now (.reference target) ∧ ¬ Reserved target.name.text := by
  rintro target rfl
  have htarget : target.name.Free := (hs.named (hg.prepared program hp).named).2.1
  exact ⟨hg.justified hp (.superclass hs) hc, htarget.not_reserved⟩

section Step
variable {programs : List (List Stmt)} {fuel : Nat} {now : Moment} {program : List Stmt} {c : Context}

theorem Keeps.operand (ih : Keeps programs fuel) (hg : Good programs now) (hp : program ∈ programs)
    {e operand : Expr} (hs : Stands program c (.expr e)) (ho : operand ∈ e.parts) (hc : Current c now) :
    Ends programs none ((traced fuel).evaluate operand) now fun value now' =>
      Current c now' ∧ GoodValue programs now' value :=
  (ih.evaluate hg hp (hs.part ho) hc).keeping hc hg

theorem keeps_evaluate (ih : Keeps programs fuel) {e : Expr} (hg : Good programs now)
    (hp : program ∈ programs) (hs : Stands program c (.expr e)) (hc : Current c now) :
    Ends programs none (tracing.roundEvaluate (traced fuel) e) now fun value now' =>
      GoodValue programs now' value := by
  have hnamed := (hg.prepared program hp).named
  cases e with
  | literal value => exact .yield hg (value.value_codeFree).good
  | grouping inner => exact ih.evaluate hg hp (hs.part (List.mem_singleton_self _)) hc
  | unary operator line right =>
    apply (ih.operand hg hp hs (List.mem_singleton_self _) hc).bind
    rintro value now₁ hg₁ _ ⟨_, _⟩
    exact .ofExcept hg₁ (fun _ h => (UnaryOperator.apply_codeFree h).good) fun _ => UnaryOperator.apply_fault
  | binary left operator line right =>
    apply (ih.operand hg hp hs List.mem_cons_self hc).bind
    rintro first now₁ hg₁ _ ⟨hc₁, _⟩
    apply (ih.operand hg₁ hp hs (List.mem_cons_of_mem _ (List.mem_singleton_self _)) hc₁).bind
    rintro second now₂ hg₂ _ ⟨_, _⟩
    exact .ofExcept hg₂ (fun _ h => (BinaryOperator.apply_codeFree h).good) fun _ => BinaryOperator.apply_fault
  | logical left operator right =>
    apply (ih.operand hg hp hs List.mem_cons_self hc).bind
    rintro value now₁ hg₁ _ ⟨hc₁, hv⟩
    have hright := ih.evaluate hg₁ hp
      (hs.part (List.mem_cons_of_mem _ (List.mem_singleton_self _))) hc₁
    cases operator <;> cases value.isTruthy <;> first | exact .yield hg₁ hv | exact hright
  | reference target =>
    have hfree : target.name.Free := hs.named hnamed
    have hread := Ends.readReference hg (hg.justified hp (.part hs) hc) fun h => absurd h hfree.not_reserved
    exact hread.imp fun _ _ _ h => h.1
  | assign target operator value =>
    have hfree : target.name.Free := (hs.named hnamed).1
    apply (ih.operand hg hp hs (List.mem_singleton_self _) hc).bind
    rintro right now₁ hg₁ _ ⟨hc₁, hright⟩
    exact .assignName hg₁ (hg₁.justified hp (.part hs) hc₁) hfree.not_reserved hright
  | call callee style line arguments =>
    apply (ih.operand hg hp hs List.mem_cons_self hc).bind
    rintro f now₁ hg₁ _ ⟨hc₁, hf⟩
    have harguments := ih.evaluateAll hg₁ hp (fun e he => hs.part (List.mem_cons_of_mem _ he)) hc₁
    apply (harguments.carrying hf).bind
    rintro values now₂ hg₂ _ ⟨hf₂, hvalues⟩
    exact ih.call hg₂ hf₂ hvalues
  | list line elements =>
    apply (ih.evaluateAll hg hp (fun e he => hs.part he) hc).bind
    intro values now₁ hg₁ _ hvalues
    exact .newList hg₁ hvalues
  | get object name =>
    apply (ih.operand hg hp hs (List.mem_singleton_self _) hc).bind
    rintro found now₁ hg₁ _ ⟨_, hfound⟩
    exact .property hg₁ hfound
  | set object name operator value =>
    apply (ih.operand hg hp hs List.mem_cons_self hc).bind
    rintro found now₁ hg₁ _ ⟨hc₁, hfound⟩
    cases found with
    | instanceOf id class_ =>
      have hvalue := ih.evaluate hg₁ hp
        (hs.part (List.mem_cons_of_mem _ (List.mem_singleton_self _))) hc₁
      apply (hvalue.carrying hfound).bind
      rintro right now₂ hg₂ _ ⟨hclass, hright⟩
      exact .assignField hg₂ hclass hright
    | _ => exact .fail hg₁ trivial
  | setElement object arguments operator line value =>
    apply (ih.operand hg hp hs List.mem_cons_self hc).bind
    rintro found now₁ hg₁ _ ⟨hc₁, _⟩
    cases found with
    | list id =>
      have harguments := ih.evaluateAll hg₁ hp
        (fun e he => hs.part (List.mem_cons_of_mem _ (List.mem_cons_of_mem _ he))) hc₁
      apply (harguments.keeping hc₁ hg₁).bind
      rintro indices now₂ hg₂ _ ⟨hc₂, hindices⟩
      rcases indices with _ | ⟨index, _ | ⟨_, _⟩⟩
      · exact .fail hg₂ trivial
      · apply (ih.operand hg₂ hp hs (List.mem_cons_of_mem _ List.mem_cons_self) hc₂).bind
        rintro right now₃ hg₃ _ ⟨_, hright⟩
        exact .assignItem hg₃ hright
      · exact .fail hg₂ trivial
    | _ => exact .fail hg₁ trivial
  | receiver target => exact .receiver hg (hg.justified hp (.part hs) hc)
  | inherited target method => exact .inheritedMethod hg (hg.justified hp (.part hs) hc)

theorem keeps_evaluateAll (ih : Keeps programs fuel) {es : List Expr} (hg : Good programs now)
    (hp : program ∈ programs) (hs : ∀ e ∈ es, Stands program c (.expr e)) (hc : Current c now) :
    Ends programs none (tracing.roundEvaluateAll (traced fuel) es) now fun values now' =>
      ∀ value ∈ values, GoodValue programs now' value := by
  cases es with
  | nil => exact .yield hg (by simp)
  | cons e rest =>
    apply ((ih.evaluate hg hp (hs e List.mem_cons_self) hc).keeping hc hg).bind
    rintro first now₁ hg₁ _ ⟨hc₁, hfirst⟩
    have hrest := ih.evaluateAll hg₁ hp (fun e he => hs e (List.mem_cons_of_mem _ he)) hc₁
    apply (hrest.carrying hfirst).bind
    rintro values now₂ hg₂ _ ⟨hfirst₂, hvalues⟩
    exact .yield hg₂ (List.forall_mem_cons.2 ⟨hfirst₂, hvalues⟩)

theorem keeps_call (ih : Keeps programs fuel) {callee : Value} {arguments : List Value} {line : Nat}
    (hg : Good programs now) (hf : GoodValue programs now callee)
    (ha : ∀ value ∈ arguments, GoodValue programs now value) :
    Ends programs none (tracing.roundCall fuel (traced fuel) callee arguments line) now fun value now' =>
      GoodValue programs now' value := by
  cases callee with
  | function id f =>
    unfold Operations.roundCall
    dsimp only
    split
    · rename_i hlength
      exact ih.callClosure hg hf ha hlength
    · exact .fail hg trivial
  | builtin builtin =>
    unfold Operations.roundCall
    dsimp only
    split
    · exact .builtin hg
    · exact .fail hg trivial
  | classObject class_ =>
    unfold Operations.roundCall
    dsimp only
    split
    · rename_i hlength
      exact ih.instantiate hg hf ha hlength
    · exact .fail hg trivial
  | listMethod list method =>
    unfold Operations.roundCall
    dsimp only
    split
    · have hscopes := Store.callListMethod_scopes now.store list method arguments
      refine Ends.onStore hg hscopes.1 ?_ ?_ ?_ fun _ => Store.callListMethod_fault
      · intro list value h
        rcases Store.mem_items_callListMethod h with h | ⟨list, h⟩
        · exact ha value h
        · exact hg.items _ _ h
      · intro object found value h
        unfold Store.field? at h
        rw [hscopes.2] at h
        exact hg.fields _ _ _ h
      · intro value now' h hl
        rcases Store.callListMethod_value h with h | h
        · exact h.good
        · exact (hg.items _ _ h).later hl
    · exact .fail hg trivial
  | list id =>
    rcases arguments with _ | ⟨index, _ | ⟨_, _⟩⟩
    · exact .fail hg trivial
    · exact .itemOf hg
    · exact .fail hg trivial
  | _ => exact .fail hg trivial

/-- The parameters are bound to the arguments, one to each. -/
theorem parameterTable_ready {params : List Name} {arguments : List Value}
    (h : arguments.length = params.length) (name : String) :
    ((parameterTable params arguments).get? name).isSome ↔
      (Context.parameterFrame params).get? name = some true := by
  suffices ∀ (table : Table Value) (frame : Frame),
      ((table.get? name).isSome ↔ frame.get? name = some true) →
      ((((params.zip arguments).foldl (fun table pair => Table.put pair.1.text pair.2 table)
        table).get? name).isSome ↔
        Table.get? name (params.foldl (fun frame name => Table.put name.text true frame) frame) =
          some true) from this [] [] (by simp [Table.get?])
  induction params generalizing arguments with
  | nil => exact fun _ _ h => h
  | cons param rest ih =>
    cases arguments with
    | nil => cases h
    | cons value values =>
      intro table frame ht
      apply ih (Nat.succ.inj h)
      rw [Table.get?_put, Table.get?_put]
      split
      · simp
      · exact ht

theorem keeps_callClosure (ih : Keeps programs fuel) {f : Closure} {arguments : List Value}
    (hg : Good programs now) (hf : GoodClosure programs now f)
    (ha : ∀ value ∈ arguments, GoodValue programs now value) (hlength : arguments.length = f.arity) :
    Ends programs none (tracing.inCall f arguments ((traced fuel).executeAll f.declaration.body)) now fun value now' =>
      GoodValue programs now' value := by
  obtain ⟨program, hp, c, hs, he, hi⟩ := hf
  apply Ends.openScope ⟨.call f.declaration, Context.parameterFrame f.declaration.params⟩ hg he
  · exact fun name value h => ha value (parameterTable_values h)
  · trivial
  · exact parameterTable_ready hlength
  intro scope now₁ hg₁ hl₁ he₁ hx
  have hbody : Ends programs (some scope) (.within scope ((traced fuel).executeAll f.declaration.body)) now₁
      (Returns programs) := by
    apply Ends.within
    apply (ih.executeAll (hg₁.at scope) hp hs.functionBody (.entered he₁ hx)).imp
    exact fun flow _ _ hr value hv => (hr value hv).at now₁.machine.current
  apply hbody.bind
  intro flow now₂ hg₂ hl₂ hreturns
  unfold Operations.resultOf
  split
  · rename_i hinitializer
    change Ends programs _ (Traced.quiet _) _ _
    rw [Traced.quiet_bind]
    have hthis : now₂.Bound f.scope "this" := by
      obtain ⟨outer, hlayers⟩ := hi hinitializer
      rw [hlayers] at he
      exact hl₂.bound _ _ (hl₁.bound _ _ (he.bound rfl))
    have hread : Ends programs (some scope)
        (.quiet (.read fun m => m.store.lookupAt? f.scope 0 "this")) now₂
        fun found now' => found ≠ none ∧ ∀ value, found = some value → GoodValue programs now' value := by
      apply Ends.read hg₂
      refine ⟨Store.lookupAt_bound hthis, fun value h => ?_⟩
      obtain ⟨holder, -, hb⟩ := Option.bind_eq_some_iff.1 h
      exact hg₂.bindings _ _ _ hb
    apply hread.bind
    rintro found now₃ hg₃ _ ⟨hsome, hfound⟩
    exact .ofOption hg₃ hfound fun h => absurd h hsome
  · cases flow with
    | returned value => exact .yield hg₂ (hreturns value rfl)
    | normal => exact .yield hg₂ trivial

theorem Ends.newInstance {class_ : ClassObject} {arguments : List Value} (hg : Good programs now)
    (hclass : GoodClass programs now class_) (ha : ∀ value ∈ arguments, GoodValue programs now value) :
    Ends programs none (.quiet (.make Store.newInstance)) now fun _ now' =>
      GoodClass programs now' class_ ∧ ∀ value ∈ arguments, GoodValue programs now' value := by
  refine Ends.make hg rfl hg.items ?_ fun _ hl =>
    ⟨hclass.later hl, fun value hv => (ha value hv).later hl⟩
  intro object name value h
  rw [Store.field_newInstance] at h
  exact hg.fields _ _ _ h

theorem keeps_instantiate (ih : Keeps programs fuel) {class_ : ClassObject} {arguments : List Value}
    (hg : Good programs now) (hclass : GoodClass programs now class_)
    (ha : ∀ value ∈ arguments, GoodValue programs now value)
    (hlength : arguments.length = class_.arity) :
    Ends programs none (tracing.roundInstantiate (traced fuel) class_ arguments) now fun value now' =>
      GoodValue programs now' value := by
  apply (Ends.newInstance hg hclass ha).bind
  rintro id now₁ hg₁ _ ⟨hclass₁, ha₁⟩
  have hvalue : GoodValue programs now₁ (.instanceOf id class_) := hclass₁
  unfold ClassObject.arity at hlength
  cases hm : class_.method? initializerName with
  | none => exact .yield hg₁ hvalue
  | some initializer =>
    rw [hm] at hlength
    have hbind := (@Ends.bindReceiver programs now₁ initializer id class_ hg₁ (hclass₁ _ _ hm).1
      hclass₁).carrying hvalue
    have hready : Ends programs none (tracing.bindReceiver initializer (.instanceOf id class_)) now₁
        fun f now' => (∀ value ∈ arguments, GoodValue programs now' value) ∧
          GoodValue programs now' (.instanceOf id class_) ∧ GoodClosure programs now' f ∧
            f.declaration = initializer.declaration :=
      hbind.imp fun _ _ hl h => ⟨fun value hv => (ha₁ value hv).later hl, h⟩
    apply hready.bind
    rintro f now₂ hg₂ _ ⟨ha₂, hvalue₂, hf, hd⟩
    have harity : arguments.length = f.arity := by
      unfold Closure.arity
      rw [hd]
      exact hlength
    apply ((ih.callClosure hg₂ hf ha₂ harity).carrying hvalue₂).bind
    rintro _ now₃ hg₃ _ ⟨hvalue₃, _⟩
    exact .yield hg₃ hvalue₃

/-! ## Statements -/

theorem FlowsTo.of_returns {flow : Flow} (hc : Current c now) (h : Returns programs flow now) :
    FlowsTo programs c flow now := by
  cases flow with
  | normal => exact hc
  | returned value => exact h value rfl

/-- A part that is no declaration has the context of the whole behind it. -/
theorem Keeps.branch (ih : Keeps programs fuel) {s : Stmt} (hg : Good programs now) (hp : program ∈ programs)
    (hs : Stands program c (.stmt s)) (hd : s.isDeclaration = false) (hc : Current c now) :
    Ends programs (some now.machine.current) ((traced fuel).execute s) now (FlowsTo programs c) := by
  have h := ih.execute hg hp hs hc
  rwa [c.behind_of_not_declaration hd] at h

/-- A variable that is declared is bound to its value. -/
theorem Ends.declare {name : Name} {value : Value} (hg : Good programs now)
    (hc : Current (c.declare name.text false) now) (hn : ¬ Reserved name.text) (hv : GoodValue programs now value) :
    Ends programs (some now.machine.current) (tracing.define name.text value) now fun _ now' =>
      Current (c.declare name.text true) now' := by
  have hdefine := @Ends.defineHere programs now _ name.text value hg hc hn fun _ hl _ => hv.later hl
  rwa [Context.declare_declare] at hdefine

theorem keeps_block (ih : Keeps programs fuel) {body : List Stmt} (hg : Good programs now)
    (hp : program ∈ programs) (hs : Stands program c (.stmt (.block body))) (hc : Current c now) :
    Ends programs none (tracing.inBlock body ((traced fuel).executeAll body)) now (Returns programs) := by
  have hread : Ends programs none (.quiet .currentScope) now fun scope now' =>
      scope = now.machine.current ∧ now' = now := .read hg ⟨rfl, rfl⟩
  apply hread.bind
  rintro scope now' _ _ ⟨rfl, rfl⟩
  apply Ends.openScope ⟨.block body, []⟩ hg hc.scopes
  · intro name value h
    cases h
  · trivial
  · simp [Opening.bindings, Table.get?]
  intro scope now₁ hg₁ _ he₁ hx
  apply Ends.within
  apply (ih.executeAll (hg₁.at scope) hp hs.block (.entered he₁ hx)).imp
  exact fun flow _ _ hr value hv => (hr value hv).at now₁.machine.current

theorem keeps_function {f : FunctionDecl} (hg : Good programs now) (hp : program ∈ programs)
    (hs : Stands program c (.stmt (.function f))) (hc : Current c now) :
    Ends programs (some now.machine.current) (tracing.defineFunction f) now fun _ now' =>
      Current (c.behind (.function f)) now' := by
  have hread : Ends programs (some now.machine.current) (.quiet .currentScope) now fun scope now' =>
      scope = now.machine.current ∧ now' = now := .read hg ⟨rfl, rfl⟩
  apply hread.bind
  rintro scope now₀ _ _ ⟨rfl, rfl⟩
  apply ((Ends.newFunction hg).keeping hc hg).bind
  rintro value now₁ hg₁ hl ⟨hc₁, id, rfl⟩
  have hvalue : ∀ now', Later (some now₁.machine.current) now₁ now' →
      Current (c.declare f.name.text true) now' →
      GoodValue programs now' (.function id ⟨f, now₀.machine.current, false⟩) := by
    intro now' hl' hc'
    have he := hc'.scopes
    rw [hl'.current, hl.current] at he
    exact ⟨program, hp, c.function f, hs.function, he, by simp⟩
  have hfree : f.name.Free := by
    have hnamed := hs.named (hg.prepared program hp).named
    cases f
    exact hnamed.1
  have hdefine := Ends.defineHere hg₁ hc₁ hfree.not_reserved hvalue
  rwa [hl.current] at hdefine

theorem keeps_execute (ih : Keeps programs fuel) {s : Stmt} (hg : Good programs now)
    (hp : program ∈ programs) (hs : Stands program c (.stmt s)) (hc : Current c now) :
    Ends programs (some now.machine.current) (tracing.roundExecute (traced fuel) s) now
      (FlowsTo programs (c.behind s)) := by
  have hchecked := (hg.prepared program hp).toChecked
  cases s with
  | expression value =>
    apply ((ih.evaluate hg hp hs.expression hc).keeping hc hg).bind
    rintro _ now₁ hg₁ _ ⟨hc₁, _⟩
    exact .yield hg₁ hc₁
  | declare name initializer =>
    have hc' := hc.declare (hs.undeclared hchecked rfl)
    have hfree : name.Free := (hs.named hchecked.named).1
    cases initializer with
    | none =>
      have hnil : GoodValue programs now .nil := trivial
      apply (Ends.declare hg hc' hfree.not_reserved hnil).bind
      intro _ now₁ hg₁ _ hc₁
      exact .yield hg₁ hc₁
    | some e =>
      apply ((ih.evaluate hg hp hs.initializer hc').keeping hc' hg).bind
      rintro value now₁ hg₁ hl ⟨hc₁, hv⟩
      have hdefine := Ends.declare hg₁ hc₁ hfree.not_reserved hv
      rw [hl.current] at hdefine
      apply hdefine.bind
      intro _ now₂ hg₂ _ hc₂
      exact .yield hg₂ hc₂
  | block body =>
    apply ((keeps_block ih hg hp hs hc).keeping hc hg).imp
    exact fun _ _ _ h => .of_returns h.1 h.2
  | branch condition thenBranch elseBranch =>
    have hplaced := hs.placed hchecked.placed
    apply ((ih.evaluate hg hp hs.condition hc).keeping hc hg).bind
    rintro value now₁ hg₁ hl ⟨hc₁, _⟩
    rw [← hl.current]
    split
    · refine ih.branch hg₁ hp hs.thenBranch ?_ hc₁
      cases elseBranch with
      | none => exact hplaced.1
      | some t => exact hplaced.1
    · cases elseBranch with
      | none => exact .yield hg₁ hc₁
      | some t => exact ih.branch hg₁ hp hs.elseBranch hplaced.2.2.1 hc₁
  | loop condition body => exact ih.executeLoop hg hp hs hc
  | function declaration =>
    apply (keeps_function hg hp hs hc).bind
    intro _ now₁ hg₁ _ hc₁
    exact .yield hg₁ hc₁
  | giveBack keyword value =>
    cases value with
    | none => exact .yield hg trivial
    | some e =>
      apply ((ih.evaluate hg hp hs.value hc).widen _).bind
      intro value now₁ hg₁ _ hv
      exact .yield hg₁ hv
  | declareClass name superclass methods =>
    have hfree : name.Free := (hs.named hchecked.named).1
    have hsuperclass := hg.justifiedSuperclass hp hs hc
    apply (Ends.defineClass hg hc hp hs hfree.not_reserved hsuperclass).bind
    intro _ now₁ hg₁ _ hc₁
    exact .yield hg₁ hc₁

theorem keeps_executeAll (ih : Keeps programs fuel) {body : List Stmt} (hg : Good programs now)
    (hp : program ∈ programs) (hs : Stands program c (.body body)) (hc : Current c now) :
    Ends programs (some now.machine.current) (Operations.roundExecuteAll (traced fuel) body) now
      (Returns programs) := by
  cases body with
  | nil => exact .yield hg (by simp [Returns])
  | cons s rest =>
    apply (ih.execute hg hp hs.head hc).bind
    intro flow now₁ hg₁ hl hflow
    cases flow with
    | returned value => exact .yield hg₁ hflow.returns
    | normal =>
      rw [← hl.current]
      exact ih.executeAll hg₁ hp hs.tail hflow

theorem keeps_executeLoop (ih : Keeps programs fuel) {condition : Expr} {body : Stmt}
    (hg : Good programs now) (hp : program ∈ programs)
    (hs : Stands program c (.stmt (.loop condition body))) (hc : Current c now) :
    Ends programs (some now.machine.current) (Operations.roundExecuteLoop (traced fuel) condition body) now
      (FlowsTo programs c) := by
  have hplaced := hs.placed (hg.prepared program hp).placed
  apply ((ih.evaluate hg hp hs.loopCondition hc).keeping hc hg).bind
  rintro value now₁ hg₁ hl₁ ⟨hc₁, _⟩
  rw [← hl₁.current]
  split
  · apply (ih.branch hg₁ hp hs.loopBody hplaced.1 hc₁).bind
    intro flow now₂ hg₂ hl₂ hflow
    cases flow with
    | returned value => exact .yield hg₂ hflow
    | normal =>
      rw [← hl₂.current]
      exact ih.executeLoop hg₂ hp hs hflow
  · exact .yield hg₁ hc₁

end Step

theorem keeps (programs : List (List Stmt)) (fuel : Nat) : Keeps programs fuel := by
  induction fuel with
  | zero =>
    constructor
    case evaluate => exact fun hg _ _ _ => .exhausted hg
    case evaluateAll => exact fun hg _ _ _ => .exhausted hg
    case call => exact fun hg _ _ => .exhausted hg
    case callClosure => exact fun hg _ _ _ => .exhausted hg
    case instantiate => exact fun hg _ _ _ => .exhausted hg
    case execute => exact fun hg _ _ _ => .exhausted hg
    case executeAll => exact fun hg _ _ _ => .exhausted hg
    case executeLoop => exact fun hg _ _ _ => .exhausted hg
  | succ fuel ih =>
    constructor
    case evaluate => exact keeps_evaluate ih
    case evaluateAll => exact keeps_evaluateAll ih
    case call => exact keeps_call ih
    case callClosure => exact keeps_callClosure ih
    case instantiate => exact keeps_instantiate ih
    case execute => exact keeps_execute ih
    case executeAll => exact keeps_executeAll ih
    case executeLoop => exact keeps_executeLoop ih

theorem Context.behind_layers {c : Context} (h : c.layers = []) (s : Stmt) : (c.behind s).layers = [] := by
  obtain ⟨setting, layers⟩ := c
  subst h
  cases s <;> rfl

/-- Behind a statement outside of all scopes the place is again outside of all scopes. -/
theorem Current.outside {c : Context} {own : Option ScopeId} {now now' : Moment} (hc : Current c now)
    (hlayers : c.layers = []) (hl : Later own now now') (s : Stmt) : Current (c.behind s) now' := by
  have hbehind := Context.behind_layers hlayers s
  constructor
  · rw [hbehind, hl.current, ← hlayers]
    exact hc.scopes.later hl
  · intro layer hlayer
    rw [hbehind] at hlayer
    cases hlayer

/-- Statements outside of all scopes keep the invariant, also when one of them ends early. -/
theorem keeps_runProgram {programs : List (List Stmt)} {program : List Stmt} (fuel : Nat)
    (hp : program ∈ programs) {c : Context} {rest : List Stmt} (hs : Stands program c (.body rest))
    (hlayers : c.layers = []) {now : Moment} (hg : Good programs now) (hc : Current c now) :
    Ends programs (some now.machine.current) ((traced fuel).runProgram rest) now fun _ _ => True := by
  induction rest generalizing c now with
  | nil => exact .yield hg trivial
  | cons s rest ih =>
    apply ((keeps programs fuel).execute hg hp hs.head hc).bind
    intro flow now₁ hg₁ hl _
    rw [← hl.current]
    exact ih hs.tail (Context.behind_layers hlayers s) hg₁ (hc.outside hlayers hl s)

end LoxLang
