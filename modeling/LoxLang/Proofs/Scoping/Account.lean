import LoxLang.Proofs.Scoping.Run
import LoxLang.Proofs.Silent

/-!
# Notes along the invariant

Notes of any kind are taken beside the history, and are looked at where the invariant of a run holds: an
expression is evaluated and a statement executed at the place at which it stands, a call is made with values that
belong to the programs and with as many arguments as there are parameters. An account says what is to be
shown of the notes of single operations. One lemma for each kind of task puts them together, and an induction on
the fuel carries the account through a whole run.
-/

namespace LoxLang

section
variable (programs : List (List Stmt)) (now : Moment)

/-- The piece stands in one of the programs, at the place that is being run. -/
def Here (piece : Piece) : Prop := ∃ program ∈ programs, ∃ c, Stands program c piece ∧ Current c now

def GoodValues (values : List Value) : Prop := ∀ value ∈ values, GoodValue programs now value

/-- The task may be begun now. -/
def Task.Due : Task → Prop
  | .evaluate e => Here programs now (.expr e)
  | .evaluateAll es =>
    ∃ program ∈ programs, ∃ c, (∀ e ∈ es, Stands program c (.expr e)) ∧ Current c now
  | .call callee arguments _ => GoodValue programs now callee ∧ GoodValues programs now arguments
  | .callClosure f arguments =>
    GoodClosure programs now f ∧ GoodValues programs now arguments ∧ arguments.length = f.arity
  | .instantiate c arguments =>
    GoodClass programs now c ∧ GoodValues programs now arguments ∧ arguments.length = c.arity
  | .execute s => Here programs now (.stmt s)
  | .executeAll body => Here programs now (.body body)
  | .executeLoop condition body => Here programs now (.stmt (.loop condition body))

end

section
variable {programs : List (List Stmt)} {own : Option ScopeId} {now now' : Moment}

theorem GoodValues.later {values : List Value} (h : GoodValues programs now values)
    (hl : Later own now now') : GoodValues programs now' values := fun value hv => (h value hv).later hl

theorem GoodValues.nil : GoodValues programs now [] := List.forall_mem_nil _

theorem GoodValues.single {value : Value} (h : GoodValue programs now value) :
    GoodValues programs now [value] := List.forall_mem_singleton.2 h

end

/-- What is said of the notes of effects: of some wherever they are begun, of others begun at a moment. -/
structure Account (programs : List (List Stmt)) {Note : Type} (notes : Notes Note) where
  Always {α : Type} : Traced Note α → Prop
  Holds {α : Type} : Moment → Traced Note α → Prop
  holds {α : Type} {t : Traced Note α} (now : Moment) : Always t → Holds now t
  pure {α : Type} (a : α) : Always (pure a)
  silent {α : Type} {effect : Effect α} : Silent effect → Always (notes.operations.effect effect)
  bind {α β : Type} {t : Traced Note α} {next : α → Traced Note β} : Always t → (∀ a, Always (next a)) →
    Always (t >>= next)
  depthOf (node : Expr) (id : NodeId) : Always (notes.operations.depthOf node id)
  openScope {opening : Opening} : (opening.entries.map Prod.fst).Nodup → Always (notes.operations.openScope opening)
  assign (depth : Option Nat) (name : Name) (value : Value) : Always (notes.operations.assign depth name value)
  conclude (name : Name) (value : Value) : Always (notes.operations.conclude name value)
  /-- A name is defined in the current scope, where it is not bound, or which is that of the globals. -/
  define {now : Moment} {name : String} {value : Value} : now.machine.current < now.store.scopes.size →
    (now.machine.current ≠ now.machine.globals → now.store.binding? now.machine.current name = none) →
    Holds now (notes.operations.define name value)
  andThen {α β : Type} {now : Moment} {t : Traced Note α} {next : α → Traced Note β} : Holds now t →
    (∀ a, Always (next a)) → Holds now (t >>= next)
  /-- What is done behind an effect that ends at a good moment. -/
  next {α β : Type} {now : Moment} {own : Option ScopeId} {t : Traced Note α} {trace : Traced Event α}
    {effect : Effect α} {post : α → Moment → Prop} {next : α → Traced Note β} : Holds now t → Watches t effect →
    Ends programs own trace now post → Watches trace effect →
    (∀ a now', Good programs now' → Later own now now' → post a now' → Holds now' (next a)) →
    Holds now (t >>= next)
  within {α : Type} {now : Moment} {scope : ScopeId} {t : Traced Note α} : Holds (now.at scope) t →
    Holds now (.within scope t)
  holding {α : Type} {now : Moment} {t : Traced Note α} {values : List Value} : GoodValues programs now values →
    Holds now t → Holds now (notes.operations.holding values t)
  entering {α : Type} {now : Moment} {t : Traced Note α} (fuel : Nat) (task : Task) : Good programs now →
    task.Due programs now → Holds now t → Holds now (notes.operations.entering fuel task t)

namespace Account
variable {programs : List (List Stmt)} {Note : Type} {notes : Notes Note} (A : Account programs notes)

/-! ## Operations -/

theorem fail (line : Nat) (fault : Fault) {α : Type} :
    A.Always (α := α) (notes.operations.effect (.fail line fault)) := A.silent (.fail fault)

theorem readReference (node : Expr) (target : Reference) : A.Always (notes.operations.readReference node target) :=
  A.bind (A.depthOf node target.id) fun depth => A.silent (.readName depth target.name)

theorem combine (operator : AssignOperator) (line : Nat) (value : Value) {old : Traced Note Value}
    (h : A.Always old) : A.Always (notes.operations.combine operator line value old) := by
  cases operator with
  | plain => exact A.pure value
  | compound operator => exact A.bind h fun _ => A.silent (.ofExcept _)

theorem assignName (node : Expr) (target : Reference) (operator : AssignOperator) (value : Value) :
    A.Always (notes.operations.assignName node target operator value) := by
  apply A.bind (A.depthOf node target.id)
  intro depth
  apply A.bind (A.combine operator target.name.line value (A.silent (.readName depth target.name)))
  intro result
  exact A.bind (A.assign depth target.name result) fun _ => A.pure _

theorem bindReceiver (method : Closure) (receiver : Value) :
    A.Always (notes.operations.bindReceiver method receiver) := by
  have hopened : A.Always (notes.operations.openScope (.receiver method receiver)) :=
    A.openScope (List.pairwise_singleton _ "this")
  exact A.bind hopened fun _ => A.pure _

theorem boundMethod (method : Closure) (receiver : Value) :
    A.Always (notes.operations.boundMethod method receiver) :=
  A.bind (A.bindReceiver method receiver) fun f => A.silent (.newFunction f)

theorem instanceProperty (id : InstanceId) (class_ : ClassObject) (name : Name) :
    A.Always (notes.operations.instanceProperty id class_ name) := by
  apply A.bind (A.silent (.read _))
  intro field
  cases field with
  | some value => exact A.pure value
  | none =>
    dsimp only
    cases class_.method? name.text with
    | some method => exact A.boundMethod method _
    | none => exact A.fail _ _

theorem property (object : Value) (name : Name) : A.Always (notes.operations.property object name) := by
  cases object with
  | instanceOf id class_ => exact A.instanceProperty id class_ name
  | list id =>
    unfold Operations.property
    dsimp only
    cases ListMethod.ofName? name.text with
    | some method => exact A.pure _
    | none => exact A.fail _ _
  | _ => exact A.fail _ _

theorem assignField (id : InstanceId) (class_ : ClassObject) (name : Name) (operator : AssignOperator)
    (value : Value) : A.Always (notes.operations.assignField id class_ name operator value) := by
  apply A.bind (A.combine operator name.line value (A.instanceProperty id class_ name))
  intro result
  have hset : Silent (.modifyStore fun s => s.setField id name.text result) := .modifyStore fun _ => rfl
  exact A.bind (A.silent hset) fun _ => A.pure _

theorem assignItem (list : ListId) (index : Value) (operator : AssignOperator) (line : Nat) (value : Value) :
    A.Always (notes.operations.assignItem list index operator line value) := by
  apply A.bind (A.combine operator line value (A.silent (.itemOf list index)))
  intro result
  have hset : Silent (.onStore line fun s => s.setItemAt list index result) :=
    .onStore fun s => (s.setItemAt_scopes list index result).1
  exact A.bind (A.silent hset) fun _ => A.pure _

theorem newList (items : List Value) : A.Always (notes.operations.newList items) :=
  A.bind (A.silent (.make fun _ => rfl)) fun _ => A.pure _

theorem inheritedMethod (node : Expr) (target : Reference) (method : Name) :
    A.Always (notes.operations.inheritedMethod node target method) := by
  apply A.bind (A.depthOf node target.id)
  intro depth
  apply A.bind (A.silent (.ofOption _ depth))
  intro depth
  apply A.bind (A.silent (.readName _ _))
  intro superclass
  apply A.bind (A.silent (.readName _ _))
  intro receiver
  cases superclass with
  | classObject superclass =>
    cases receiver with
    | instanceOf id class_ =>
      dsimp only
      cases superclass.method? method.text with
      | some found => exact A.boundMethod found _
      | none => exact A.fail _ _
    | _ => exact A.fail _ _
  | _ => exact A.fail _ _

theorem superclassOf (line : Nat) (superclass : Option Reference) :
    A.Always (notes.operations.superclassOf line superclass) := by
  cases superclass with
  | none => exact A.pure none
  | some target =>
    apply A.bind (A.readReference (.reference target) target)
    intro value
    cases value with
    | classObject c => exact A.pure _
    | _ => exact A.fail _ _

theorem methodScope (name : Name) (superclass : Option Reference) (methods : List FunctionDecl)
    (found : Option ClassObject) : A.Always (notes.operations.methodScope name superclass methods found) := by
  cases found with
  | none => exact A.silent (.read _)
  | some class_ =>
    apply A.bind (A.silent (.read _))
    exact fun current => A.openScope (List.pairwise_singleton _ "super")

theorem resultOf (f : Closure) (flow : Flow) : A.Always (notes.operations.resultOf f flow) := by
  unfold Operations.resultOf
  split
  · exact A.silent ((Silent.read _).bind fun found => .ofOption _ found)
  · cases flow <;> exact A.pure _

end Account

/-! ## Names that are not bound -/

section
variable {programs : List (List Stmt)} {now : Moment} {program : List Stmt} {c : Context}

/-- A name that is not ready in a local context is not bound in its scope. -/
theorem Current.unbound (hc : Current c now) {name : String}
    (hn : ∀ frame ∈ c.frames.head?, frame.get? name ≠ some true)
    (hlocal : now.machine.current ≠ now.machine.globals) :
    now.store.binding? now.machine.current name = none := by
  obtain ⟨setting, layers⟩ := c
  obtain ⟨hscopes, hexact⟩ := hc
  cases layers with
  | nil =>
    generalize hcurrent : now.machine.current = current at hscopes hlocal
    cases hscopes with
    | globals => exact absurd rfl hlocal
  | cons layer outer =>
    have hnot := mt (hexact layer rfl name).1 (hn layer.frame rfl)
    exact Option.not_isSome_iff_eq_none.1 hnot

/-- A declaration finds its name unbound, if it is run in a local scope. -/
theorem Current.undeclared (hc : Current c now) (hchecked : Checked program) {s : Stmt} {name : Name}
    (hs : Stands program c (.stmt s)) (hd : s.declaration? = some name)
    (hlocal : now.machine.current ≠ now.machine.globals) :
    now.store.binding? now.machine.current name.text = none := by
  refine hc.unbound (fun frame hf hready => ?_) hlocal
  have hnew := hs.undeclared hchecked hd frame hf
  unfold Table.has at hnew
  rw [hready] at hnew
  cases hnew

/-- A scope is opened for a layer, and binds the names that are ready in it and no others. -/
theorem Ends.openLayer (layer : Layer) {outer : List Layer} {bindings : Table Value} {around : ScopeId}
    (hg : Good programs now) (ho : Encloses now outer around)
    (hb : ∀ name value, bindings.get? name = some value → GoodValue programs now value)
    (hh : Holds (now.opening layer.site bindings around) now.store.scopes.size layer.site)
    (hf : ∀ name, (bindings.get? name).isSome ↔ layer.frame.get? name = some true) :
    Ends programs none (.openScope layer.site bindings (some around)) now fun scope now' =>
      Encloses now' (layer :: outer) scope ∧ ∀ name, now'.Bound scope name ↔ layer.frame.get? name = some true := by
  obtain ⟨hg', hl, he, hx⟩ := Good.opened layer hg ho hb hh hf
  exact .of_done rfl hg' hl ⟨he, hx⟩

end

/-! ## Tasks -/

namespace Account
variable {programs : List (List Stmt)} {Note : Type} {notes : Notes Note}

/-- With this much fuel every task that may be begun is begun with notes as they should be. -/
structure Carries (A : Account programs notes) (fuel : Nat) : Prop where
  evaluate {now : Moment} {e : Expr} : Good programs now → (Task.evaluate e).Due programs now →
    A.Holds now ((notes.evaluator fuel).evaluate e)
  evaluateAll {now : Moment} {es : List Expr} : Good programs now → (Task.evaluateAll es).Due programs now →
    A.Holds now ((notes.evaluator fuel).evaluateAll es)
  call {now : Moment} {callee : Value} {arguments : List Value} {line : Nat} : Good programs now →
    (Task.call callee arguments line).Due programs now →
    A.Holds now ((notes.evaluator fuel).call callee arguments line)
  callClosure {now : Moment} {f : Closure} {arguments : List Value} : Good programs now →
    (Task.callClosure f arguments).Due programs now →
    A.Holds now ((notes.evaluator fuel).callClosure f arguments)
  instantiate {now : Moment} {c : ClassObject} {arguments : List Value} : Good programs now →
    (Task.instantiate c arguments).Due programs now →
    A.Holds now ((notes.evaluator fuel).instantiate c arguments)
  execute {now : Moment} {s : Stmt} : Good programs now → (Task.execute s).Due programs now →
    A.Holds now ((notes.evaluator fuel).execute s)
  executeAll {now : Moment} {body : List Stmt} : Good programs now → (Task.executeAll body).Due programs now →
    A.Holds now ((notes.evaluator fuel).executeAll body)
  executeLoop {now : Moment} {condition : Expr} {body : Stmt} : Good programs now →
    (Task.executeLoop condition body).Due programs now →
    A.Holds now ((notes.evaluator fuel).executeLoop condition body)

section
variable {A : Account programs notes} {fuel : Nat} {now : Moment} {program : List Stmt} {c : Context}

/-- What is done behind an operand is done in the same context. -/
theorem behindOperand {t : Traced Note Value} {e : Expr} (h : A.Holds now t) (hw : Watches t (evaluate fuel e))
    (hg : Good programs now) (hp : program ∈ programs) (hs : Stands program c (.expr e)) (hc : Current c now)
    {α : Type} {next : Value → Traced Note α}
    (hn : ∀ value now', Good programs now' → Later none now now' → Current c now' →
      GoodValue programs now' value → A.Holds now' (next value)) : A.Holds now (t >>= next) := by
  apply A.next h hw ((keeps programs fuel).evaluate hg hp hs hc) ((traced_watches fuel).evaluate e)
  exact fun value now' hg' hl hv => hn value now' hg' hl (hc.later hl hg.present) hv

theorem behindOperands {t : Traced Note (List Value)} {es : List Expr} (h : A.Holds now t)
    (hw : Watches t (evaluateAll fuel es)) (hg : Good programs now) (hp : program ∈ programs)
    (hs : ∀ e ∈ es, Stands program c (.expr e)) (hc : Current c now) {α : Type}
    {next : List Value → Traced Note α}
    (hn : ∀ values now', Good programs now' → Later none now now' → Current c now' →
      GoodValues programs now' values → A.Holds now' (next values)) : A.Holds now (t >>= next) := by
  apply A.next h hw ((keeps programs fuel).evaluateAll hg hp hs hc) ((traced_watches fuel).evaluateAll es)
  exact fun values now' hg' hl hv => hn values now' hg' hl (hc.later hl hg.present) hv

theorem behindCurrent (hg : Good programs now) {α : Type} {next : ScopeId → Traced Note α}
    (h : A.Holds now (next now.machine.current)) : A.Holds now (notes.operations.effect .currentScope >>= next) := by
  have hends : Ends programs none (.quiet .currentScope) now fun scope now' =>
      scope = now.machine.current ∧ now' = now := .read hg ⟨rfl, rfl⟩
  apply A.next (A.holds now (A.silent (.read _))) (Follows.quiet _) hends (Follows.quiet _)
  rintro scope now' _ _ ⟨rfl, rfl⟩
  exact h

theorem defineFunction (A : Account programs notes) {f : FunctionDecl} (hg : Good programs now)
    (hd : (Task.execute (.function f)).Due programs now) : A.Holds now (notes.operations.defineFunction f) := by
  obtain ⟨program, hp, c, hs, hc⟩ := hd
  apply A.behindCurrent hg
  have hfunction := A.silent (.newFunction ⟨f, now.machine.current, false⟩)
  apply A.next (A.holds now hfunction) (Follows.quiet _) (Ends.newFunction hg) (Follows.quiet _)
  intro value now₁ hg₁ hl _
  have hc₁ := hc.later hl hg.present
  exact A.define (hc₁.scopes.lt_size hg₁.present) (hc₁.undeclared (hg.prepared program hp).toChecked hs rfl)

theorem defineClass (A : Account programs notes) {name : Name} {superclass : Option Reference}
    {methods : List FunctionDecl} (hg : Good programs now)
    (hd : (Task.execute (.declareClass name superclass methods)).Due programs now) :
    A.Holds now (notes.operations.defineClass name superclass methods) := by
  obtain ⟨program, hp, c, hs, hc⟩ := hd
  have hsuperclass := @Ends.superclassOf programs now name.line superclass hg (hg.justifiedSuperclass hp hs hc)
  apply A.next (A.holds now (A.superclassOf name.line superclass)) (Follows.superclassOf _ _) hsuperclass
    (Follows.superclassOf _ _)
  intro found now₁ hg₁ hl _
  have hc₁ := hc.later hl hg.present
  have hnew := hc₁.undeclared (hg.prepared program hp).toChecked hs rfl
  apply A.andThen (A.define (hc₁.scopes.lt_size hg₁.present) hnew)
  intro _
  apply A.bind (A.methodScope name superclass methods found)
  intro scope
  apply A.bind (A.silent (.read _))
  intro table
  apply A.bind (A.silent (.make fun _ => rfl))
  exact fun id => A.conclude name _

namespace Carries
variable (h : A.Carries fuel)
include h

theorem operand (hg : Good programs now) (hp : program ∈ programs) {e : Expr}
    (hs : Stands program c (.expr e)) (hc : Current c now) {α : Type} {next : Value → Traced Note α}
    (hn : ∀ value now', Good programs now' → Later none now now' → Current c now' →
      GoodValue programs now' value → A.Holds now' (next value)) :
    A.Holds now ((notes.evaluator fuel).evaluate e >>= next) :=
  behindOperand (h.evaluate hg ⟨program, hp, c, hs, hc⟩) ((watchesAll notes fuel).evaluate e) hg hp hs hc hn

/-- An operand that is evaluated while values are held on to. -/
theorem heldOperand {held : List Value} (hh : GoodValues programs now held) (hg : Good programs now)
    (hp : program ∈ programs) {e : Expr} (hs : Stands program c (.expr e)) (hc : Current c now) {α : Type}
    {next : Value → Traced Note α} (hn : ∀ value, A.Always (next value)) :
    A.Holds now (notes.operations.holding held ((notes.evaluator fuel).evaluate e) >>= next) :=
  A.andThen (A.holding hh (h.evaluate hg ⟨program, hp, c, hs, hc⟩)) hn

theorem heldOperands {held : List Value} (hh : GoodValues programs now held) (hg : Good programs now)
    (hp : program ∈ programs) {es : List Expr} (hs : ∀ e ∈ es, Stands program c (.expr e))
    (hc : Current c now) {α : Type} {next : List Value → Traced Note α}
    (hn : ∀ values now', Good programs now' → Later none now now' → Current c now' →
      GoodValues programs now' values → A.Holds now' (next values)) :
    A.Holds now (notes.operations.holding held ((notes.evaluator fuel).evaluateAll es) >>= next) :=
  behindOperands (A.holding hh (h.evaluateAll hg ⟨program, hp, c, hs, hc⟩))
    (((watchesAll notes fuel).evaluateAll es).holding (fun _ _ _ _ _ => trivial) held) hg hp hs hc hn

theorem roundEvaluate {e : Expr} (hg : Good programs now) (hd : (Task.evaluate e).Due programs now) :
    A.Holds now (notes.operations.roundEvaluate (notes.evaluator fuel) e) := by
  obtain ⟨program, hp, c, hs, hc⟩ := hd
  have hpart : ∀ part ∈ e.parts, Stands program c (.expr part) := fun _ => hs.part
  cases e with
  | literal value => exact A.holds now (A.pure _)
  | grouping inner => exact h.evaluate hg ⟨program, hp, c, hpart inner (by simp [Expr.parts]), hc⟩
  | unary operator line right =>
    apply A.andThen (h.evaluate hg ⟨program, hp, c, hpart right (by simp [Expr.parts]), hc⟩)
    exact fun _ => A.silent (.ofExcept _)
  | binary left operator line right =>
    apply h.operand hg hp (hpart left (by simp [Expr.parts])) hc
    intro first now₁ hg₁ _ hc₁ hfirst
    apply h.heldOperand (.single hfirst) hg₁ hp (hpart right (by simp [Expr.parts])) hc₁
    exact fun _ => A.silent (.ofExcept _)
  | logical left operator right =>
    apply h.operand hg hp (hpart left (by simp [Expr.parts])) hc
    intro value now₁ hg₁ _ hc₁ _
    have hleft := A.holds now₁ (A.pure value)
    have hright := h.evaluate hg₁ ⟨program, hp, c, hpart right (by simp [Expr.parts]), hc₁⟩
    cases operator <;> cases value.isTruthy <;> first | exact hleft | exact hright
  | reference target => exact A.holds now (A.readReference _ target)
  | assign target operator value =>
    apply A.andThen (h.evaluate hg ⟨program, hp, c, hpart value (by simp [Expr.parts]), hc⟩)
    exact A.assignName _ target operator
  | call callee style line arguments =>
    apply h.operand hg hp (hpart callee (by simp [Expr.parts])) hc
    intro f now₁ hg₁ _ hc₁ hf
    apply h.heldOperands (.single hf) hg₁ hp (fun e he => hpart e (by simp [Expr.parts, he])) hc₁
    intro values now₂ hg₂ hl _ hvalues
    exact h.call hg₂ ⟨hf.later hl, hvalues⟩
  | list line elements =>
    exact A.andThen (h.evaluateAll hg ⟨program, hp, c, hpart, hc⟩) fun items => A.newList items
  | get object name =>
    apply A.andThen (h.evaluate hg ⟨program, hp, c, hpart object (by simp [Expr.parts]), hc⟩)
    exact fun found => A.property found name
  | set object name operator value =>
    apply h.operand hg hp (hpart object (by simp [Expr.parts])) hc
    intro found now₁ hg₁ _ hc₁ hfound
    cases found with
    | instanceOf id class_ =>
      apply h.heldOperand (.single hfound) hg₁ hp (hpart value (by simp [Expr.parts])) hc₁
      exact A.assignField id class_ name operator
    | _ => exact A.holds now₁ (A.fail _ _)
  | setElement object arguments operator line value =>
    apply h.operand hg hp (hpart object (by simp [Expr.parts])) hc
    intro found now₁ hg₁ _ hc₁ hfound
    cases found with
    | list id =>
      apply h.heldOperands (.single hfound) hg₁ hp (fun e he => hpart e (by simp [Expr.parts, he])) hc₁
      intro indices now₂ hg₂ hl hc₂ hindices
      rcases indices with _ | ⟨index, _ | ⟨_, _⟩⟩
      · exact A.holds now₂ (A.fail _ _)
      · have hheld : GoodValues programs now₂ [.list id, index] :=
          List.forall_mem_cons.2 ⟨hfound.later hl, hindices⟩
        apply h.heldOperand hheld hg₂ hp (hpart value (by simp [Expr.parts])) hc₂
        exact A.assignItem id index operator line
      · exact A.holds now₂ (A.fail _ _)
    | _ => exact A.holds now₁ (A.fail _ _)
  | receiver target => exact A.holds now (A.readReference _ target)
  | inherited target method => exact A.holds now (A.inheritedMethod _ target method)

theorem roundEvaluateAll {es : List Expr} (hg : Good programs now) (hd : (Task.evaluateAll es).Due programs now) :
    A.Holds now (notes.operations.roundEvaluateAll (notes.evaluator fuel) es) := by
  obtain ⟨program, hp, c, hs, hc⟩ := hd
  cases es with
  | nil => exact A.holds now (A.pure _)
  | cons e rest =>
    apply h.operand hg hp (hs e List.mem_cons_self) hc
    intro first now₁ hg₁ _ hc₁ hfirst
    have hrest : (Task.evaluateAll rest).Due programs now₁ :=
      ⟨program, hp, c, fun e he => hs e (List.mem_cons_of_mem _ he), hc₁⟩
    exact A.andThen (A.holding (.single hfirst) (h.evaluateAll hg₁ hrest)) fun _ => A.pure _

theorem roundCall {callee : Value} {arguments : List Value} {line : Nat} (hg : Good programs now)
    (hd : (Task.call callee arguments line).Due programs now) :
    A.Holds now (notes.operations.roundCall fuel (notes.evaluator fuel) callee arguments line) := by
  obtain ⟨hf, ha⟩ := hd
  unfold Operations.roundCall
  cases callee with
  | function id f =>
    dsimp only
    split
    · rename_i hlength
      exact A.holding (.single hf) (h.callClosure hg ⟨hf, ha, hlength⟩)
    · exact A.holds now (A.fail _ _)
  | classObject class_ =>
    dsimp only
    split
    · rename_i hlength
      exact A.holding (.single hf) (h.instantiate hg ⟨hf, ha, hlength⟩)
    · exact A.holds now (A.fail _ _)
  | builtin builtin =>
    dsimp only
    split
    · exact A.holds now (A.silent (.builtin builtin fuel arguments))
    · exact A.holds now (A.fail _ _)
  | listMethod list method =>
    dsimp only
    split
    · exact A.holds now (A.silent (.onStore fun s => (s.callListMethod_scopes list method arguments).1))
    · exact A.holds now (A.fail _ _)
  | list id =>
    rcases arguments with _ | ⟨index, _ | ⟨_, _⟩⟩
    · exact A.holds now (A.fail _ _)
    · exact A.holds now (A.silent (.itemOf id index))
    · exact A.holds now (A.fail _ _)
  | _ => exact A.holds now (A.fail _ _)

/-- The body of a function or a block is run in a new scope. -/
theorem inScope (layer : Layer) (opening : Opening) {body : List Stmt} (hp : program ∈ programs)
    (hdistinct : (opening.entries.map Prod.fst).Nodup) (hg : Good programs now)
    (hs : Stands program (c.enter layer.site layer.frame) (.body body)) (ho : Encloses now c.layers opening.around)
    (hb : ∀ name value, opening.bindings.get? name = some value → GoodValue programs now value)
    (hh : LoxLang.Holds (now.opening layer.site opening.bindings opening.around) now.store.scopes.size layer.site)
    (hf : ∀ name, (opening.bindings.get? name).isSome ↔ layer.frame.get? name = some true) {α : Type}
    {next : ScopeId → Traced Note α} (hn : ∀ scope now',
      A.Holds now' (.within scope ((notes.evaluator fuel).executeAll body)) → A.Holds now' (next scope)) :
    A.Holds now (notes.operations.openScope opening >>= next) := by
  have hends := Ends.openLayer layer hg ho hb hh hf
  apply A.next (A.holds now (A.openScope hdistinct)) (Follows.noting _ _) hends (Follows.noting _ _)
  rintro scope now₁ hg₁ _ ⟨he, hx⟩
  exact hn scope now₁ (A.within (h.executeAll (hg₁.at scope) ⟨program, hp, _, hs, .entered he hx⟩))

theorem inCall {f : Closure} {arguments : List Value} (hg : Good programs now)
    (hd : (Task.callClosure f arguments).Due programs now) :
    A.Holds now (notes.operations.inCall f arguments ((notes.evaluator fuel).executeAll f.declaration.body)) := by
  obtain ⟨⟨program, hp, c, hs, he, -⟩, ha, hlength⟩ := hd
  have hdistinct := hs.parameters (hg.prepared program hp).toChecked
  have hnames : ((f.declaration.params.zip arguments).map fun pair => (pair.1.text, pair.2)).map Prod.fst =
      f.declaration.params.map Name.text := by
    have hfirst : (f.declaration.params.zip arguments).map Prod.fst = f.declaration.params :=
      List.map_fst_zip (Nat.le_of_eq hlength.symm)
    rw [List.map_map, ← hfirst, List.map_map, hfirst]
    rfl
  refine h.inScope ⟨.call f.declaration, Context.parameterFrame f.declaration.params⟩ (.call f arguments) hp
    (hnames ▸ hdistinct) hg hs.functionBody he ?_ trivial (parameterTable_ready hlength) ?_
  · exact fun name value hv => ha value (parameterTable_values hv)
  · exact fun scope now₁ hbody => A.andThen hbody (A.resultOf f)

theorem roundInstantiate {class_ : ClassObject} {arguments : List Value} (hg : Good programs now)
    (hd : (Task.instantiate class_ arguments).Due programs now) :
    A.Holds now (notes.operations.roundInstantiate (notes.evaluator fuel) class_ arguments) := by
  obtain ⟨hclass, ha, hlength⟩ := hd
  have hmake : A.Always (notes.operations.effect (.make Store.newInstance)) := A.silent (.make fun _ => rfl)
  apply A.next (A.holds now hmake) (Follows.quiet _) (Ends.newInstance hg hclass ha) (Follows.quiet _)
  rintro id now₁ hg₁ _ ⟨hclass₁, ha₁⟩
  have hinstance : GoodValue programs now₁ (.instanceOf id class_) := hclass₁
  unfold ClassObject.arity at hlength
  cases hm : class_.method? initializerName with
  | none => exact A.holds now₁ (A.pure _)
  | some initializer =>
    rw [hm] at hlength
    have hbind := @Ends.bindReceiver programs now₁ initializer id class_ hg₁ (hclass₁ _ _ hm).1 hclass₁
    apply A.next (A.holds now₁ (A.bindReceiver initializer _)) (.bindReceiver notes initializer _) hbind
      (.bindReceiver historyNotes initializer _)
    rintro f now₂ hg₂ hl ⟨hf, hd⟩
    have harity : arguments.length = f.arity := by
      unfold Closure.arity
      rw [hd]
      exact hlength
    have hcall := h.callClosure hg₂ ⟨hf, GoodValues.later ha₁ hl, harity⟩
    exact A.andThen (A.holding (.single (hinstance.later hl)) hcall) fun _ => A.pure _

/-! ### Statements -/

theorem declare {name : Name} {initializer : Option Expr} (hg : Good programs now)
    (hd : (Task.execute (.declare name initializer)).Due programs now) :
    A.Holds now (notes.operations.roundExecute (notes.evaluator fuel) (.declare name initializer)) := by
  obtain ⟨program, hp, c, hs, hc⟩ := hd
  have hchecked := (hg.prepared program hp).toChecked
  cases initializer with
  | none =>
    have hdefine : A.Holds now (notes.operations.define name.text .nil) :=
      A.define (hc.scopes.lt_size hg.present) (hc.undeclared hchecked hs rfl)
    exact A.andThen hdefine fun _ => A.pure _
  | some e =>
    have hunready := hc.declare (hs.undeclared hchecked rfl)
    apply h.operand hg hp hs.initializer hunready
    intro value now₁ hg₁ _ hc₁ _
    have hnew : now₁.machine.current ≠ now₁.machine.globals →
        now₁.store.binding? now₁.machine.current name.text = none := by
      refine hc₁.unbound fun frame hf => ?_
      obtain ⟨setting, layers⟩ := c
      cases layers with
      | nil => cases hf
      | cons layer outer =>
        cases hf
        rw [Table.get?_put_self]
        simp
    exact A.andThen (A.define (hc₁.scopes.lt_size hg₁.present) hnew) fun _ => A.pure _

theorem inBlock {body : List Stmt} (hg : Good programs now) (hd : (Task.execute (.block body)).Due programs now) :
    A.Holds now (notes.operations.inBlock body ((notes.evaluator fuel).executeAll body)) := by
  obtain ⟨program, hp, c, hs, hc⟩ := hd
  apply A.behindCurrent hg
  refine h.inScope ⟨.block body, []⟩ (.block body now.machine.current) hp List.nodup_nil hg hs.block hc.scopes ?_
    trivial ?_ fun _ _ hbody => hbody
  · intro name value hv
    cases hv
  · simp [Opening.bindings, Table.get?]

theorem roundExecute {s : Stmt} (hg : Good programs now) (hd : (Task.execute s).Due programs now) :
    A.Holds now (notes.operations.roundExecute (notes.evaluator fuel) s) := by
  have ⟨program, hp, c, hs, hc⟩ := hd
  cases s with
  | expression value =>
    exact A.andThen (h.evaluate hg ⟨program, hp, c, hs.expression, hc⟩) fun _ => A.pure _
  | declare name initializer => exact h.declare hg hd
  | block body => exact h.inBlock hg hd
  | branch condition thenBranch elseBranch =>
    apply h.operand hg hp hs.condition hc
    intro value now₁ hg₁ _ hc₁ _
    split
    · exact h.execute hg₁ ⟨program, hp, c, hs.thenBranch, hc₁⟩
    · cases elseBranch with
      | none => exact A.holds now₁ (A.pure _)
      | some t => exact h.execute hg₁ ⟨program, hp, c, hs.elseBranch, hc₁⟩
  | loop condition body => exact h.executeLoop hg ⟨program, hp, c, hs, hc⟩
  | function declaration => exact A.andThen (A.defineFunction hg hd) fun _ => A.pure _
  | giveBack keyword value =>
    cases value with
    | none => exact A.holds now (A.pure _)
    | some e => exact A.andThen (h.evaluate hg ⟨program, hp, c, hs.value, hc⟩) fun _ => A.pure _
  | declareClass name superclass methods => exact A.andThen (A.defineClass hg hd) fun _ => A.pure _

/-- What is done behind a statement, unless it returns, is done in the context behind it. -/
theorem unlessReturned {s : Stmt} (hg : Good programs now) (hd : (Task.execute s).Due programs now)
    (he : Ends programs (some now.machine.current) ((traced fuel).execute s) now (FlowsTo programs c))
    {rest : Traced Note Flow}
    (hn : ∀ now', Good programs now' → Current c now' → A.Holds now' rest) :
    A.Holds now (Operations.unlessReturned ((notes.evaluator fuel).execute s) rest) := by
  apply A.next (h.execute hg hd) ((watchesAll notes fuel).execute s) he ((traced_watches fuel).execute s)
  intro flow now₁ hg₁ _ hflow
  cases flow with
  | returned value => exact A.holds now₁ (A.pure _)
  | normal => exact hn now₁ hg₁ hflow

theorem roundExecuteAll {body : List Stmt} (hg : Good programs now) (hd : (Task.executeAll body).Due programs now) :
    A.Holds now (Operations.roundExecuteAll (notes.evaluator fuel) body) := by
  obtain ⟨program, hp, c, hs, hc⟩ := hd
  cases body with
  | nil => exact A.holds now (A.pure _)
  | cons s rest =>
    apply h.unlessReturned hg ⟨program, hp, c, hs.head, hc⟩ ((keeps programs fuel).execute hg hp hs.head hc)
    exact fun now₁ hg₁ hc₁ => h.executeAll hg₁ ⟨program, hp, _, hs.tail, hc₁⟩

theorem roundExecuteLoop {condition : Expr} {body : Stmt} (hg : Good programs now)
    (hd : (Task.executeLoop condition body).Due programs now) :
    A.Holds now (Operations.roundExecuteLoop (notes.evaluator fuel) condition body) := by
  obtain ⟨program, hp, c, hs, hc⟩ := hd
  have hplaced := hs.placed (hg.prepared program hp).placed
  apply h.operand hg hp hs.loopCondition hc
  intro value now₁ hg₁ _ hc₁ _
  split
  · apply h.unlessReturned hg₁ ⟨program, hp, c, hs.loopBody, hc₁⟩
      ((keeps programs fuel).branch hg₁ hp hs.loopBody hplaced.1 hc₁)
    exact fun now₂ hg₂ hc₂ => h.executeLoop hg₂ ⟨program, hp, c, hs, hc₂⟩
  · exact A.holds now₁ (A.pure _)

end Carries

end

/-! ## Whole runs -/

theorem carries (A : Account programs notes) (fuel : Nat) : A.Carries fuel := by
  induction fuel with
  | zero =>
    have hexhausted {α : Type} (now : Moment) := A.holds (α := α) now (A.silent .exhausted)
    constructor <;> intros <;> exact A.entering 0 _ ‹_› ‹_› (hexhausted _)
  | succ fuel ih =>
    constructor
    case evaluate => exact fun hg hd => A.entering (fuel + 1) _ hg hd (ih.roundEvaluate hg hd)
    case evaluateAll => exact fun hg hd => A.entering (fuel + 1) _ hg hd (ih.roundEvaluateAll hg hd)
    case call => exact fun hg hd => A.entering (fuel + 1) _ hg hd (ih.roundCall hg hd)
    case callClosure => exact fun hg hd => A.entering (fuel + 1) _ hg hd (ih.inCall hg hd)
    case instantiate => exact fun hg hd => A.entering (fuel + 1) _ hg hd (ih.roundInstantiate hg hd)
    case execute => exact fun hg hd => A.entering (fuel + 1) _ hg hd (ih.roundExecute hg hd)
    case executeAll => exact fun hg hd => A.entering (fuel + 1) _ hg hd (ih.roundExecuteAll hg hd)
    case executeLoop => exact fun hg hd => A.entering (fuel + 1) _ hg hd (ih.roundExecuteLoop hg hd)

/-- The account of a program, also where one of its statements ends early. -/
theorem runProgram (A : Account programs notes) {program : List Stmt} (fuel : Nat) (hp : program ∈ programs)
    {c : Context} {rest : List Stmt} (hs : Stands program c (.body rest)) (hlayers : c.layers = [])
    {now : Moment} (hg : Good programs now) (hc : Current c now) :
    A.Holds now ((notes.evaluator fuel).runProgram rest) := by
  induction rest generalizing c now with
  | nil => exact A.holds now (A.pure _)
  | cons s rest ih =>
    apply A.next ((A.carries fuel).execute hg ⟨program, hp, c, hs.head, hc⟩) ((watchesAll notes fuel).execute s)
      ((keeps programs fuel).execute hg hp hs.head hc) ((traced_watches fuel).execute s)
    intro flow now₁ hg₁ hl _
    exact ih hs.tail (Context.behind_layers hlayers s) hg₁ (hc.outside hlayers hl s)

end Account

end LoxLang
