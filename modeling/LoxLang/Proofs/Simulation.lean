import LoxLang.Proofs.Evaluator
import Mathlib.Data.List.Forall2
import Mathlib.Data.Option.Defs

/-!
# Two runs alike

Two runs are compared step by step: that of a program and of the same program with other lines, other names or
more fuel, or with a record beside it. What is alike may depend on a world, which grows as the runs go on: more
scopes and objects are there and correspond to one another. What the comparison has to say of single steps is
collected in a structure. One lemma, by cases of the syntax and the values, carries it through a round of the
evaluator, and an induction on the fuel through a whole run.
-/

namespace LoxLang

/-! ## Pieces alike -/

/-- Values of the same kind; those that hold code hold pieces alike. -/
inductive Value.Alike (closure : Closure → Closure → Prop) (class_ : ClassObject → ClassObject → Prop) :
    Value → Value → Prop
  | int (value : Int64) : Alike closure class_ (.int value) (.int value)
  | float (value : Float) : Alike closure class_ (.float value) (.float value)
  | string (value : String) : Alike closure class_ (.string value) (.string value)
  | bool (value : Bool) : Alike closure class_ (.bool value) (.bool value)
  | nil : Alike closure class_ .nil .nil
  | function (id id' : Identity) {f f' : Closure} : closure f f' →
      Alike closure class_ (.function id f) (.function id' f')
  | builtin (builtin : Builtin) : Alike closure class_ (.builtin builtin) (.builtin builtin)
  | classObject {c c' : ClassObject} : class_ c c' → Alike closure class_ (.classObject c) (.classObject c')
  | instanceOf (id id' : InstanceId) (c c' : ClassObject) :
      Alike closure class_ (.instanceOf id c) (.instanceOf id' c')
  | list (id id' : ListId) : Alike closure class_ (.list id) (.list id')
  | listMethod (list list' : ListId) (method : ListMethod) :
      Alike closure class_ (.listMethod list method) (.listMethod list' method)

theorem Value.Alike.isTruthy {closure : Closure → Closure → Prop} {class_ : ClassObject → ClassObject → Prop}
    {value value' : Value} (h : value.Alike closure class_ value') : value'.isTruthy = value.isTruthy := by
  cases h <;> rfl

/-- Flows that go on alike. -/
inductive Flow.Alike (value : Value → Value → Prop) : Flow → Flow → Prop
  | normal : Alike value .normal .normal
  | returned {v v' : Value} : value v v' → Alike value (.returned v) (.returned v')

/-- Expressions of the same form with parts alike. -/
inductive Expr.Alike (line : Nat → Nat → Prop) (name : Name → Name → Prop) (part : Expr → Expr → Prop) :
    Expr → Expr → Prop
  | literal (value : Literal) : Alike line name part (.literal value) (.literal value)
  | unary {right right' : Expr} {l l' : Nat} (operator : UnaryOperator) : line l l' → part right right' →
      Alike line name part (.unary operator l right) (.unary operator l' right')
  | binary {left left' right right' : Expr} {l l' : Nat} (operator : BinaryOperator) : part left left' →
      line l l' → part right right' →
      Alike line name part (.binary left operator l right) (.binary left' operator l' right')
  | logical {left left' right right' : Expr} (operator : LogicalOperator) : part left left' → part right right' →
      Alike line name part (.logical left operator right) (.logical left' operator right')
  | grouping {inner inner' : Expr} : part inner inner' → Alike line name part (.grouping inner) (.grouping inner')
  | reference (target target' : Reference) : Alike line name part (.reference target) (.reference target')
  | assign {value value' : Expr} (target target' : Reference) (operator : AssignOperator) : part value value' →
      Alike line name part (.assign target operator value) (.assign target' operator value')
  | call {callee callee' : Expr} {l l' : Nat} {arguments arguments' : List Expr} (style style' : CallStyle) :
      part callee callee' → line l l' → List.Forall₂ part arguments arguments' →
      Alike line name part (.call callee style l arguments) (.call callee' style' l' arguments')
  | list {elements elements' : List Expr} (l l' : Nat) : List.Forall₂ part elements elements' →
      Alike line name part (.list l elements) (.list l' elements')
  | get {object object' : Expr} {n n' : Name} : part object object' → name n n' →
      Alike line name part (.get object n) (.get object' n')
  | set {object object' value value' : Expr} {n n' : Name} (operator : AssignOperator) : part object object' →
      name n n' → part value value' →
      Alike line name part (.set object n operator value) (.set object' n' operator value')
  | setElement {object object' value value' : Expr} {arguments arguments' : List Expr} {l l' : Nat}
      (operator : AssignOperator) : part object object' → List.Forall₂ part arguments arguments' → line l l' →
      part value value' → Alike line name part (.setElement object arguments operator l value)
        (.setElement object' arguments' operator l' value')
  | receiver (target target' : Reference) : Alike line name part (.receiver target) (.receiver target')
  | inherited (target target' : Reference) (method method' : Name) :
      Alike line name part (.inherited target method) (.inherited target' method')

/-- Statements of the same form with parts alike; those that open scopes or bind names say no more here. -/
inductive Stmt.Alike (expr : Expr → Expr → Prop) (part : Stmt → Stmt → Prop) : Stmt → Stmt → Prop
  | expression {value value' : Expr} : expr value value' → Alike expr part (.expression value) (.expression value')
  | declare {initializer initializer' : Option Expr} (name name' : Name) :
      Option.Rel expr initializer initializer' →
      Alike expr part (.declare name initializer) (.declare name' initializer')
  | block (body body' : List Stmt) : Alike expr part (.block body) (.block body')
  | branch {condition condition' : Expr} {thenBranch thenBranch' : Stmt} {elseBranch elseBranch' : Option Stmt} :
      expr condition condition' → part thenBranch thenBranch' → Option.Rel part elseBranch elseBranch' →
      Alike expr part (.branch condition thenBranch elseBranch) (.branch condition' thenBranch' elseBranch')
  | loop {condition condition' : Expr} {body body' : Stmt} : expr condition condition' → part body body' →
      Alike expr part (.loop condition body) (.loop condition' body')
  | function (f f' : FunctionDecl) : Alike expr part (.function f) (.function f')
  | giveBack {value value' : Option Expr} (keyword keyword' : Name) : Option.Rel expr value value' →
      Alike expr part (.giveBack keyword value) (.giveBack keyword' value')
  | declareClass (name name' : Name) (superclass superclass' : Option Reference)
      (methods methods' : List FunctionDecl) : Alike expr part (.declareClass name superclass methods)
        (.declareClass name' superclass' methods')

/-! A piece is alike to itself, where all of its parts are. -/

theorem Value.alike_self {closure : Closure → Closure → Prop} {class_ : ClassObject → ClassObject → Prop}
    (hclosure : ∀ f, closure f f) (hclass : ∀ c, class_ c c) (value : Value) :
    value.Alike closure class_ value := by
  cases value with
  | function id f => exact .function id id (hclosure f)
  | classObject c => exact .classObject (hclass c)
  | _ => constructor

theorem forall₂_self {α : Type} {R : α → α → Prop} (h : ∀ a, R a a) (as : List α) : List.Forall₂ R as as :=
  List.forall₂_same.2 fun a _ => h a

theorem optionRel_self {α : Type} {R : α → α → Prop} {found : Option α} (h : ∀ a, found = some a → R a a) :
    Option.Rel R found found := by
  cases found with
  | none => exact .none
  | some a => exact .some (h a rfl)

theorem optionRel_of_map {α : Type} {R : α → α → Prop} {f : α → α} {found found' : Option α}
    (h : found' = found.map f) (hR : ∀ a, found = some a → R a (f a)) : Option.Rel R found found' := by
  subst h
  cases found with
  | none => exact .none
  | some a => exact .some (hR a rfl)

theorem optionRel_imp {α : Type} {R T : α → α → Prop} (h : ∀ a a', R a a' → T a a') {found found' : Option α}
    (hR : Option.Rel R found found') : Option.Rel T found found' := by
  cases hR with
  | none => exact .none
  | some ha => exact .some (h _ _ ha)

theorem Expr.alike_self {line : Nat → Nat → Prop} {name : Name → Name → Prop} {part : Expr → Expr → Prop}
    (hline : ∀ l, line l l) (hname : ∀ n, name n n) (hpart : ∀ e, part e e) (e : Expr) :
    e.Alike line name part e := by
  cases e <;> constructor <;>
    first
      | apply hline
      | apply hname
      | apply hpart
      | exact forall₂_self hpart _

theorem Stmt.alike_self {expr : Expr → Expr → Prop} {part : Stmt → Stmt → Prop} (hexpr : ∀ e, expr e e)
    (hpart : ∀ s, part s s) (s : Stmt) : s.Alike expr part s := by
  cases s <;> constructor <;>
    first
      | apply hexpr
      | apply hpart
      | exact optionRel_self fun _ _ => hexpr _
      | exact optionRel_self fun _ _ => hpart _

/-- What it means in two runs for values and pieces of code to be alike, as far as the runs have come. -/
structure Likeness where
  World : Type
  Later : World → World → Prop
  value : World → Value → Value → Prop
  closure : World → Closure → Closure → Prop
  class_ : World → ClassObject → ClassObject → Prop
  expr : World → Expr → Expr → Prop
  stmt : World → Stmt → Stmt → Prop
  line : Nat → Nat → Prop
  name : Name → Name → Prop
  value_later {w w' : World} {v v' : Value} : Later w w' → value w v v' → value w' v v'
  closure_later {w w' : World} {f f' : Closure} : Later w w' → closure w f f' → closure w' f f'
  class_later {w w' : World} {c c' : ClassObject} : Later w w' → class_ w c c' → class_ w' c c'
  expr_later {w w' : World} {e e' : Expr} : Later w w' → expr w e e' → expr w' e e'
  stmt_later {w w' : World} {s s' : Stmt} : Later w w' → stmt w s s' → stmt w' s s'
  value_alike {w : World} {v v' : Value} : value w v v' → v.Alike (closure w) (class_ w) v'
  expr_alike {w : World} {e e' : Expr} : expr w e e' → e.Alike line name (expr w) e'
  stmt_alike {w : World} {s s' : Stmt} : stmt w s s' → s.Alike (expr w) (stmt w) s'
  closure_arity {w : World} {f f' : Closure} : closure w f f' → f'.arity = f.arity
  class_arity {w : World} {c c' : ClassObject} : class_ w c c' → c'.arity = c.arity
  name_line {n n' : Name} : name n n' → line n.line n'.line
  literal (w : World) (l : Literal) : value w l.value l.value

theorem Name.line_eq {n n' : Name} (h : n = n') : n.line = n'.line := congrArg Name.line h

/-- Only what is the same is alike. -/
def Likeness.same : Likeness where
  World := Unit
  Later _ _ := True
  value _ := Eq
  closure _ := Eq
  class_ _ := Eq
  expr _ := Eq
  stmt _ := Eq
  line := Eq
  name := Eq
  value_later _ h := h
  closure_later _ h := h
  class_later _ h := h
  expr_later _ h := h
  stmt_later _ h := h
  value_alike h := h ▸ Value.alike_self (fun _ => rfl) (fun _ => rfl) _
  expr_alike h := h ▸ Expr.alike_self (fun _ => rfl) (fun _ => rfl) (fun _ => rfl) _
  stmt_alike h := h ▸ Stmt.alike_self (fun _ => rfl) (fun _ => rfl) _
  closure_arity h := h ▸ rfl
  class_arity h := h ▸ rfl
  name_line := @Name.line_eq
  literal _ _ := rfl

namespace Likeness
variable (L : Likeness)

def values (w : L.World) : List Value → List Value → Prop := List.Forall₂ (L.value w)

def flow (w : L.World) : Flow → Flow → Prop := Flow.Alike (L.value w)

variable {L} {w w' : L.World}

theorem values_later (hl : L.Later w w') {values values' : List Value} (h : L.values w values values') :
    L.values w' values values' := h.imp fun _ _ => L.value_later hl

theorem exprs_later (hl : L.Later w w') {es es' : List Expr} (h : List.Forall₂ (L.expr w) es es') :
    List.Forall₂ (L.expr w') es es' := h.imp fun _ _ => L.expr_later hl

theorem body_later (hl : L.Later w w') {body body' : List Stmt} (h : List.Forall₂ (L.stmt w) body body') :
    List.Forall₂ (L.stmt w') body body' := h.imp fun _ _ => L.stmt_later hl

end Likeness

/-! ## Steps alike -/

section
variable {M N : Type → Type} [Monad M] [Monad N]

/-- What is said of the single steps of two runs: from pieces alike they lead to pieces alike. -/
structure Simulation (L : Likeness) (O : Operations M) (O' : Operations N) where
  /-- The two effects end alike, begun in a world, with results that are related in a later one. -/
  Related {α : Type} : L.World → (L.World → α → α → Prop) → M α → N α → Prop
  /-- The fuel of the two runs. -/
  fuels : Nat → Nat → Prop
  pure {α : Type} {w : L.World} {R : L.World → α → α → Prop} {a a' : α} : R w a a' →
    Related w R (pure a) (pure a')
  bind {α β : Type} {w : L.World} {R : L.World → α → α → Prop} {T : L.World → β → β → Prop} {x : M α} {x' : N α}
    {next : α → M β} {next' : α → N β} : Related w R x x' →
    (∀ w', L.Later w w' → ∀ a a', R w' a a' → Related w' T (next a) (next' a')) →
    Related w T (x >>= next) (x' >>= next')
  holding {α : Type} {w : L.World} {R : L.World → α → α → Prop} {x : M α} {x' : N α}
    (held held' : List Value) : Related w R x x' → Related w R (O.holding held x) (O'.holding held' x')
  entering {α : Type} {w : L.World} {R : L.World → α → α → Prop} {x : M α} {x' : N α} (fuel fuel' : Nat)
    (task task' : Task) : Related w R x x' → Related w R (O.entering fuel task x) (O'.entering fuel' task' x')
  fail {α : Type} {w : L.World} {R : L.World → α → α → Prop} {line line' : Nat} (fault : Fault) :
    L.line line line' → Related w R (O.effect (.fail line fault)) (O'.effect (.fail line' fault))
  unary {w : L.World} {line line' : Nat} {v v' : Value} (operator : UnaryOperator) : L.line line line' →
    L.value w v v' →
    Related w L.value (O.effect (.ofExcept line (operator.apply v))) (O'.effect (.ofExcept line' (operator.apply v')))
  binary {w : L.World} {line line' : Nat} {v v' u u' : Value} (operator : BinaryOperator) : L.line line line' →
    L.value w v v' → L.value w u u' → Related w L.value (O.effect (.ofExcept line (operator.apply v u)))
      (O'.effect (.ofExcept line' (operator.apply v' u')))
  reference {w : L.World} {target target' : Reference} : L.expr w (.reference target) (.reference target') →
    Related w L.value (O.readReference (.reference target) target)
      (O'.readReference (.reference target') target')
  receiver {w : L.World} {target target' : Reference} : L.expr w (.receiver target) (.receiver target') →
    Related w L.value (O.readReference (.receiver target) target) (O'.readReference (.receiver target') target')
  inherited {w : L.World} {target target' : Reference} {method method' : Name} :
    L.expr w (.inherited target method) (.inherited target' method') →
    Related w L.value (O.inheritedMethod (.inherited target method) target method)
      (O'.inheritedMethod (.inherited target' method') target' method')
  assignName {w : L.World} {target target' : Reference} {operator : AssignOperator} {e e' : Expr}
    {v v' : Value} : L.expr w (.assign target operator e) (.assign target' operator e') → L.value w v v' →
    Related w L.value (O.assignName (.assign target operator e) target operator v)
      (O'.assignName (.assign target' operator e') target' operator v')
  property {w : L.World} {v v' : Value} {name name' : Name} : L.value w v v' → L.name name name' →
    Related w L.value (O.property v name) (O'.property v' name')
  assignField {w : L.World} {id id' : InstanceId} {c c' : ClassObject} {name name' : Name} {v v' : Value}
    (operator : AssignOperator) : L.value w (.instanceOf id c) (.instanceOf id' c') → L.name name name' →
    L.value w v v' →
    Related w L.value (O.assignField id c name operator v) (O'.assignField id' c' name' operator v')
  newList {w : L.World} {vs vs' : List Value} : L.values w vs vs' →
    Related w L.value (O.newList vs) (O'.newList vs')
  itemOf {w : L.World} {list list' : ListId} {v v' : Value} {line line' : Nat} :
    L.value w (.list list) (.list list') → L.value w v v' → L.line line line' →
    Related w L.value (O.effect (itemOf list v line)) (O'.effect (itemOf list' v' line'))
  assignItem {w : L.World} {list list' : ListId} {v v' u u' : Value} {line line' : Nat}
    (operator : AssignOperator) : L.value w (.list list) (.list list') → L.value w v v' → L.line line line' →
    L.value w u u' →
    Related w L.value (O.assignItem list v operator line u) (O'.assignItem list' v' operator line' u')
  builtin {w : L.World} {fuel fuel' line line' : Nat} {vs vs' : List Value} (builtin : Builtin) :
    fuels fuel fuel' → L.values w vs vs' → L.line line line' →
    Related w L.value (O.effect (builtin.call fuel vs line)) (O'.effect (builtin.call fuel' vs' line'))
  listMethod {w : L.World} {list list' : ListId} {method : ListMethod} {vs vs' : List Value} {line line' : Nat} :
    L.value w (.listMethod list method) (.listMethod list' method) → L.values w vs vs' → L.line line line' →
    Related w L.value (O.effect (.onStore line fun s => s.callListMethod list method vs))
      (O'.effect (.onStore line' fun s => s.callListMethod list' method vs'))
  newInstance {w : L.World} {c c' : ClassObject} : L.class_ w c c' →
    Related w (fun w id id' => L.value w (.instanceOf id c) (.instanceOf id' c'))
      (O.effect (.make Store.newInstance)) (O'.effect (.make Store.newInstance))
  initializer {w : L.World} {c c' : ClassObject} {id id' : InstanceId} : L.class_ w c c' →
    L.value w (.instanceOf id c) (.instanceOf id' c') →
    Option.Rel (fun f f' => Related w (fun w g g' => L.closure w g g' ∧ g.arity = f.arity)
      (O.bindReceiver f (.instanceOf id c)) (O'.bindReceiver f' (.instanceOf id' c')))
      (c.method? initializerName) (c'.method? initializerName)
  inCall {w : L.World} {f f' : Closure} {vs vs' : List Value} {run : M Flow} {run' : N Flow} :
    L.closure w f f' → L.values w vs vs' →
    (∀ w', List.Forall₂ (L.stmt w') f.declaration.body f'.declaration.body → Related w' L.flow run run') →
    Related w L.value (O.inCall f vs run) (O'.inCall f' vs' run')
  inBlock {w : L.World} {body body' : List Stmt} {run : M Flow} {run' : N Flow} :
    L.stmt w (.block body) (.block body') →
    (∀ w', List.Forall₂ (L.stmt w') body body' → Related w' L.flow run run') →
    Related w L.flow (O.inBlock body run) (O'.inBlock body' run')
  declare {w : L.World} {name name' : Name} {e e' : Option Expr} {v v' : Value} :
    L.stmt w (.declare name e) (.declare name' e') → L.value w v v' →
    Related w (fun _ _ _ => True) (O.define name.text v) (O'.define name'.text v')
  defineFunction {w : L.World} {f f' : FunctionDecl} : L.stmt w (.function f) (.function f') →
    Related w (fun _ _ _ => True) (O.defineFunction f) (O'.defineFunction f')
  defineClass {w : L.World} {name name' : Name} {superclass superclass' : Option Reference}
    {methods methods' : List FunctionDecl} :
    L.stmt w (.declareClass name superclass methods) (.declareClass name' superclass' methods') →
    Related w (fun _ _ _ => True) (O.defineClass name superclass methods)
      (O'.defineClass name' superclass' methods')

namespace Simulation
variable {L : Likeness} {O : Operations M} {O' : Operations N}

/-- The functions of two evaluators end alike on pieces alike. Closures and classes are called with as many
arguments as they take. -/
structure Agree (S : Simulation L O O') (E : Evaluator M) (E' : Evaluator N) : Prop where
  evaluate {w : L.World} {e e' : Expr} : L.expr w e e' → S.Related w L.value (E.evaluate e) (E'.evaluate e')
  evaluateAll {w : L.World} {es es' : List Expr} : List.Forall₂ (L.expr w) es es' →
    S.Related w L.values (E.evaluateAll es) (E'.evaluateAll es')
  call {w : L.World} {v v' : Value} {vs vs' : List Value} {line line' : Nat} : L.value w v v' →
    L.values w vs vs' → L.line line line' → S.Related w L.value (E.call v vs line) (E'.call v' vs' line')
  callClosure {w : L.World} {f f' : Closure} {vs vs' : List Value} : L.closure w f f' → L.values w vs vs' →
    vs.length = f.arity → S.Related w L.value (E.callClosure f vs) (E'.callClosure f' vs')
  instantiate {w : L.World} {c c' : ClassObject} {vs vs' : List Value} : L.class_ w c c' → L.values w vs vs' →
    vs.length = c.arity → S.Related w L.value (E.instantiate c vs) (E'.instantiate c' vs')
  execute {w : L.World} {s s' : Stmt} : L.stmt w s s' → S.Related w L.flow (E.execute s) (E'.execute s')
  executeAll {w : L.World} {body body' : List Stmt} : List.Forall₂ (L.stmt w) body body' →
    S.Related w L.flow (E.executeAll body) (E'.executeAll body')
  executeLoop {w : L.World} {e e' : Expr} {s s' : Stmt} : L.expr w e e' → L.stmt w s s' →
    S.Related w L.flow (E.executeLoop e s) (E'.executeLoop e' s')

variable (S : Simulation L O O') {w : L.World} {E : Evaluator M} {E' : Evaluator N}

/-! ## One round -/

/-- The number of arguments is looked at on both sides alike. -/
theorem ifArity {arity arity' line line' : Nat} {vs vs' : List Value} {x : M Value} {x' : N Value}
    (ha : arity' = arity) (hvs : L.values w vs vs') (hl : L.line line line')
    (h : vs.length = arity → S.Related w L.value x x') :
    S.Related w L.value (if vs.length = arity then x else O.effect (.fail line (.argumentCount arity vs.length)))
      (if vs'.length = arity' then x' else O'.effect (.fail line' (.argumentCount arity' vs'.length))) := by
  rw [ha, ← hvs.length_eq]
  split
  · exact h ‹_›
  · exact S.fail _ hl

theorem unlessReturned {run rest : M Flow} {run' rest' : N Flow} (h : S.Related w L.flow run run')
    (hr : ∀ w', L.Later w w' → S.Related w' L.flow rest rest') :
    S.Related w L.flow (Operations.unlessReturned run rest) (Operations.unlessReturned run' rest') := by
  apply S.bind h
  intro w₁ hl flow flow' hf
  cases hf with
  | normal => exact hr w₁ hl
  | returned hv => exact S.pure (.returned hv)

section Round
variable {S} (h : S.Agree E E')
include h

theorem round_evaluate {e e' : Expr} (he : L.expr w e e') :
    S.Related w L.value (O.roundEvaluate E e) (O'.roundEvaluate E' e') := by
  cases L.expr_alike he with
  | literal value => exact S.pure (L.literal w value)
  | grouping hinner => exact h.evaluate hinner
  | unary operator hline hright =>
    apply S.bind (h.evaluate hright)
    intro _ _ v v' hv
    exact S.unary operator hline hv
  | binary operator hleft hline hright =>
    apply S.bind (h.evaluate hleft)
    intro _ hl v v' hv
    apply S.bind (S.holding [v] [v'] (h.evaluate (L.expr_later hl hright)))
    intro _ hl u u' hu
    exact S.binary operator hline (L.value_later hl hv) hu
  | logical operator hleft hright =>
    apply S.bind (h.evaluate hleft)
    intro w₁ hl v v' hv
    have hright := h.evaluate (L.expr_later hl hright)
    rw [(L.value_alike hv).isTruthy]
    cases operator <;> cases v.isTruthy <;> first | exact S.pure hv | exact hright
  | reference target target' => exact S.reference he
  | assign target target' operator hvalue =>
    apply S.bind (h.evaluate hvalue)
    intro _ hl v v' hv
    exact S.assignName (L.expr_later hl he) hv
  | call style style' hcallee hline harguments =>
    apply S.bind (h.evaluate hcallee)
    intro _ hl v v' hv
    apply S.bind (S.holding [v] [v'] (h.evaluateAll (L.exprs_later hl harguments)))
    intro _ hl vs vs' hvs
    exact h.call (L.value_later hl hv) hvs hline
  | list l l' helements =>
    apply S.bind (h.evaluateAll helements)
    intro _ _ vs vs' hvs
    exact S.newList hvs
  | get hobject hname =>
    apply S.bind (h.evaluate hobject)
    intro _ _ v v' hv
    exact S.property hv hname
  | set operator hobject hname hvalue =>
    apply S.bind (h.evaluate hobject)
    intro w₁ hl v v' hv
    have hvalue := h.evaluate (L.expr_later hl hvalue)
    cases L.value_alike hv with
    | instanceOf id id' c c' =>
      apply S.bind (S.holding [.instanceOf id c] [.instanceOf id' c'] hvalue)
      intro _ hl u u' hu
      exact S.assignField operator (L.value_later hl hv) hname hu
    | _ => exact S.fail _ (L.name_line hname)
  | setElement operator hobject harguments hline hvalue =>
    apply S.bind (h.evaluate hobject)
    intro w₁ hl v v' hv
    have harguments := h.evaluateAll (L.exprs_later hl harguments)
    cases L.value_alike hv with
    | list id id' =>
      apply S.bind (S.holding [.list id] [.list id'] harguments)
      intro w₂ hl₂ vs vs' hvs
      have hcount := hvs.length_eq
      rcases hvs with _ | ⟨hi, _ | ⟨_, _⟩⟩
      · exact S.fail _ hline
      · apply S.bind (S.holding _ _ (h.evaluate (L.expr_later hl₂ (L.expr_later hl hvalue))))
        intro _ hl₃ u u' hu
        exact S.assignItem operator (L.value_later hl₃ (L.value_later hl₂ hv)) (L.value_later hl₃ hi) hline hu
      · dsimp only
        rw [hcount]
        exact S.fail _ hline
    | _ => exact S.fail _ hline
  | receiver target target' => exact S.receiver he
  | inherited target target' method method' => exact S.inherited he

theorem round_evaluateAll {es es' : List Expr} (he : List.Forall₂ (L.expr w) es es') :
    S.Related w L.values (O.roundEvaluateAll E es) (O'.roundEvaluateAll E' es') := by
  cases he with
  | nil => exact S.pure .nil
  | cons hfirst hrest =>
    apply S.bind (h.evaluate hfirst)
    intro _ hl v v' hv
    apply S.bind (S.holding [v] [v'] (h.evaluateAll (L.exprs_later hl hrest)))
    intro _ hl vs vs' hvs
    exact S.pure (.cons (L.value_later hl hv) hvs)

theorem round_call {fuel fuel' : Nat} (hfuel : S.fuels fuel fuel') {v v' : Value} {vs vs' : List Value}
    {line line' : Nat} (hv : L.value w v v') (hvs : L.values w vs vs') (hl : L.line line line') :
    S.Related w L.value (O.roundCall fuel E v vs line) (O'.roundCall fuel' E' v' vs' line') := by
  cases L.value_alike hv with
  | function id id' hf =>
    apply S.ifArity (L.closure_arity hf) hvs hl
    exact fun hlength => S.holding _ _ (h.callClosure hf hvs hlength)
  | builtin builtin => exact S.ifArity rfl hvs hl fun _ => S.builtin builtin hfuel hvs hl
  | classObject hc =>
    apply S.ifArity (L.class_arity hc) hvs hl
    exact fun hlength => S.holding _ _ (h.instantiate hc hvs hlength)
  | listMethod list list' method => exact S.ifArity rfl hvs hl fun _ => S.listMethod hv hvs hl
  | list id id' =>
    have hcount := hvs.length_eq
    rcases hvs with _ | ⟨hi, _ | ⟨_, _⟩⟩
    · exact S.fail _ hl
    · exact S.itemOf hv hi hl
    · unfold Operations.roundCall
      dsimp only
      rw [hcount]
      exact S.fail _ hl
  | _ => exact S.fail _ hl

theorem round_instantiate {c c' : ClassObject} {vs vs' : List Value} (hc : L.class_ w c c')
    (hvs : L.values w vs vs') (hlength : vs.length = c.arity) :
    S.Related w L.value (O.roundInstantiate E c vs) (O'.roundInstantiate E' c' vs') := by
  apply S.bind (S.newInstance hc)
  intro w₁ hl id id' hvalue
  have hinitializer := S.initializer (L.class_later hl hc) hvalue
  unfold ClassObject.arity at hlength
  generalize c.method? initializerName = found, c'.method? initializerName = found' at hlength hinitializer
  cases hinitializer with
  | none => exact S.pure hvalue
  | some hbind =>
    apply S.bind hbind
    rintro w₂ hl₂ f f' ⟨hf, harity⟩
    have hvs := L.values_later hl₂ (L.values_later hl hvs)
    apply S.bind (S.holding _ _ (h.callClosure hf hvs (hlength.trans harity.symm)))
    intro w₃ hl₃ _ _ _
    exact S.pure (L.value_later hl₃ (L.value_later hl₂ hvalue))

theorem round_execute {s s' : Stmt} (hs : L.stmt w s s') :
    S.Related w L.flow (O.roundExecute E s) (O'.roundExecute E' s') := by
  cases L.stmt_alike hs with
  | expression hvalue =>
    apply S.bind (h.evaluate hvalue)
    exact fun _ _ _ _ _ => S.pure .normal
  | declare name name' hinitializer =>
    cases hinitializer with
    | none =>
      apply S.bind (S.declare hs (L.literal w .nil))
      exact fun _ _ _ _ _ => S.pure .normal
    | some he =>
      apply S.bind (h.evaluate he)
      intro w₁ hl v v' hv
      apply S.bind (S.declare (L.stmt_later hl hs) hv)
      exact fun _ _ _ _ _ => S.pure .normal
  | block body body' => exact S.inBlock hs fun _ hbody => h.executeAll hbody
  | branch hcondition hthen helse =>
    apply S.bind (h.evaluate hcondition)
    intro w₁ hl v v' hv
    rw [(L.value_alike hv).isTruthy]
    cases v.isTruthy with
    | true => exact h.execute (L.stmt_later hl hthen)
    | false =>
      cases helse with
      | none => exact S.pure .normal
      | some helse => exact h.execute (L.stmt_later hl helse)
  | loop hcondition hbody => exact h.executeLoop hcondition hbody
  | function f f' =>
    apply S.bind (S.defineFunction hs)
    exact fun _ _ _ _ _ => S.pure .normal
  | giveBack keyword keyword' hvalue =>
    cases hvalue with
    | none => exact S.pure (.returned (L.literal w .nil))
    | some he =>
      apply S.bind (h.evaluate he)
      exact fun _ _ _ _ hv => S.pure (.returned hv)
  | declareClass name name' superclass superclass' methods methods' =>
    apply S.bind (S.defineClass hs)
    exact fun _ _ _ _ _ => S.pure .normal

theorem round_executeAll {body body' : List Stmt} (hbody : List.Forall₂ (L.stmt w) body body') :
    S.Related w L.flow (Operations.roundExecuteAll E body) (Operations.roundExecuteAll E' body') := by
  cases hbody with
  | nil => exact S.pure .normal
  | cons hs hrest => exact S.unlessReturned (h.execute hs) fun _ hl => h.executeAll (L.body_later hl hrest)

theorem round_executeLoop {e e' : Expr} {s s' : Stmt} (he : L.expr w e e') (hs : L.stmt w s s') :
    S.Related w L.flow (Operations.roundExecuteLoop E e s) (Operations.roundExecuteLoop E' e' s') := by
  apply S.bind (h.evaluate he)
  intro w₁ hl v v' hv
  rw [(L.value_alike hv).isTruthy]
  cases v.isTruthy with
  | true =>
    apply S.unlessReturned (h.execute (L.stmt_later hl hs))
    exact fun _ hl₂ => h.executeLoop (L.expr_later hl₂ (L.expr_later hl he)) (L.stmt_later hl₂ (L.stmt_later hl hs))
  | false => exact S.pure .normal

/-- Over functions that agree, rounds of the evaluator agree. -/
theorem Agree.round {fuel fuel' : Nat} (hfuel : S.fuels fuel fuel') :
    S.Agree (O.round fuel E) (O'.round fuel' E') where
  evaluate := round_evaluate h
  evaluateAll := round_evaluateAll h
  call := round_call h hfuel
  callClosure hf hvs _ := S.inCall hf hvs fun _ hbody => h.executeAll hbody
  instantiate := round_instantiate h
  execute := round_execute h
  executeAll := round_executeAll h
  executeLoop := round_executeLoop h

theorem Agree.entered (fuel fuel' : Nat) : S.Agree (O.entered fuel E) (O'.entered fuel' E') where
  evaluate he := S.entering _ _ _ _ (h.evaluate he)
  evaluateAll he := S.entering _ _ _ _ (h.evaluateAll he)
  call hv hvs hl := S.entering _ _ _ _ (h.call hv hvs hl)
  callClosure hf hvs hl := S.entering _ _ _ _ (h.callClosure hf hvs hl)
  instantiate hc hvs hl := S.entering _ _ _ _ (h.instantiate hc hvs hl)
  execute hs := S.entering _ _ _ _ (h.execute hs)
  executeAll hbody := S.entering _ _ _ _ (h.executeAll hbody)
  executeLoop he hs := S.entering _ _ _ _ (h.executeLoop he hs)

/-- Functions that agree run programs alike. -/
theorem Agree.runProgram {program program' : List Stmt} (hp : List.Forall₂ (L.stmt w) program program') :
    S.Related w (fun _ _ _ => True) (E.runProgram program) (E'.runProgram program') := by
  induction program generalizing program' w with
  | nil =>
    cases hp
    exact S.pure trivial
  | cons s rest ih =>
    cases hp with
    | cons hs hrest =>
      apply S.bind (h.execute hs)
      exact fun _ hl _ _ _ => ih (L.body_later hl hrest)

end Round

/-! ## Whole runs -/

/-- Evaluators agree if they agree where the first one has no fuel, and the second one never has less. -/
theorem agree_evaluator (hzero : ∀ fuel', S.fuels 0 fuel' → S.Agree (O.evaluator 0) (O'.evaluator fuel'))
    (hsucc : ∀ fuel fuel', S.fuels (fuel + 1) fuel' → ∃ rest, fuel' = rest + 1 ∧ S.fuels fuel rest)
    {fuel fuel' : Nat} (h : S.fuels fuel fuel') : S.Agree (O.evaluator fuel) (O'.evaluator fuel') := by
  induction fuel generalizing fuel' with
  | zero => exact hzero fuel' h
  | succ fuel ih =>
    obtain ⟨rest, rfl, hrest⟩ := hsucc fuel fuel' h
    exact ((ih hrest).round hrest).entered (fuel + 1) (rest + 1)

/-- Evaluators with the same fuel agree if they stop alike where there is none. -/
theorem agree_evaluator_same (hfuels : S.fuels = Eq) (hexhausted : ∀ {α : Type} {w : L.World}
      {R : L.World → α → α → Prop}, S.Related w R (O.effect .exhausted) (O'.effect .exhausted)) (fuel : Nat) :
    S.Agree (O.evaluator fuel) (O'.evaluator fuel) := by
  have hstop : S.Agree O.exhausted O'.exhausted := by
    constructor <;> intros <;> exact hexhausted
  refine S.agree_evaluator ?_ ?_ (hfuels ▸ rfl)
  · rw [hfuels]
    rintro _ rfl
    exact hstop.entered 0 0
  · rw [hfuels]
    exact fun fuel _ h => ⟨fuel, h.symm, rfl⟩

end Simulation

end

end LoxLang
