import LoxLang.Proofs.Simulation

/-!
# Runs with notes

Operations that note down what they do, each beside its effect on the machine. Which notes are taken is a
record with an entry for each of them, empty if nothing is said. The evaluator over such operations leads to the
same machine as the evaluator itself and yields the same: notes watch a run and do not change it. What is said
of the notes of a run can be relied on meanwhile, so that a run can also be compared with another one
as far as its notes allow.
-/

namespace LoxLang

/-- An effect that takes notes. -/
def Traced (Note α : Type) : Type := Machine → Outcome α × List Note

namespace Traced
variable {Note α β : Type}

def yield (a : α) : Traced Note α := fun m => (.done a m, [])

def andThen (t : Traced Note α) (next : α → Traced Note β) : Traced Note β := fun m =>
  match t m with
  | (.done a after, notes) =>
    let (outcome, more) := next a after
    (outcome, notes ++ more)
  | (.failed e after, notes) => (.failed e after, notes)
  | (.outOfFuel after, notes) => (.outOfFuel after, notes)

instance : Monad (Traced Note) where
  pure := yield
  bind := andThen

theorem forall_notes_bind {t : Traced Note α} {next : α → Traced Note β} {P : Note → Prop} {m : Machine}
    (h : ∀ note ∈ (t m).2, P note)
    (hn : ∀ a after, (t m).1 = .done a after → ∀ note ∈ (next a after).2, P note) :
    ∀ note ∈ ((t >>= next) m).2, P note := by
  change ∀ note ∈ (andThen t next m).2, P note
  unfold andThen
  rcases hr : t m with ⟨⟨a, after⟩ | ⟨e, after⟩ | after, notes⟩
  all_goals
    rw [hr] at h hn
  · exact List.forall_mem_append.2 ⟨h, hn a after rfl⟩
  · exact h
  · exact h

/-- Takes notes of the machine before an effect. -/
def noting (notes : Machine → List Note) (effect : Effect α) : Traced Note α := fun m => (effect m, notes m)

/-- An effect of which no notes are taken. -/
def quiet (effect : Effect α) : Traced Note α := noting (fun _ => []) effect

def within (scope : ScopeId) (t : Traced Note α) : Traced Note α := fun m =>
  match t { m with current := scope } with
  | (.done a after, notes) => (.done a { after with current := m.current }, notes)
  | (.failed e after, notes) => (.failed e { after with current := m.current }, notes)
  | (.outOfFuel after, notes) => (.outOfFuel { after with current := m.current }, notes)

theorem within_notes (scope : ScopeId) (t : Traced Note α) (m : Machine) :
    (within scope t m).2 = (t { m with current := scope }).2 := by
  unfold within
  rcases t { m with current := scope } with ⟨_ | _ | _, notes⟩ <;> rfl

/-- Nothing is noted behind the effect. -/
theorem bind_notes {t : Traced Note α} {next : α → Traced Note β} (hn : ∀ a after, (next a after).2 = [])
    (m : Machine) : ((t >>= next) m).2 = (t m).2 := by
  change (andThen t next m).2 = _
  unfold andThen
  rcases t m with ⟨⟨a, after⟩ | ⟨e, after⟩ | after, notes⟩
  · exact (congrArg (notes ++ ·) (hn a after)).trans (List.append_nil notes)
  · rfl
  · rfl

end Traced

/-- The notes that are taken, of each operation in the machine before it. -/
structure Notes (Note : Type) where
  opened : Opening → Machine → List Note := fun _ _ => []
  used : Expr → Machine → List Note := fun _ _ => []
  defined : String → Value → Machine → List Note := fun _ _ _ => []
  assigned : Option Nat → Name → Value → Machine → List Note := fun _ _ _ _ => []
  concluded : Name → Value → Machine → List Note := fun _ _ _ => []
  begun : Nat → Task → Machine → List Note := fun _ _ _ => []
  /-- What becomes of notes that are taken while values are held on to. -/
  held : List Value → List Note → List Note := fun _ notes => notes

/-- The operations that take these notes. -/
def Notes.operations {Note : Type} (notes : Notes Note) : Operations (Traced Note) where
  effect := .quiet
  within := .within
  holding values t := fun m =>
    match t m with
    | (outcome, taken) => (outcome, notes.held values taken)
  entering fuel task t := fun m =>
    match t m with
    | (outcome, taken) => (outcome, notes.begun fuel task m ++ taken)
  depthOf node id := .noting (notes.used node) (Operations.plain.depthOf node id)
  openScope opening := .noting (notes.opened opening) (Operations.plain.openScope opening)
  define name value := .noting (notes.defined name value) (Operations.plain.define name value)
  assign depth name value := .noting (notes.assigned depth name value) (Operations.plain.assign depth name value)
  conclude name value := .noting (notes.concluded name value) (Operations.plain.conclude name value)

/-- The evaluator with these notes. -/
def Notes.evaluator {Note : Type} (notes : Notes Note) (fuel : Nat) : Evaluator (Traced Note) :=
  notes.operations.evaluator fuel

/-- Outcomes of the same kind with the same machine. -/
inductive Outcome.Alike {α : Type} (R : α → α → Prop) : Outcome α → Outcome α → Prop
  | done {a a' : α} {m : Machine} : R a a' → Alike R (.done a m) (.done a' m)
  | failed (e : RuntimeError) (m : Machine) : Alike R (.failed e m) (.failed e m)
  | outOfFuel (m : Machine) : Alike R (.outOfFuel m) (.outOfFuel m)

theorem Outcome.Alike.eq {α : Type} {outcome outcome' : Outcome α} (h : outcome.Alike Eq outcome') :
    outcome = outcome' := by
  cases h with
  | done h => rw [h]
  | _ => rfl

theorem Outcome.Alike.imp {α : Type} {R T : α → α → Prop} {outcome outcome' : Outcome α}
    (h : outcome.Alike R outcome') (hi : ∀ a a', R a a' → T a a') : outcome.Alike T outcome' := by
  cases h with
  | done h => exact .done (hi _ _ h)
  | failed e m => exact .failed e m
  | outOfFuel m => exact .outOfFuel m

theorem Outcome.alike_self {α : Type} (outcome : Outcome α) : outcome.Alike Eq outcome := by
  cases outcome with
  | done a m => exact .done rfl
  | failed e m => exact .failed e m
  | outOfFuel m => exact .outOfFuel m

/-- Where the notes of the second effect are as they should be, the first one does the same. -/
def Follows {Note α : Type} (P : Note → Prop) (R : α → α → Prop) (effect : Effect α) (t : Traced Note α) : Prop :=
  ∀ m, (∀ note ∈ (t m).2, P note) → (effect m).Alike R (t m).1

namespace Follows
variable {Note α β : Type} {P : Note → Prop} {R : α → α → Prop} {T : β → β → Prop} {effect : Effect α}
variable {t : Traced Note α} {notes : Notes Note}

theorem imp {R' : α → α → Prop} (h : Follows P R effect t) (hi : ∀ a a', R a a' → R' a a') :
    Follows P R' effect t := fun m hp => (h m hp).imp hi

theorem yield {a a' : α} (h : R a a') : Follows P R (pure a) (pure a') := fun _ _ => .done h

theorem noting (taken : Machine → List Note) (effect : Effect α) : Follows P Eq effect (.noting taken effect) :=
  fun m _ => (effect m).alike_self

theorem fail (line : Nat) (fault : Fault) : Follows P R (.fail line fault) (.quiet (.fail line fault)) :=
  fun m _ => .failed _ m

theorem exhausted : Follows P R .exhausted (.quiet .exhausted) := fun m _ => .outOfFuel m

theorem bind {next : α → Effect β} {next' : α → Traced Note β} (h : Follows P R effect t)
    (hn : ∀ a a', R a a' → Follows P T (next a) (next' a')) : Follows P T (effect >>= next) (t >>= next') := by
  intro m hp
  have hm := h m
  change ∀ note ∈ (Traced.andThen t next' m).2, P note at hp
  change (Effect.andThen effect next m).Alike T (Traced.andThen t next' m).1
  unfold Effect.andThen
  unfold Traced.andThen at hp ⊢
  generalize effect m = outcome at hm ⊢
  rcases hr : t m with ⟨⟨a, n⟩ | ⟨e, n⟩ | n, taken⟩
  all_goals
    rw [hr] at hm hp
    dsimp only at hm hp ⊢
  · obtain ⟨hfirst, hrest⟩ := List.forall_mem_append.1 hp
    cases hm hfirst with
    | done ha => exact hn _ _ ha _ hrest
  · cases hm hp
    exact .failed e n
  · cases hm hp
    exact .outOfFuel n

theorem within (scope : ScopeId) (h : Follows P R effect t) :
    Follows P R (.within scope effect) (.within scope t) := by
  intro m hp
  have hm := h { m with current := scope }
  unfold Traced.within at hp ⊢
  unfold Effect.within
  generalize effect { m with current := scope } = outcome at hm ⊢
  rcases hr : t { m with current := scope } with ⟨⟨a, n⟩ | ⟨e, n⟩ | n, taken⟩
  all_goals
    rw [hr] at hm hp
    dsimp only at hm hp ⊢
  · cases hm hp with
    | done ha => exact .done ha
  · cases hm hp
    exact .failed e _
  · cases hm hp
    exact .outOfFuel _

theorem holding (hheld : ∀ values taken, (∀ note ∈ notes.held values taken, P note) → ∀ note ∈ taken, P note)
    (values : List Value) (h : Follows P R effect t) : Follows P R effect (notes.operations.holding values t) :=
  fun m hp => h m (hheld values _ hp)

theorem entering (fuel : Nat) (task : Task) (h : Follows P R effect t) :
    Follows P R effect (notes.operations.entering fuel task t) :=
  fun m hp => h m (List.forall_mem_append.1 hp).2

/-! ## Names, properties and classes -/

theorem quiet (effect : Effect α) : Follows P Eq effect (.quiet effect) := noting _ effect

theorem readReference (node : Expr) (target : Reference) :
    Follows P Eq (Operations.plain.readReference node target) (notes.operations.readReference node target) := by
  apply (noting _ _).bind
  rintro depth _ rfl
  exact quiet _

theorem combine (operator : AssignOperator) (line : Nat) (value : Value) {old : Effect Value}
    {old' : Traced Note Value} (h : Follows P Eq old old') :
    Follows P Eq (Operations.plain.combine operator line value old)
      (notes.operations.combine operator line value old') := by
  cases operator with
  | plain => exact yield rfl
  | compound operator =>
    apply h.bind
    rintro old _ rfl
    exact quiet _

theorem assignName (node : Expr) (target : Reference) (operator : AssignOperator) (value : Value) :
    Follows P Eq (Operations.plain.assignName node target operator value)
      (notes.operations.assignName node target operator value) := by
  apply (noting _ _).bind
  rintro depth _ rfl
  apply (combine operator _ value (quiet _)).bind
  rintro value _ rfl
  exact (noting _ _).bind fun _ _ _ => yield rfl

theorem bindReceiver (method : Closure) (receiver : Value) :
    Follows P (fun f f' => f = f' ∧ f.arity = method.arity) (Operations.plain.bindReceiver method receiver)
      (notes.operations.bindReceiver method receiver) := by
  apply (noting _ _).bind
  rintro scope _ rfl
  exact yield ⟨rfl, rfl⟩

theorem boundMethod (method : Closure) (receiver : Value) :
    Follows P Eq (Operations.plain.boundMethod method receiver)
      (notes.operations.boundMethod method receiver) := by
  apply (bindReceiver method receiver).bind
  rintro f _ ⟨rfl, -⟩
  exact quiet _

theorem instanceProperty (id : InstanceId) (class_ : ClassObject) (name : Name) :
    Follows P Eq (Operations.plain.instanceProperty id class_ name)
      (notes.operations.instanceProperty id class_ name) := by
  apply (quiet _).bind
  rintro field _ rfl
  cases field with
  | some value => exact yield rfl
  | none =>
    dsimp only
    cases class_.method? name.text with
    | some method => exact boundMethod _ _
    | none => exact quiet _

theorem property (object : Value) (name : Name) :
    Follows P Eq (Operations.plain.property object name) (notes.operations.property object name) := by
  cases object with
  | instanceOf id class_ => exact instanceProperty id class_ name
  | list id =>
    unfold Operations.property
    dsimp only
    cases ListMethod.ofName? name.text with
    | some method => exact yield rfl
    | none => exact quiet _
  | _ => exact quiet _

theorem assignField (id : InstanceId) (class_ : ClassObject) (name : Name) (operator : AssignOperator)
    (value : Value) : Follows P Eq (Operations.plain.assignField id class_ name operator value)
      (notes.operations.assignField id class_ name operator value) := by
  apply (combine operator _ value (instanceProperty id class_ name)).bind
  rintro value _ rfl
  exact (quiet _).bind fun _ _ _ => yield rfl

theorem assignItem (list : ListId) (index : Value) (operator : AssignOperator) (line : Nat) (value : Value) :
    Follows P Eq (Operations.plain.assignItem list index operator line value)
      (notes.operations.assignItem list index operator line value) := by
  apply (combine operator line value (quiet _)).bind
  rintro value _ rfl
  exact (quiet _).bind fun _ _ _ => yield rfl

theorem newList (items : List Value) :
    Follows P Eq (Operations.plain.newList items) (notes.operations.newList items) := by
  apply (quiet _).bind
  rintro id _ rfl
  exact yield rfl

theorem inheritedMethod (node : Expr) (target : Reference) (method : Name) :
    Follows P Eq (Operations.plain.inheritedMethod node target method)
      (notes.operations.inheritedMethod node target method) := by
  apply (noting _ _).bind
  rintro depth _ rfl
  apply (quiet _).bind
  rintro depth _ rfl
  apply (quiet _).bind
  rintro superclass _ rfl
  apply (quiet _).bind
  rintro receiver _ rfl
  cases superclass with
  | classObject superclass =>
    cases receiver with
    | instanceOf id class_ =>
      dsimp only
      cases superclass.method? method.text with
      | some found => exact boundMethod _ _
      | none => exact quiet _
    | _ => exact quiet _
  | _ => exact quiet _

theorem superclassOf (line : Nat) (superclass : Option Reference) :
    Follows P Eq (Operations.plain.superclassOf line superclass)
      (notes.operations.superclassOf line superclass) := by
  cases superclass with
  | none => exact yield rfl
  | some target =>
    apply (readReference _ target).bind
    rintro value _ rfl
    cases value with
    | classObject c => exact yield rfl
    | _ => exact quiet _

theorem methodScope (name : Name) (superclass : Option Reference) (methods : List FunctionDecl)
    (found : Option ClassObject) :
    Follows P Eq (Operations.plain.methodScope name superclass methods found)
      (notes.operations.methodScope name superclass methods found) := by
  cases found with
  | none => exact quiet _
  | some class_ =>
    apply (quiet _).bind
    rintro current _ rfl
    exact noting _ _

theorem defineClass (name : Name) (superclass : Option Reference) (methods : List FunctionDecl) :
    Follows P Eq (Operations.plain.defineClass name superclass methods)
      (notes.operations.defineClass name superclass methods) := by
  apply (superclassOf _ superclass).bind
  rintro found _ rfl
  apply (noting _ _).bind
  rintro _ _ -
  apply (methodScope name superclass methods found).bind
  rintro scope _ rfl
  apply (quiet _).bind
  rintro table _ rfl
  apply (quiet _).bind
  rintro id _ rfl
  exact noting _ _

theorem defineFunction (declaration : FunctionDecl) :
    Follows P Eq (Operations.plain.defineFunction declaration)
      (notes.operations.defineFunction declaration) := by
  apply (quiet _).bind
  rintro current _ rfl
  apply (quiet _).bind
  rintro value _ rfl
  exact noting _ _

/-! ## Scopes for bodies -/

theorem inBlock {flow : Flow → Flow → Prop} {run : Effect Flow} {run' : Traced Note Flow} (body : List Stmt)
    (h : Follows P flow run run') :
    Follows P flow (Operations.plain.inBlock body run) (notes.operations.inBlock body run') := by
  apply (quiet _).bind
  rintro current _ rfl
  apply (noting _ _).bind
  rintro scope _ rfl
  exact h.within scope

theorem inCall {run : Effect Flow} {run' : Traced Note Flow} (f : Closure) (arguments : List Value)
    (h : Follows P (Flow.Alike Eq) run run') :
    Follows P Eq (Operations.plain.inCall f arguments run) (notes.operations.inCall f arguments run') := by
  apply (noting _ _).bind
  rintro scope _ rfl
  apply (h.within scope).bind
  intro flow flow' hf
  unfold Operations.resultOf
  split
  · exact quiet _
  · cases hf with
    | normal => exact yield rfl
    | returned hv => exact yield hv

end Follows

/-! ## The evaluator with notes -/

theorem Likeness.same_values {values values' : List Value} (h : Likeness.same.values () values values') :
    values = values' := List.forall₂_eq_eq_eq ▸ h

/-- Notes do not change what is done, and may tell where it is done. -/
def Notes.simulation {Note : Type} (notes : Notes Note) {P : Note → Prop}
    (hheld : ∀ values taken, (∀ note ∈ notes.held values taken, P note) → ∀ note ∈ taken, P note) :
    Simulation .same .plain notes.operations where
  Related _ R effect t := Follows P (R ()) effect t
  fuels := Eq
  pure h := .yield h
  bind h hn := h.bind fun a a' hr => hn () trivial a a' hr
  holding held held' h := h.holding hheld held'
  entering fuel fuel' task task' h := h.entering fuel' task'
  fail fault hl := hl ▸ .fail _ fault
  unary operator hl hv := hl ▸ hv ▸ .quiet _
  binary operator hl hv hu := hl ▸ hv ▸ hu ▸ .quiet _
  reference h := by cases h; exact .readReference _ _
  receiver h := by cases h; exact .readReference _ _
  inherited h := by cases h; exact .inheritedMethod _ _ _
  assignName h hv := by cases h; cases hv; exact .assignName _ _ _ _
  property hv hn := hv ▸ hn ▸ .property _ _
  assignField operator ho hn hv := by cases ho; cases hn; cases hv; exact .assignField _ _ _ _ _
  newList hvs := Likeness.same_values hvs ▸ .newList _
  itemOf hl hi hline := by cases hl; cases hi; cases hline; exact .quiet _
  assignItem operator hl hi hline hv := by cases hl; cases hi; cases hline; cases hv; exact .assignItem _ _ _ _ _
  builtin builtin hfuel hvs hl := hfuel ▸ Likeness.same_values hvs ▸ hl ▸ .quiet _
  listMethod hm hvs hl := by cases hm; cases Likeness.same_values hvs; cases hl; exact .quiet _
  newInstance hc := by
    cases hc
    exact fun m _ => .done rfl
  initializer hc hv := by
    cases hc
    cases hv
    exact optionRel_self fun f _ => .bindReceiver f _
  inCall hf hvs h := by
    cases hf
    cases Likeness.same_values hvs
    exact .inCall _ _ (h () (forall₂_self (fun _ => rfl) _))
  inBlock hs h := by
    cases hs
    exact .inBlock _ (h () (forall₂_self (fun _ => rfl) _))
  declare hs hv := by
    cases hs
    cases hv
    exact (Follows.noting _ _).imp fun _ _ _ => trivial
  defineFunction hs := by
    cases hs
    exact (Follows.defineFunction _).imp fun _ _ _ => trivial
  defineClass hs := by
    cases hs
    exact (Follows.defineClass _ _ _).imp fun _ _ _ => trivial

theorem Flow.Alike.eq {flow flow' : Flow} (h : flow.Alike Eq flow') : flow = flow' := by
  cases h with
  | normal => rfl
  | returned h => rw [h]

/-- The effect with notes beside it. -/
abbrev Watches {Note α : Type} (t : Traced Note α) (effect : Effect α) : Prop :=
  Follows (fun _ => True) Eq effect t

namespace Watches
variable {Note α β : Type} {t : Traced Note α} {effect : Effect α}

theorem outcome (h : Watches t effect) (m : Machine) : (t m).1 = effect m := (h m fun _ _ => trivial).eq.symm

/-- The notes tell what is done. -/
theorem unique {effect' : Effect α} (h : Watches t effect) (h' : Watches t effect') : effect = effect' :=
  funext fun m => (h.outcome m).symm.trans (h'.outcome m)

theorem yield (a : α) : Watches (pure a : Traced Note α) (pure a) := Follows.yield rfl

theorem bind {next : α → Traced Note β} {next' : α → Effect β} (h : Watches t effect)
    (hn : ∀ a, Watches (next a) (next' a)) : Watches (t >>= next) (effect >>= next') :=
  Follows.bind h fun a _ ha => ha ▸ hn a

theorem bindReceiver (notes : Notes Note) (method : Closure) (receiver : Value) :
    Watches (notes.operations.bindReceiver method receiver) (Operations.plain.bindReceiver method receiver) :=
  (Follows.bindReceiver method receiver).imp fun _ _ h => h.1

end Watches

/-- The functions take notes of what other functions do. Closures and classes are called with as many arguments as
they take. -/
structure WatchesAll {Note : Type} (T : Evaluator (Traced Note)) (E : Evaluator Effect) : Prop where
  evaluate (e : Expr) : Watches (T.evaluate e) (E.evaluate e)
  evaluateAll (es : List Expr) : Watches (T.evaluateAll es) (E.evaluateAll es)
  call (callee : Value) (arguments : List Value) (line : Nat) :
    Watches (T.call callee arguments line) (E.call callee arguments line)
  callClosure (f : Closure) {arguments : List Value} (h : arguments.length = f.arity) :
    Watches (T.callClosure f arguments) (E.callClosure f arguments)
  instantiate (c : ClassObject) {arguments : List Value} (h : arguments.length = c.arity) :
    Watches (T.instantiate c arguments) (E.instantiate c arguments)
  execute (s : Stmt) : Watches (T.execute s) (E.execute s)
  executeAll (body : List Stmt) : Watches (T.executeAll body) (E.executeAll body)
  executeLoop (condition : Expr) (body : Stmt) :
    Watches (T.executeLoop condition body) (E.executeLoop condition body)

/-- The comparison of runs where nothing is asked of the notes. -/
def Notes.watching {Note : Type} (notes : Notes Note) : Simulation .same .plain notes.operations :=
  notes.simulation (P := fun _ => True) fun _ _ _ _ _ => trivial

theorem watchesAll_of_agree {Note : Type} {notes : Notes Note} {T : Evaluator (Traced Note)} {E : Evaluator Effect}
    (h : notes.watching.Agree E T) : WatchesAll T E := by
  have hself {α : Type} (as : List α) : List.Forall₂ Eq as as := forall₂_self (fun _ => rfl) as
  constructor
  case evaluate => exact fun e => h.evaluate (w := ()) rfl
  case evaluateAll => exact fun es => (h.evaluateAll (w := ()) (hself es)).imp fun _ _ => Likeness.same_values
  case call => exact fun _ values _ => h.call (w := ()) rfl (hself values) rfl
  case callClosure => exact fun _ values hl => h.callClosure (w := ()) rfl (hself values) hl
  case instantiate => exact fun _ values hl => h.instantiate (w := ()) rfl (hself values) hl
  case execute => exact fun s => (h.execute (w := ()) rfl).imp fun _ _ => Flow.Alike.eq
  case executeAll => exact fun body => (h.executeAll (w := ()) (hself body)).imp fun _ _ => Flow.Alike.eq
  case executeLoop => exact fun e s => (h.executeLoop (w := ()) rfl rfl).imp fun _ _ => Flow.Alike.eq

/-- The evaluator with notes does what the evaluator does. -/
theorem watchesAll {Note : Type} (notes : Notes Note) (fuel : Nat) :
    WatchesAll (notes.evaluator fuel) (.withFuel fuel) := by
  apply watchesAll_of_agree
  rw [← Evaluator.evaluator_plain]
  exact notes.watching.agree_evaluator_same rfl (fun {_ _ _} => Follows.exhausted) fuel

theorem watches_runProgram {Note : Type} (notes : Notes Note) (fuel : Nat) (program : List Stmt) :
    Watches ((notes.evaluator fuel).runProgram program) (runProgram fuel program) := by
  induction program with
  | nil => exact .yield ()
  | cons s rest ih => exact ((watchesAll notes fuel).execute s).bind fun _ => ih

end LoxLang
