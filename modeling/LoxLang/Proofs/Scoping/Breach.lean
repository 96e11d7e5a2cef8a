import LoxLang.Proofs.Scoping.Walk
import Mathlib.Data.List.Induction

/-!
# The breaches of a program

Which uses of names, `return`, `this` and `super` breach the rules is said here by where they stand: by the
constructs around them and the declarations in front of them in their scope. Nothing in the rules mentions
frames, a kind of function or class that is remembered, or a walk. Resolution, which decides by such state,
reports exactly these breaches, each once and in the order in which its walk passes them.

The statements hold of every tree, so also of one in which a declaration is the branch of an `if` or the
body of a loop, as no text is read.
-/

namespace LoxLang

/-! ## Places -/

/-- A construct around a place. -/
inductive Construct where
  /-- A scope, with the names that are declared in it in front of the place. -/
  | scope (earlier : List Name)
  | initializer (name : Name)
  | function
  | method (name : Name)
  | class_ (superclass : Option Reference)

/-- The constructs around a place, the innermost first. Outside of all of them a place is global. -/
abbrev Path := List Construct

namespace Path

/-- The names declared in front of a place in its own scope, if that one is not global. -/
def declared : Path → List String
  | .scope earlier :: _ => earlier.map Name.text
  | _ => []

/-- The variables that are not global and in whose initializers a place lies. -/
def underway : Path → List String
  | [] => []
  | .initializer name :: outer => if outer.isEmpty then [] else name.text :: underway outer
  | _ :: outer => underway outer

/-- The innermost function around a place. -/
def function : Path → FunctionSetting
  | [] => .outside
  | .function :: _ => .function
  | .method name :: _ => if name.text = initializerName then .initializer else .method
  | _ :: outer => function outer

/-- The innermost class around a place. -/
def class_ : Path → ClassSetting
  | [] => .outside
  | .class_ none :: _ => .base
  | .class_ (some _) :: _ => .derived
  | _ :: outer => class_ outer

/-- The place behind declarations in its scope. -/
def declare (names : List Name) : Path → Path
  | .scope earlier :: outer => .scope (earlier ++ names) :: outer
  | path => path

end Path

/-- What the rules are about. -/
inductive Subject where
  | declaration (name : Name)
  | read (name : Name)
  | giveBack (keyword : Name) (hasValue : Bool)
  | receiver (keyword : Name)
  | inherited (keyword : Name)
  | superclass (class_ name : Name)

/-- A subject of the rules where it stands. -/
structure Occurrence where
  path : Path
  subject : Subject

def Name.breach (name : Name) (fault : ScopeFault) : StaticError := .scope name.line name.text fault

/-- The rules: how a subject breaches them where it stands. -/
def Occurrence.breach? : Occurrence → Option StaticError
  | ⟨path, .declaration name⟩ => if name.text ∈ path.declared then some (name.breach .redeclared) else none
  | ⟨path, .read name⟩ =>
    if name.text ∈ path.underway then some (name.breach .ownInitializer) else none
  | ⟨path, .giveBack keyword hasValue⟩ =>
    if path.function = .outside then some (keyword.breach .returnOutsideFunction)
    else if path.function = .initializer ∧ hasValue then some (keyword.breach .valueFromInitializer)
    else none
  | ⟨path, .receiver keyword⟩ =>
    if path.class_ = .outside then some (keyword.breach .receiverOutsideClass) else none
  | ⟨path, .inherited keyword⟩ =>
    if path.class_ = .outside then some (keyword.breach .inheritedOutsideClass)
    else if path.class_ = .base then some (keyword.breach .inheritedWithoutSuperclass)
    else none
  | ⟨_, .superclass class_ name⟩ =>
    if name.text = class_.text then some (name.breach .inheritsFromItself) else none

/-! ## The occurrences in a program

They come in the order of the text, but for the value of an assignment, which comes before its target.
-/

mutual

/-- The subjects in an expression at a place. -/
def Expr.occurrences (path : Path) : Expr → List Occurrence
  | .literal _ => []
  | .unary _ _ right => right.occurrences path
  | .binary left _ _ right => left.occurrences path ++ right.occurrences path
  | .logical left _ right => left.occurrences path ++ right.occurrences path
  | .grouping inner => inner.occurrences path
  | .reference target => [⟨path, .read target.name⟩]
  | .assign _ _ value => value.occurrences path
  | .call callee _ _ arguments => callee.occurrences path ++ itemOccurrences path arguments
  | .list _ elements => itemOccurrences path elements
  | .get object _ => object.occurrences path
  | .set object _ _ value => value.occurrences path ++ object.occurrences path
  | .setElement object arguments _ _ value =>
    value.occurrences path ++ object.occurrences path ++ itemOccurrences path arguments
  | .receiver target => [⟨path, .receiver target.name⟩]
  | .inherited target _ => [⟨path, .inherited target.name⟩]

def itemOccurrences (path : Path) : List Expr → List Occurrence
  | [] => []
  | e :: rest => e.occurrences path ++ itemOccurrences path rest

end

def optionalOccurrences (path : Path) : Option Expr → List Occurrence
  | some e => e.occurrences path
  | none => []

def superclassOccurrences (path : Path) (class_ : Name) : Option Reference → List Occurrence
  | some target => [⟨path, .superclass class_ target.name⟩, ⟨path, .read target.name⟩]
  | none => []

def parameterOccurrences (path : Path) : List Name → List Occurrence
  | [] => []
  | param :: rest => ⟨path, .declaration param⟩ :: parameterOccurrences (path.declare [param]) rest

mutual

/-- The names that a statement declares in the scope where it stands. -/
def Stmt.declared : Stmt → List Name
  | .declare name _ => [name]
  | .branch _ thenBranch elseBranch => thenBranch.declared ++ elseDeclared elseBranch
  | .loop _ body => body.declared
  | .function f => [f.name]
  | .declareClass name _ _ => [name]
  | .expression _ => []
  | .block _ => []
  | .giveBack .. => []

def elseDeclared : Option Stmt → List Name
  | some s => s.declared
  | none => []

end

mutual

/-- The subjects in a statement at a place. -/
def Stmt.occurrences (path : Path) : Stmt → List Occurrence
  | .expression value => value.occurrences path
  | .declare name initializer =>
    ⟨path, .declaration name⟩ :: optionalOccurrences (.initializer name :: path) initializer
  | .block body => bodyOccurrences (.scope [] :: path) body
  | .branch condition thenBranch elseBranch =>
    condition.occurrences path ++ thenBranch.occurrences path ++
      elseOccurrences (path.declare thenBranch.declared) elseBranch
  | .loop condition body => condition.occurrences path ++ body.occurrences path
  | .function f =>
    ⟨path, .declaration f.name⟩ :: f.occurrences (.function :: path.declare [f.name])
  | .giveBack keyword value =>
    ⟨path, .giveBack keyword value.isSome⟩ :: optionalOccurrences path value
  | .declareClass name superclass methods =>
    ⟨path, .declaration name⟩ :: superclassOccurrences (path.declare [name]) name superclass ++
      methodOccurrences (.class_ superclass :: path.declare [name]) methods

def elseOccurrences (path : Path) : Option Stmt → List Occurrence
  | some s => s.occurrences path
  | none => []

def bodyOccurrences (path : Path) : List Stmt → List Occurrence
  | [] => []
  | s :: rest => s.occurrences path ++ bodyOccurrences (path.declare s.declared) rest

/-- The subjects in the parameters and the body of a function, which share a scope. -/
def FunctionDecl.occurrences (path : Path) : FunctionDecl → List Occurrence
  | ⟨_, params, body⟩ =>
    parameterOccurrences (.scope [] :: path) params ++ bodyOccurrences (.scope params :: path) body

def methodOccurrences (path : Path) : List FunctionDecl → List Occurrence
  | [] => []
  | f :: rest => f.occurrences (.method f.name :: path) ++ methodOccurrences path rest

end

/-- The subjects in a program. -/
def occurrences (program : List Stmt) : List Occurrence := bodyOccurrences [] program

/-- The breaches in a program. -/
def breaches (program : List Stmt) : List StaticError :=
  (occurrences program).filterMap Occurrence.breach?

/-! ## What resolution knows of a place -/

namespace Path

/-- The declarations around a place. -/
def setting (path : Path) : Setting := ⟨path.function, path.class_⟩

/-- The frames in which a place is resolved. -/
def frames : Path → List Frame
  | [] => []
  | .scope earlier :: outer => Context.parameterFrame earlier :: frames outer
  | .initializer name :: outer =>
    match frames outer with
    | [] => []
    | frame :: rest => frame.put name.text false :: rest
  | .function :: outer => frames outer
  | .method _ :: outer => frames outer
  | .class_ none :: outer => [("this", true)] :: frames outer
  | .class_ (some _) :: outer => [("this", true)] :: [("super", true)] :: frames outer

/-- Places where statements stand. Each function has its own scope, and no initializer holds a statement. -/
inductive OfStatements : Path → Prop
  | global : OfStatements []
  | block {earlier : List Name} {outer : Path} : OfStatements outer →
      OfStatements (.scope earlier :: outer)
  | function {earlier : List Name} {outer : Path} : OfStatements outer →
      OfStatements (.scope earlier :: .function :: outer)
  | method {earlier : List Name} {name : Name} {superclass : Option Reference} {outer : Path} :
      OfStatements outer → OfStatements (.scope earlier :: .method name :: .class_ superclass :: outer)

/-- Places where expressions stand. -/
inductive OfExpressions : Path → Prop
  | statement {path : Path} : OfStatements path → OfExpressions path
  | initializer {name : Name} {outer : Path} : OfStatements outer → OfExpressions (.initializer name :: outer)

variable {path : Path}

theorem OfStatements.declare (h : path.OfStatements) (names : List Name) :
    (path.declare names).OfStatements := by
  cases h with
  | global => exact .global
  | block h => exact .block h
  | function h => exact .function h
  | method h => exact .method h

theorem OfStatements.underway_eq (h : path.OfStatements) : path.underway = [] := by
  induction h with
  | global => rfl
  | block _ ih => exact ih
  | function _ ih => exact ih
  | method _ ih => exact ih

/-- A place where statements stand is global or directly in a scope. -/
theorem OfStatements.eq_nil_or_scope (h : path.OfStatements) :
    path = [] ∨ ∃ earlier outer, path = .scope earlier :: outer := by
  cases h with
  | global => exact .inl rfl
  | block => exact .inr ⟨_, _, rfl⟩
  | function => exact .inr ⟨_, _, rfl⟩
  | method => exact .inr ⟨_, _, rfl⟩

@[simp] theorem declare_setting (path : Path) (names : List Name) :
    (path.declare names).setting = path.setting := by
  unfold declare
  split <;> rfl

theorem method_setting (name : Name) (superclass : Option Reference) (outer : Path) :
    setting (.method name :: .class_ superclass :: outer) =
      Resolution.methodSetting (Resolution.classSetting superclass) name := by
  cases superclass <;> rfl

theorem declare_declare (path : Path) (first second : List Name) :
    (path.declare first).declare second = path.declare (first ++ second) := by
  unfold declare
  cases path with
  | nil => rfl
  | cons construct outer => cases construct <;> simp

theorem declare_nil (path : Path) : path.declare [] = path := by
  unfold declare
  split <;> simp

end Path

theorem parameterFrame_append (names : List Name) (name : Name) :
    Context.parameterFrame (names ++ [name]) =
      Table.put name.text true (Context.parameterFrame names) := by
  simp [Context.parameterFrame]

/-- A frame of declared names has these names, and all of them are ready. -/
theorem parameterFrame_get? (names : List Name) (name : String) :
    Table.get? name (Context.parameterFrame names) =
      if name ∈ names.map Name.text then some true else none := by
  induction names using List.reverseRecOn with
  | nil => rfl
  | append_singleton names last ih =>
    rw [parameterFrame_append, Table.get?_put, ih]
    by_cases h : last.text = name
    · simp [h]
    · simp [h, Ne.symm h]

theorem parameterFrame_has (names : List Name) (name : String) :
    Table.has name (Context.parameterFrame names) = decide (name ∈ names.map Name.text) := by
  unfold Table.has
  rw [parameterFrame_get?]
  split <;> simp_all

/-! ## The walk from place to place -/

/-- The walk leads from one place to another and reports the breaches among these occurrences, in their
order. -/
def Passes (walk : Resolution → Resolution) (before : Path) (passed : List Occurrence) (after : Path) :
    Prop :=
  ∀ r, r.frames = before.frames → (walk r).frames = after.frames ∧
    (walk r).errors.reverse = r.errors.reverse ++ passed.filterMap Occurrence.breach?

section Passes
variable {f g : Resolution → Resolution} {a b c path : Path} {xs ys : List Occurrence}

theorem passes_id (path : Path) : Passes (fun r => r) path [] path := fun r hr => ⟨hr, by simp⟩

theorem Passes.comp (hf : Passes f a xs b) (hg : Passes g b ys c) :
    Passes (fun r => g (f r)) a (xs ++ ys) c := by
  intro r hr
  obtain ⟨hb, he⟩ := hf r hr
  obtain ⟨hc, he'⟩ := hg (f r) hb
  refine ⟨hc, ?_⟩
  rw [he', he, List.filterMap_append, List.append_assoc]

/-- A last step that reports nothing. -/
theorem Passes.silent (hf : Passes f a xs b) (hg : Passes g b [] c) : Passes (fun r => g (f r)) a xs c := by
  have h := hf.comp hg
  rwa [List.append_nil] at h

/-- A walk that looks at one subject, in frames that stay, reports the breach that the subject is. -/
theorem passes_one {o : Occurrence} (h : ∀ r, r.frames = a.frames → (f r).frames = b.frames ∧
    (f r).errors = o.breach?.toList ++ r.errors) : Passes f a [o] b := by
  intro r hr
  obtain ⟨hb, he⟩ := h r hr
  refine ⟨hb, ?_⟩
  rw [he, List.reverse_append]
  cases ho : o.breach? <;> simp [ho]

/-- A name is declared: it breaches the rules if its scope has it. -/
theorem declare_passes (h : path.OfStatements) (name : Name) :
    Passes (Resolution.declare name) path [⟨path, .declaration name⟩] (.initializer name :: path) := by
  refine passes_one fun r hr => ?_
  obtain rfl | ⟨earlier, outer, rfl⟩ := h.eq_nil_or_scope
  · unfold Resolution.declare
    rw [show r.frames = [] from hr]
    exact ⟨hr, rfl⟩
  · have hb : Occurrence.breach? ⟨.scope earlier :: outer, .declaration name⟩ =
        if name.text ∈ earlier.map Name.text then some (name.breach .redeclared) else none := rfl
    unfold Resolution.declare
    rw [show r.frames = Context.parameterFrame earlier :: Path.frames outer from hr, hb]
    dsimp only
    rw [parameterFrame_has]
    by_cases hd : name.text ∈ earlier.map Name.text
    · rw [if_pos hd, if_pos (decide_eq_true hd)]
      exact ⟨rfl, rfl⟩
    · rw [if_neg hd, if_neg (by simpa using hd)]
      exact ⟨rfl, rfl⟩

/-- Behind its initializer a variable is one more name of its scope. -/
theorem define_passes (h : path.OfStatements) (name : Name) :
    Passes (Resolution.define name) (.initializer name :: path) [] (path.declare [name]) := by
  intro r hr
  obtain rfl | ⟨earlier, outer, rfl⟩ := h.eq_nil_or_scope
  · unfold Resolution.define
    rw [show r.frames = [] from hr]
    exact ⟨hr, by simp⟩
  · have hd := define_cons hr name
    rw [Table.put_put, ← parameterFrame_append] at hd
    refine ⟨hd, ?_⟩
    unfold Resolution.define
    split <;> simp

theorem declared_passes (h : path.OfStatements) (name : Name) :
    Passes (fun r => (r.declare name).define name) path [⟨path, .declaration name⟩]
      (path.declare [name]) :=
  (declare_passes h name).comp (define_passes h name)

theorem bind_passes (id : NodeId) (name : String) (path : Path) :
    Passes (Resolution.bind id name) path [] path := by
  intro r hr
  refine ⟨(bind_frames id name r).trans hr, ?_⟩
  unfold Resolution.bind
  split <;> simp

/-! ### Expressions -/

/-- The name in the innermost frame that is not ready is the one whose initializer the place lies in. -/
theorem isUnready_iff (h : path.OfExpressions) {r : Resolution} (hr : r.frames = path.frames)
    (name : String) : r.isUnready name = true ↔ name ∈ path.underway := by
  unfold Resolution.isUnready
  rw [hr]
  cases h with
  | statement h =>
    rw [h.underway_eq]
    obtain rfl | ⟨earlier, outer, rfl⟩ := h.eq_nil_or_scope
    · simp [Path.frames]
    · simp only [Path.frames, parameterFrame_get?]
      split <;> simp
  | @initializer own _ h =>
    obtain rfl | ⟨earlier, outer, rfl⟩ := h.eq_nil_or_scope
    · simp [Path.frames, Path.underway]
    · have hu : Path.underway (.initializer own :: .scope earlier :: outer) = [own.text] :=
        congrArg (List.cons own.text) h.underway_eq
      rw [hu]
      simp only [Path.frames, Table.get?_put, parameterFrame_get?, List.mem_singleton]
      by_cases ho : own.text = name
      · simp [ho]
      · simp only [if_neg ho, Ne.symm ho, iff_false]
        split <;> simp

theorem reference_passes (h : path.OfExpressions) (target : Reference) :
    Passes (Resolution.reference target) path [⟨path, .read target.name⟩] path := by
  have hu : Passes
      (fun r => if r.isUnready target.name.text then r.report target.name .ownInitializer else r) path
      [⟨path, .read target.name⟩] path := by
    refine passes_one fun r hr => ⟨(ifReport_frames _ _ _ r).trans hr, ?_⟩
    have hi := isUnready_iff h hr target.name.text
    unfold Occurrence.breach?
    by_cases hp : target.name.text ∈ path.underway
    · simp [hp, hi.2 hp, Resolution.report, Name.breach]
    · simp [hp, mt hi.1 hp]
  exact hu.silent (bind_passes target.id target.name.text path)

theorem receiver_passes (target : Reference) (path : Path) :
    Passes (Resolution.receiver path.setting target) path [⟨path, .receiver target.name⟩] path := by
  intro r hr
  unfold Resolution.receiver
  cases hc : path.class_ with
  | outside => simp [Path.setting, Occurrence.breach?, hc, Resolution.report, hr, Name.breach]
  | base => simpa [Path.setting, Occurrence.breach?, hc] using bind_passes target.id "this" path r hr
  | derived => simpa [Path.setting, Occurrence.breach?, hc] using bind_passes target.id "this" path r hr

theorem inherited_passes (target : Reference) (path : Path) :
    Passes (Resolution.inherited path.setting target) path [⟨path, .inherited target.name⟩] path := by
  intro r hr
  unfold Resolution.inherited
  cases hc : path.class_ with
  | outside => simp [Path.setting, Occurrence.breach?, hc, Resolution.report, hr, Name.breach]
  | base => simp [Path.setting, Occurrence.breach?, hc, Resolution.report, hr, Name.breach]
  | derived => simpa [Path.setting, Occurrence.breach?, hc] using bind_passes target.id "super" path r hr

theorem checkReturn_passes (keyword : Name) (hasValue : Bool) (path : Path) :
    Passes (Resolution.checkReturn path.setting keyword hasValue) path
      [⟨path, .giveBack keyword hasValue⟩] path := by
  intro r hr
  unfold Resolution.checkReturn
  cases hf : path.function with
  | outside => simp [Path.setting, Occurrence.breach?, hf, Resolution.report, hr, Name.breach]
  | initializer =>
    cases hasValue <;> simp [Path.setting, Occurrence.breach?, hf, Resolution.report, hr, Name.breach]
  | function => simp [Path.setting, Occurrence.breach?, hf, hr]
  | method => simp [Path.setting, Occurrence.breach?, hf, hr]

end Passes

mutual

theorem expr_passes {path : Path} (h : path.OfExpressions) :
    ∀ e : Expr, Passes (Resolution.expr path.setting e) path (e.occurrences path) path
  | .literal _ => passes_id path
  | .grouping inner => expr_passes h inner
  | .unary _ _ right => expr_passes h right
  | .binary left _ _ right => (expr_passes h left).comp (expr_passes h right)
  | .logical left _ right => (expr_passes h left).comp (expr_passes h right)
  | .reference target => reference_passes h target
  | .assign target _ value => (expr_passes h value).silent (bind_passes target.id target.name.text path)
  | .call callee _ _ arguments => (expr_passes h callee).comp (exprs_passes h arguments)
  | .list _ elements => exprs_passes h elements
  | .get object _ => expr_passes h object
  | .set object _ _ value => (expr_passes h value).comp (expr_passes h object)
  | .setElement object arguments _ _ value =>
    ((expr_passes h value).comp (expr_passes h object)).comp (exprs_passes h arguments)
  | .receiver target => receiver_passes target path
  | .inherited target _ => inherited_passes target path

theorem exprs_passes {path : Path} (h : path.OfExpressions) :
    ∀ es : List Expr, Passes (Resolution.exprs path.setting es) path (itemOccurrences path es) path
  | [] => passes_id path
  | e :: rest => (expr_passes h e).comp (exprs_passes h rest)

end

theorem optional_passes {path : Path} (h : path.OfExpressions) (value : Option Expr) :
    Passes (Resolution.expr? path.setting value) path (optionalOccurrences path value) path := by
  cases value with
  | none => exact passes_id path
  | some e => exact expr_passes h e

/-! ### Statements -/

section Passes
variable {path : Path}

theorem enter_passes (path : Path) : Passes (Resolution.enter []) path [] (.scope [] :: path) :=
  fun _ hr => ⟨congrArg (List.cons []) hr, by simp [Resolution.enter]⟩

theorem leave_passes (names : List Name) (path : Path) :
    Passes Resolution.leave (.scope names :: path) [] path :=
  fun _ hr => ⟨congrArg List.tail hr, by simp [Resolution.leave]⟩

theorem parameters_passes (h : path.OfStatements) (params : List Name) :
    Passes (Resolution.parameters params) path (parameterOccurrences path params)
      (path.declare params) := by
  unfold Resolution.parameters
  induction params generalizing path with
  | nil =>
    rw [Path.declare_nil]
    exact passes_id path
  | cons param rest ih =>
    have hp := (declared_passes h param).comp (ih (h.declare [param]))
    rwa [Path.declare_declare] at hp

/-- The name of a superclass is compared with that of the class and then read. Behind it lie the scopes for
`super` and `this`. -/
theorem superclass_passes (h : path.OfStatements) (name : Name) (superclass : Option Reference) :
    Passes (fun r => (Resolution.superclass name superclass r).enter ["this"]) path
      (superclassOccurrences path name superclass) (.class_ superclass :: path) := by
  cases superclass with
  | none => exact fun r hr => ⟨congrArg (List.cons _) hr, by simp [superclassOccurrences,
      Resolution.superclass, Resolution.enter]⟩
  | some target =>
    have hsame : Passes
        (fun r => if target.name.text = name.text then r.report target.name .inheritsFromItself else r)
        path [⟨path, .superclass name target.name⟩] path := by
      refine passes_one fun r hr => ⟨(ifReport_frames _ _ _ r).trans hr, ?_⟩
      unfold Occurrence.breach?
      split <;> simp [*, Resolution.report, Name.breach]
    have hread := hsame.comp (reference_passes (.statement h) target)
    intro r hr
    obtain ⟨hf, he⟩ := hread r hr
    exact ⟨congrArg (fun frames => [("this", true)] :: [("super", true)] :: frames) hf, he⟩

theorem leaveClass_passes (superclass : Option Reference) (path : Path) :
    Passes (fun r => if superclass.isSome then r.leave.leave else r.leave) (.class_ superclass :: path) []
      path := by
  intro r hr
  cases superclass with
  | none => exact ⟨congrArg List.tail hr, by simp [Resolution.leave]⟩
  | some => exact ⟨congrArg (fun frames => frames.tail.tail) hr, by simp [Resolution.leave]⟩

end Passes

mutual

theorem stmt_passes {path : Path} (h : path.OfStatements) :
    ∀ s : Stmt, Passes (Resolution.stmt path.setting s) path (s.occurrences path)
      (path.declare s.declared)
  | .expression value => by
    rw [show Stmt.declared (.expression value) = [] from rfl, Path.declare_nil]
    exact expr_passes (.statement h) value
  | .declare name initializer =>
    have hi := optional_passes (.initializer h) initializer
    ((declare_passes h name).comp hi).silent (define_passes h name)
  | .block body => by
    rw [show Stmt.declared (.block body) = [] from rfl, Path.declare_nil]
    exact ((enter_passes path).comp (stmts_passes h.block body)).silent (leave_passes _ path)
  | .branch condition thenBranch elseBranch => by
    have hc := expr_passes (.statement h) condition
    have ht := stmt_passes h thenBranch
    have he := else_passes (h.declare thenBranch.declared) elseBranch
    rw [Path.declare_setting, Path.declare_declare] at he
    exact (hc.comp ht).comp he
  | .loop condition body => (expr_passes (.statement h) condition).comp (stmt_passes h body)
  | .function f => by
    have hs : Path.setting (.function :: path.declare [f.name]) =
        { path.setting with function := .function } :=
      congrArg (fun setting : Setting => { setting with function := .function })
        (path.declare_setting [f.name])
    have hf := functionBody_passes (fun _ => .function (h.declare [f.name])) f
    rw [hs] at hf
    exact (declared_passes h f.name).comp hf
  | .giveBack keyword value => by
    rw [show Stmt.declared (.giveBack keyword value) = [] from rfl, Path.declare_nil]
    exact (checkReturn_passes keyword value.isSome path).comp (optional_passes (.statement h) value)
  | .declareClass name superclass methods => by
    have hn := (declared_passes h name).comp (superclass_passes (h.declare [name]) name superclass)
    have hm := methods_passes (h.declare [name]) superclass methods
    have hl := (hn.comp hm).silent (leaveClass_passes superclass _)
    exact hl

theorem else_passes {path : Path} (h : path.OfStatements) :
    ∀ o : Option Stmt, Passes (Resolution.stmt? path.setting o) path (elseOccurrences path o)
      (path.declare (elseDeclared o))
  | some s => stmt_passes h s
  | none => by
    rw [show elseDeclared none = [] from rfl, Path.declare_nil]
    exact passes_id path

theorem stmts_passes {path : Path} (h : path.OfStatements) :
    ∀ body : List Stmt, Passes (Resolution.stmts path.setting body) path (bodyOccurrences path body)
      (path.declare (body.flatMap Stmt.declared))
  | [] => by
    rw [List.flatMap_nil, Path.declare_nil]
    exact passes_id path
  | s :: rest => by
    have hr := stmts_passes (h.declare s.declared) rest
    rw [Path.declare_setting, Path.declare_declare] at hr
    exact (stmt_passes h s).comp hr

theorem functionBody_passes {path : Path} (h : ∀ names, Path.OfStatements (.scope names :: path)) :
    ∀ f : FunctionDecl, Passes (Resolution.functionBody path.setting f) path (f.occurrences path) path
  | ⟨_, params, body⟩ =>
    have hp := (enter_passes path).comp (parameters_passes (h []) params)
    have hb := hp.comp (stmts_passes (h params) body)
    hb.silent (leave_passes _ path)

theorem methods_passes {path : Path} (h : path.OfStatements) (superclass : Option Reference) :
    ∀ fs : List FunctionDecl,
      Passes (Resolution.methods (Resolution.classSetting superclass) fs) (.class_ superclass :: path)
        (methodOccurrences (.class_ superclass :: path) fs) (.class_ superclass :: path)
  | [] => passes_id _
  | f :: rest => by
    have hf : Passes _ (.method f.name :: .class_ superclass :: path) _ _ :=
      functionBody_passes (fun _ => .method h) f
    rw [Path.method_setting] at hf
    -- A method as such adds no frame: its body is left at the place where the next method stands.
    have hc : Passes _ (.class_ superclass :: path) _ (.class_ superclass :: path) := hf
    exact hc.comp (methods_passes h superclass rest)

end

/-- Resolution reports the breaches of a program and nothing else, in the order of its walk. -/
theorem resolution_reports_exactly_the_breaches (program : List Stmt) :
    (resolve program).errors.reverse = breaches program ∧
      ((resolve program).errors = [] ↔ ∀ o ∈ occurrences program, o.breach? = none) := by
  have hs := stmts_passes .global program {} rfl
  have he : (resolve program).errors.reverse = breaches program := hs.2
  refine ⟨he, ?_⟩
  rw [← List.reverse_eq_nil_iff, he]
  exact List.filterMap_eq_nil_iff

/-- `class A < A { init(x, x) { return super.init; } }`, `return` -/
example :
    breaches [.declareClass ⟨"A", 1⟩ (some ⟨0, ⟨"A", 1⟩⟩) [⟨⟨"init", 2⟩, [⟨"x", 2⟩, ⟨"x", 2⟩],
        [.giveBack ⟨"return", 3⟩ (some (.inherited ⟨1, ⟨"super", 3⟩⟩ ⟨"init", 3⟩))]⟩],
      .giveBack ⟨"return", 4⟩ none] =
    [.scope 1 "A" .inheritsFromItself, .scope 2 "x" .redeclared, .scope 3 "return" .valueFromInitializer,
      .scope 4 "return" .returnOutsideFunction] := by decide

end LoxLang
