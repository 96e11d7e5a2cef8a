import LoxLang.Proofs.Joining.Resolve

/-!
# Resolution with a state only

A resolver has nothing but a state: besides the frames, the notes and the errors it remembers in which kind of
function and of class it is. It overwrites both at every function and class, and puts back what was there when
it leaves. Resolution, which hands the setting down to the parts of a tree, does the same, so nothing is ever
left overwritten. Behind any part of any tree the resolver is where it was in front of it, but for names in
the innermost frame; and programs one after the other are resolved as if each stood alone.
-/

namespace LoxLang

/-- The state of a resolver. -/
structure Resolver extends Resolution, Setting

namespace Resolver

/-- A step that looks neither at the function nor at the class around the place. -/
def step (change : Resolution → Resolution) (r : Resolver) : Resolver :=
  { r with toResolution := change r.toResolution }

def report (name : Name) (fault : ScopeFault) : Resolver → Resolver := step (.report name fault)

def enter (names : List String) : Resolver → Resolver := step (.enter names)

def leave : Resolver → Resolver := step .leave

def declare (name : Name) : Resolver → Resolver := step (.declare name)

def define (name : Name) : Resolver → Resolver := step (.define name)

def bind (id : NodeId) (name : String) : Resolver → Resolver := step (.bind id name)

def reference (target : Reference) : Resolver → Resolver := step (.reference target)

/-- Resolves `this`; outside of classes it goes back at once. -/
def receiver (target : Reference) (r : Resolver) : Resolver :=
  if r.class_ = .outside then r.report target.name .receiverOutsideClass
  else r.bind target.id "this"

/-- Resolves `super`. -/
def inherited (target : Reference) (r : Resolver) : Resolver :=
  match r.class_ with
  | .outside => r.report target.name .inheritedOutsideClass
  | .base => r.report target.name .inheritedWithoutSuperclass
  | .derived => r.bind target.id "super"

mutual

/-- Resolves an expression. -/
def expr : Expr → Resolver → Resolver
  | .literal _, r => r
  | .grouping inner, r => expr inner r
  | .unary _ _ right, r => expr right r
  | .binary left _ _ right, r => expr right (expr left r)
  | .logical left _ right, r => expr right (expr left r)
  | .reference target, r => r.reference target
  | .assign target _ value, r => (expr value r).bind target.id target.name.text
  | .call callee _ _ arguments, r => exprs arguments (expr callee r)
  | .list _ elements, r => exprs elements r
  | .get object _, r => expr object r
  | .set object _ _ value, r => expr object (expr value r)
  | .setElement object arguments _ _ value, r => exprs arguments (expr object (expr value r))
  | .receiver target, r => r.receiver target
  | .inherited target _, r => r.inherited target

def exprs : List Expr → Resolver → Resolver
  | [], r => r
  | e :: rest, r => exprs rest (expr e r)

end

/-- Resolves the initializer of a variable. -/
def initializer : Option Expr → Resolver → Resolver
  | some e, r => expr e r
  | none, r => r

/-- Resolves a return statement. -/
def giveBack (keyword : Name) (value : Option Expr) (r : Resolver) : Resolver :=
  let r := if r.function = .outside then r.report keyword .returnOutsideFunction else r
  match value with
  | some e =>
    let r := if r.function = .initializer then r.report keyword .valueFromInitializer else r
    expr e r
  | none => r

def parameters (params : List Name) (r : Resolver) : Resolver :=
  params.foldl (fun r param => (r.declare param).define param) r

/-- Resolves the name of a superclass, and enters the frame of `super`. -/
def superclass (name : Name) (target : Option Reference) (r : Resolver) : Resolver :=
  match target with
  | some target =>
    let r := if target.name.text = name.text then r.report target.name .inheritsFromItself else r
    let r := { r with class_ := .derived }
    (r.reference target).enter ["super"]
  | none => r

mutual

/-- Resolves a statement. -/
def stmt : Stmt → Resolver → Resolver
  | .expression value, r => expr value r
  | .declare name value, r => (initializer value (r.declare name)).define name
  | .block body, r => (stmts body (r.enter [])).leave
  | .branch condition thenBranch elseBranch, r => stmt? elseBranch (stmt thenBranch (expr condition r))
  | .loop condition body, r => stmt body (expr condition r)
  | .function declaration, r =>
    functionBody .function declaration ((r.declare declaration.name).define declaration.name)
  | .giveBack keyword value, r => giveBack keyword value r
  | .declareClass name target classMethods, r =>
    let enclosing := r.class_
    let r := { r with class_ := .base }
    let r := (r.declare name).define name
    let r := superclass name target r
    let r := (methods classMethods (r.enter ["this"])).leave
    let r := if target.isSome then r.leave else r
    { r with class_ := enclosing }

def stmt? : Option Stmt → Resolver → Resolver
  | some s, r => stmt s r
  | none, r => r

def stmts : List Stmt → Resolver → Resolver
  | [], r => r
  | s :: rest, r => stmts rest (stmt s r)

/-- Resolves the parameters and the body of a function of this kind. -/
def functionBody (kind : FunctionSetting) : FunctionDecl → Resolver → Resolver
  | ⟨_, params, body⟩, r =>
    let enclosing := r.function
    let r := { r with function := kind }
    let r := (stmts body ((r.enter []).parameters params)).leave
    { r with function := enclosing }

def methods : List FunctionDecl → Resolver → Resolver
  | [], r => r
  | f :: rest, r =>
    let kind := if f.name.text = initializerName then .initializer else .method
    methods rest (functionBody kind f r)

end

end Resolver

/-! ## Nothing is left overwritten -/

/-- The resolver does what resolution does in its setting, and puts the setting back. -/
def Resolver.Agrees (walk : Resolver → Resolver) (walkIn : Setting → Resolution → Resolution) : Prop :=
  ∀ r, walk r = ⟨walkIn r.toSetting r.toResolution, r.toSetting⟩

section
variable {f g : Resolver → Resolver} {fIn gIn : Setting → Resolution → Resolution}

theorem Resolver.Agrees.comp (hf : Resolver.Agrees f fIn) (hg : Resolver.Agrees g gIn) :
    Resolver.Agrees (fun r => g (f r)) fun setting r => gIn setting (fIn setting r) := by
  intro r
  change g (f r) = _
  rw [hf r, hg]

theorem agrees_id : Resolver.Agrees (fun r => r) fun _ r => r := fun _ => rfl

theorem step_agrees (change : Resolution → Resolution) : Resolver.Agrees (.step change) fun _ => change :=
  fun _ => rfl

theorem receiver_agrees (target : Reference) :
    Resolver.Agrees (.receiver target) fun setting => .receiver setting target := by
  rintro ⟨resolution, kind, class_⟩
  cases class_ <;> rfl

theorem inherited_agrees (target : Reference) :
    Resolver.Agrees (.inherited target) fun setting => .inherited setting target := by
  rintro ⟨resolution, kind, class_⟩
  cases class_ <;> rfl

theorem parameters_agrees (params : List Name) :
    Resolver.Agrees (.parameters params) fun _ => .parameters params := by
  unfold Resolver.parameters Resolution.parameters
  induction params with
  | nil => exact agrees_id
  | cons param rest ih => exact ((step_agrees _).comp (step_agrees _)).comp ih

end

mutual

theorem expr_agrees : ∀ e : Expr, Resolver.Agrees (.expr e) fun setting => .expr setting e
  | .literal _ => agrees_id
  | .grouping inner => expr_agrees inner
  | .unary _ _ right => expr_agrees right
  | .binary left _ _ right => (expr_agrees left).comp (expr_agrees right)
  | .logical left _ right => (expr_agrees left).comp (expr_agrees right)
  | .reference _ => step_agrees _
  | .assign _ _ value => (expr_agrees value).comp (step_agrees _)
  | .call callee _ _ arguments => (expr_agrees callee).comp (exprs_agrees arguments)
  | .list _ elements => exprs_agrees elements
  | .get object _ => expr_agrees object
  | .set object _ _ value => (expr_agrees value).comp (expr_agrees object)
  | .setElement object arguments _ _ value =>
    ((expr_agrees value).comp (expr_agrees object)).comp (exprs_agrees arguments)
  | .receiver target => receiver_agrees target
  | .inherited target _ => inherited_agrees target

theorem exprs_agrees : ∀ es : List Expr, Resolver.Agrees (.exprs es) fun setting => .exprs setting es
  | [] => agrees_id
  | e :: rest => (expr_agrees e).comp (exprs_agrees rest)

end

theorem initializer_agrees (value : Option Expr) :
    Resolver.Agrees (.initializer value) fun setting => .expr? setting value := by
  cases value with
  | none => exact agrees_id
  | some e => exact expr_agrees e

theorem giveBack_agrees (keyword : Name) (value : Option Expr) :
    Resolver.Agrees (.giveBack keyword value) fun setting r =>
      .expr? setting value (r.checkReturn setting keyword value.isSome) := by
  rintro ⟨resolution, kind, class_⟩
  cases value with
  | none => cases kind <;> rfl
  | some e => cases kind <;> exact expr_agrees e _

/-- Whatever class the resolver is in, the name of a superclass takes it into one that extends another. -/
theorem superclass_eq (name : Name) (target : Option Reference) (r : Resolution) (kind : FunctionSetting) :
    Resolver.superclass name target ⟨r, kind, .base⟩ =
      ⟨.superclass name target r, kind, Resolution.classSetting target⟩ := by
  cases target with
  | none => rfl
  | some target =>
    unfold Resolver.superclass Resolution.superclass
    dsimp only
    split <;> rfl

mutual

theorem stmt_agrees : ∀ s : Stmt, Resolver.Agrees (.stmt s) fun setting => .stmt setting s
  | .expression value => expr_agrees value
  | .declare _ value => ((step_agrees _).comp (initializer_agrees value)).comp (step_agrees _)
  | .block body => ((step_agrees _).comp (stmts_agrees body)).comp (step_agrees _)
  | .branch condition thenBranch elseBranch =>
    ((expr_agrees condition).comp (stmt_agrees thenBranch)).comp (else_agrees elseBranch)
  | .loop condition body => (expr_agrees condition).comp (stmt_agrees body)
  | .function declaration =>
    ((step_agrees _).comp (step_agrees _)).comp (functionBody_agrees .function declaration)
  | .giveBack keyword value => giveBack_agrees keyword value
  | .declareClass name target classMethods => by
    rintro ⟨resolution, kind, enclosing⟩
    let walk (r : Resolver) : Resolver := (Resolver.methods classMethods (r.enter ["this"])).leave
    have hwalk : Resolver.Agrees walk fun setting r =>
        (Resolution.methods setting.class_ classMethods (r.enter ["this"])).leave :=
      ((step_agrees _).comp (methods_agrees classMethods)).comp (step_agrees _)
    have hname := superclass_eq name target ((resolution.declare name).define name) kind
    have hmethods := (congrArg walk hname).trans (hwalk _)
    have hleave := congrArg
      (fun r : Resolver => { (if target.isSome then r.leave else r) with class_ := enclosing }) hmethods
    cases target <;> exact hleave

theorem else_agrees : ∀ o : Option Stmt, Resolver.Agrees (.stmt? o) fun setting => .stmt? setting o
  | some s => stmt_agrees s
  | none => agrees_id

theorem stmts_agrees : ∀ body : List Stmt, Resolver.Agrees (.stmts body) fun setting => .stmts setting body
  | [] => agrees_id
  | s :: rest => (stmt_agrees s).comp (stmts_agrees rest)

theorem functionBody_agrees (kind : FunctionSetting) : ∀ f : FunctionDecl,
    Resolver.Agrees (.functionBody kind f) fun setting => .functionBody { setting with function := kind } f
  | ⟨_, params, body⟩ => by
    rintro ⟨resolution, enclosing, class_⟩
    have hparams := (step_agrees (.enter [])).comp (parameters_agrees params)
    have hbody := (hparams.comp (stmts_agrees body)).comp (step_agrees .leave)
    exact congrArg (fun r : Resolver => { r with function := enclosing }) (hbody ⟨resolution, kind, class_⟩)

theorem methods_agrees : ∀ fs : List FunctionDecl,
    Resolver.Agrees (.methods fs) fun setting => .methods setting.class_ fs
  | [] => agrees_id
  | f :: rest => (functionBody_agrees _ f).comp (methods_agrees rest)

end

/-- The resolver finds in a program what resolution finds. -/
theorem resolver_resolves (program : List Stmt) :
    (Resolver.stmts program ⟨{}, {}⟩).toResolution = resolve program :=
  congrArg Resolver.toResolution (stmts_agrees program ⟨{}, {}⟩)

/-! ## Balance -/

/-- A place in the innermost frame, and a later place in it. Only further names may have been put into the
frame. -/
structure Resolver.Balanced (before after : Resolver) : Prop where
  count : after.frames.length = before.frames.length
  outer : after.frames.tail = before.frames.tail
  names : ∀ frame ∈ before.frames.head?, ∃ frame' ∈ after.frames.head?,
    ∀ name, frame.has name = true → frame'.has name = true
  function : after.function = before.function
  class_ : after.class_ = before.class_

theorem Resolver.Agrees.balanced {walk : Resolver → Resolver} {walkIn : Setting → Resolution → Resolution}
    (h : Resolver.Agrees walk walkIn) (hk : ∀ setting, KeepsFrames (walkIn setting)) (r : Resolver) :
    r.Balanced (walk r) := by
  have hframes := hk r.toSetting r.toResolution
  rw [h r]
  exact ⟨hframes.length_eq, hframes.tail_eq, hframes.names, rfl, rfl⟩

theorem noteAll_append (m : Machine) (later earlier : List Note) :
    m.noteAll (later ++ earlier) = (m.noteAll earlier).noteAll later := List.foldr_append ..

theorem relabel_nothing (errors : List StaticError) :
    errors.map (StaticError.relabel (.lines id)) = errors := by
  refine List.map_id'' (fun e => ?_) errors
  cases e <;> rfl

/-- Resolution of two programs in a row finds the errors and the depths of the first one and then those of the
second one, whatever errors there are. A resolver in any state, in front of any statement or expression, finds
what resolution finds in its setting, and comes back to the same frames, but for further names in the
innermost one, and to the same function and class. -/
theorem resolution_is_compositional_and_balanced (program rest : List Stmt) :
    ((resolve (program ++ rest)).errors.reverse =
        (resolve program).errors.reverse ++ (resolve rest).errors.reverse ∧
      (resolve (program ++ rest)).notes.reverse =
        (resolve program).notes.reverse ++ (resolve rest).notes.reverse ∧
      ∀ m : Machine, m.noteAll (resolve (program ++ rest)).notes =
        (m.noteAll (resolve program).notes).noteAll (resolve rest).notes) ∧
    (∀ (r : Resolver) (s : Stmt), r.Balanced (r.stmt s) ∧
      (r.stmt s).toResolution = .stmt r.toSetting s r.toResolution) ∧
    (∀ (r : Resolver) (e : Expr), r.Balanced (r.expr e) ∧
      (r.expr e).toResolution = .expr r.toSetting e r.toResolution) ∧
    (Resolver.stmts program ⟨{}, {}⟩).toResolution = resolve program := by
  obtain ⟨hnotes, herrors⟩ := resolve_append id program rest
  rw [relineBody_id] at hnotes herrors
  rw [relabel_nothing] at herrors
  refine ⟨⟨?_, ?_, fun m => ?_⟩, fun r s => ⟨?_, ?_⟩, fun r e => ⟨?_, ?_⟩, resolver_resolves program⟩
  · rw [herrors, List.reverse_append]
  · rw [hnotes, List.reverse_append]
  · rw [hnotes, noteAll_append]
  · exact (stmt_agrees s).balanced (fun setting => stmt_keepsFrames setting s) r
  · rw [stmt_agrees s r]
  · exact (expr_agrees e).balanced (fun setting => expr_keepsFrames setting e) r
  · rw [expr_agrees e r]

end LoxLang
