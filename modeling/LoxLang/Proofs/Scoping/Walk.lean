import LoxLang.Proofs.Scoping.Context

/-!
# Resolution place by place

The walk of resolution comes to every part of a program with exactly the frames of the context in which the
part stands. Since the references of a program have identities of their own, what is noted for a reference
is what was found there, and nothing else in the program changes it.
-/

namespace LoxLang

/-! ## What a walk adds -/

/-- The later errors are the earlier ones behind further ones, which breach the rules on names. -/
def Finds (earlier later : List StaticError) : Prop :=
  ∃ found, later = found ++ earlier ∧ ∀ e ∈ found, e.phase = .scope

theorem finds_nothing {errors : List StaticError} : Finds errors errors := ⟨[], rfl, by simp⟩

theorem finds_scope (line : Nat) (name : String) (fault : ScopeFault) (errors : List StaticError) :
    Finds errors (.scope line name fault :: errors) := ⟨[_], rfl, by simp [StaticError.phase]⟩

namespace Finds
variable {earlier later latest : List StaticError}

theorem trans (h : Finds earlier later) (h' : Finds later latest) : Finds earlier latest := by
  obtain ⟨found, rfl, hf⟩ := h
  obtain ⟨found', rfl, hf'⟩ := h'
  refine ⟨found' ++ found, (List.append_assoc ..).symm, fun e he => ?_⟩
  rcases List.mem_append.1 he with he | he
  · exact hf' e he
  · exact hf e he

theorem suffix (h : Finds earlier later) : earlier <:+ later := by
  obtain ⟨found, rfl, -⟩ := h
  exact List.suffix_append found earlier

end Finds

/-- The walk adds notes for these identities only, and keeps the errors. -/
def Grows (walk : Resolution → Resolution) (ids : List NodeId) : Prop :=
  ∀ r, ∃ new, (walk r).notes = new ++ r.notes ∧ (∀ n ∈ new, n.id ∈ ids) ∧
    Finds r.errors (walk r).errors

section Grows
variable {f g : Resolution → Resolution} {xs ys : List NodeId}

theorem grows_id : Grows (fun r => r) [] := fun r => ⟨[], rfl, by simp, finds_nothing⟩

theorem Grows.comp (hf : Grows f xs) (hg : Grows g ys) : Grows (fun r => g (f r)) (xs ++ ys) := by
  intro r
  obtain ⟨new, hn, hx, he⟩ := hf r
  obtain ⟨new', hn', hy, he'⟩ := hg (f r)
  refine ⟨new' ++ new, ?_, ?_, he.trans he'⟩
  · rw [hn', hn, List.append_assoc]
  · intro n hm
    rcases List.mem_append.1 hm with hm | hm
    · exact List.mem_append_right _ (hy n hm)
    · exact List.mem_append_left _ (hx n hm)

theorem Grows.mono (hf : Grows f xs) (h : xs ⊆ ys) : Grows f ys := by
  intro r
  obtain ⟨new, hn, hx, he⟩ := hf r
  exact ⟨new, hn, fun n hm => h (hx n hm), he⟩

/-- A walk that ends without errors has begun without errors. -/
theorem Grows.silent {r : Resolution} (hf : Grows f xs) (h : (f r).errors = []) : r.errors = [] := by
  obtain ⟨-, -, -, he⟩ := hf r
  exact List.suffix_nil.1 (h ▸ he.suffix)

theorem report_grows (name : Name) (fault : ScopeFault) : Grows (Resolution.report name fault) [] :=
  fun _ => ⟨[], rfl, by simp, finds_scope _ _ _ _⟩

theorem enter_grows (names : List String) : Grows (Resolution.enter names) [] :=
  fun _ => ⟨[], rfl, by simp, finds_nothing⟩

theorem leave_grows : Grows Resolution.leave [] := fun _ => ⟨[], rfl, by simp, finds_nothing⟩

theorem declare_grows (name : Name) : Grows (Resolution.declare name) [] := by
  intro r
  unfold Resolution.declare
  split
  · exact grows_id r
  · dsimp only
    split
    · exact ⟨[], rfl, by simp, finds_scope _ _ _ _⟩
    · exact ⟨[], rfl, by simp, finds_nothing⟩

theorem define_grows (name : Name) : Grows (Resolution.define name) [] := by
  intro r
  unfold Resolution.define
  split
  · exact grows_id r
  · exact ⟨[], rfl, by simp, finds_nothing⟩

theorem declared_grows (name : Name) : Grows (fun r => (r.declare name).define name) [] :=
  (declare_grows name).comp (define_grows name)

theorem parameters_grows (params : List Name) : Grows (Resolution.parameters params) [] := by
  unfold Resolution.parameters
  induction params with
  | nil => exact grows_id
  | cons param rest ih => exact (declared_grows param).comp ih

theorem bind_grows (id : NodeId) (name : String) : Grows (Resolution.bind id name) [id] := by
  intro r
  unfold Resolution.bind
  split
  · exact ⟨[_], rfl, by simp, finds_nothing⟩
  · exact ⟨[], rfl, by simp, finds_nothing⟩

theorem checkReturn_grows (setting : Setting) (keyword : Name) (hasValue : Bool) :
    Grows (Resolution.checkReturn setting keyword hasValue) [] := by
  intro r
  unfold Resolution.checkReturn
  split
  · exact report_grows _ _ r
  · split
    · exact report_grows _ _ r
    · exact grows_id r
  · exact grows_id r

theorem ifReport_grows (p : Resolution → Prop) [DecidablePred p] (name : Name) (fault : ScopeFault) :
    Grows (fun r => if p r then r.report name fault else r) [] := by
  intro r
  dsimp only
  split
  · exact report_grows _ _ r
  · exact grows_id r

theorem reference_grows (target : Reference) : Grows (Resolution.reference target) [target.id] :=
  (ifReport_grows (fun r => r.isUnready target.name.text = true) _ _).comp (bind_grows _ _)

theorem receiver_grows (setting : Setting) (target : Reference) :
    Grows (Resolution.receiver setting target) [target.id] := by
  unfold Resolution.receiver
  split
  · exact (report_grows _ _).mono (by simp)
  · exact bind_grows _ _

theorem inherited_grows (setting : Setting) (target : Reference) :
    Grows (Resolution.inherited setting target) [target.id] := by
  unfold Resolution.inherited
  split
  · exact (report_grows _ _).mono (by simp)
  · exact (report_grows _ _).mono (by simp)
  · exact bind_grows _ _

theorem superclass_grows (name : Name) (superclass : Option Reference) :
    Grows (Resolution.superclass name superclass) (superclassIds superclass) := by
  cases superclass with
  | none => exact grows_id
  | some target =>
    exact ((ifReport_grows (fun _ => target.name.text = name.text) _ _).comp
      (reference_grows target)).comp (enter_grows _)

end Grows

mutual

theorem expr_grows (setting : Setting) : ∀ e : Expr, Grows (Resolution.expr setting e) e.ids
  | .literal _ => grows_id
  | .grouping inner => expr_grows setting inner
  | .unary _ _ right => expr_grows setting right
  | .binary left _ _ right => (expr_grows setting left).comp (expr_grows setting right)
  | .logical left _ right => (expr_grows setting left).comp (expr_grows setting right)
  | .reference target => reference_grows target
  | .assign target _ value =>
    ((expr_grows setting value).comp (bind_grows target.id target.name.text)).mono (by simp [Expr.ids])
  | .call callee _ _ arguments => (expr_grows setting callee).comp (exprs_grows setting arguments)
  | .list _ elements => exprs_grows setting elements
  | .get object _ => expr_grows setting object
  | .set object _ _ value =>
    ((expr_grows setting value).comp (expr_grows setting object)).mono (by simp [Expr.ids])
  | .setElement object arguments _ _ value =>
    (((expr_grows setting value).comp (expr_grows setting object)).comp
      (exprs_grows setting arguments)).mono (by simp [Expr.ids])
  | .receiver target => receiver_grows setting target
  | .inherited target _ => inherited_grows setting target

theorem exprs_grows (setting : Setting) :
    ∀ es : List Expr, Grows (Resolution.exprs setting es) (itemIds es)
  | [] => grows_id
  | e :: rest => (expr_grows setting e).comp (exprs_grows setting rest)

end

theorem optional_grows (setting : Setting) (value : Option Expr) :
    Grows (Resolution.expr? setting value) (optionalIds value) := by
  cases value with
  | none => exact grows_id
  | some e => exact expr_grows setting e

mutual

theorem stmt_grows (setting : Setting) : ∀ s : Stmt, Grows (Resolution.stmt setting s) s.ids
  | .expression value => expr_grows setting value
  | .declare name initializer =>
    (((declare_grows name).comp (optional_grows setting initializer)).comp (define_grows name)).mono
      (by simp [Stmt.ids])
  | .block body =>
    (((enter_grows []).comp (stmts_grows setting body)).comp leave_grows).mono (by simp [Stmt.ids])
  | .branch condition thenBranch elseBranch =>
    (((expr_grows setting condition).comp (stmt_grows setting thenBranch)).comp
      (else_grows setting elseBranch)).mono (by simp [Stmt.ids])
  | .loop condition body => (expr_grows setting condition).comp (stmt_grows setting body)
  | .function declaration =>
    (declared_grows declaration.name).comp (functionBody_grows _ declaration)
  | .giveBack keyword value =>
    (checkReturn_grows setting keyword value.isSome).comp (optional_grows setting value)
  | .declareClass name none classMethods =>
    (((((declared_grows name).comp (superclass_grows name none)).comp (enter_grows ["this"])).comp
      (methods_grows _ classMethods)).comp leave_grows).mono (by simp [Stmt.ids])
  | .declareClass name (some target) classMethods =>
    ((((((declared_grows name).comp (superclass_grows name (some target))).comp
      (enter_grows ["this"])).comp (methods_grows _ classMethods)).comp leave_grows).comp
      leave_grows).mono (by simp [Stmt.ids])

theorem else_grows (setting : Setting) :
    ∀ o : Option Stmt, Grows (Resolution.stmt? setting o) (elseIds o)
  | some s => stmt_grows setting s
  | none => grows_id

theorem stmts_grows (setting : Setting) :
    ∀ body : List Stmt, Grows (Resolution.stmts setting body) (bodyIds body)
  | [] => grows_id
  | s :: rest => (stmt_grows setting s).comp (stmts_grows setting rest)

theorem functionBody_grows (setting : Setting) :
    ∀ f : FunctionDecl, Grows (Resolution.functionBody setting f) f.ids
  | ⟨_, params, body⟩ =>
    ((((enter_grows []).comp (parameters_grows params)).comp (stmts_grows setting body)).comp
      leave_grows).mono (by simp [FunctionDecl.ids])

theorem methods_grows (class_ : ClassSetting) :
    ∀ fs : List FunctionDecl, Grows (Resolution.methods class_ fs) (methodIds fs)
  | [] => grows_id
  | f :: rest => (functionBody_grows _ f).comp (methods_grows class_ rest)

end

/-! ## The frames along a walk -/

section Frames
variable {c : Context} {r : Resolution}

@[simp] theorem Context.declare_setting (c : Context) (name : String) (ready : Bool) :
    (c.declare name ready).setting = c.setting := by
  unfold Context.declare
  split <;> rfl

theorem Context.declare_declare (c : Context) (name : String) (first second : Bool) :
    (c.declare name first).declare name second = c.declare name second := by
  obtain ⟨setting, layers⟩ := c
  cases layers with
  | nil => rfl
  | cons layer outer => simp [Context.declare, Table.put_put]

theorem Context.behind_frames_tail (c : Context) (s : Stmt) : (c.behind s).frames.tail = c.frames.tail := by
  obtain ⟨setting, layers⟩ := c
  cases s <;> cases layers <;> rfl

theorem Context.behind_of_not_declaration (c : Context) {s : Stmt} (h : s.isDeclaration = false) :
    c.behind s = c := by
  cases s <;> first | rfl | cases h

theorem declare_cons {frame : Frame} {outer : List Frame} (h : r.frames = frame :: outer) (name : Name) :
    (r.declare name).frames = Table.put name.text false frame :: outer := by
  unfold Resolution.declare
  simp only [h]
  split <;> rfl

theorem define_cons {frame : Frame} {outer : List Frame} (h : r.frames = frame :: outer) (name : Name) :
    (r.define name).frames = Table.put name.text true frame :: outer := by
  unfold Resolution.define
  simp only [h]

theorem declare_frames (h : r.frames = c.frames) (name : Name) :
    (r.declare name).frames = (c.declare name.text false).frames := by
  obtain ⟨setting, layers⟩ := c
  cases layers with
  | nil =>
    unfold Resolution.declare
    rw [h]
    exact h
  | cons layer outer => exact declare_cons h name

theorem define_frames (h : r.frames = c.frames) (name : Name) :
    (r.define name).frames = (c.declare name.text true).frames := by
  obtain ⟨setting, layers⟩ := c
  cases layers with
  | nil =>
    unfold Resolution.define
    rw [h]
    exact h
  | cons layer outer => exact define_cons h name

theorem declared_frames (h : r.frames = c.frames) (name : Name) :
    ((r.declare name).define name).frames = (c.declare name.text true).frames := by
  rw [define_frames (declare_frames h name) name, Context.declare_declare]

theorem parameters_frames (params : List Name) {frame : Frame} {outer : List Frame}
    (h : r.frames = frame :: outer) :
    (r.parameters params).frames =
      params.foldl (fun frame name => Table.put name.text true frame) frame :: outer := by
  unfold Resolution.parameters
  induction params generalizing r frame with
  | nil => exact h
  | cons param rest ih =>
    have hd := define_cons (declare_cons h param) param
    rw [Table.put_put] at hd
    exact ih hd

theorem enter_frames (h : r.frames = c.frames) (site : Site) (names : List String) :
    (r.enter names).frames = (c.enter site (names.map fun name => (name, true))).frames :=
  congrArg (List.cons _) h

theorem call_frames (h : r.frames = c.frames) (f : FunctionDecl) :
    ((r.enter []).parameters f.params).frames = (c.call f).frames := by
  rw [parameters_frames f.params (show (r.enter []).frames = [] :: r.frames from rfl), h]
  rfl

theorem ifReport_frames (p : Prop) [Decidable p] (name : Name) (fault : ScopeFault) (r : Resolution) :
    (if p then r.report name fault else r).frames = r.frames := by
  split <;> rfl

theorem bind_frames (id : NodeId) (name : String) (r : Resolution) :
    (r.bind id name).frames = r.frames := by
  unfold Resolution.bind
  split <;> rfl

theorem reference_frames (target : Reference) (r : Resolution) :
    (r.reference target).frames = r.frames := by
  unfold Resolution.reference
  rw [bind_frames, ifReport_frames]

theorem receiver_frames (setting : Setting) (target : Reference) (r : Resolution) :
    (r.receiver setting target).frames = r.frames := by
  unfold Resolution.receiver
  split
  · rfl
  · exact bind_frames _ _ _

theorem inherited_frames (setting : Setting) (target : Reference) (r : Resolution) :
    (r.inherited setting target).frames = r.frames := by
  unfold Resolution.inherited
  split
  · rfl
  · rfl
  · exact bind_frames _ _ _

theorem checkReturn_frames (setting : Setting) (keyword : Name) (hasValue : Bool) (r : Resolution) :
    (r.checkReturn setting keyword hasValue).frames = r.frames := by
  unfold Resolution.checkReturn
  split
  · rfl
  · exact ifReport_frames _ _ _ _
  · rfl

theorem class_frames (h : r.frames = c.frames) (name : Name) (superclass : Option Reference)
    (methods : List FunctionDecl) :
    (Resolution.superclass name superclass ((r.declare name).define name)).frames =
      (c.class_ name superclass methods).frames := by
  have hd := declared_frames h name
  cases superclass with
  | none => exact hd
  | some =>
    unfold Resolution.superclass
    dsimp only [Resolution.enter]
    rw [reference_frames, ifReport_frames, hd]
    rfl

end Frames

mutual

theorem expr_frames (setting : Setting) :
    ∀ (e : Expr) (r : Resolution), (Resolution.expr setting e r).frames = r.frames
  | .literal _, _ => rfl
  | .grouping inner, r => expr_frames setting inner r
  | .unary _ _ right, r => expr_frames setting right r
  | .binary left _ _ right, r =>
    (expr_frames setting right _).trans (expr_frames setting left r)
  | .logical left _ right, r =>
    (expr_frames setting right _).trans (expr_frames setting left r)
  | .reference target, r => reference_frames target r
  | .assign _ _ value, r => (bind_frames _ _ _).trans (expr_frames setting value r)
  | .call callee _ _ arguments, r =>
    (exprs_frames setting arguments _).trans (expr_frames setting callee r)
  | .list _ elements, r => exprs_frames setting elements r
  | .get object _, r => expr_frames setting object r
  | .set object _ _ value, r =>
    (expr_frames setting object _).trans (expr_frames setting value r)
  | .setElement object arguments _ _ value, r =>
    (exprs_frames setting arguments _).trans
      ((expr_frames setting object _).trans (expr_frames setting value r))
  | .receiver target, r => receiver_frames setting target r
  | .inherited target _, r => inherited_frames setting target r

theorem exprs_frames (setting : Setting) :
    ∀ (es : List Expr) (r : Resolution), (Resolution.exprs setting es r).frames = r.frames
  | [], _ => rfl
  | e :: rest, r => (exprs_frames setting rest _).trans (expr_frames setting e r)

end

theorem optional_frames (setting : Setting) (value : Option Expr) (r : Resolution) :
    (Resolution.expr? setting value r).frames = r.frames := by
  cases value with
  | none => rfl
  | some e => exact expr_frames setting e r

mutual

theorem stmt_frames (setting : Setting) :
    ∀ (s : Stmt) (c : Context) (r : Resolution), s.Placed → r.frames = c.frames →
      (Resolution.stmt setting s r).frames = (c.behind s).frames
  | .expression value, _, r, _, h => (expr_frames setting value r).trans h
  | .declare name initializer, c, r, _, h => by
    have hi := (optional_frames setting initializer (r.declare name)).trans (declare_frames h name)
    have hd := define_frames hi name
    rwa [Context.declare_declare] at hd
  | .block body, c, r, hp, h => by
    have hb := stmts_frames setting body _ _ hp (enter_frames h (.block body) [])
    exact hb
  | .branch condition thenBranch none, c, r, hp, h => by
    have ht := stmt_frames setting thenBranch c _ hp.2 ((expr_frames setting condition r).trans h)
    rwa [c.behind_of_not_declaration hp.1] at ht
  | .branch condition thenBranch (some elseBranch), c, r, hp, h => by
    have ht := stmt_frames setting thenBranch c _ hp.2.1 ((expr_frames setting condition r).trans h)
    rw [c.behind_of_not_declaration hp.1] at ht
    have he := stmt_frames setting elseBranch c _ hp.2.2.2 ht
    rwa [c.behind_of_not_declaration hp.2.2.1] at he
  | .loop condition body, c, r, hp, h => by
    have hb := stmt_frames setting body c _ hp.2 ((expr_frames setting condition r).trans h)
    rwa [c.behind_of_not_declaration hp.1] at hb
  | .function declaration, c, r, hp, h =>
    functionBody_frames _ declaration _ _ hp (declared_frames h declaration.name)
  | .giveBack keyword value, c, r, _, h =>
    (optional_frames setting value _).trans ((checkReturn_frames _ _ _ r).trans h)
  | .declareClass name none methods, c, r, hp, h => by
    have ht := enter_frames (class_frames h name none methods) (.block []) ["this"]
    exact congrArg List.tail (methods_frames _ methods _ _ hp ht)
  | .declareClass name (some target) methods, c, r, hp, h => by
    have ht := enter_frames (class_frames h name (some target) methods) (.block []) ["this"]
    exact congrArg (fun frames => frames.tail.tail) (methods_frames _ methods _ _ hp ht)

/-- Behind the statements of a scope, the frames around that scope are as they were. -/
theorem stmts_frames (setting : Setting) :
    ∀ (body : List Stmt) (c : Context) (r : Resolution), BodyPlaced body → r.frames = c.frames →
      (Resolution.stmts setting body r).frames.tail = c.frames.tail
  | [], _, _, _, h => congrArg List.tail h
  | s :: rest, c, r, hp, h => by
    have hs := stmt_frames setting s c r hp.1 h
    have ht := stmts_frames setting rest (c.behind s) _ hp.2 hs
    rwa [Context.behind_frames_tail] at ht

theorem functionBody_frames (setting : Setting) :
    ∀ (f : FunctionDecl) (c : Context) (r : Resolution), f.Placed → r.frames = c.frames →
      (Resolution.functionBody setting f r).frames = c.frames
  | ⟨name, params, body⟩, c, r, hp, h => by
    have hb := stmts_frames setting body (c.call ⟨name, params, body⟩) _ hp (call_frames h _)
    exact hb

theorem methods_frames (class_ : ClassSetting) :
    ∀ (fs : List FunctionDecl) (c : Context) (r : Resolution), MethodsPlaced fs → r.frames = c.frames →
      (Resolution.methods class_ fs r).frames = c.frames
  | [], _, _, _, h => h
  | f :: rest, c, r, hp, h =>
    methods_frames class_ rest c _ hp.2 (functionBody_frames _ f c r hp.1 h)

end

end LoxLang
