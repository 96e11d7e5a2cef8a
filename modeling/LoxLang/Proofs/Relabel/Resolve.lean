import LoxLang.Proofs.Relabel
import LoxLang.Proofs.Scoping.Walk

/-!
# Resolving with other lines and identities

What resolution finds at a place depends on the frames around it only: neither on what was found before nor
on the lines of the tokens and the identities of the references. So in a relabelled program it finds the same
with other labels.
-/

namespace LoxLang

def Note.relabel (l : Relabelling) (n : Note) : Note := { n with id := l.id n.id }

/-- The error on another line. -/
def StaticError.relabel (l : Relabelling) : StaticError → StaticError
  | lexical line fault => lexical (l.line line) fault
  | grammar line place fault => grammar (l.line line) place fault
  | scope line name fault => scope (l.line line) name fault

/-- The same place in two walks, with other labels in the second one, which found something before. -/
structure Behind (l : Relabelling) (earlier r r' : Resolution) : Prop where
  frames : r'.frames = r.frames
  notes : r'.notes = r.notes.map (Note.relabel l) ++ earlier.notes
  errors : r'.errors = r.errors.map (StaticError.relabel l) ++ earlier.errors

/-- Two walks that do the same at the same place. -/
def Parallel (l : Relabelling) (walk walk' : Resolution → Resolution) : Prop :=
  ∀ earlier r r', Behind l earlier r r' → Behind l earlier (walk r) (walk' r')

section
variable {l : Relabelling} {f f' g g' : Resolution → Resolution}

theorem parallel_id : Parallel l (fun r => r) (fun r => r) := fun _ _ _ h => h

theorem Parallel.comp (hf : Parallel l f f') (hg : Parallel l g g') :
    Parallel l (fun r => g (f r)) (fun r => g' (f' r)) :=
  fun earlier _ _ h => hg earlier _ _ (hf earlier _ _ h)

theorem report_parallel (name : Name) (fault : ScopeFault) :
    Parallel l (Resolution.report name fault) (Resolution.report (name.relabel l) fault) := by
  intro earlier r r' h
  exact ⟨h.frames, h.notes, congrArg (List.cons _) h.errors⟩

theorem enter_parallel (names : List String) :
    Parallel l (Resolution.enter names) (Resolution.enter names) := by
  intro earlier r r' h
  exact ⟨congrArg (List.cons _) h.frames, h.notes, h.errors⟩

theorem leave_parallel : Parallel l Resolution.leave Resolution.leave := by
  intro earlier r r' h
  exact ⟨congrArg List.tail h.frames, h.notes, h.errors⟩

/-- A choice by the frames is made the same way in both walks. -/
theorem choice_parallel {p : Resolution → Prop} [DecidablePred p]
    (hp : ∀ r r' : Resolution, r'.frames = r.frames → (p r' ↔ p r)) (hf : Parallel l f f')
    (hg : Parallel l g g') :
    Parallel l (fun r => if p r then f r else g r) (fun r => if p r then f' r else g' r) := by
  intro earlier r r' h
  have hr := hp r r' h.frames
  by_cases hpr : p r
  · simp only [if_pos hpr, if_pos (hr.2 hpr)]
    exact hf earlier r r' h
  · simp only [if_neg hpr, if_neg (mt hr.1 hpr)]
    exact hg earlier r r' h

theorem declare_parallel (l : Relabelling) (name : Name) :
    Parallel l (Resolution.declare name) (Resolution.declare (name.relabel l)) := by
  intro earlier r r' h
  unfold Resolution.declare
  rw [h.frames]
  cases hr : r.frames with
  | nil => exact h
  | cons frame outer =>
    dsimp only
    by_cases hd : Table.has name.text frame = true
    · have hd' : Table.has (name.relabel l).text frame = true := hd
      rw [if_pos hd, if_pos hd']
      exact ⟨rfl, h.notes, congrArg (List.cons _) h.errors⟩
    · have hd' : ¬Table.has (name.relabel l).text frame = true := hd
      rw [if_neg hd, if_neg hd']
      exact ⟨rfl, h.notes, h.errors⟩

theorem define_parallel (l : Relabelling) (name : Name) :
    Parallel l (Resolution.define name) (Resolution.define (name.relabel l)) := by
  intro earlier r r' h
  unfold Resolution.define
  rw [h.frames]
  cases hr : r.frames with
  | nil => exact h
  | cons frame outer => exact ⟨rfl, h.notes, h.errors⟩

theorem declared_parallel (l : Relabelling) (name : Name) :
    Parallel l (fun r => (r.declare name).define name)
      (fun r => (r.declare (name.relabel l)).define (name.relabel l)) :=
  (declare_parallel l name).comp (define_parallel l name)

theorem parameters_parallel (l : Relabelling) (params : List Name) :
    Parallel l (Resolution.parameters params) (Resolution.parameters (relabelNames l params)) := by
  unfold Resolution.parameters relabelNames
  induction params with
  | nil => exact parallel_id
  | cons param rest ih => exact (declared_parallel l param).comp ih

theorem bind_parallel (id : NodeId) (name : String) :
    Parallel l (Resolution.bind id name) (Resolution.bind (l.id id) name) := by
  intro earlier r r' h
  unfold Resolution.bind
  rw [h.frames]
  cases depthIn? name r.frames with
  | some depth => exact ⟨rfl, congrArg (List.cons _) h.notes, h.errors⟩
  | none => exact h

theorem reference_parallel (l : Relabelling) (target : Reference) :
    Parallel l (Resolution.reference target) (Resolution.reference (target.relabel l)) := by
  have hunready (r r' : Resolution) (h : r'.frames = r.frames) :
      r'.isUnready target.name.text = true ↔ r.isUnready target.name.text = true := by
    unfold Resolution.isUnready
    rw [h]
  exact (choice_parallel hunready (report_parallel _ _) parallel_id).comp (bind_parallel _ _)

theorem receiver_parallel (l : Relabelling) (setting : Setting) (target : Reference) :
    Parallel l (Resolution.receiver setting target) (Resolution.receiver setting (target.relabel l)) := by
  unfold Resolution.receiver
  split
  · exact report_parallel _ _
  · exact bind_parallel _ _

theorem inherited_parallel (l : Relabelling) (setting : Setting) (target : Reference) :
    Parallel l (Resolution.inherited setting target) (Resolution.inherited setting (target.relabel l)) := by
  unfold Resolution.inherited
  split
  · exact report_parallel _ _
  · exact report_parallel _ _
  · exact bind_parallel _ _

theorem checkReturn_parallel (l : Relabelling) (setting : Setting) (keyword : Name)
    {hasValue hasValue' : Bool} (hv : hasValue' = hasValue) :
    Parallel l (Resolution.checkReturn setting keyword hasValue)
      (Resolution.checkReturn setting (keyword.relabel l) hasValue') := by
  subst hv
  unfold Resolution.checkReturn
  split
  · exact report_parallel _ _
  · exact choice_parallel (fun _ _ _ => Iff.rfl) (report_parallel _ _) parallel_id
  · exact parallel_id

theorem superclass_parallel (l : Relabelling) (name : Name) (superclass : Option Reference) :
    Parallel l (Resolution.superclass name superclass)
      (Resolution.superclass (name.relabel l) (relabelSuperclass l superclass)) := by
  cases superclass with
  | none => exact parallel_id
  | some target =>
    exact ((choice_parallel (fun _ _ _ => Iff.rfl) (report_parallel _ _) parallel_id).comp
      (reference_parallel l target)).comp (enter_parallel _)

end

mutual

theorem expr_parallel (l : Relabelling) (setting : Setting) : ∀ e : Expr,
    Parallel l (Resolution.expr setting e) (Resolution.expr setting (e.relabel l))
  | .literal _ => parallel_id
  | .grouping e | .unary _ _ e | .get e _ => expr_parallel l setting e
  | .binary left _ _ right | .logical left _ right =>
    (expr_parallel l setting left).comp (expr_parallel l setting right)
  | .reference target => reference_parallel l target
  | .assign _ _ value => (expr_parallel l setting value).comp (bind_parallel _ _)
  | .call callee _ _ arguments =>
    (expr_parallel l setting callee).comp (exprs_parallel l setting arguments)
  | .list _ elements => exprs_parallel l setting elements
  | .set object _ _ value => (expr_parallel l setting value).comp (expr_parallel l setting object)
  | .setElement object arguments _ _ value =>
    ((expr_parallel l setting value).comp (expr_parallel l setting object)).comp
      (exprs_parallel l setting arguments)
  | .receiver target => receiver_parallel l setting target
  | .inherited target _ => inherited_parallel l setting target

theorem exprs_parallel (l : Relabelling) (setting : Setting) : ∀ es : List Expr,
    Parallel l (Resolution.exprs setting es) (Resolution.exprs setting (relabelItems l es))
  | [] => parallel_id
  | e :: rest => (expr_parallel l setting e).comp (exprs_parallel l setting rest)

end

theorem optional_parallel (l : Relabelling) (setting : Setting) (value : Option Expr) :
    Parallel l (Resolution.expr? setting value) (Resolution.expr? setting (relabelOptional l value)) := by
  cases value with
  | none => exact parallel_id
  | some e => exact expr_parallel l setting e

mutual

theorem stmt_parallel (l : Relabelling) (setting : Setting) : ∀ s : Stmt,
    Parallel l (Resolution.stmt setting s) (Resolution.stmt setting (s.relabel l))
  | .expression value => expr_parallel l setting value
  | .declare name initializer =>
    ((declare_parallel l name).comp (optional_parallel l setting initializer)).comp
      (define_parallel l name)
  | .block body => ((enter_parallel []).comp (stmts_parallel l setting body)).comp leave_parallel
  | .branch condition thenBranch elseBranch =>
    ((expr_parallel l setting condition).comp (stmt_parallel l setting thenBranch)).comp
      (else_parallel l setting elseBranch)
  | .loop condition body => (expr_parallel l setting condition).comp (stmt_parallel l setting body)
  | .function ⟨name, params, body⟩ =>
    (declared_parallel l name).comp (functionBody_parallel l _ ⟨name, params, body⟩)
  | .giveBack keyword none => checkReturn_parallel l setting keyword rfl
  | .giveBack keyword (some value) =>
    (checkReturn_parallel l setting keyword rfl).comp (expr_parallel l setting value)
  | .declareClass name none classMethods =>
    ((((declared_parallel l name).comp (superclass_parallel l name none)).comp
      (enter_parallel ["this"])).comp (methods_parallel l _ classMethods)).comp leave_parallel
  | .declareClass name (some target) classMethods =>
    (((((declared_parallel l name).comp (superclass_parallel l name (some target))).comp
      (enter_parallel ["this"])).comp (methods_parallel l _ classMethods)).comp leave_parallel).comp
      leave_parallel

theorem else_parallel (l : Relabelling) (setting : Setting) : ∀ o : Option Stmt,
    Parallel l (Resolution.stmt? setting o) (Resolution.stmt? setting (relabelElse l o))
  | some s => stmt_parallel l setting s
  | none => parallel_id

theorem stmts_parallel (l : Relabelling) (setting : Setting) : ∀ body : List Stmt,
    Parallel l (Resolution.stmts setting body) (Resolution.stmts setting (relabelBody l body))
  | [] => parallel_id
  | s :: rest => (stmt_parallel l setting s).comp (stmts_parallel l setting rest)

theorem functionBody_parallel (l : Relabelling) (setting : Setting) : ∀ f : FunctionDecl,
    Parallel l (Resolution.functionBody setting f) (Resolution.functionBody setting (f.relabel l))
  | ⟨_, params, body⟩ =>
    (((enter_parallel []).comp (parameters_parallel l params)).comp
      (stmts_parallel l setting body)).comp leave_parallel

theorem methods_parallel (l : Relabelling) (class_ : ClassSetting) : ∀ fs : List FunctionDecl,
    Parallel l (Resolution.methods class_ fs) (Resolution.methods class_ (relabelMethods l fs))
  | [] => parallel_id
  | ⟨name, params, body⟩ :: rest =>
    (functionBody_parallel l _ ⟨name, params, body⟩).comp (methods_parallel l class_ rest)

end

/-- A relabelled program is resolved like the program itself. -/
theorem resolve_relabel (l : Relabelling) (program : List Stmt) :
    Behind l {} (resolve program) (resolve (relabelBody l program)) :=
  stmts_parallel l {} program {} {} {} ⟨rfl, rfl, rfl⟩

end LoxLang
