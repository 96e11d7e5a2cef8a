import LoxLang.Proofs.Scoping.Walk

/-!
# Frames behind a walk

Resolution leaves every frame that it enters. Behind an expression the frames are those in front of it. Behind a
statement the innermost frame may have more names, and behind a function or a class the frames in between
are gone again. None of this depends on the tree, on the frames or on what is found on the way.
-/

namespace LoxLang

/-- The same frames, but for further names in the innermost one. -/
inductive FramesKept : List Frame → List Frame → Prop
  | global : FramesKept [] []
  | scope {frame frame' : Frame} {outer : List Frame} :
      (∀ name, frame.has name = true → frame'.has name = true) →
      FramesKept (frame :: outer) (frame' :: outer)

namespace FramesKept
variable {frames frames' frames'' : List Frame}

theorem refl (frames : List Frame) : FramesKept frames frames := by
  cases frames with
  | nil => exact .global
  | cons frame outer => exact .scope fun _ h => h

theorem trans (h : FramesKept frames frames') (h' : FramesKept frames' frames'') :
    FramesKept frames frames'' := by
  cases h with
  | global => exact h'
  | scope hnames =>
    cases h' with
    | scope hnames' => exact .scope fun name hn => hnames' name (hnames name hn)

theorem length_eq (h : FramesKept frames frames') : frames'.length = frames.length := by
  cases h <;> rfl

theorem tail_eq (h : FramesKept frames frames') : frames'.tail = frames.tail := by
  cases h <;> rfl

theorem names (h : FramesKept frames frames') :
    ∀ frame ∈ frames.head?, ∃ frame' ∈ frames'.head?,
      ∀ name, frame.has name = true → frame'.has name = true := by
  cases h with
  | global => simp
  | @scope frame frame' outer hnames => simpa using hnames

/-- A name is put into the innermost frame. -/
theorem put (frame : Frame) (outer : List Frame) (name : String) (ready : Bool) :
    FramesKept (frame :: outer) (Table.put name ready frame :: outer) := by
  refine .scope fun other h => ?_
  rw [Table.has_put, h, Bool.or_true]

end FramesKept

/-- The walk keeps the frames. -/
def KeepsFrames (walk : Resolution → Resolution) : Prop := ∀ r, FramesKept r.frames (walk r).frames

namespace KeepsFrames
variable {f g : Resolution → Resolution}

theorem of_frames (h : ∀ r, (f r).frames = r.frames) : KeepsFrames f := by
  intro r
  rw [h r]
  exact .refl _

theorem comp (hf : KeepsFrames f) (hg : KeepsFrames g) : KeepsFrames fun r => g (f r) :=
  fun r => (hf r).trans (hg (f r))

/-- Inside a frame of its own, the walk leaves all frames as they are. -/
theorem inside (hf : KeepsFrames f) (names : List String) (r : Resolution) :
    (f (r.enter names)).leave.frames = r.frames := (hf (r.enter names)).tail_eq

end KeepsFrames

section
variable {r : Resolution}

theorem declare_global (h : r.frames = []) (name : Name) : r.declare name = r := by
  unfold Resolution.declare
  rw [h]

theorem define_global (h : r.frames = []) (name : Name) : r.define name = r := by
  unfold Resolution.define
  rw [h]

end

theorem declare_keepsFrames (name : Name) : KeepsFrames (Resolution.declare name) := by
  intro r
  rcases hr : r.frames with _ | ⟨frame, outer⟩
  · rw [declare_global hr, hr]
    exact .global
  · rw [declare_cons hr]
    exact .put frame outer _ _

theorem define_keepsFrames (name : Name) : KeepsFrames (Resolution.define name) := by
  intro r
  rcases hr : r.frames with _ | ⟨frame, outer⟩
  · rw [define_global hr, hr]
    exact .global
  · rw [define_cons hr]
    exact .put frame outer _ _

theorem declared_keepsFrames (name : Name) : KeepsFrames fun r => (r.declare name).define name :=
  (declare_keepsFrames name).comp (define_keepsFrames name)

theorem parameters_keepsFrames (params : List Name) : KeepsFrames (Resolution.parameters params) := by
  unfold Resolution.parameters
  induction params with
  | nil => exact .of_frames fun _ => rfl
  | cons param rest ih => exact (declared_keepsFrames param).comp ih

theorem expr_keepsFrames (setting : Setting) (e : Expr) : KeepsFrames (Resolution.expr setting e) :=
  .of_frames (expr_frames setting e)

theorem optional_keepsFrames (setting : Setting) (value : Option Expr) :
    KeepsFrames (Resolution.expr? setting value) := .of_frames (optional_frames setting value)

mutual

theorem stmt_keepsFrames (setting : Setting) : ∀ s : Stmt, KeepsFrames (Resolution.stmt setting s)
  | .expression value => expr_keepsFrames setting value
  | .declare name initializer =>
    ((declare_keepsFrames name).comp (optional_keepsFrames setting initializer)).comp (define_keepsFrames name)
  | .block body => .of_frames fun r => (stmts_keepsFrames setting body).inside [] r
  | .branch condition thenBranch elseBranch =>
    ((expr_keepsFrames setting condition).comp (stmt_keepsFrames setting thenBranch)).comp
      (else_keepsFrames setting elseBranch)
  | .loop condition body => (expr_keepsFrames setting condition).comp (stmt_keepsFrames setting body)
  | .function declaration =>
    (declared_keepsFrames declaration.name).comp (.of_frames fun r => functionBody_restores _ declaration r)
  | .giveBack keyword value =>
    (KeepsFrames.of_frames fun r => checkReturn_frames setting keyword value.isSome r).comp
      (optional_keepsFrames setting value)
  | .declareClass name none classMethods =>
    have hmethods := (KeepsFrames.of_frames (methods_restores _ classMethods)).inside ["this"]
    (declared_keepsFrames name).comp (.of_frames hmethods)
  | .declareClass name (some target) classMethods =>
    have hname : KeepsFrames fun r : Resolution =>
        (if target.name.text = name.text then r.report target.name .inheritsFromItself else r).reference target :=
      .of_frames fun r => (reference_frames target _).trans (ifReport_frames _ _ _ r)
    have hmethods := (KeepsFrames.of_frames (methods_restores _ classMethods)).inside ["this"]
    ((declared_keepsFrames name).comp hname).comp (.of_frames ((KeepsFrames.of_frames hmethods).inside ["super"]))

theorem else_keepsFrames (setting : Setting) :
    ∀ o : Option Stmt, KeepsFrames (Resolution.stmt? setting o)
  | some s => stmt_keepsFrames setting s
  | none => .of_frames fun _ => rfl

theorem stmts_keepsFrames (setting : Setting) :
    ∀ body : List Stmt, KeepsFrames (Resolution.stmts setting body)
  | [] => .of_frames fun _ => rfl
  | s :: rest => (stmt_keepsFrames setting s).comp (stmts_keepsFrames setting rest)

/-- Behind a function the frames are those in front of it. -/
theorem functionBody_restores (setting : Setting) :
    ∀ (f : FunctionDecl) (r : Resolution), (Resolution.functionBody setting f r).frames = r.frames
  | ⟨_, params, body⟩, r =>
    ((parameters_keepsFrames params).comp (stmts_keepsFrames setting body)).inside [] r

theorem methods_restores (class_ : ClassSetting) :
    ∀ (fs : List FunctionDecl) (r : Resolution), (Resolution.methods class_ fs r).frames = r.frames
  | [], _ => rfl
  | f :: rest, r => (methods_restores class_ rest _).trans (functionBody_restores _ f r)

end

/-- Behind a program there are no frames. -/
theorem resolve_leaves_no_frames (program : List Stmt) : (resolve program).frames = [] :=
  List.eq_nil_of_length_eq_zero (stmts_keepsFrames {} program {}).length_eq

end LoxLang
