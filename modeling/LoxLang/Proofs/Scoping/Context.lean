import LoxLang.Proofs.Program
import LoxLang.Proofs.Table
import LoxLang.Resolution

/-!
# Places in a program

Where the parts of a program stand: in which kind of function and class, and inside which scopes. A scope
is known here by what it is opened for and by the names declared in it up to the place. Nothing in this
module runs a program or resolves one; a context is read off the text.

Bodies of functions stand where the function is declared. The methods of a class stand inside a scope for
`this`, and that one inside a scope for `super` if the class extends another.
-/

namespace LoxLang

/-- What a scope is opened for: a block, a call of a function, the object that a method is bound to, or the
class that a class statement extends. -/
inductive Site where
  | block (body : List Stmt)
  | call (declaration : FunctionDecl)
  | receiver (method : FunctionDecl)
  | superclass (name : Name) (superclass : Option Reference) (methods : List FunctionDecl)

/-- A scope around a place, with the names declared in it so far. -/
structure Layer where
  site : Site
  frame : Frame

/-- What stands around a place; the innermost scope comes first. -/
structure Context where
  setting : Setting := {}
  layers : List Layer := []

namespace Context

def frames (c : Context) : List Frame := c.layers.map Layer.frame

/-- A name is declared in the innermost scope; outside of all scopes it is global. -/
def declare (c : Context) (name : String) (ready : Bool) : Context :=
  match c.layers with
  | [] => c
  | layer :: outer => { c with layers := { layer with frame := layer.frame.put name ready } :: outer }

def enter (c : Context) (site : Site) (frame : Frame) : Context :=
  { c with layers := ⟨site, frame⟩ :: c.layers }

/-- The context behind a statement. -/
def behind (c : Context) : Stmt → Context
  | .declare name _ => c.declare name.text true
  | .function f => c.declare f.name.text true
  | .declareClass name _ _ => c.declare name.text true
  | _ => c

/-- The names of the parameters, ready from the start. -/
def parameterFrame (params : List Name) : Frame :=
  params.foldl (fun frame name => frame.put name.text true) []

/-- The context of a declared function. -/
def function (c : Context) (f : FunctionDecl) : Context :=
  let c := c.declare f.name.text true
  { c with setting := { c.setting with function := .function } }

/-- The context of the body of a function. -/
def call (c : Context) (f : FunctionDecl) : Context := c.enter (.call f) (parameterFrame f.params)

/-- The context of the scopes for `this` in a class. -/
def class_ (c : Context) (name : Name) (superclass : Option Reference) (methods : List FunctionDecl) :
    Context :=
  match superclass with
  | some _ => (c.declare name.text true).enter (.superclass name superclass methods) [("super", true)]
  | none => c.declare name.text true

/-- The context of a method. -/
def method (c : Context) (name : Name) (superclass : Option Reference) (methods : List FunctionDecl)
    (f : FunctionDecl) : Context :=
  { (c.class_ name superclass methods).enter (.receiver f) [("this", true)] with
    setting := Resolution.methodSetting (Resolution.classSetting superclass) f.name }

end Context

/-- The expressions that an expression is made of. -/
def Expr.parts : Expr → List Expr
  | .literal _ => []
  | .unary _ _ right => [right]
  | .binary left _ _ right => [left, right]
  | .logical left _ right => [left, right]
  | .grouping inner => [inner]
  | .reference _ => []
  | .assign _ _ value => [value]
  | .call callee _ _ arguments => callee :: arguments
  | .list _ elements => elements
  | .get object _ => [object]
  | .set object _ _ value => [object, value]
  | .setElement object arguments _ _ value => object :: value :: arguments
  | .receiver _ => []
  | .inherited .. => []

/-- A part of a program. -/
inductive Piece where
  | body (statements : List Stmt)
  | stmt (s : Stmt)
  | expr (e : Expr)
  | function (f : FunctionDecl)

/-- The part stands in the program in this context. -/
inductive Stands (program : List Stmt) : Context → Piece → Prop
  | program : Stands program {} (.body program)
  | head {c : Context} {s : Stmt} {rest : List Stmt} :
      Stands program c (.body (s :: rest)) → Stands program c (.stmt s)
  | tail {c : Context} {s : Stmt} {rest : List Stmt} :
      Stands program c (.body (s :: rest)) → Stands program (c.behind s) (.body rest)
  | expression {c : Context} {e : Expr} :
      Stands program c (.stmt (.expression e)) → Stands program c (.expr e)
  /-- A variable is declared in front of its initializer, but not ready in it. -/
  | initializer {c : Context} {name : Name} {e : Expr} :
      Stands program c (.stmt (.declare name (some e))) →
      Stands program (c.declare name.text false) (.expr e)
  | block {c : Context} {body : List Stmt} :
      Stands program c (.stmt (.block body)) → Stands program (c.enter (.block body) []) (.body body)
  | condition {c : Context} {condition : Expr} {s : Stmt} {o : Option Stmt} :
      Stands program c (.stmt (.branch condition s o)) → Stands program c (.expr condition)
  | thenBranch {c : Context} {condition : Expr} {s : Stmt} {o : Option Stmt} :
      Stands program c (.stmt (.branch condition s o)) → Stands program c (.stmt s)
  | elseBranch {c : Context} {condition : Expr} {s t : Stmt} :
      Stands program c (.stmt (.branch condition s (some t))) → Stands program c (.stmt t)
  | loopCondition {c : Context} {condition : Expr} {s : Stmt} :
      Stands program c (.stmt (.loop condition s)) → Stands program c (.expr condition)
  | loopBody {c : Context} {condition : Expr} {s : Stmt} :
      Stands program c (.stmt (.loop condition s)) → Stands program c (.stmt s)
  | value {c : Context} {keyword : Name} {e : Expr} :
      Stands program c (.stmt (.giveBack keyword (some e))) → Stands program c (.expr e)
  | function {c : Context} {f : FunctionDecl} :
      Stands program c (.stmt (.function f)) → Stands program (c.function f) (.function f)
  | method {c : Context} {name : Name} {superclass : Option Reference} {methods : List FunctionDecl}
      {f : FunctionDecl} :
      Stands program c (.stmt (.declareClass name superclass methods)) → f ∈ methods →
      Stands program (c.method name superclass methods f) (.function f)
  | functionBody {c : Context} {f : FunctionDecl} :
      Stands program c (.function f) → Stands program (c.call f) (.body f.body)
  | part {c : Context} {e part : Expr} :
      Stands program c (.expr e) → part ∈ e.parts → Stands program c (.expr part)

/-- The expression uses a name in this context. The name of a superclass is used in front of the class. -/
inductive Uses (program : List Stmt) : Context → Expr → Prop
  | part {c : Context} {e : Expr} : Stands program c (.expr e) → Uses program c e
  | superclass {c : Context} {name : Name} {target : Reference} {methods : List FunctionDecl} :
      Stands program c (.stmt (.declareClass name (some target) methods)) →
      Uses program c (.reference target)

/-! ## What holds of the parts of a program -/

theorem itemsNamed_iff {es : List Expr} : ItemsNamed es ↔ ∀ e ∈ es, e.Named := by
  induction es with
  | nil => simp [ItemsNamed]
  | cons e rest ih => simp [ItemsNamed, ih]

theorem methodsNamed_iff {fs : List FunctionDecl} : MethodsNamed fs ↔ ∀ f ∈ fs, f.Named := by
  induction fs with
  | nil => simp [MethodsNamed]
  | cons f rest ih => simp [MethodsNamed, ih]

theorem methodsPlaced_iff {fs : List FunctionDecl} : MethodsPlaced fs ↔ ∀ f ∈ fs, f.Placed := by
  induction fs with
  | nil => simp [MethodsPlaced]
  | cons f rest ih => simp [MethodsPlaced, ih]

theorem Expr.Named.part {e part : Expr} (h : e.Named) (hp : part ∈ e.parts) : part.Named := by
  cases e with
  | literal | reference | receiver | inherited => cases hp
  | unary | grouping | get =>
    cases List.mem_singleton.1 hp
    exact h
  | assign =>
    cases List.mem_singleton.1 hp
    exact h.2
  | binary | logical | set =>
    simp only [Expr.parts, List.mem_cons, List.not_mem_nil, or_false] at hp
    rcases hp with rfl | rfl
    · exact h.1
    · exact h.2
  | call =>
    rcases List.mem_cons.1 hp with rfl | hp
    · exact h.1
    · exact itemsNamed_iff.1 h.2 _ hp
  | list => exact itemsNamed_iff.1 h _ hp
  | setElement =>
    simp only [Expr.parts, List.mem_cons] at hp
    rcases hp with rfl | rfl | hp
    · exact h.1
    · exact h.2.2
    · exact itemsNamed_iff.1 h.2.1 _ hp

def Piece.Named : Piece → Prop
  | .body statements => BodyNamed statements
  | .stmt s => s.Named
  | .expr e => e.Named
  | .function f => f.Named

def Piece.Placed : Piece → Prop
  | .body statements => BodyPlaced statements
  | .stmt s => s.Placed
  | .expr _ => True
  | .function f => f.Placed

section
variable {program : List Stmt} {c : Context} {p : Piece}

theorem Stands.named (h : Stands program c p) (hp : BodyNamed program) : p.Named := by
  induction h with
  | program => exact hp
  | head _ ih => exact ih.1
  | tail _ ih => exact ih.2
  | expression _ ih => exact ih
  | initializer _ ih => exact ih.2
  | block _ ih => exact ih
  | condition _ ih => exact ih.1
  | thenBranch _ ih => exact ih.2.1
  | elseBranch _ ih => exact ih.2.2
  | loopCondition _ ih => exact ih.1
  | loopBody _ ih => exact ih.2
  | value _ ih => exact ih
  | function _ ih => exact ih
  | method _ hf ih => exact methodsNamed_iff.1 ih.2.2 _ hf
  | @functionBody _ f _ ih =>
    cases f
    exact ih.2.2
  | part _ he ih => exact Expr.Named.part ih he

theorem Stands.placed (h : Stands program c p) (hp : BodyPlaced program) : p.Placed := by
  induction h with
  | program => exact hp
  | head _ ih => exact ih.1
  | tail _ ih => exact ih.2
  | block _ ih => exact ih
  | @thenBranch _ _ _ o _ ih =>
    cases o with
    | none => exact ih.2
    | some t => exact ih.2.1
  | elseBranch _ ih => exact ih.2.2.2
  | loopBody _ ih => exact ih.2
  | function _ ih => exact ih
  | method _ hf ih => exact methodsPlaced_iff.1 ih _ hf
  | @functionBody _ f _ ih =>
    cases f
    exact ih
  | _ => trivial

end

/-! ## The shape of a context -/

/-- The frame declares neither `this` nor `super`. -/
def Frame.Plain (frame : Frame) : Prop := frame.has "this" = false ∧ frame.has "super" = false

/-- How the scopes of a context lie inside each other. Scopes for `this` and `super` are there for classes
only, each `super` directly around a `this`. -/
inductive Layered : ClassSetting → List Layer → Prop
  | outside : Layered .outside []
  | plain {k : ClassSetting} {layer : Layer} {outer : List Layer} :
      layer.frame.Plain → Layered k outer → Layered k (layer :: outer)
  | base {k : ClassSetting} {f : FunctionDecl} {outer : List Layer} :
      Layered k outer → Layered .base (⟨.receiver f, [("this", true)]⟩ :: outer)
  | derived {k : ClassSetting} {f : FunctionDecl} {name : Name} {superclass : Option Reference}
      {methods : List FunctionDecl} {outer : List Layer} : Layered k outer → Layered .derived
        (⟨.receiver f, [("this", true)]⟩ :: ⟨.superclass name superclass methods, [("super", true)]⟩ ::
          outer)

theorem Name.Free.ne_this {n : Name} (h : n.Free) : n.text ≠ "this" := h .thisWord

theorem Name.Free.ne_super {n : Name} (h : n.Free) : n.text ≠ "super" := h .superWord

theorem Frame.Plain.put {frame : Frame} {n : Name} (h : frame.Plain) (hn : n.Free) (ready : Bool) :
    Frame.Plain (Table.put n.text ready frame) := by
  refine ⟨?_, ?_⟩
  · rw [Table.has_put, h.1, Bool.or_false, decide_eq_false hn.ne_this]
  · rw [Table.has_put, h.2, Bool.or_false, decide_eq_false hn.ne_super]

theorem parameterFrame_plain {params : List Name} (h : ∀ param ∈ params, param.Free) :
    (Context.parameterFrame params).Plain := by
  suffices ∀ frame : Frame, frame.Plain →
      Frame.Plain (params.foldl (fun frame name => Table.put name.text true frame) frame) from
    this [] ⟨rfl, rfl⟩
  induction params with
  | nil => exact fun frame hf => hf
  | cons param rest ih =>
    simp only [List.forall_mem_cons] at h
    exact fun frame hf => ih h.2 _ (hf.put h.1 true)

theorem not_plain_this : ¬ Frame.Plain [("this", true)] := fun h => by cases h.1

theorem Layered.outer {k : ClassSetting} {layer : Layer} {outer : List Layer}
    (h : Layered k (layer :: outer)) (hp : layer.frame.Plain) : Layered k outer := by
  cases h with
  | plain _ h => exact h
  | base _ => exact absurd hp not_plain_this
  | derived _ => exact absurd hp not_plain_this

/-- A context in which statements and expressions stand: its innermost scope is none for `this` or
`super`. -/
structure Context.Open (c : Context) : Prop where
  layered : Layered c.setting.class_ c.layers
  innermost : ∀ layer ∈ c.layers.head?, layer.frame.Plain

theorem Context.Open.declare {c : Context} (h : c.Open) {n : Name} (hn : n.Free) (ready : Bool) :
    (c.declare n.text ready).Open := by
  obtain ⟨setting, layers⟩ := c
  cases layers with
  | nil => exact h
  | cons layer outer =>
    have hp : layer.frame.Plain := h.innermost layer rfl
    have hput : Frame.Plain (Table.put n.text ready layer.frame) := hp.put hn ready
    constructor
    · exact .plain hput (h.layered.outer hp)
    · intro found hf
      cases hf
      exact hput

theorem Context.Open.enter {c : Context} (h : Layered c.setting.class_ c.layers) (site : Site)
    {frame : Frame} (hf : frame.Plain) : (c.enter site frame).Open := by
  constructor
  · exact .plain hf h
  · intro found hm
    cases hm
    exact hf

theorem Context.Open.behind {c : Context} (h : c.Open) {s : Stmt} (hs : s.Named) : (c.behind s).Open := by
  cases s with
  | declare => exact h.declare hs.1 true
  | function f =>
    cases f
    exact h.declare hs.1 true
  | declareClass => exact h.declare hs.1 true
  | _ => exact h

theorem Context.Open.method {c : Context} (h : c.Open) {name : Name} (hn : name.Free)
    (superclass : Option Reference) (methods : List FunctionDecl) (f : FunctionDecl) :
    Layered (c.method name superclass methods f).setting.class_
      (c.method name superclass methods f).layers := by
  have hd := (h.declare hn true).layered
  cases superclass with
  | none => exact .base hd
  | some target => exact .derived hd

def Piece.Fits (c : Context) : Piece → Prop
  | .function _ => Layered c.setting.class_ c.layers
  | _ => c.Open

theorem Stands.fits {program : List Stmt} {c : Context} {p : Piece} (h : Stands program c p)
    (hn : BodyNamed program) : p.Fits c := by
  induction h with
  | program =>
    constructor
    · exact .outside
    · intro layer hl
      cases hl
  | head _ ih => exact ih
  | tail h ih => exact ih.behind (h.named hn).1
  | initializer h ih => exact ih.declare (h.named hn).1 false
  | block _ ih => exact .enter ih.layered _ ⟨rfl, rfl⟩
  | @function _ f h ih =>
    have hf := h.named hn
    cases f
    exact (ih.declare hf.1 true).layered
  | method h _ ih => exact ih.method (h.named hn).1 _ _ _
  | @functionBody _ f h ih =>
    have hf := h.named hn
    cases f
    exact .enter ih _ (parameterFrame_plain hf.2.1)
  | _ => assumption

theorem Uses.fits {program : List Stmt} {c : Context} {e : Expr} (h : Uses program c e)
    (hn : BodyNamed program) : c.Open := by
  cases h with
  | part h => exact h.fits hn
  | superclass h => exact h.fits hn

/-! ## Names that are not ready -/

/-- The expression is a part of the whole, or the whole itself. -/
inductive Within (whole : Expr) : Expr → Prop
  | whole : Within whole whole
  | part {e part : Expr} : Within whole e → part ∈ e.parts → Within whole part

def Frame.Ready (frame : Frame) : Prop := ∀ name, frame.get? name ≠ some false

def Context.Ready (c : Context) : Prop := ∀ layer ∈ c.layers, layer.frame.Ready

theorem ready_nil : Frame.Ready [] := fun _ h => by cases h

theorem Frame.Ready.put {frame : Frame} (h : frame.Ready) (name : String) :
    Frame.Ready (Table.put name true frame) := by
  intro other
  rw [Table.get?_put]
  split
  · simp
  · exact h other

theorem parameterFrame_ready (params : List Name) : (Context.parameterFrame params).Ready := by
  suffices ∀ frame : Frame, frame.Ready →
      Frame.Ready (params.foldl (fun frame name => Table.put name.text true frame) frame) from
    this [] ready_nil
  induction params with
  | nil => exact fun frame hf => hf
  | cons param rest ih => exact fun frame hf => ih _ (hf.put param.text)

theorem ready_single (name : String) : Frame.Ready [(name, true)] := ready_nil.put name

section
variable {c : Context}

theorem Context.Ready.declare (h : c.Ready) (name : String) : (c.declare name true).Ready := by
  obtain ⟨setting, layers⟩ := c
  cases layers with
  | nil => exact h
  | cons layer outer =>
    intro found hf
    rcases List.mem_cons.1 hf with rfl | hf
    · exact Frame.Ready.put (h layer List.mem_cons_self) name
    · exact h found (List.mem_cons_of_mem _ hf)

theorem Context.Ready.enter (h : c.Ready) (site : Site) {frame : Frame} (hf : frame.Ready) :
    (c.enter site frame).Ready := by
  intro found hm
  rcases List.mem_cons.1 hm with rfl | hm
  · exact hf
  · exact h found hm

theorem Context.Ready.behind (h : c.Ready) (s : Stmt) : (c.behind s).Ready := by
  cases s with
  | declare => exact h.declare _
  | function => exact h.declare _
  | declareClass => exact h.declare _
  | _ => exact h

theorem Context.Ready.method (h : c.Ready) (name : Name) (superclass : Option Reference)
    (methods : List FunctionDecl) (f : FunctionDecl) : (c.method name superclass methods f).Ready := by
  have hd := h.declare name.text
  cases superclass with
  | none => exact hd.enter _ (ready_single _)
  | some target => exact (hd.enter _ (ready_single _)).enter _ (ready_single _)

end

/-- The expression stands in the initializer of a variable, which is the only name that is not ready. -/
def InInitializer (program : List Stmt) (c : Context) (e : Expr) (declared : Name) : Prop :=
  ∃ outside initializer, Stands program outside (.stmt (.declare declared (some initializer))) ∧
    outside.Ready ∧ c = outside.declare declared.text false ∧ Within initializer e

def Piece.Settled (program : List Stmt) (c : Context) : Piece → Prop
  | .expr e => c.Ready ∨ ∃ declared, InInitializer program c e declared
  | _ => c.Ready

/-- Only in an initializer there is a name that is declared and not ready. -/
theorem Stands.settled {program : List Stmt} {c : Context} {p : Piece} (h : Stands program c p) :
    p.Settled program c := by
  induction h with
  | program => exact fun layer hl => by cases hl
  | head _ ih => exact ih
  | @tail _ s _ _ ih => exact Context.Ready.behind ih s
  | expression _ ih => exact .inl ih
  | @initializer c name e h ih => exact .inr ⟨name, c, e, h, ih, rfl, .whole⟩
  | block _ ih => exact Context.Ready.enter ih _ ready_nil
  | condition _ ih => exact .inl ih
  | thenBranch _ ih => exact ih
  | elseBranch _ ih => exact ih
  | loopCondition _ ih => exact .inl ih
  | loopBody _ ih => exact ih
  | value _ ih => exact .inl ih
  | function _ ih => exact Context.Ready.declare ih _
  | method _ _ ih => exact Context.Ready.method ih _ _ _ _
  | functionBody _ ih => exact Context.Ready.enter ih _ (parameterFrame_ready _)
  | part _ hp ih =>
    rcases ih with ih | ⟨declared, outside, initializer, h, hr, hc, hw⟩
    · exact .inl ih
    · exact .inr ⟨declared, outside, initializer, h, hr, hc, .part hw hp⟩

theorem Uses.settled {program : List Stmt} {c : Context} {e : Expr} (h : Uses program c e) :
    c.Ready ∨ ∃ declared, InInitializer program c e declared := by
  cases h with
  | part h => exact h.settled
  | superclass h => exact .inl h.settled

/-! ## Depths of names in a context -/

theorem depthIn?_cons (name : String) (frame : Frame) (outer : List Frame) :
    depthIn? name (frame :: outer) =
      if frame.has name then some 0 else (depthIn? name outer).map (· + 1) := by
  simp [depthIn?, List.findIdx?_cons]

/-- Where a superclass is known, its scope is the one around that of `this`. -/
theorem Layered.super_depth {layers : List Layer} (h : Layered .derived layers) :
    ∃ d, depthIn? "this" (layers.map Layer.frame) = some d ∧
      depthIn? "super" (layers.map Layer.frame) = some (d + 1) := by
  generalize hk : ClassSetting.derived = k at h
  induction h with
  | outside => cases hk
  | base _ _ => cases hk
  | plain hp _ ih =>
    obtain ⟨d, ht, hs⟩ := ih hk
    refine ⟨d + 1, ?_, ?_⟩
    · rw [List.map_cons, depthIn?_cons, hp.1, ht]
      rfl
    · rw [List.map_cons, depthIn?_cons, hp.2, hs]
      rfl
  | derived _ _ => exact ⟨0, rfl, rfl⟩

end LoxLang
