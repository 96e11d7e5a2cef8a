import Mathlib.Logic.Basic
import LoxLang.Proofs.Program

/-!
# Programs with other lines and identities

The same program with its tokens on other lines and its references under other identities: every line in a
tree goes through one function and every identity through another one. Shape and names stay.
-/

namespace LoxLang

/-- Other lines and other identities. -/
structure Relabelling where
  line : Nat → Nat
  id : NodeId → NodeId

namespace Relabelling

/-- The lines and identities that are there. -/
def same : Relabelling := ⟨fun line => line, fun id => id⟩

/-- One relabelling after another. -/
def andThen (l again : Relabelling) : Relabelling := ⟨again.line ∘ l.line, again.id ∘ l.id⟩

/-- Two relabellings that do the same to all lines and to these identities. -/
structure Agree (l l' : Relabelling) (ids : List NodeId) : Prop where
  line : ∀ line, l.line line = l'.line line
  id : ∀ i ∈ ids, l.id i = l'.id i

namespace Agree
variable {l l' : Relabelling} {i : NodeId} {ids more : List NodeId}

theorem refl : Agree l l ids := ⟨fun _ => rfl, fun _ _ => rfl⟩

theorem left (h : Agree l l' (ids ++ more)) : Agree l l' ids :=
  ⟨h.line, fun i hi => h.id i (List.mem_append_left more hi)⟩

theorem right (h : Agree l l' (ids ++ more)) : Agree l l' more :=
  ⟨h.line, fun i hi => h.id i (List.mem_append_right ids hi)⟩

theorem head (h : Agree l l' (i :: ids)) : l.id i = l'.id i := h.id i List.mem_cons_self

theorem tail (h : Agree l l' (i :: ids)) : Agree l l' ids :=
  ⟨h.line, fun j hj => h.id j (List.mem_cons_of_mem i hj)⟩

end Agree

end Relabelling

def Name.relabel (l : Relabelling) (n : Name) : Name := { n with line := l.line n.line }

def Reference.relabel (l : Relabelling) (r : Reference) : Reference := ⟨l.id r.id, r.name.relabel l⟩

mutual

/-- The expression with other labels. -/
def Expr.relabel (l : Relabelling) : Expr → Expr
  | .literal value => .literal value
  | .unary operator line right => .unary operator (l.line line) (right.relabel l)
  | .binary left operator line right =>
    .binary (left.relabel l) operator (l.line line) (right.relabel l)
  | .logical left operator right => .logical (left.relabel l) operator (right.relabel l)
  | .grouping inner => .grouping (inner.relabel l)
  | .reference target => .reference (target.relabel l)
  | .assign target operator value => .assign (target.relabel l) operator (value.relabel l)
  | .call callee style line arguments =>
    .call (callee.relabel l) style (l.line line) (relabelItems l arguments)
  | .list line elements => .list (l.line line) (relabelItems l elements)
  | .get object name => .get (object.relabel l) (name.relabel l)
  | .set object name operator value =>
    .set (object.relabel l) (name.relabel l) operator (value.relabel l)
  | .setElement object arguments operator line value =>
    .setElement (object.relabel l) (relabelItems l arguments) operator (l.line line)
      (value.relabel l)
  | .receiver target => .receiver (target.relabel l)
  | .inherited target method => .inherited (target.relabel l) (method.relabel l)

def relabelItems (l : Relabelling) : List Expr → List Expr
  | [] => []
  | e :: rest => e.relabel l :: relabelItems l rest

end

def relabelOptional (l : Relabelling) : Option Expr → Option Expr
  | some e => some (e.relabel l)
  | none => none

def relabelSuperclass (l : Relabelling) : Option Reference → Option Reference
  | some target => some (target.relabel l)
  | none => none

def relabelNames (l : Relabelling) (names : List Name) : List Name := names.map (Name.relabel l)

mutual

/-- The statement with other labels. -/
def Stmt.relabel (l : Relabelling) : Stmt → Stmt
  | .expression value => .expression (value.relabel l)
  | .declare name initializer => .declare (name.relabel l) (relabelOptional l initializer)
  | .block body => .block (relabelBody l body)
  | .branch condition thenBranch elseBranch =>
    .branch (condition.relabel l) (thenBranch.relabel l) (relabelElse l elseBranch)
  | .loop condition body => .loop (condition.relabel l) (body.relabel l)
  | .function declaration => .function (declaration.relabel l)
  | .giveBack keyword value => .giveBack (keyword.relabel l) (relabelOptional l value)
  | .declareClass name superclass methods =>
    .declareClass (name.relabel l) (relabelSuperclass l superclass) (relabelMethods l methods)

def relabelElse (l : Relabelling) : Option Stmt → Option Stmt
  | some s => some (s.relabel l)
  | none => none

def FunctionDecl.relabel (l : Relabelling) : FunctionDecl → FunctionDecl
  | ⟨name, params, body⟩ => ⟨name.relabel l, relabelNames l params, relabelBody l body⟩

def relabelBody (l : Relabelling) : List Stmt → List Stmt
  | [] => []
  | s :: rest => s.relabel l :: relabelBody l rest

def relabelMethods (l : Relabelling) : List FunctionDecl → List FunctionDecl
  | [] => []
  | f :: rest => f.relabel l :: relabelMethods l rest

end

@[simp] theorem relabelNames_length (l : Relabelling) (names : List Name) :
    (relabelNames l names).length = names.length := List.length_map ..

/-! ## Identities -/

mutual

theorem Expr.relabel_ids (l : Relabelling) : (e : Expr) → (e.relabel l).ids = e.ids.map l.id
  | .literal _ | .reference _ | .receiver _ | .inherited _ _ => rfl
  | .unary _ _ e | .grouping e | .get e _ => e.relabel_ids l
  | .binary left _ _ right | .logical left _ right | .set left _ _ right => by
    simp only [Expr.relabel, Expr.ids, left.relabel_ids l, right.relabel_ids l, List.map_append]
  | .assign target _ value => by
    simp only [Expr.relabel, Expr.ids, value.relabel_ids l, Reference.relabel, List.map_cons]
  | .call callee _ _ arguments => by
    simp only [Expr.relabel, Expr.ids, callee.relabel_ids l, relabelItems_ids l arguments, List.map_append]
  | .list _ elements => relabelItems_ids l elements
  | .setElement object arguments _ _ value => by
    simp only [Expr.relabel, Expr.ids, object.relabel_ids l, relabelItems_ids l arguments,
      value.relabel_ids l, List.map_append]

theorem relabelItems_ids (l : Relabelling) : (es : List Expr) →
    itemIds (relabelItems l es) = (itemIds es).map l.id
  | [] => rfl
  | e :: rest => by
    simp only [relabelItems, itemIds, e.relabel_ids l, relabelItems_ids l rest, List.map_append]

end

theorem relabelOptional_ids (l : Relabelling) (value : Option Expr) :
    optionalIds (relabelOptional l value) = (optionalIds value).map l.id := by
  cases value with
  | none => rfl
  | some e => exact e.relabel_ids l

theorem relabelSuperclass_ids (l : Relabelling) (superclass : Option Reference) :
    superclassIds (relabelSuperclass l superclass) = (superclassIds superclass).map l.id := by
  cases superclass <;> rfl

mutual

theorem Stmt.relabel_ids (l : Relabelling) : (s : Stmt) → (s.relabel l).ids = s.ids.map l.id
  | .expression value => value.relabel_ids l
  | .declare _ initializer => relabelOptional_ids l initializer
  | .block body => relabelBody_ids l body
  | .branch condition thenBranch elseBranch => by
    simp only [Stmt.relabel, Stmt.ids, condition.relabel_ids l, thenBranch.relabel_ids l,
      relabelElse_ids l elseBranch, List.map_append]
  | .loop condition body => by
    simp only [Stmt.relabel, Stmt.ids, condition.relabel_ids l, body.relabel_ids l, List.map_append]
  | .function declaration => declaration.relabel_ids l
  | .giveBack _ value => relabelOptional_ids l value
  | .declareClass _ superclass methods => by
    simp only [Stmt.relabel, Stmt.ids, relabelSuperclass_ids, relabelMethods_ids l methods,
      List.map_append]

theorem relabelElse_ids (l : Relabelling) : (o : Option Stmt) →
    elseIds (relabelElse l o) = (elseIds o).map l.id
  | some s => s.relabel_ids l
  | none => rfl

theorem FunctionDecl.relabel_ids (l : Relabelling) : (f : FunctionDecl) →
    (f.relabel l).ids = f.ids.map l.id
  | ⟨_, _, body⟩ => relabelBody_ids l body

theorem relabelBody_ids (l : Relabelling) : (body : List Stmt) →
    bodyIds (relabelBody l body) = (bodyIds body).map l.id
  | [] => rfl
  | s :: rest => by
    simp only [relabelBody, bodyIds, s.relabel_ids l, relabelBody_ids l rest, List.map_append]

theorem relabelMethods_ids (l : Relabelling) : (methods : List FunctionDecl) →
    methodIds (relabelMethods l methods) = (methodIds methods).map l.id
  | [] => rfl
  | f :: rest => by
    simp only [relabelMethods, methodIds, f.relabel_ids l, relabelMethods_ids l rest, List.map_append]

end

/-! ## Relabelling twice

Only what a relabelling does to the identities of a tree matters for the tree.
-/

section
variable {l again whole : Relabelling} {ids : List NodeId} (h : (l.andThen again).Agree whole ids)
include h

theorem Name.relabel_relabel (n : Name) : (n.relabel l).relabel again = n.relabel whole :=
  congrArg (Name.mk n.text) (h.line n.line)

theorem relabelNames_relabelNames (names : List Name) :
    relabelNames again (relabelNames l names) = relabelNames whole names := by
  unfold relabelNames
  rw [List.map_map]
  exact List.map_congr_left fun n _ => n.relabel_relabel h

end

section
variable {l again whole : Relabelling}

theorem Reference.relabel_relabel (r : Reference) (h : (l.andThen again).Agree whole [r.id]) :
    (r.relabel l).relabel again = r.relabel whole :=
  congrArg₂ Reference.mk h.head (r.name.relabel_relabel h)

mutual

theorem Expr.relabel_relabel : (e : Expr) → (l.andThen again).Agree whole e.ids →
    (e.relabel l).relabel again = e.relabel whole
  | .literal _, _ => rfl
  | .reference target, h => congrArg Expr.reference (target.relabel_relabel h)
  | .receiver target, h => congrArg Expr.receiver (target.relabel_relabel h)
  | .inherited target method, h =>
    congrArg₂ Expr.inherited (target.relabel_relabel h) (method.relabel_relabel h)
  | .unary operator line e, h =>
    congrArg₂ (Expr.unary operator) (h.line line) (e.relabel_relabel h)
  | .grouping e, h => congrArg Expr.grouping (e.relabel_relabel h)
  | .get e name, h => congrArg₂ Expr.get (e.relabel_relabel h) (name.relabel_relabel h)
  | .assign target operator value, h => by
    have htarget : (target.relabel l).relabel again = target.relabel whole :=
      congrArg₂ Reference.mk h.head (target.name.relabel_relabel h)
    simp only [Expr.relabel, htarget, value.relabel_relabel h.tail]
  | .binary left operator line right, h => by
    have hline : again.line (l.line line) = whole.line line := h.line line
    simp only [Expr.relabel, left.relabel_relabel h.left, right.relabel_relabel h.right, hline]
  | .logical left operator right, h => by
    simp only [Expr.relabel, left.relabel_relabel h.left, right.relabel_relabel h.right]
  | .set object name operator value, h => by
    simp only [Expr.relabel, object.relabel_relabel h.left, value.relabel_relabel h.right,
      name.relabel_relabel h]
  | .call callee style line arguments, h => by
    have hline : again.line (l.line line) = whole.line line := h.line line
    simp only [Expr.relabel, callee.relabel_relabel h.left, relabelItems_relabelItems arguments h.right,
      hline]
  | .list line elements, h =>
    congrArg₂ Expr.list (h.line line) (relabelItems_relabelItems elements h)
  | .setElement object arguments operator line value, h => by
    have hline : again.line (l.line line) = whole.line line := h.line line
    simp only [Expr.relabel, object.relabel_relabel h.left,
      relabelItems_relabelItems arguments h.right.left, value.relabel_relabel h.right.right, hline]

theorem relabelItems_relabelItems : (es : List Expr) → (l.andThen again).Agree whole (itemIds es) →
    relabelItems again (relabelItems l es) = relabelItems whole es
  | [], _ => rfl
  | e :: rest, h => congrArg₂ List.cons (e.relabel_relabel h.left) (relabelItems_relabelItems rest h.right)

end

theorem relabelOptional_relabelOptional (value : Option Expr)
    (h : (l.andThen again).Agree whole (optionalIds value)) :
    relabelOptional again (relabelOptional l value) = relabelOptional whole value := by
  cases value with
  | none => rfl
  | some e => exact congrArg some (e.relabel_relabel h)

theorem relabelSuperclass_relabelSuperclass (superclass : Option Reference)
    (h : (l.andThen again).Agree whole (superclassIds superclass)) :
    relabelSuperclass again (relabelSuperclass l superclass) = relabelSuperclass whole superclass := by
  cases superclass with
  | none => rfl
  | some target => exact congrArg some (target.relabel_relabel h)

mutual

theorem Stmt.relabel_relabel : (s : Stmt) → (l.andThen again).Agree whole s.ids →
    (s.relabel l).relabel again = s.relabel whole
  | .expression value, h => congrArg Stmt.expression (value.relabel_relabel h)
  | .declare name initializer, h =>
    congrArg₂ Stmt.declare (name.relabel_relabel h) (relabelOptional_relabelOptional initializer h)
  | .block body, h => congrArg Stmt.block (relabelBody_relabelBody body h)
  | .branch condition thenBranch elseBranch, h => by
    simp only [Stmt.relabel, condition.relabel_relabel h.left, thenBranch.relabel_relabel h.right.left,
      relabelElse_relabelElse elseBranch h.right.right]
  | .loop condition body, h =>
    congrArg₂ Stmt.loop (condition.relabel_relabel h.left) (body.relabel_relabel h.right)
  | .function declaration, h => congrArg Stmt.function (declaration.relabel_relabel h)
  | .giveBack keyword value, h =>
    congrArg₂ Stmt.giveBack (keyword.relabel_relabel h) (relabelOptional_relabelOptional value h)
  | .declareClass name superclass methods, h => by
    simp only [Stmt.relabel, name.relabel_relabel h, relabelSuperclass_relabelSuperclass superclass h.left,
      relabelMethods_relabelMethods methods h.right]

theorem relabelElse_relabelElse : (o : Option Stmt) → (l.andThen again).Agree whole (elseIds o) →
    relabelElse again (relabelElse l o) = relabelElse whole o
  | some s, h => congrArg some (s.relabel_relabel h)
  | none, _ => rfl

theorem FunctionDecl.relabel_relabel : (f : FunctionDecl) → (l.andThen again).Agree whole f.ids →
    (f.relabel l).relabel again = f.relabel whole
  | ⟨name, params, body⟩, h => by
    simp only [FunctionDecl.relabel, name.relabel_relabel h, relabelNames_relabelNames h,
      relabelBody_relabelBody body h]

theorem relabelBody_relabelBody : (body : List Stmt) → (l.andThen again).Agree whole (bodyIds body) →
    relabelBody again (relabelBody l body) = relabelBody whole body
  | [], _ => rfl
  | s :: rest, h => congrArg₂ List.cons (s.relabel_relabel h.left) (relabelBody_relabelBody rest h.right)

theorem relabelMethods_relabelMethods : (methods : List FunctionDecl) →
    (l.andThen again).Agree whole (methodIds methods) →
    relabelMethods again (relabelMethods l methods) = relabelMethods whole methods
  | [], _ => rfl
  | f :: rest, h =>
    congrArg₂ List.cons (f.relabel_relabel h.left) (relabelMethods_relabelMethods rest h.right)

end

end

/-! ## Keeping all labels -/

@[simp] theorem relabelNames_same (names : List Name) : relabelNames .same names = names :=
  List.map_id names

mutual

theorem Expr.relabel_same : (e : Expr) → e.relabel .same = e
  | .literal _ | .reference _ | .receiver _ | .inherited _ _ => rfl
  | .unary operator line e => congrArg (Expr.unary operator line) e.relabel_same
  | .grouping e => congrArg Expr.grouping e.relabel_same
  | .get e name => congrArg (Expr.get · name) e.relabel_same
  | .assign target operator value => congrArg (Expr.assign target operator) value.relabel_same
  | .binary left operator line right =>
    congrArg₂ (Expr.binary · operator line ·) left.relabel_same right.relabel_same
  | .logical left operator right => congrArg₂ (Expr.logical · operator ·) left.relabel_same right.relabel_same
  | .set object name operator value =>
    congrArg₂ (Expr.set · name operator ·) object.relabel_same value.relabel_same
  | .call callee style line arguments =>
    congrArg₂ (Expr.call · style line ·) callee.relabel_same (relabelItems_same arguments)
  | .list line elements => congrArg (Expr.list line) (relabelItems_same elements)
  | .setElement object arguments operator line value => by
    rw [Expr.relabel, object.relabel_same, relabelItems_same arguments, value.relabel_same]
    rfl

theorem relabelItems_same : (es : List Expr) → relabelItems .same es = es
  | [] => rfl
  | e :: rest => congrArg₂ List.cons e.relabel_same (relabelItems_same rest)

end

theorem relabelOptional_same (value : Option Expr) : relabelOptional .same value = value := by
  cases value with
  | none => rfl
  | some e => exact congrArg some e.relabel_same

theorem relabelSuperclass_same (superclass : Option Reference) :
    relabelSuperclass .same superclass = superclass := by
  cases superclass <;> rfl

mutual

theorem Stmt.relabel_same : (s : Stmt) → s.relabel .same = s
  | .expression value => congrArg Stmt.expression value.relabel_same
  | .declare name initializer => congrArg (Stmt.declare name) (relabelOptional_same initializer)
  | .block body => congrArg Stmt.block (relabelBody_same body)
  | .branch condition thenBranch elseBranch => by
    simp only [Stmt.relabel, condition.relabel_same, thenBranch.relabel_same, relabelElse_same elseBranch]
  | .loop condition body => congrArg₂ Stmt.loop condition.relabel_same body.relabel_same
  | .function declaration => congrArg Stmt.function declaration.relabel_same
  | .giveBack keyword value => congrArg (Stmt.giveBack keyword) (relabelOptional_same value)
  | .declareClass name superclass methods =>
    congrArg₂ (Stmt.declareClass name · ·) (relabelSuperclass_same superclass) (relabelMethods_same methods)

theorem relabelElse_same : (o : Option Stmt) → relabelElse .same o = o
  | some s => congrArg some s.relabel_same
  | none => rfl

theorem FunctionDecl.relabel_same : (f : FunctionDecl) → f.relabel .same = f
  | ⟨name, params, body⟩ =>
    congrArg₂ (FunctionDecl.mk name · ·) (relabelNames_same params) (relabelBody_same body)

theorem relabelBody_same : (body : List Stmt) → relabelBody .same body = body
  | [] => rfl
  | s :: rest => congrArg₂ List.cons s.relabel_same (relabelBody_same rest)

theorem relabelMethods_same : (methods : List FunctionDecl) → relabelMethods .same methods = methods
  | [] => rfl
  | f :: rest => congrArg₂ List.cons f.relabel_same (relabelMethods_same rest)

end

/-- A program is relabelled the same way by relabellings that agree on its identities. -/
theorem relabelBody_congr {l l' : Relabelling} {body : List Stmt} (h : l.Agree l' (bodyIds body)) :
    relabelBody l body = relabelBody l' body := by
  have htwice : relabelBody .same (relabelBody l body) = relabelBody l' body :=
    relabelBody_relabelBody body h
  rwa [relabelBody_same] at htwice

end LoxLang
