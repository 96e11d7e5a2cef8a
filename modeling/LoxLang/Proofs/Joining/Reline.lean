import Mathlib.Logic.Basic
import LoxLang.Proofs.Relabel.Store

/-!
# Programs on other lines

The same program with its tokens on other lines: every line in a tree goes through one function. Shape,
names and identities stay. So it is the program relabelled in its lines only, and the same for the values and
stores that hold functions.
-/

namespace LoxLang

def Name.reline (move : Nat → Nat) (n : Name) : Name := { n with line := move n.line }

def Reference.reline (move : Nat → Nat) (r : Reference) : Reference :=
  { r with name := r.name.reline move }

mutual

/-- The expression with its tokens on other lines. -/
def Expr.reline (move : Nat → Nat) : Expr → Expr
  | .literal value => .literal value
  | .unary operator line right => .unary operator (move line) (right.reline move)
  | .binary left operator line right =>
    .binary (left.reline move) operator (move line) (right.reline move)
  | .logical left operator right => .logical (left.reline move) operator (right.reline move)
  | .grouping inner => .grouping (inner.reline move)
  | .reference target => .reference (target.reline move)
  | .assign target operator value => .assign (target.reline move) operator (value.reline move)
  | .call callee style line arguments =>
    .call (callee.reline move) style (move line) (relineItems move arguments)
  | .list line elements => .list (move line) (relineItems move elements)
  | .get object name => .get (object.reline move) (name.reline move)
  | .set object name operator value =>
    .set (object.reline move) (name.reline move) operator (value.reline move)
  | .setElement object arguments operator line value =>
    .setElement (object.reline move) (relineItems move arguments) operator (move line)
      (value.reline move)
  | .receiver target => .receiver (target.reline move)
  | .inherited target method => .inherited (target.reline move) (method.reline move)

def relineItems (move : Nat → Nat) : List Expr → List Expr
  | [] => []
  | e :: rest => e.reline move :: relineItems move rest

end

def relineOptional (move : Nat → Nat) : Option Expr → Option Expr
  | some e => some (e.reline move)
  | none => none

def relineSuperclass (move : Nat → Nat) : Option Reference → Option Reference
  | some target => some (target.reline move)
  | none => none

def relineNames (move : Nat → Nat) (names : List Name) : List Name := names.map (Name.reline move)

mutual

/-- The statement with its tokens on other lines. -/
def Stmt.reline (move : Nat → Nat) : Stmt → Stmt
  | .expression value => .expression (value.reline move)
  | .declare name initializer => .declare (name.reline move) (relineOptional move initializer)
  | .block body => .block (relineBody move body)
  | .branch condition thenBranch elseBranch =>
    .branch (condition.reline move) (thenBranch.reline move) (relineElse move elseBranch)
  | .loop condition body => .loop (condition.reline move) (body.reline move)
  | .function declaration => .function (declaration.reline move)
  | .giveBack keyword value => .giveBack (keyword.reline move) (relineOptional move value)
  | .declareClass name superclass methods =>
    .declareClass (name.reline move) (relineSuperclass move superclass) (relineMethods move methods)

def relineElse (move : Nat → Nat) : Option Stmt → Option Stmt
  | some s => some (s.reline move)
  | none => none

def FunctionDecl.reline (move : Nat → Nat) : FunctionDecl → FunctionDecl
  | ⟨name, params, body⟩ => ⟨name.reline move, relineNames move params, relineBody move body⟩

def relineBody (move : Nat → Nat) : List Stmt → List Stmt
  | [] => []
  | s :: rest => s.reline move :: relineBody move rest

def relineMethods (move : Nat → Nat) : List FunctionDecl → List FunctionDecl
  | [] => []
  | f :: rest => f.reline move :: relineMethods move rest

end

section
variable (move : Nat → Nat)

@[simp] theorem relineItems_length (es : List Expr) : (relineItems move es).length = es.length := by
  induction es with
  | nil => rfl
  | cons e rest ih => rw [relineItems, List.length_cons, ih, List.length_cons]

@[simp] theorem relineNames_length (names : List Name) :
    (relineNames move names).length = names.length := List.length_map ..

end

/-! ## Values and stores -/

def Closure.reline (move : Nat → Nat) (c : Closure) : Closure :=
  { c with declaration := c.declaration.reline move }

mutual

@[simp] def ClassObject.reline (move : Nat → Nat) : ClassObject → ClassObject
  | ⟨id, name, superclass, methods⟩ =>
    ⟨id, name, relineExtended move superclass, methods.mapValues (Closure.reline move)⟩

@[simp] def relineExtended (move : Nat → Nat) : Option ClassObject → Option ClassObject
  | some c => some (c.reline move)
  | none => none

end

/-- The value with all of its functions on other lines. -/
@[simp] def Value.reline (move : Nat → Nat) : Value → Value
  | .function id closure => .function id (closure.reline move)
  | .classObject c => .classObject (c.reline move)
  | .instanceOf id c => .instanceOf id (c.reline move)
  | value => value

def Scope.reline (move : Nat → Nat) (scope : Scope) : Scope :=
  { scope with bindings := scope.bindings.mapValues (Value.reline move) }

/-- The store with all of its functions on other lines. -/
def Store.reline (move : Nat → Nat) (s : Store) : Store where
  scopes := s.scopes.map (Scope.reline move)
  lists := s.lists.map (Array.map (Value.reline move))
  instances := s.instances.map (Table.mapValues (Value.reline move))
  nextIdentity := s.nextIdentity

/-! ## Relabelling the lines only -/

/-- Other lines, and the identities that are there. -/
def Relabelling.lines (move : Nat → Nat) : Relabelling := ⟨move, fun id => id⟩

section
variable {move : Nat → Nat}

mutual

theorem Expr.relabel_lines : (e : Expr) → e.relabel (.lines move) = e.reline move
  | .literal _ | .reference _ | .receiver _ | .inherited _ _ => rfl
  | .unary operator line e => congrArg (Expr.unary operator (move line)) e.relabel_lines
  | .grouping e => congrArg Expr.grouping e.relabel_lines
  | .get e name => congrArg (Expr.get · (name.reline move)) e.relabel_lines
  | .assign target operator value =>
    congrArg (Expr.assign (target.reline move) operator) value.relabel_lines
  | .binary left operator line right =>
    congrArg₂ (Expr.binary · operator (move line) ·) left.relabel_lines right.relabel_lines
  | .logical left operator right =>
    congrArg₂ (Expr.logical · operator ·) left.relabel_lines right.relabel_lines
  | .set object name operator value =>
    congrArg₂ (Expr.set · (name.reline move) operator ·) object.relabel_lines value.relabel_lines
  | .call callee style line arguments =>
    congrArg₂ (Expr.call · style (move line) ·) callee.relabel_lines (relabelItems_lines arguments)
  | .list line elements => congrArg (Expr.list (move line)) (relabelItems_lines elements)
  | .setElement object arguments operator line value => by
    rw [Expr.relabel, object.relabel_lines, relabelItems_lines arguments, value.relabel_lines]
    rfl

theorem relabelItems_lines : (es : List Expr) → relabelItems (.lines move) es = relineItems move es
  | [] => rfl
  | e :: rest => congrArg₂ List.cons e.relabel_lines (relabelItems_lines rest)

end

theorem relabelOptional_lines (value : Option Expr) :
    relabelOptional (.lines move) value = relineOptional move value := by
  cases value with
  | none => rfl
  | some e => exact congrArg some e.relabel_lines

theorem relabelSuperclass_lines (superclass : Option Reference) :
    relabelSuperclass (.lines move) superclass = relineSuperclass move superclass := by
  cases superclass <;> rfl

mutual

theorem Stmt.relabel_lines : (s : Stmt) → s.relabel (.lines move) = s.reline move
  | .expression value => congrArg Stmt.expression value.relabel_lines
  | .declare name initializer =>
    congrArg (Stmt.declare (name.reline move)) (relabelOptional_lines initializer)
  | .block body => congrArg Stmt.block (relabelBody_lines body)
  | .branch condition thenBranch elseBranch => by
    rw [Stmt.relabel, condition.relabel_lines, thenBranch.relabel_lines, relabelElse_lines elseBranch]
    rfl
  | .loop condition body => congrArg₂ Stmt.loop condition.relabel_lines body.relabel_lines
  | .function declaration => congrArg Stmt.function declaration.relabel_lines
  | .giveBack keyword value =>
    congrArg (Stmt.giveBack (keyword.reline move)) (relabelOptional_lines value)
  | .declareClass name superclass methods =>
    congrArg₂ (Stmt.declareClass (name.reline move) · ·) (relabelSuperclass_lines superclass)
      (relabelMethods_lines methods)

theorem relabelElse_lines : (o : Option Stmt) → relabelElse (.lines move) o = relineElse move o
  | some s => congrArg some s.relabel_lines
  | none => rfl

theorem FunctionDecl.relabel_lines : (f : FunctionDecl) → f.relabel (.lines move) = f.reline move
  | ⟨name, params, body⟩ =>
    congrArg (FunctionDecl.mk (name.reline move) (relineNames move params)) (relabelBody_lines body)

theorem relabelBody_lines : (body : List Stmt) → relabelBody (.lines move) body = relineBody move body
  | [] => rfl
  | s :: rest => congrArg₂ List.cons s.relabel_lines (relabelBody_lines rest)

theorem relabelMethods_lines : (methods : List FunctionDecl) →
    relabelMethods (.lines move) methods = relineMethods move methods
  | [] => rfl
  | f :: rest => congrArg₂ List.cons f.relabel_lines (relabelMethods_lines rest)

end

theorem Closure.relabel_lines (c : Closure) : c.relabel (.lines move) = c.reline move :=
  congrArg (Closure.mk · c.scope c.isInitializer) c.declaration.relabel_lines

mutual

theorem ClassObject.relabel_lines : (c : ClassObject) → c.relabel (.lines move) = c.reline move
  | ⟨id, name, superclass, methods⟩ => by
    have hclosure : Closure.relabel (.lines move) = Closure.reline move := funext Closure.relabel_lines
    rw [ClassObject.relabel, ClassObject.reline, relabelExtended_lines superclass, hclosure]

theorem relabelExtended_lines : (o : Option ClassObject) →
    relabelExtended (.lines move) o = relineExtended move o
  | some c => congrArg some c.relabel_lines
  | none => rfl

end

theorem Value.relabel_lines : Value.relabel (.lines move) = Value.reline move := by
  funext value
  cases value with
  | function id closure => exact congrArg (Value.function id) closure.relabel_lines
  | classObject c => exact congrArg Value.classObject c.relabel_lines
  | instanceOf id c => exact congrArg (Value.instanceOf id) c.relabel_lines
  | _ => rfl

theorem Store.relabel_lines (s : Store) : s.relabel (.lines move) = s.reline move := by
  have hscope : Scope.relabel (.lines move) = Scope.reline move := by
    funext scope
    rw [Scope.relabel, Value.relabel_lines, Scope.reline]
  rw [Store.relabel, hscope, Value.relabel_lines, Store.reline]

end

/-! ## What follows for lines -/

section
variable (move again : Nat → Nat)

theorem relineBody_ids (body : List Stmt) : bodyIds (relineBody move body) = bodyIds body := by
  have hids := relabelBody_ids (.lines move) body
  rw [relabelBody_lines] at hids
  exact hids.trans (List.map_id _)

theorem relineBody_relineBody (body : List Stmt) :
    relineBody again (relineBody move body) = relineBody (again ∘ move) body := by
  have htwice : relabelBody (.lines again) (relabelBody (.lines move) body) =
      relabelBody (.lines (again ∘ move)) body := relabelBody_relabelBody body .refl
  rwa [relabelBody_lines, relabelBody_lines, relabelBody_lines] at htwice

theorem relineBody_id (body : List Stmt) : relineBody id body = body := by
  rw [← relabelBody_lines]
  exact relabelBody_same body

theorem Store.reline_reline (s : Store) : (s.reline move).reline again = s.reline (again ∘ move) := by
  have htwice := s.relabel_relabel (.lines move) (.lines again)
  rw [Store.relabel_lines, Store.relabel_lines] at htwice
  exact htwice.trans s.relabel_lines

theorem Store.reline_id (s : Store) : s.reline id = s := by
  rw [← Store.relabel_lines]
  exact s.relabel_same

theorem Store.binding?_reline (s : Store) (scope : ScopeId) (name : String) :
    (s.reline move).binding? scope name = (s.binding? scope name).map (Value.reline move) := by
  rw [← Store.relabel_lines, Store.binding?_relabel, Value.relabel_lines]

end

end LoxLang
