import Mathlib.Logic.Basic
import LoxLang.Proofs.Scoping.Depth

/-!
# Renaming a local variable

A scope of a program declares a variable or has a parameter, and this name is exchanged for one that occurs
nowhere in the program: at the declaration, and at the references whose noted depth leads to that scope.
References inside further scopes are found by how many of those lie between, which is what their depth
counts.

`RenamesInBody` describes the programs that come about in this way, for one scope anywhere in the program.
What is proved about them rests on `BodyRenamed`, which says the same for any number of scopes that do not
lie inside each other, without asking what they declare. It is also what functions that are made while a
program runs have to do with each other, since a function may stand around the scope or inside of it.
-/

namespace LoxLang

/-! ## The names of a program -/

mutual

/-- The identifiers in an expression. -/
def Expr.names : Expr → List String
  | .literal _ => []
  | .unary _ _ right => right.names
  | .binary left _ _ right => left.names ++ right.names
  | .logical left _ right => left.names ++ right.names
  | .grouping inner => inner.names
  | .reference target => [target.name.text]
  | .assign target _ value => target.name.text :: value.names
  | .call callee _ _ arguments => callee.names ++ itemNames arguments
  | .list _ elements => itemNames elements
  | .get object name => object.names ++ [name.text]
  | .set object name _ value => object.names ++ name.text :: value.names
  | .setElement object arguments _ _ value => object.names ++ (itemNames arguments ++ value.names)
  | .receiver _ => []
  | .inherited _ method => [method.text]

def itemNames : List Expr → List String
  | [] => []
  | e :: rest => e.names ++ itemNames rest

end

def optionalNames : Option Expr → List String
  | some e => e.names
  | none => []

def superclassNames : Option Reference → List String
  | some target => [target.name.text]
  | none => []

mutual

/-- The identifiers in a statement. -/
def Stmt.names : Stmt → List String
  | .expression value => value.names
  | .declare name initializer => name.text :: optionalNames initializer
  | .block body => bodyNames body
  | .branch condition thenBranch elseBranch =>
    condition.names ++ (thenBranch.names ++ elseNames elseBranch)
  | .loop condition body => condition.names ++ body.names
  | .function declaration => declaration.names
  | .giveBack _ value => optionalNames value
  | .declareClass name superclass methods =>
    name.text :: (superclassNames superclass ++ methodNames methods)

def elseNames : Option Stmt → List String
  | some s => s.names
  | none => []

def FunctionDecl.names : FunctionDecl → List String
  | ⟨name, params, body⟩ => name.text :: (params.map Name.text ++ bodyNames body)

def bodyNames : List Stmt → List String
  | [] => []
  | s :: rest => s.names ++ bodyNames rest

def methodNames : List FunctionDecl → List String
  | [] => []
  | f :: rest => f.names ++ methodNames rest

end

theorem Expr.part_names {e part : Expr} (h : part ∈ e.parts) : part.names ⊆ e.names := by
  have hitems {es : List Expr} (h : part ∈ es) : part.names ⊆ itemNames es := by
    induction es with
    | nil => cases h
    | cons e rest ih =>
      rcases List.mem_cons.1 h with rfl | h
      · exact List.subset_append_left _ _
      · exact fun name hn => List.mem_append_right _ (ih h hn)
  intro name hn
  cases e with
  | literal | reference | receiver | inherited => cases h
  | call callee style line arguments =>
    rcases List.mem_cons.1 h with rfl | h
    · exact List.mem_append_left _ hn
    · exact List.mem_append_right _ (hitems h hn)
  | list line elements => exact hitems h hn
  | setElement object arguments operator line value =>
    simp only [Expr.parts, List.mem_cons] at h
    simp only [Expr.names, List.mem_append]
    rcases h with rfl | rfl | h
    · exact .inl hn
    · exact .inr (.inr hn)
    · exact .inr (.inl (hitems h hn))
  | _ =>
    simp only [Expr.parts, List.mem_cons, List.not_mem_nil, or_false] at h
    simp only [Expr.names, List.mem_append, List.mem_cons]
    grind

/-! ## Two names for each other -/

/-- The name with `old` and `new` exchanged. -/
def exchange (old new name : String) : String :=
  if name = old then new else if name = new then old else name

section
variable (old new name : String)

theorem exchange_old : exchange old new old = new := if_pos rfl

theorem exchange_exchange : exchange old new (exchange old new name) = name := by
  unfold exchange
  grind

end

theorem exchange_injective (old new : String) : Function.Injective (exchange old new) :=
  fun a b h => by rw [← exchange_exchange old new a, h, exchange_exchange]

theorem exchange_of_ne {old new name : String} (ho : name ≠ old) (hn : name ≠ new) :
    exchange old new name = name := by
  rw [exchange, if_neg ho, if_neg hn]

/-! ## Renaming -/

/-- Two names to be exchanged in a scope, and the depths that tell which references belong to it. -/
structure Renaming where
  old : String
  new : String
  depth : NodeId → Option Nat

/-- So many scopes lie between a place and the scope in which names are exchanged; none if the place is not
inside that scope. -/
abbrev Nesting := Option Nat

/-- Inside one more scope. -/
def Nesting.inner (n : Nesting) : Nesting := n.map (· + 1)

/-- In the scope that the methods of a class close over. -/
def Nesting.inClass (n : Nesting) (superclass : Option Reference) : Nesting :=
  if superclass.isSome then n.inner else n

/-- A name that is declared. -/
def Name.rename (ρ : Renaming) (n : Nesting) (name : Name) : Name :=
  if n = some 0 then { name with text := exchange ρ.old ρ.new name.text } else name

/-- A reference, which belongs to the scope if its depth leads there. -/
def Reference.rename (ρ : Renaming) (n : Nesting) (target : Reference) : Reference :=
  if n ≠ none ∧ ρ.depth target.id = n then
    { target with name := { target.name with text := exchange ρ.old ρ.new target.name.text } }
  else target

mutual

/-- The expression with the names exchanged. -/
def Expr.rename (ρ : Renaming) (n : Nesting) : Expr → Expr
  | .literal value => .literal value
  | .unary operator line right => .unary operator line (right.rename ρ n)
  | .binary left operator line right => .binary (left.rename ρ n) operator line (right.rename ρ n)
  | .logical left operator right => .logical (left.rename ρ n) operator (right.rename ρ n)
  | .grouping inner => .grouping (inner.rename ρ n)
  | .reference target => .reference (target.rename ρ n)
  | .assign target operator value => .assign (target.rename ρ n) operator (value.rename ρ n)
  | .call callee style line arguments =>
    .call (callee.rename ρ n) style line (renameItems ρ n arguments)
  | .list line elements => .list line (renameItems ρ n elements)
  | .get object name => .get (object.rename ρ n) name
  | .set object name operator value => .set (object.rename ρ n) name operator (value.rename ρ n)
  | .setElement object arguments operator line value =>
    .setElement (object.rename ρ n) (renameItems ρ n arguments) operator line (value.rename ρ n)
  | .receiver target => .receiver target
  | .inherited target method => .inherited target method

def renameItems (ρ : Renaming) (n : Nesting) : List Expr → List Expr
  | [] => []
  | e :: rest => e.rename ρ n :: renameItems ρ n rest

end

def renameOptional (ρ : Renaming) (n : Nesting) : Option Expr → Option Expr
  | some e => some (e.rename ρ n)
  | none => none

def renameSuperclass (ρ : Renaming) (n : Nesting) : Option Reference → Option Reference
  | some target => some (target.rename ρ n)
  | none => none

def renameNames (ρ : Renaming) (n : Nesting) (names : List Name) : List Name :=
  names.map (Name.rename ρ n)

mutual

/-- The statement with the names exchanged. The names of functions and classes stay. -/
def Stmt.rename (ρ : Renaming) (n : Nesting) : Stmt → Stmt
  | .expression value => .expression (value.rename ρ n)
  | .declare name initializer => .declare (name.rename ρ n) (renameOptional ρ n initializer)
  | .block body => .block (renameBody ρ n.inner body)
  | .branch condition thenBranch elseBranch =>
    .branch (condition.rename ρ n) (thenBranch.rename ρ n) (renameElse ρ n elseBranch)
  | .loop condition body => .loop (condition.rename ρ n) (body.rename ρ n)
  | .function declaration => .function (declaration.rename ρ n)
  | .giveBack keyword value => .giveBack keyword (renameOptional ρ n value)
  | .declareClass name superclass methods =>
    .declareClass name (renameSuperclass ρ n superclass)
      (renameMethods ρ (n.inClass superclass).inner methods)

def renameElse (ρ : Renaming) (n : Nesting) : Option Stmt → Option Stmt
  | some s => some (s.rename ρ n)
  | none => none

/-- A function that is declared at the nesting; its parameters and its body lie one scope further in. -/
def FunctionDecl.rename (ρ : Renaming) (n : Nesting) : FunctionDecl → FunctionDecl
  | ⟨name, params, body⟩ => ⟨name, renameNames ρ n.inner params, renameBody ρ n.inner body⟩

def renameBody (ρ : Renaming) (n : Nesting) : List Stmt → List Stmt
  | [] => []
  | s :: rest => s.rename ρ n :: renameBody ρ n rest

def renameMethods (ρ : Renaming) (n : Nesting) : List FunctionDecl → List FunctionDecl
  | [] => []
  | f :: rest => f.rename ρ n :: renameMethods ρ n rest

end

/-! ## The names that are used instead -/

/-- The name that a scope with this nesting has instead of a name. -/
def Renaming.key (ρ : Renaming) (n : Nesting) (name : String) : String :=
  if n = some 0 then exchange ρ.old ρ.new name else name

/-- The name under which something is looked for, if it is found at the depth. -/
def Renaming.used (ρ : Renaming) (n : Nesting) (depth : Option Nat) (name : String) : String :=
  if n ≠ none ∧ depth = n then exchange ρ.old ρ.new name else name

section
variable {ρ : Renaming} {n : Nesting}

theorem Nesting.inner_ne_zero (n : Nesting) : n.inner ≠ some 0 := by
  cases n <;> simp [Nesting.inner]

theorem Name.rename_text (n : Nesting) (name : Name) : (name.rename ρ n).text = ρ.key n name.text := by
  unfold Name.rename Renaming.key
  split <;> rfl

theorem Renaming.key_injective (ρ : Renaming) (n : Nesting) : Function.Injective (ρ.key n) := by
  intro a b h
  unfold Renaming.key at h
  split at h
  · exact exchange_injective ρ.old ρ.new h
  · exact h

theorem Renaming.key_none (ρ : Renaming) (name : String) : ρ.key none name = name :=
  if_neg (Option.some_ne_none 0).symm

theorem Renaming.key_inner (ρ : Renaming) (n : Nesting) (name : String) : ρ.key n.inner name = name :=
  if_neg n.inner_ne_zero

@[simp] theorem Reference.rename_id (target : Reference) : (target.rename ρ n).id = target.id := by
  unfold Reference.rename
  split <;> rfl

theorem Reference.rename_text (target : Reference) :
    (target.rename ρ n).name.text = ρ.used n (ρ.depth target.id) target.name.text := by
  unfold Reference.rename Renaming.used
  split <;> rfl

theorem used_of_fixed {depth : Option Nat} {name : String} (h : exchange ρ.old ρ.new name = name) :
    ρ.used n depth name = name := by
  unfold Renaming.used
  split
  · exact h
  · rfl

end

/-! ## Renaming in one scope of a program -/

/-- The statements declare a variable of that name. -/
def DeclaresVariable (name : String) (body : List Stmt) : Prop :=
  ∃ declared initializer, .declare declared initializer ∈ body ∧ declared.text = name

mutual

/-- In one scope inside the statement, which declares the old name as a variable or has it as a parameter,
the names are exchanged. The scope is told by the part of the program that it is opened for. -/
inductive RenamesInStmt (ρ : Renaming) : Piece → Stmt → Stmt → Prop
  | block {body : List Stmt} : DeclaresVariable ρ.old body →
      RenamesInStmt ρ (.stmt (.block body)) (.block body) (.block (renameBody ρ (some 0) body))
  | inBlock {p : Piece} {body body' : List Stmt} :
      RenamesInBody ρ p body body' → RenamesInStmt ρ p (.block body) (.block body')
  | thenBranch {p : Piece} {condition : Expr} {s s' : Stmt} {elseBranch : Option Stmt} :
      RenamesInStmt ρ p s s' →
      RenamesInStmt ρ p (.branch condition s elseBranch) (.branch condition s' elseBranch)
  | elseBranch {p : Piece} {condition : Expr} {thenBranch s s' : Stmt} :
      RenamesInStmt ρ p s s' →
      RenamesInStmt ρ p (.branch condition thenBranch (some s)) (.branch condition thenBranch (some s'))
  | loop {p : Piece} {condition : Expr} {s s' : Stmt} :
      RenamesInStmt ρ p s s' → RenamesInStmt ρ p (.loop condition s) (.loop condition s')
  | function {p : Piece} {f f' : FunctionDecl} :
      RenamesInFunction ρ p f f' → RenamesInStmt ρ p (.function f) (.function f')
  | method {p : Piece} {name : Name} {superclass : Option Reference} {methods methods' : List FunctionDecl} :
      RenamesInMethods ρ p methods methods' →
      RenamesInStmt ρ p (.declareClass name superclass methods) (.declareClass name superclass methods')

inductive RenamesInFunction (ρ : Renaming) : Piece → FunctionDecl → FunctionDecl → Prop
  | call {name : Name} {params : List Name} {body : List Stmt} :
      (∃ param ∈ params, param.text = ρ.old) ∨ DeclaresVariable ρ.old body →
      RenamesInFunction ρ (.function ⟨name, params, body⟩) ⟨name, params, body⟩
        ⟨name, renameNames ρ (some 0) params, renameBody ρ (some 0) body⟩
  | inBody {p : Piece} {name : Name} {params : List Name} {body body' : List Stmt} :
      RenamesInBody ρ p body body' →
      RenamesInFunction ρ p ⟨name, params, body⟩ ⟨name, params, body'⟩

inductive RenamesInBody (ρ : Renaming) : Piece → List Stmt → List Stmt → Prop
  | head {p : Piece} {s s' : Stmt} {rest : List Stmt} :
      RenamesInStmt ρ p s s' → RenamesInBody ρ p (s :: rest) (s' :: rest)
  | tail {p : Piece} {s : Stmt} {rest rest' : List Stmt} :
      RenamesInBody ρ p rest rest' → RenamesInBody ρ p (s :: rest) (s :: rest')

inductive RenamesInMethods (ρ : Renaming) : Piece → List FunctionDecl → List FunctionDecl → Prop
  | head {p : Piece} {f f' : FunctionDecl} {rest : List FunctionDecl} :
      RenamesInFunction ρ p f f' → RenamesInMethods ρ p (f :: rest) (f' :: rest)
  | tail {p : Piece} {f : FunctionDecl} {rest rest' : List FunctionDecl} :
      RenamesInMethods ρ p rest rest' → RenamesInMethods ρ p (f :: rest) (f :: rest')

end

/-! ## Renaming in any number of scopes -/

/-- How the nesting changes with a scope: it lies further in, or it is one in which names are exchanged. -/
inductive Enters : Nesting → Nesting → Prop
  | inner {n : Nesting} : Enters n n.inner
  | here : Enters none (some 0)

/-- The name is declared by a function or a class, and so it is not one of those to be exchanged. -/
def Renaming.Leaves (ρ : Renaming) (n : Nesting) (name : Name) : Prop :=
  n = some 0 → exchange ρ.old ρ.new name.text = name.text

theorem Name.rename_of_leaves {ρ : Renaming} {n : Nesting} {name : Name} (h : ρ.Leaves n name) :
    name.rename ρ n = name := by
  unfold Name.rename
  split
  · next hn => rw [h hn]
  · rfl

/-- Where names are exchanged, the new one is not in use, and no variable is called by a keyword. -/
def Renaming.Admits (ρ : Renaming) (n : Nesting) (e : Expr) : Prop :=
  n ≠ none → ρ.new ∉ e.names ∧ e.Named

mutual

/-- In some scopes inside the statement, which itself stands at the nesting, the names are exchanged. -/
inductive StmtRenamed (ρ : Renaming) : Nesting → Stmt → Stmt → Prop
  | expression {n : Nesting} {value : Expr} : ρ.Admits n value →
      StmtRenamed ρ n (.expression value) (.expression (value.rename ρ n))
  | declare {n : Nesting} {name : Name} {initializer : Option Expr} :
      (∀ e ∈ initializer, ρ.Admits n e) →
      StmtRenamed ρ n (.declare name initializer)
        (.declare (name.rename ρ n) (renameOptional ρ n initializer))
  | block {n n' : Nesting} {body body' : List Stmt} :
      Enters n n' → BodyRenamed ρ n' body body' → StmtRenamed ρ n (.block body) (.block body')
  | branch {n : Nesting} {condition : Expr} {thenBranch thenBranch' : Stmt}
      {elseBranch elseBranch' : Option Stmt} : ρ.Admits n condition →
      StmtRenamed ρ n thenBranch thenBranch' → ElseRenamed ρ n elseBranch elseBranch' →
      StmtRenamed ρ n (.branch condition thenBranch elseBranch)
        (.branch (condition.rename ρ n) thenBranch' elseBranch')
  | loop {n : Nesting} {condition : Expr} {body body' : Stmt} :
      ρ.Admits n condition → StmtRenamed ρ n body body' →
      StmtRenamed ρ n (.loop condition body) (.loop (condition.rename ρ n) body')
  | function {n : Nesting} {f f' : FunctionDecl} :
      ρ.Leaves n f.name → FunctionRenamed ρ n f f' → StmtRenamed ρ n (.function f) (.function f')
  | giveBack {n : Nesting} {keyword : Name} {value : Option Expr} :
      (∀ e ∈ value, ρ.Admits n e) →
      StmtRenamed ρ n (.giveBack keyword value) (.giveBack keyword (renameOptional ρ n value))
  | declareClass {n : Nesting} {name : Name} {superclass : Option Reference}
      {methods methods' : List FunctionDecl} :
      ρ.Leaves n name → (∀ target ∈ superclass, ρ.Admits n (.reference target)) →
      MethodsRenamed ρ (n.inClass superclass).inner methods methods' →
      StmtRenamed ρ n (.declareClass name superclass methods)
        (.declareClass name (renameSuperclass ρ n superclass) methods')

inductive ElseRenamed (ρ : Renaming) : Nesting → Option Stmt → Option Stmt → Prop
  | none {n : Nesting} : ElseRenamed ρ n none none
  | some {n : Nesting} {s s' : Stmt} : StmtRenamed ρ n s s' → ElseRenamed ρ n (some s) (some s')

inductive FunctionRenamed (ρ : Renaming) : Nesting → FunctionDecl → FunctionDecl → Prop
  | intro {n n' : Nesting} {name : Name} {params : List Name} {body body' : List Stmt} :
      Enters n n' → BodyRenamed ρ n' body body' →
      FunctionRenamed ρ n ⟨name, params, body⟩ ⟨name, renameNames ρ n' params, body'⟩

inductive BodyRenamed (ρ : Renaming) : Nesting → List Stmt → List Stmt → Prop
  | nil {n : Nesting} : BodyRenamed ρ n [] []
  | cons {n : Nesting} {s s' : Stmt} {rest rest' : List Stmt} :
      StmtRenamed ρ n s s' → BodyRenamed ρ n rest rest' →
      BodyRenamed ρ n (s :: rest) (s' :: rest')

inductive MethodsRenamed (ρ : Renaming) : Nesting → List FunctionDecl → List FunctionDecl → Prop
  | nil {n : Nesting} : MethodsRenamed ρ n [] []
  | cons {n : Nesting} {f f' : FunctionDecl} {rest rest' : List FunctionDecl} :
      FunctionRenamed ρ n f f' → MethodsRenamed ρ n rest rest' →
      MethodsRenamed ρ n (f :: rest) (f' :: rest')

end

end LoxLang
