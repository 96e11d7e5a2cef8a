import LoxLang.Proofs.Renaming
import LoxLang.Proofs.Scoping.Breach

/-!
# The scope in which a variable is renamed

A scope that declares the old name as a variable declares no function and no class of that name, since the
program was accepted, and none of the new name, since that occurs nowhere. So what is renamed in one scope
of a program is renamed in the more general sense.
-/

namespace LoxLang

variable {ρ : Renaming}

/-! ## Outside of the scope nothing is renamed -/

@[simp] theorem Nesting.inClass_none (superclass : Option Reference) :
    Nesting.inClass none superclass = none := by
  unfold Nesting.inClass
  split <;> rfl

theorem Name.rename_none (name : Name) : name.rename ρ none = name := if_neg (Option.some_ne_none 0).symm

theorem Reference.rename_none (target : Reference) : target.rename ρ none = target :=
  if_neg fun h => h.1 rfl

mutual

theorem Expr.rename_none : (e : Expr) → e.rename ρ none = e
  | .literal _ | .receiver _ | .inherited .. => rfl
  | .reference target => congrArg Expr.reference target.rename_none
  | .unary operator line e => congrArg (Expr.unary operator line) e.rename_none
  | .grouping e => congrArg Expr.grouping e.rename_none
  | .get e name => congrArg (Expr.get · name) e.rename_none
  | .assign target operator value =>
    congrArg₂ (Expr.assign · operator ·) target.rename_none value.rename_none
  | .binary left operator line right =>
    congrArg₂ (Expr.binary · operator line ·) left.rename_none right.rename_none
  | .logical left operator right =>
    congrArg₂ (Expr.logical · operator ·) left.rename_none right.rename_none
  | .set object name operator value =>
    congrArg₂ (Expr.set · name operator ·) object.rename_none value.rename_none
  | .call callee style line arguments =>
    congrArg₂ (Expr.call · style line ·) callee.rename_none (renameItems_none arguments)
  | .list line elements => congrArg (Expr.list line) (renameItems_none elements)
  | .setElement object arguments operator line value => by
    rw [Expr.rename, object.rename_none, renameItems_none arguments, value.rename_none]

theorem renameItems_none : (es : List Expr) → renameItems ρ none es = es
  | [] => rfl
  | e :: rest => congrArg₂ List.cons e.rename_none (renameItems_none rest)

end

theorem renameOptional_none (value : Option Expr) : renameOptional ρ none value = value := by
  cases value with
  | none => rfl
  | some e => exact congrArg some e.rename_none

theorem renameSuperclass_none (superclass : Option Reference) :
    renameSuperclass ρ none superclass = superclass := by
  cases superclass with
  | none => rfl
  | some target => exact congrArg some target.rename_none

theorem renameNames_none (names : List Name) : renameNames ρ none names = names := by
  unfold renameNames
  rw [funext (Name.rename_none (ρ := ρ)), List.map_id']

theorem Renaming.admits_none (ρ : Renaming) (e : Expr) : ρ.Admits none e := fun h => absurd rfl h

section Outside
variable {condition : Expr} {s s' : Stmt} {o o' : Option Stmt} {name : Name}
  {superclass : Option Reference} {params : List Name} {body body' : List Stmt}
  {methods methods' : List FunctionDecl}

theorem StmtRenamed.outside_branch (hs : StmtRenamed ρ none s s') (ho : ElseRenamed ρ none o o') :
    StmtRenamed ρ none (.branch condition s o) (.branch condition s' o') := by
  have h : StmtRenamed ρ none (.branch condition s o) (.branch (condition.rename ρ none) s' o') :=
    .branch (ρ.admits_none _) hs ho
  rwa [Expr.rename_none] at h

theorem StmtRenamed.outside_loop (hs : StmtRenamed ρ none s s') :
    StmtRenamed ρ none (.loop condition s) (.loop condition s') := by
  have h : StmtRenamed ρ none (.loop condition s) (.loop (condition.rename ρ none) s') :=
    .loop (ρ.admits_none _) hs
  rwa [Expr.rename_none] at h

theorem StmtRenamed.outside_class (hm : MethodsRenamed ρ none methods methods') :
    StmtRenamed ρ none (.declareClass name superclass methods)
      (.declareClass name superclass methods') := by
  have hm : MethodsRenamed ρ (Nesting.inClass none superclass).inner methods methods' := by
    rwa [Nesting.inClass_none]
  have h : StmtRenamed ρ none (.declareClass name superclass methods)
      (.declareClass name (renameSuperclass ρ none superclass) methods') :=
    .declareClass nofun (fun _ _ => ρ.admits_none _) hm
  rwa [renameSuperclass_none] at h

theorem FunctionRenamed.outside (hb : BodyRenamed ρ none body body') :
    FunctionRenamed ρ none ⟨name, params, body⟩ ⟨name, params, body'⟩ := by
  have h : FunctionRenamed ρ none ⟨name, params, body⟩ ⟨name, renameNames ρ none params, body'⟩ :=
    .intro (.inner (n := none)) hb
  rwa [renameNames_none] at h

end Outside

mutual

theorem StmtRenamed.refl : (s : Stmt) → StmtRenamed ρ none s s
  | .expression value => by
    have h : StmtRenamed ρ none (.expression value) (.expression (value.rename ρ none)) :=
      .expression (ρ.admits_none _)
    rwa [Expr.rename_none] at h
  | .declare name initializer => by
    have h : StmtRenamed ρ none (.declare name initializer)
        (.declare (name.rename ρ none) (renameOptional ρ none initializer)) :=
      .declare fun _ _ => ρ.admits_none _
    rwa [Name.rename_none, renameOptional_none] at h
  | .block body => .block .inner (BodyRenamed.refl body)
  | .branch _ thenBranch elseBranch =>
    .outside_branch (StmtRenamed.refl thenBranch) (ElseRenamed.refl elseBranch)
  | .loop _ body => .outside_loop (StmtRenamed.refl body)
  | .function f => .function nofun (FunctionRenamed.refl f)
  | .giveBack keyword value => by
    have h : StmtRenamed ρ none (.giveBack keyword value)
        (.giveBack keyword (renameOptional ρ none value)) := .giveBack fun _ _ => ρ.admits_none _
    rwa [renameOptional_none] at h
  | .declareClass _ _ methods => .outside_class (MethodsRenamed.refl methods)

theorem ElseRenamed.refl : (o : Option Stmt) → ElseRenamed ρ none o o
  | none => .none
  | some s => .some (StmtRenamed.refl s)

theorem FunctionRenamed.refl : (f : FunctionDecl) → FunctionRenamed ρ none f f
  | ⟨_, _, body⟩ => .outside (BodyRenamed.refl body)

theorem BodyRenamed.refl : (body : List Stmt) → BodyRenamed ρ none body body
  | [] => .nil
  | s :: rest => .cons (StmtRenamed.refl s) (BodyRenamed.refl rest)

theorem MethodsRenamed.refl : (methods : List FunctionDecl) → MethodsRenamed ρ none methods methods
  | [] => .nil
  | f :: rest => .cons (FunctionRenamed.refl f) (MethodsRenamed.refl rest)

end

/-! ## Renaming by other depths -/

/-- The renaming with the depths from somewhere else. -/
abbrev Renaming.withDepth (ρ : Renaming) (depth : NodeId → Option Nat) : Renaming := { ρ with depth }

section
variable {depth : NodeId → Option Nat} {n : Nesting}

theorem Reference.rename_withDepth {target : Reference} (h : ∀ id ∈ [target.id], ρ.depth id = depth id) :
    target.rename (ρ.withDepth depth) n = target.rename ρ n := by
  unfold Reference.rename
  rw [h target.id List.mem_cons_self]

mutual

theorem Expr.rename_withDepth : (e : Expr) → (∀ id ∈ e.ids, ρ.depth id = depth id) →
    e.rename (ρ.withDepth depth) n = e.rename ρ n
  | .literal _, _ | .receiver _, _ | .inherited .., _ => rfl
  | .reference target, h => congrArg Expr.reference (target.rename_withDepth h)
  | .unary operator line e, h => congrArg (Expr.unary operator line) (e.rename_withDepth h)
  | .grouping e, h => congrArg Expr.grouping (e.rename_withDepth h)
  | .get e name, h => congrArg (Expr.get · name) (e.rename_withDepth h)
  | .assign target operator value, h =>
    have h := List.forall_mem_cons.1 h
    congrArg₂ (Expr.assign · operator ·) (target.rename_withDepth (by simpa using h.1))
      (value.rename_withDepth h.2)
  | .binary left operator line right, h =>
    have h := List.forall_mem_append.1 h
    congrArg₂ (Expr.binary · operator line ·) (left.rename_withDepth h.1) (right.rename_withDepth h.2)
  | .logical left operator right, h =>
    have h := List.forall_mem_append.1 h
    congrArg₂ (Expr.logical · operator ·) (left.rename_withDepth h.1) (right.rename_withDepth h.2)
  | .set object name operator value, h =>
    have h := List.forall_mem_append.1 h
    congrArg₂ (Expr.set · name operator ·) (object.rename_withDepth h.1) (value.rename_withDepth h.2)
  | .call callee style line arguments, h =>
    have h := List.forall_mem_append.1 h
    congrArg₂ (Expr.call · style line ·) (callee.rename_withDepth h.1) (renameItems_withDepth arguments h.2)
  | .list line elements, h => congrArg (Expr.list line) (renameItems_withDepth elements h)
  | .setElement object arguments operator line value, h => by
    have h := List.forall_mem_append.1 h
    have h' := List.forall_mem_append.1 h.2
    rw [Expr.rename, Expr.rename, object.rename_withDepth h.1, renameItems_withDepth arguments h'.1,
      value.rename_withDepth h'.2]

theorem renameItems_withDepth : (es : List Expr) → (∀ id ∈ itemIds es, ρ.depth id = depth id) →
    renameItems (ρ.withDepth depth) n es = renameItems ρ n es
  | [], _ => rfl
  | e :: rest, h =>
    have h := List.forall_mem_append.1 h
    congrArg₂ List.cons (e.rename_withDepth h.1) (renameItems_withDepth rest h.2)

end

theorem renameOptional_withDepth {value : Option Expr} (h : ∀ id ∈ optionalIds value, ρ.depth id = depth id) :
    renameOptional (ρ.withDepth depth) n value = renameOptional ρ n value := by
  cases value with
  | none => rfl
  | some e => exact congrArg some (e.rename_withDepth h)

theorem renameSuperclass_withDepth {superclass : Option Reference}
    (h : ∀ id ∈ superclassIds superclass, ρ.depth id = depth id) :
    renameSuperclass (ρ.withDepth depth) n superclass = renameSuperclass ρ n superclass := by
  cases superclass with
  | none => rfl
  | some target => exact congrArg some (target.rename_withDepth h)

/-- The name of the function or class that a statement declares. -/
def Stmt.definition? : Stmt → Option Name
  | .function f => some f.name
  | .declareClass name _ _ => some name
  | _ => none

theorem Renaming.leaves_inner (ρ : Renaming) (n : Nesting) (name : Name) : ρ.Leaves n.inner name :=
  fun h => absurd h n.inner_ne_zero

theorem not_mem_append_iff {α : Type} {a : α} {xs ys : List α} : a ∉ xs ++ ys ↔ a ∉ xs ∧ a ∉ ys := by
  rw [List.mem_append, not_or]

theorem definition?_eq_none {s : Stmt} (h : s.isDeclaration = false) : s.definition? = none := by
  cases s with
  | function | declareClass => cases h
  | _ => rfl

theorem admits_optional {value : Option Expr} (hn : ρ.new ∉ optionalNames value) (hk : OptionalNamed value) :
    ∀ e ∈ value, ρ.Admits n e := by
  rintro e rfl _
  exact ⟨hn, hk⟩

mutual

/-- What is renamed in a scope is renamed by any depths that are those of its references. -/
theorem StmtRenamed.of_rename {n : Nesting} : (s : Stmt) → s.Placed → s.Named → ρ.new ∉ s.names →
    (∀ name ∈ s.definition?, ρ.Leaves n name) → (∀ id ∈ s.ids, ρ.depth id = depth id) →
    StmtRenamed (ρ.withDepth depth) n s (s.rename ρ n)
  | .expression value, _, hk, hn, _, h => by
    rw [Stmt.rename, ← value.rename_withDepth h]
    exact .expression fun _ => ⟨hn, hk⟩
  | .declare name initializer, _, hk, hn, _, h => by
    rw [Stmt.rename, ← renameOptional_withDepth h]
    exact .declare (admits_optional (List.not_mem_of_not_mem_cons hn) hk.2)
  | .block body, hp, hk, hn, _, h =>
    .block .inner (BodyRenamed.of_rename body hp hk hn (fun _ _ name _ => ρ.leaves_inner n name) h)
  | .branch condition thenBranch none, hp, hk, hn, _, h => by
    have h := List.forall_mem_append.1 h
    have hn := not_mem_append_iff.1 hn
    have hdefinition : ∀ name ∈ thenBranch.definition?, ρ.Leaves n name := by
      rw [definition?_eq_none hp.1]
      exact nofun
    rw [Stmt.rename, ← condition.rename_withDepth h.1]
    exact .branch (fun _ => ⟨hn.1, hk.1⟩)
      (StmtRenamed.of_rename thenBranch hp.2 hk.2.1 (not_mem_append_iff.1 hn.2).1 hdefinition
        (List.forall_mem_append.1 h.2).1) .none
  | .branch condition thenBranch (some elseBranch), hp, hk, hn, _, h => by
    have h := List.forall_mem_append.1 h
    have hn := not_mem_append_iff.1 hn
    have hthen : ∀ name ∈ thenBranch.definition?, ρ.Leaves n name := by
      rw [definition?_eq_none hp.1]
      exact nofun
    have helse : ∀ name ∈ elseBranch.definition?, ρ.Leaves n name := by
      rw [definition?_eq_none hp.2.2.1]
      exact nofun
    rw [Stmt.rename, ← condition.rename_withDepth h.1]
    exact .branch (fun _ => ⟨hn.1, hk.1⟩)
      (StmtRenamed.of_rename thenBranch hp.2.1 hk.2.1 (not_mem_append_iff.1 hn.2).1 hthen
        (List.forall_mem_append.1 h.2).1)
      (.some (StmtRenamed.of_rename elseBranch hp.2.2.2 hk.2.2 (not_mem_append_iff.1 hn.2).2 helse
        (List.forall_mem_append.1 h.2).2))
  | .loop condition body, hp, hk, hn, _, h => by
    have h := List.forall_mem_append.1 h
    have hn := not_mem_append_iff.1 hn
    have hdefinition : ∀ name ∈ body.definition?, ρ.Leaves n name := by
      rw [definition?_eq_none hp.1]
      exact nofun
    rw [Stmt.rename, ← condition.rename_withDepth h.1]
    exact .loop (fun _ => ⟨hn.1, hk.1⟩) (StmtRenamed.of_rename body hp.2 hk.2 hn.2 hdefinition h.2)
  | .function f, hp, hk, hn, hl, h => .function (hl _ rfl) (FunctionRenamed.of_rename f hp hk hn h)
  | .giveBack keyword value, _, hk, hn, _, h => by
    rw [Stmt.rename, ← renameOptional_withDepth h]
    exact .giveBack (admits_optional hn hk)
  | .declareClass name superclass methods, hp, hk, hn, hl, h => by
    have h := List.forall_mem_append.1 h
    have hn := not_mem_append_iff.1 (List.not_mem_of_not_mem_cons hn)
    have hsuper : ∀ target ∈ superclass, ρ.Admits n (.reference target) := by
      rintro target rfl _
      exact ⟨hn.1, hk.2.1⟩
    rw [Stmt.rename, ← renameSuperclass_withDepth h.1]
    exact .declareClass (hl _ rfl) hsuper (MethodsRenamed.of_rename methods hp hk.2.2 hn.2 h.2)

theorem FunctionRenamed.of_rename {n : Nesting} : (f : FunctionDecl) → f.Placed → f.Named →
    ρ.new ∉ f.names → (∀ id ∈ f.ids, ρ.depth id = depth id) →
    FunctionRenamed (ρ.withDepth depth) n f (f.rename ρ n)
  | ⟨_, _, body⟩, hp, hk, hn, h =>
    .intro .inner (BodyRenamed.of_rename body hp hk.2.2
      (not_mem_append_iff.1 (List.not_mem_of_not_mem_cons hn)).2 (fun _ _ name _ => ρ.leaves_inner n name) h)

theorem BodyRenamed.of_rename {n : Nesting} : (body : List Stmt) → BodyPlaced body → BodyNamed body →
    ρ.new ∉ bodyNames body → (∀ s ∈ body, ∀ name ∈ s.definition?, ρ.Leaves n name) →
    (∀ id ∈ bodyIds body, ρ.depth id = depth id) →
    BodyRenamed (ρ.withDepth depth) n body (renameBody ρ n body)
  | [], _, _, _, _, _ => .nil
  | s :: rest, hp, hk, hn, hl, h =>
    have hn := not_mem_append_iff.1 hn
    have hl := List.forall_mem_cons.1 hl
    have h := List.forall_mem_append.1 h
    .cons (StmtRenamed.of_rename s hp.1 hk.1 hn.1 hl.1 h.1)
      (BodyRenamed.of_rename rest hp.2 hk.2 hn.2 hl.2 h.2)

theorem MethodsRenamed.of_rename {n : Nesting} : (methods : List FunctionDecl) →
    MethodsPlaced methods → MethodsNamed methods → ρ.new ∉ methodNames methods →
    (∀ id ∈ methodIds methods, ρ.depth id = depth id) →
    MethodsRenamed (ρ.withDepth depth) n methods (renameMethods ρ n methods)
  | [], _, _, _, _ => .nil
  | f :: rest, hp, hk, hn, h =>
    have hn := not_mem_append_iff.1 hn
    have h := List.forall_mem_append.1 h
    .cons (FunctionRenamed.of_rename f hp.1 hk.1 hn.1 h.1) (MethodsRenamed.of_rename rest hp.2 hk.2 hn.2 h.2)

end

end

/-! ## What the scope declares -/

/-- The names of a part of a program. -/
def Piece.names : Piece → List String
  | .body statements => bodyNames statements
  | .stmt s => s.names
  | .expr e => e.names
  | .function f => f.names

theorem Stmt.definition_declaration {s : Stmt} {name : Name} (h : name ∈ s.definition?) :
    s.declaration? = some name := by
  cases s <;> first | exact h | cases h

section Declared
variable {program : List Stmt} {c : Context} {s : Stmt} {body : List Stmt} {name : Name}

theorem Context.declare_frames_head {ready : Bool} {frame : Frame} (hf : c.frames.head? = some frame)
    (name : String) : (c.declare name ready).frames.head? = some (Table.put name ready frame) := by
  obtain ⟨setting, layers⟩ := c
  cases layers with
  | nil => cases hf
  | cons layer outer =>
    cases hf
    rfl

/-- Behind a statement the scope declares what it declared before and what the statement declares. -/
theorem Context.behind_frames_head {frame : Frame} (hf : c.frames.head? = some frame) (s : Stmt) :
    ∃ later, (c.behind s).frames.head? = some later ∧ (∀ name, frame.has name → later.has name) ∧
      ∀ name, s.declaration? = some name → later.has name.text := by
  have hput (declared : String) : ∃ later,
      (c.declare declared true).frames.head? = some later ∧
        (∀ name, frame.has name → later.has name) ∧ later.has declared :=
    ⟨_, Context.declare_frames_head hf declared, fun name h => by simp [Table.has_put, h],
      by simp [Table.has_put]⟩
  cases s with
  | declare declared initializer =>
    obtain ⟨later, hl, hold, hnew⟩ := hput declared.text
    exact ⟨later, hl, hold, fun name h => by cases h; exact hnew⟩
  | function f =>
    obtain ⟨later, hl, hold, hnew⟩ := hput f.name.text
    exact ⟨later, hl, hold, fun name h => by cases h; exact hnew⟩
  | declareClass declared superclass methods =>
    obtain ⟨later, hl, hold, hnew⟩ := hput declared.text
    exact ⟨later, hl, hold, fun name h => by cases h; exact hnew⟩
  | _ => exact ⟨frame, hf, fun _ h => h, nofun⟩

/-- What a scope has declared is not declared by the statements that are left. -/
theorem Stands.declared_before (h : Stands program c (.body body)) (hc : Checked program) {frame : Frame}
    (hf : c.frames.head? = some frame) {text : String} (hhas : frame.has text) :
    ∀ s ∈ body, ∀ name ∈ s.declaration?, name.text ≠ text := by
  induction body generalizing c frame with
  | nil => exact nofun
  | cons s rest ih =>
    obtain ⟨later, hl, hold, -⟩ := Context.behind_frames_head hf s
    intro found hfound name hname
    rcases List.mem_cons.1 hfound with rfl | hfound
    · rintro rfl
      have hfalse := h.head.undeclared hc hname frame hf
      rw [hhas] at hfalse
      cases hfalse
    · exact ih h.tail hl (hold text hhas) found hfound name hname

/-- A scope that declares a variable declares no function and no class of that name. -/
theorem Stands.declared_as_variable (h : Stands program c (.body body)) (hc : Checked program)
    {frame : Frame} (hf : c.frames.head? = some frame) {text : String}
    (hdeclares : DeclaresVariable text body) :
    ∀ s ∈ body, ∀ name ∈ s.definition?, name.text ≠ text := by
  induction body generalizing c frame with
  | nil => exact nofun
  | cons s rest ih =>
    obtain ⟨declared, initializer, hmem, htext⟩ := hdeclares
    obtain ⟨later, hl, -, hnew⟩ := Context.behind_frames_head hf s
    intro found hfound name hname
    rcases List.mem_cons.1 hmem with rfl | hrest
    · rcases List.mem_cons.1 hfound with rfl | hfound
      · cases hname
      · exact h.tail.declared_before hc hl (htext ▸ hnew declared rfl) found hfound name
          (Stmt.definition_declaration hname)
    · rcases List.mem_cons.1 hfound with rfl | hfound
      · rintro rfl
        exact h.tail.declared_before hc hl (hnew name (Stmt.definition_declaration hname))
          (.declare declared initializer) hrest declared rfl htext
      · exact ih h.tail hl ⟨declared, initializer, hrest, htext⟩ found hfound name hname

end Declared

/-! ## Names that occur nowhere -/

theorem function_names {f : FunctionDecl} {methods : List FunctionDecl} (h : f ∈ methods) :
    f.names ⊆ methodNames methods := by
  induction methods with
  | nil => cases h
  | cons first rest ih =>
    rcases List.mem_cons.1 h with rfl | h
    · exact List.subset_append_left _ _
    · exact fun name hn => List.mem_append_right _ (ih h hn)

theorem Stands.names {program : List Stmt} {c : Context} {p : Piece} (h : Stands program c p) :
    p.names ⊆ bodyNames program := by
  induction h with
  | program => exact fun _ hn => hn
  | head _ ih => exact fun name hn => ih (List.mem_append_left _ hn)
  | tail _ ih => exact fun name hn => ih (List.mem_append_right _ hn)
  | expression _ ih => exact ih
  | initializer _ ih => exact fun name hn => ih (List.mem_cons_of_mem _ hn)
  | block _ ih => exact ih
  | condition _ ih => exact fun name hn => ih (List.mem_append_left _ hn)
  | thenBranch _ ih =>
    exact fun name hn => ih (List.mem_append_right _ (List.mem_append_left _ hn))
  | elseBranch _ ih =>
    exact fun name hn => ih (List.mem_append_right _ (List.mem_append_right _ hn))
  | loopCondition _ ih => exact fun name hn => ih (List.mem_append_left _ hn)
  | loopBody _ ih => exact fun name hn => ih (List.mem_append_right _ hn)
  | value _ ih => exact ih
  | function _ ih => exact ih
  | method _ hf ih =>
    exact fun name hn => ih (List.mem_cons_of_mem _ (List.mem_append_right _ (function_names hf hn)))
  | @functionBody _ f _ ih =>
    cases f
    exact fun name hn => ih (List.mem_cons_of_mem _ (List.mem_append_right _ hn))
  | part _ hp ih => exact fun name hn => ih (Expr.part_names hp hn)

/-- No frame of the context has the name. -/
def Context.Lacks (c : Context) (name : String) : Prop := ∀ frame ∈ c.frames, frame.has name = false

section Lacks
variable {c : Context} {name : String}

theorem Context.Lacks.declare (h : c.Lacks name) {declared : String} (hne : declared ≠ name)
    (ready : Bool) : (c.declare declared ready).Lacks name := by
  obtain ⟨setting, layers⟩ := c
  cases layers with
  | nil => exact h
  | cons layer outer =>
    intro frame hf
    rcases List.mem_cons.1 hf with rfl | hf
    · rw [Table.has_put, h layer.frame List.mem_cons_self, decide_eq_false hne]
      rfl
    · exact h frame (List.mem_cons_of_mem _ hf)

theorem Context.Lacks.enter (h : c.Lacks name) (site : Site) {frame : Frame}
    (hf : frame.has name = false) : (c.enter site frame).Lacks name := by
  intro found hm
  rcases List.mem_cons.1 hm with rfl | hm
  · exact hf
  · exact h found hm

/-- A name that occurs nowhere in a program and is no keyword is not found in any of its contexts. -/
theorem Stands.lacks {program : List Stmt} {p : Piece} (h : Stands program c p)
    (hn : name ∉ bodyNames program) (hthis : name ≠ "this") (hsuper : name ≠ "super") :
    c.Lacks name := by
  have hne {q : Piece} {c : Context} (hq : Stands program c q) {found : String} (hf : found ∈ q.names) :
      found ≠ name := fun he => hn (he ▸ hq.names hf)
  have hthis' : Table.has name [("this", true)] = false := by
    simp [Table.has, Table.get?, Ne.symm hthis]
  have hsuper' : Table.has name [("super", true)] = false := by
    simp [Table.has, Table.get?, Ne.symm hsuper]
  induction h with
  | program => exact fun frame hf => absurd hf List.not_mem_nil
  | head _ ih => exact ih
  | @tail c s rest h ih =>
    have hs : ∀ found ∈ s.declaration?, found.text ≠ name := by
      intro found hf
      refine hne h.head ?_
      cases s with
      | declare => cases hf; exact List.mem_cons_self
      | function f => cases hf; cases f; exact List.mem_cons_self
      | declareClass => cases hf; exact List.mem_cons_self
      | _ => cases hf
    cases s with
    | declare declared => exact ih.declare (hs declared rfl) true
    | function f => exact ih.declare (hs f.name rfl) true
    | declareClass declared => exact ih.declare (hs declared rfl) true
    | _ => exact ih
  | initializer h ih => exact ih.declare (hne h List.mem_cons_self) false
  | block _ ih => exact ih.enter _ rfl
  | @function _ f h ih =>
    have hf : f.name.text ≠ name := hne h (by cases f; exact List.mem_cons_self)
    exact ih.declare hf true
  | @method c declared superclass methods f h _ ih =>
    have hdeclared : declared.text ∈ (Piece.stmt (.declareClass declared superclass methods)).names :=
      List.mem_cons_self
    have hd := ih.declare (hne h hdeclared) true
    cases superclass with
    | none => exact hd.enter _ hthis'
    | some target => exact (hd.enter _ hsuper').enter _ hthis'
  | @functionBody _ f h ih =>
    refine ih.enter _ ?_
    rw [parameterFrame_has]
    refine decide_eq_false fun hm => hn (h.names ?_)
    cases f
    exact List.mem_cons_of_mem _ (List.mem_append_left _ hm)
  | _ => assumption

end Lacks

/-! ## From one scope to any number of them -/

/-- The new name occurs nowhere in the program and is no keyword. -/
structure Renaming.Fresh (ρ : Renaming) (program : List Stmt) : Prop where
  unused : ρ.new ∉ bodyNames program
  free : ∀ k : Keyword, ρ.new ≠ k.text

section Fresh
variable {program : List Stmt} {depth : NodeId → Option Nat}

theorem Renaming.Fresh.lacks {c : Context} {p : Piece} (hρ : ρ.Fresh program)
    (h : Stands program c p) : c.Lacks ρ.new :=
  h.lacks hρ.unused (hρ.free .thisWord) (hρ.free .superWord)

theorem definition_names {s : Stmt} {name : Name} (h : name ∈ s.definition?) : name.text ∈ s.names := by
  cases s with
  | function f =>
    cases h
    cases f
    exact List.mem_cons_self
  | declareClass =>
    cases h
    exact List.mem_cons_self
  | _ => cases h

theorem mem_bodyNames {s : Stmt} {body : List Stmt} (h : s ∈ body) : s.names ⊆ bodyNames body := by
  induction body with
  | nil => cases h
  | cons first rest ih =>
    rcases List.mem_cons.1 h with rfl | h
    · exact List.subset_append_left _ _
    · exact fun name hn => List.mem_append_right _ (ih h hn)

/-- The statements of the scope in which the names are exchanged. -/
theorem Stands.renamed_here {c : Context} {body : List Stmt} (h : Stands program c (.body body))
    (hc : Checked program) (hρ : ρ.Fresh program)
    (hdepth : ∀ id ∈ bodyIds program, ρ.depth id = depth id)
    (hold : ∀ s ∈ body, ∀ name ∈ s.definition?, name.text ≠ ρ.old) :
    BodyRenamed (ρ.withDepth depth) (some 0) body (renameBody ρ (some 0) body) := by
  obtain ⟨r, later, hreach⟩ := h.reach hc
  refine BodyRenamed.of_rename body (h.placed hc.placed) (h.named hc.named) (fun hm => hρ.unused (h.names hm))
    (fun s hs name hname _ => ?_) fun id hid => hdepth id (hreach.inside hid)
  have hmem := h.names (mem_bodyNames hs (definition_names hname))
  exact exchange_of_ne (hold s hs name hname) fun he => hρ.unused (he ▸ hmem)

mutual

/-- What is renamed in one scope is renamed in the general sense, by all depths that are those of the
program. -/
theorem RenamesInStmt.renamed {c : Context} {p : Piece} {s s' : Stmt} (hc : Checked program)
    (hρ : ρ.Fresh program) (hdepth : ∀ id ∈ bodyIds program, ρ.depth id = depth id) : RenamesInStmt ρ p s s' →
    Stands program c (.stmt s) → StmtRenamed (ρ.withDepth depth) none s s'
  | .block hd, h =>
    .block .here (h.block.renamed_here hc hρ hdepth (h.block.declared_as_variable hc rfl hd))
  | .inBlock hb, h => .block .inner (hb.renamed hc hρ hdepth h.block)
  | .thenBranch hs, h => .outside_branch (hs.renamed hc hρ hdepth h.thenBranch) (ElseRenamed.refl _)
  | .elseBranch hs, h =>
    .outside_branch (StmtRenamed.refl _) (.some (hs.renamed hc hρ hdepth h.elseBranch))
  | .loop hs, h => .outside_loop (hs.renamed hc hρ hdepth h.loopBody)
  | .function hf, h => .function nofun (hf.renamed hc hρ hdepth h.function)
  | .method hm, h => .outside_class (hm.renamed hc hρ hdepth fun _ hf => ⟨_, h.method hf⟩)

theorem RenamesInFunction.renamed {c : Context} {p : Piece} {f f' : FunctionDecl} (hc : Checked program)
    (hρ : ρ.Fresh program) (hdepth : ∀ id ∈ bodyIds program, ρ.depth id = depth id) :
    RenamesInFunction ρ p f f' → Stands program c (.function f) →
    FunctionRenamed (ρ.withDepth depth) none f f'
  | @RenamesInFunction.call _ name params body hd, h => by
    have hbody : Stands program (c.call ⟨name, params, body⟩) (.body body) := h.functionBody
    have hold : ∀ s ∈ body, ∀ name ∈ s.definition?, name.text ≠ ρ.old := by
      rcases hd with ⟨param, hmem, htext⟩ | hd
      · intro s hs found hfound
        have hhas : (Context.parameterFrame params).has ρ.old := by
          rw [parameterFrame_has]
          exact decide_eq_true (List.mem_map.2 ⟨param, hmem, htext⟩)
        exact hbody.declared_before hc rfl hhas s hs found (Stmt.definition_declaration hfound)
      · exact hbody.declared_as_variable hc rfl hd
    exact .intro .here (hbody.renamed_here hc hρ hdepth hold)
  | .inBody hb, h => .outside (hb.renamed hc hρ hdepth h.functionBody)

theorem RenamesInBody.renamed {c : Context} {p : Piece} {body body' : List Stmt} (hc : Checked program)
    (hρ : ρ.Fresh program) (hdepth : ∀ id ∈ bodyIds program, ρ.depth id = depth id) :
    RenamesInBody ρ p body body' → Stands program c (.body body) →
    BodyRenamed (ρ.withDepth depth) none body body'
  | .head hs, h => .cons (hs.renamed hc hρ hdepth h.head) (BodyRenamed.refl _)
  | .tail hb, h => .cons (StmtRenamed.refl _) (hb.renamed hc hρ hdepth h.tail)

theorem RenamesInMethods.renamed {p : Piece} {methods methods' : List FunctionDecl} (hc : Checked program)
    (hρ : ρ.Fresh program) (hdepth : ∀ id ∈ bodyIds program, ρ.depth id = depth id) :
    RenamesInMethods ρ p methods methods' → (∀ f ∈ methods, ∃ c, Stands program c (.function f)) →
    MethodsRenamed (ρ.withDepth depth) none methods methods'
  | .head hf, h => by
    obtain ⟨c, hc'⟩ := h _ List.mem_cons_self
    exact .cons (hf.renamed hc hρ hdepth hc') (MethodsRenamed.refl _)
  | .tail hm, h =>
    .cons (FunctionRenamed.refl _)
      (hm.renamed hc hρ hdepth fun f hf => h f (List.mem_cons_of_mem _ hf))

end

end Fresh

end LoxLang
