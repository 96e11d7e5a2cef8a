import LoxLang.Proofs.Program

/-!
# References are told apart

A reading gives each reference the next free identity and never takes one back. So the references of all
that it yields are told apart by their identities, also behind errors: what was given up with a failed
declaration keeps the identities that it used up, and an assignment takes over the identity of its target.
-/

namespace LoxLang

/-- The identities lie from `first` up to but not including `next`, and no two of them are equal. -/
structure Distinct (first : NodeId) (ids : List NodeId) (next : NodeId) : Prop where
  le : first ≤ next
  nodup : ids.Nodup
  bounds : ∀ id ∈ ids, first ≤ id ∧ id < next

section
variable {first middle next : NodeId} {xs ys : List NodeId}

theorem distinct_nil (h : first ≤ next) : Distinct first [] next := ⟨h, .nil, by simp⟩

theorem distinct_single (id : NodeId) : Distinct id [id] (id + 1) :=
  ⟨Nat.le_succ id, List.nodup_cons.2 ⟨List.not_mem_nil, .nil⟩, by simp⟩

theorem Distinct.append (h : Distinct first xs middle) (h' : Distinct middle ys next) :
    Distinct first (xs ++ ys) next := by
  refine ⟨Nat.le_trans h.le h'.le, ?_, ?_⟩
  · refine List.nodup_append.2 ⟨h.nodup, h'.nodup, ?_⟩
    rintro x hx y hy rfl
    exact absurd (h.bounds x hx).2 (Nat.not_lt.2 (h'.bounds x hy).1)
  · intro id hid
    rcases List.mem_append.1 hid with hid | hid
    · exact ⟨(h.bounds id hid).1, Nat.lt_of_lt_of_le (h.bounds id hid).2 h'.le⟩
    · exact ⟨Nat.le_trans h.le (h'.bounds id hid).1, (h'.bounds id hid).2⟩

theorem Distinct.perm (h : Distinct first xs next) (hp : ys.Perm xs) : Distinct first ys next :=
  ⟨h.le, hp.nodup_iff.2 h.nodup, fun id hid => h.bounds id (hp.mem_iff.1 hid)⟩

end

/-! ## Steps -/

namespace Reader
variable {α β : Type} {held : List NodeId} {ids : α → List NodeId} {bs : β → List NodeId}

/-- The step gives no identity away. -/
def Idle (step : Reader α) : Prop :=
  ∀ s, match step s with
    | .ok _ s' => s'.nextId = s.nextId
    | .fail _ s' => s'.nextId = s.nextId
    | .outOfFuel => True

/-- What the step yields has the identities in `held`, which were given away before, and others that the
step gives away, none of them twice. Also a failed step does not take identities back. -/
def Numbers (held : List NodeId) (step : Reader α) (ids : α → List NodeId) : Prop :=
  ∀ s, match step s with
    | .ok a s' => s.nextId ≤ s'.nextId ∧
        ∀ first, Distinct first held s.nextId → Distinct first (ids a) s'.nextId
    | .fail _ s' => s.nextId ≤ s'.nextId
    | .outOfFuel => True

theorem Idle.bind {step : Reader α} {next : α → Reader β} (hs : step.Idle) (hn : ∀ a, (next a).Idle) :
    (step >>= next).Idle := by
  intro s
  have h := hs s
  change match andThen step next s with
    | .ok _ _ => _
    | .fail _ _ => _
    | .outOfFuel => _
  unfold andThen
  cases hr : step s with
  | ok a s₁ =>
    rw [hr] at h
    have h' := hn a s₁
    dsimp only at h ⊢
    rwa [h] at h'
  | fail e s₁ => rwa [hr] at h
  | outOfFuel => trivial

theorem idle_pure (a : α) : (pure a : Reader α).Idle := fun _ => rfl

theorem idle_fail (fault : GrammarFault) : (fail fault : Reader α).Idle := fun _ => rfl

theorem idle_at? (mark : Mark) : (at? mark).Idle := fun _ => rfl

theorem idle_atEnd : atEnd.Idle := fun _ => rfl

theorem idle_reportIf (condition : Bool) (fault : GrammarFault) : (reportIf condition fault).Idle := by
  intro s
  cases condition <;> rfl

theorem idle_takeIf (choose : TokenKind → Option α) : (takeIf choose).Idle := by
  intro s
  unfold takeIf
  cases s.pending with
  | nil => rfl
  | cons t rest =>
    dsimp only
    cases choose t.kind <;> rfl

theorem idle_accept (kind : TokenKind) : (accept kind).Idle :=
  (idle_takeIf _).bind fun _ => idle_pure _

theorem idle_expectMark (mark : Mark) (context : MarkContext) : (expectMark mark context).Idle := by
  refine (idle_accept _).bind fun found => ?_
  cases found with
  | some t => exact idle_pure t
  | none => exact idle_fail _

theorem idle_expectName (role : NameRole) : (expectName role).Idle := by
  refine (idle_accept _).bind fun found => ?_
  cases found with
  | some t => exact idle_pure _
  | none => exact idle_fail _

theorem numbers_exhausted : (exhausted : Reader α).Numbers held ids := fun _ => trivial

theorem numbers_fail (fault : GrammarFault) : (fail fault : Reader α).Numbers held ids :=
  fun _ => Nat.le_refl _

theorem numbers_failWith (e : StaticError) : (failWith e : Reader α).Numbers held ids :=
  fun _ => Nat.le_refl _

/-- The trees read before go into the result, in whatever order. -/
theorem numbers_pure {a : α} (h : (ids a).Perm held) : (pure a : Reader α).Numbers held ids :=
  fun _ => ⟨Nat.le_refl _, fun _ hd => hd.perm h⟩

theorem numbers_newReference (name : Name) :
    (newReference name).Numbers held fun target => held ++ [target.id] :=
  fun s => ⟨Nat.le_succ _, fun _ hd => hd.append (distinct_single s.nextId)⟩

theorem Numbers.bind {step : Reader α} {next : α → Reader β} (hs : step.Numbers [] ids)
    (hn : ∀ a, (next a).Numbers (held ++ ids a) bs) : (step >>= next).Numbers held bs := by
  intro s
  have h := hs s
  change match andThen step next s with
    | .ok _ _ => _
    | .fail _ _ => _
    | .outOfFuel => _
  unfold andThen
  cases hr : step s with
  | ok a s₁ =>
    rw [hr] at h
    obtain ⟨hle, hids⟩ := h
    have h' := hn a s₁
    dsimp only at h' ⊢
    cases hr' : next a s₁ with
    | ok b s₂ =>
      rw [hr'] at h'
      exact ⟨Nat.le_trans hle h'.1, fun first hd =>
        h'.2 first (hd.append (hids s.nextId (distinct_nil (Nat.le_refl _))))⟩
    | fail e s₂ =>
      rw [hr'] at h'
      exact Nat.le_trans hle h'
    | outOfFuel => trivial
  | fail e s₁ => rwa [hr] at h
  | outOfFuel => trivial

/-- Nothing was read before. -/
theorem Numbers.first {step : Reader α} {next : α → Reader β} (hs : step.Numbers [] ids)
    (hn : ∀ a, (next a).Numbers (ids a) bs) : (step >>= next).Numbers [] bs := hs.bind hn

theorem Numbers.map {step : Reader α} {f : α → β} (hs : step.Numbers [] ids) (hf : ∀ a, bs (f a) = ids a) :
    (f <$> step).Numbers [] bs :=
  hs.first fun a => numbers_pure (hf a ▸ List.Perm.refl _)

theorem Idle.numbers {step : Reader α} {next : α → Reader β} (hs : step.Idle)
    (hn : ∀ a, (next a).Numbers held bs) : (step >>= next).Numbers held bs := by
  have hnone : step.Numbers [] fun _ => [] := by
    intro s
    have h := hs s
    cases hr : step s with
    | ok a s' =>
      rw [hr] at h
      exact ⟨Nat.le_of_eq h.symm, fun first hd => h ▸ hd⟩
    | fail e s' =>
      rw [hr] at h
      exact Nat.le_of_eq h.symm
    | outOfFuel => trivial
  refine hnone.bind fun a => ?_
  rw [List.append_nil]
  exact hn a

theorem numbers_takeIf {choose : TokenKind → Option α} {next : Option (α × Token) → Reader β}
    (hs : ∀ a t, (next (some (a, t))).Numbers held bs) (hn : (next none).Numbers held bs) :
    (takeIf choose >>= next).Numbers held bs := by
  refine (idle_takeIf choose).numbers fun found => ?_
  rcases found with _ | ⟨a, t⟩
  · exact hn
  · exact hs a t

theorem numbers_accept {kind : TokenKind} {next : Option Token → Reader β}
    (hs : ∀ t, (next (some t)).Numbers held bs) (hn : (next none).Numbers held bs) :
    (accept kind >>= next).Numbers held bs := by
  refine (idle_accept kind).numbers fun found => ?_
  cases found with
  | some t => exact hs t
  | none => exact hn

section Optional
variable {optional : Option α → List NodeId} (hnone : optional none = [])
  (hsome : ∀ a, optional (some a) = ids a)
include hnone hsome

theorem Numbers.behind {kind : TokenKind} {step : Reader α} (h : step.Numbers [] ids) :
    (behind? kind step).Numbers [] optional :=
  numbers_accept (fun _ => h.map hsome) (numbers_pure (hnone ▸ List.Perm.refl _))

theorem Numbers.unlessAt {mark : Mark} {step : Reader α} (h : step.Numbers [] ids) :
    (unlessAt mark step).Numbers [] optional := by
  refine (idle_at? mark).numbers fun found => ?_
  split
  · exact numbers_pure (hnone ▸ List.Perm.refl _)
  · exact h.map hsome

/-- A failed step leaves nothing but the identities that it used up. -/
theorem Numbers.attempt {step : Reader α} (h : step.Numbers [] ids) :
    (attempt step).Numbers [] optional := by
  intro s
  have h := h s
  unfold Reader.attempt
  cases hr : step s with
  | ok a s' =>
    rw [hr] at h
    dsimp only
    rwa [hsome]
  | fail e s' =>
    rw [hr] at h
    dsimp only
    rw [hnone]
    exact ⟨h, fun first hd => distinct_nil (Nat.le_trans hd.le h)⟩
  | outOfFuel => trivial

end Optional

end Reader

open Reader

/-! ## Expressions -/

/-- With this fuel the rules of expressions tell references apart. -/
structure ExprNumbers (n : Nat) : Prop where
  expr : (readExpr n).Numbers [] Expr.ids
  level (o : Option Level) : (readLevel n o).Numbers [] Expr.ids
  joined (l : Level) (left : Expr) : (readJoined n l left).Numbers left.ids Expr.ids
  unary : (readUnary n).Numbers [] Expr.ids
  power : (readPower n).Numbers [] Expr.ids
  call : (readCall n).Numbers [] Expr.ids
  selectors (e : Expr) : (readSelectors n e).Numbers e.ids Expr.ids
  arguments (closing : Mark) (limit : Option Nat) :
    (readArguments n closing limit).Numbers [] fun a => itemIds a.1
  items (limit : Option Nat) (earlier : Nat) : (readItems n limit earlier).Numbers [] itemIds
  primary : (readPrimary n).Numbers [] Expr.ids

namespace ExprNumbers
variable {n : Nat} (ih : ExprNumbers n)
include ih

theorem readExpr_numbers : (readExpr (n + 1)).Numbers [] Expr.ids := by
  rw [readExpr]
  refine (ih.level _).first fun target => numbers_takeIf (fun operator t => ?_) (numbers_pure (.refl _))
  refine ih.expr.bind fun value => ?_
  cases ha : target.assigned? operator value with
  | some e => exact numbers_pure (assigned_ids ha ▸ .refl _)
  | none => exact numbers_failWith _

theorem readLevel_numbers (o : Option Level) : (readLevel (n + 1) o).Numbers [] Expr.ids := by
  cases o with
  | none => exact ih.unary
  | some l => exact (ih.level l.tighter?).first fun left => ih.joined l left

theorem readJoined_numbers (l : Level) (left : Expr) :
    (readJoined (n + 1) l left).Numbers left.ids Expr.ids := by
  rw [readJoined]
  refine numbers_takeIf (fun operator t => ?_) (numbers_pure (.refl _))
  refine (ih.level l.tighter?).bind fun right => ?_
  rw [← join_ids operator left right t.line]
  exact ih.joined l _

theorem readUnary_numbers : (readUnary (n + 1)).Numbers [] Expr.ids := by
  rw [readUnary]
  exact numbers_takeIf (fun operator t => ih.unary.first fun right => numbers_pure (.refl _)) ih.power

theorem readPower_numbers : (readPower (n + 1)).Numbers [] Expr.ids := by
  rw [readPower]
  refine ih.call.first fun base => numbers_accept (fun t => ?_) (numbers_pure (.refl _))
  exact ih.unary.bind fun exponent => numbers_pure (.refl _)

theorem readCall_numbers : (readCall (n + 1)).Numbers [] Expr.ids :=
  ih.primary.first fun first => ih.selectors first

/-- A call with the selectors behind it. -/
theorem call_numbers (object : Expr) (style : CallStyle) (closing : Mark) (limit : Option Nat) :
    (readArguments n closing limit >>= fun a => readSelectors n (.call object style a.2 a.1)).Numbers
      object.ids Expr.ids :=
  (ih.arguments closing limit).bind fun a => ih.selectors (.call object style a.2 a.1)

theorem readSelectors_numbers (e : Expr) : (readSelectors (n + 1) e).Numbers e.ids Expr.ids := by
  rw [readSelectors]
  refine numbers_accept (fun t => ih.call_numbers e _ _ _) ?_
  refine numbers_accept (fun t => ih.call_numbers e _ _ _) ?_
  refine numbers_accept (fun t => (idle_expectName _).numbers fun name => ?_) (numbers_pure (.refl _))
  exact ih.selectors (.get e name)

theorem readArguments_numbers (closing : Mark) (limit : Option Nat) :
    (readArguments (n + 1) closing limit).Numbers [] fun a => itemIds a.1 := by
  rw [readArguments]
  have hitems : (unlessAt closing (readItems n limit 0)).Numbers [] fun es => itemIds (es.getD []) :=
    (ih.items limit 0).unlessAt rfl fun _ => rfl
  exact hitems.first fun es => (idle_expectMark _ _).numbers fun t => numbers_pure (.refl _)

theorem readItems_numbers (limit : Option Nat) (earlier : Nat) :
    (readItems (n + 1) limit earlier).Numbers [] itemIds := by
  rw [readItems]
  refine (idle_reportIf _ _).numbers fun _ => ih.expr.first fun first => ?_
  refine numbers_accept (fun t => ?_) (numbers_pure ?_)
  · exact (ih.items limit (earlier + 1)).bind fun rest => numbers_pure (.refl _)
  · exact .of_eq (List.append_nil _)

theorem readPrimary_numbers : (readPrimary (n + 1)).Numbers [] Expr.ids := by
  rw [readPrimary]
  refine numbers_takeIf (fun value t => numbers_pure (.refl _)) ?_
  refine numbers_accept (fun t => (numbers_newReference _).first fun _ => numbers_pure (.refl _)) ?_
  refine numbers_accept (fun t => ih.expr.first fun inner => ?_) ?_
  · exact (idle_expectMark _ _).numbers fun _ => numbers_pure (.refl _)
  refine numbers_accept (fun t => (ih.arguments _ _).first fun a => numbers_pure (.refl _)) ?_
  refine numbers_accept (fun t => (numbers_newReference _).first fun _ => numbers_pure (.refl _)) ?_
  refine numbers_accept (fun t => ?_) (numbers_fail _)
  refine (idle_expectMark _ _).numbers fun _ => (idle_expectName _).numbers fun method => ?_
  exact (numbers_newReference _).first fun _ => numbers_pure (.refl _)

end ExprNumbers

theorem exprNumbers (n : Nat) : ExprNumbers n := by
  induction n with
  | zero => constructor <;> intros <;> exact numbers_exhausted
  | succ n ih =>
    exact ⟨ih.readExpr_numbers, ih.readLevel_numbers, ih.readJoined_numbers, ih.readUnary_numbers,
      ih.readPower_numbers, ih.readCall_numbers, ih.readSelectors_numbers, ih.readArguments_numbers,
      ih.readItems_numbers, ih.readPrimary_numbers⟩

theorem readExpr_numbers (n : Nat) : (readExpr n).Numbers [] Expr.ids := (exprNumbers n).expr

/-! ## Statements -/

/-- Parameters are no references. -/
theorem idle_readParameters (n earlier : Nat) : (readParameters n earlier).Idle := by
  induction n generalizing earlier with
  | zero => exact fun _ => trivial
  | succ n ih =>
    rw [readParameters]
    refine (idle_reportIf _ _).bind fun _ => (idle_expectName _).bind fun first => ?_
    refine (idle_accept _).bind fun found => ?_
    cases found with
    | some t => exact (ih _).bind fun rest => idle_pure _
    | none => exact idle_pure _

theorem optional_numbers (mark : Mark) (n : Nat) :
    (unlessAt mark (readExpr n)).Numbers [] optionalIds :=
  (readExpr_numbers n).unlessAt rfl fun _ => rfl

theorem readVariable_numbers (n : Nat) : (readVariable n).Numbers [] Stmt.ids := by
  have hvalue : (behind? (.mark .equal) (readExpr n)).Numbers [] optionalIds :=
    (readExpr_numbers n).behind rfl fun _ => rfl
  refine (idle_expectName _).numbers fun name => hvalue.first fun initializer => ?_
  exact (idle_expectMark _ _).numbers fun _ => numbers_pure (.refl _)

theorem readExpressionStatement_numbers (n : Nat) : (readExpressionStatement n).Numbers [] Stmt.ids :=
  (readExpr_numbers n).first fun _ => (idle_expectMark _ _).numbers fun _ => numbers_pure (.refl _)

theorem readReturn_numbers (n : Nat) (keyword : Name) : (readReturn n keyword).Numbers [] Stmt.ids :=
  (optional_numbers _ n).first fun _ => (idle_expectMark _ _).numbers fun _ => numbers_pure (.refl _)

theorem readInitializer_numbers (n : Nat) : (readInitializer n).Numbers [] elseIds := by
  refine numbers_accept (fun t => numbers_pure (.refl _)) ?_
  refine numbers_accept (fun t => (readVariable_numbers n).map fun _ => rfl) ?_
  exact (readExpressionStatement_numbers n).map fun _ => rfl

theorem readForClauses_numbers (n : Nat) : (readForClauses n).Numbers [] ForClauses.ids := by
  refine (idle_expectMark _ _).numbers fun _ => (readInitializer_numbers n).first fun initializer => ?_
  refine (optional_numbers _ n).bind fun condition => (idle_expectMark _ _).numbers fun _ => ?_
  refine (optional_numbers _ n).bind fun increment => (idle_expectMark _ _).numbers fun _ => ?_
  rw [List.append_assoc]
  exact numbers_pure (.refl _)

theorem readSuperclass_numbers : readSuperclass.Numbers [] fun target => [target.id] :=
  (idle_expectName _).numbers fun name => numbers_newReference name

/-- With this fuel the rules of statements tell references apart. -/
structure StmtNumbers (n : Nat) : Prop where
  declaration : (readDeclaration n).Numbers [] elseIds
  class_ : (readClass n).Numbers [] Stmt.ids
  methods : (readMethods n).Numbers [] methodIds
  function (form : FunctionForm) : (readFunction n form).Numbers [] FunctionDecl.ids
  block : (readBlock n).Numbers [] bodyIds
  body : (readBody n).Numbers [] bodyIds
  statement : (readStatement n).Numbers [] Stmt.ids
  branch : (readBranch n).Numbers [] Stmt.ids

/-- A declaration that was read, or nothing, in front of others. -/
theorem toList_append_ids (first : Option Stmt) (rest : List Stmt) :
    bodyIds (first.toList ++ rest) = elseIds first ++ bodyIds rest := by
  cases first <;> rfl

namespace StmtNumbers
variable {n : Nat} (ih : StmtNumbers n)
include ih

theorem readDeclaration_numbers : (readDeclaration (n + 1)).Numbers [] elseIds := by
  rw [readDeclaration]
  refine Numbers.attempt (show elseIds none = [] from rfl) (fun s => (rfl : elseIds (some s) = s.ids)) ?_
  refine numbers_accept (fun t => ih.class_) ?_
  refine numbers_accept (fun t => (ih.function _).map fun _ => rfl) ?_
  exact numbers_accept (fun t => readVariable_numbers n) ih.statement

theorem readClass_numbers : (readClass (n + 1)).Numbers [] Stmt.ids := by
  rw [readClass]
  have hsuperclass : (behind? (.mark .less) readSuperclass).Numbers [] superclassIds :=
    readSuperclass_numbers.behind rfl fun _ => rfl
  refine (idle_expectName _).numbers fun name => hsuperclass.first fun superclass => ?_
  refine (idle_expectMark _ _).numbers fun _ => ih.methods.bind fun methods => ?_
  exact (idle_expectMark _ _).numbers fun _ => numbers_pure (.refl _)

theorem readMethods_numbers : (readMethods (n + 1)).Numbers [] methodIds := by
  rw [readMethods]
  refine (idle_at? _).numbers fun closed => idle_atEnd.numbers fun ended => ?_
  split
  · exact numbers_pure (.refl _)
  · exact (ih.function _).first fun first => ih.methods.bind fun rest => numbers_pure (.refl _)

theorem readFunction_numbers (form : FunctionForm) :
    (readFunction (n + 1) form).Numbers [] FunctionDecl.ids := by
  rw [readFunction]
  have hparams : (unlessAt .rightParen (readParameters n 0)).Idle := by
    refine (idle_at? _).bind fun found => ?_
    split
    · exact idle_pure _
    · exact (idle_readParameters n 0).bind fun _ => idle_pure _
  refine (idle_expectName _).numbers fun name => (idle_expectMark _ _).numbers fun _ => ?_
  refine hparams.numbers fun params => (idle_expectMark _ _).numbers fun _ => ?_
  refine (idle_expectMark _ _).numbers fun _ => ih.block.first fun body => numbers_pure (.refl _)

theorem readBlock_numbers : (readBlock (n + 1)).Numbers [] bodyIds := by
  rw [readBlock]
  exact ih.body.first fun body => (idle_expectMark _ _).numbers fun _ => numbers_pure (.refl _)

theorem readBody_numbers : (readBody (n + 1)).Numbers [] bodyIds := by
  rw [readBody]
  refine (idle_at? _).numbers fun closed => idle_atEnd.numbers fun ended => ?_
  split
  · exact numbers_pure (.refl _)
  · refine ih.declaration.first fun first => ih.body.bind fun rest => numbers_pure ?_
    rw [toList_append_ids]

theorem readStatement_numbers : (readStatement (n + 1)).Numbers [] Stmt.ids := by
  rw [readStatement]
  refine numbers_accept (fun t => (readForClauses_numbers n).first fun clauses => ?_) ?_
  · exact ih.statement.bind fun body => numbers_pure (clauses.loop_ids body)
  refine numbers_accept (fun t => ih.branch) ?_
  refine numbers_accept (fun t => ?_) ?_
  · refine (idle_expectMark _ _).numbers fun _ => (readExpr_numbers n).first fun condition => ?_
    refine (idle_expectMark _ _).numbers fun _ => ih.statement.bind fun body => ?_
    exact numbers_pure (.refl _)
  refine numbers_accept (fun t => readReturn_numbers n _) ?_
  exact numbers_accept (fun t => ih.block.map fun _ => rfl) (readExpressionStatement_numbers n)

theorem readBranch_numbers : (readBranch (n + 1)).Numbers [] Stmt.ids := by
  rw [readBranch]
  have helse : (behind? (.keyword .elseWord) (readStatement n)).Numbers [] elseIds :=
    ih.statement.behind rfl fun _ => rfl
  refine (idle_expectMark _ _).numbers fun _ => (readExpr_numbers n).first fun condition => ?_
  refine (idle_expectMark _ _).numbers fun _ => ih.statement.bind fun thenBranch => ?_
  refine helse.bind fun elseBranch => ?_
  rw [List.append_assoc]
  exact numbers_pure (.refl _)

end StmtNumbers

theorem stmtNumbers (n : Nat) : StmtNumbers n := by
  induction n with
  | zero => constructor <;> intros <;> exact numbers_exhausted
  | succ n ih =>
    exact ⟨ih.readDeclaration_numbers, ih.readClass_numbers, ih.readMethods_numbers,
      ih.readFunction_numbers, ih.readBlock_numbers, ih.readBody_numbers, ih.readStatement_numbers,
      ih.readBranch_numbers⟩

theorem readProgram_numbers (n : Nat) : (readProgram n).Numbers [] bodyIds := by
  induction n with
  | zero => exact numbers_exhausted
  | succ n ih =>
    rw [readProgram]
    refine idle_atEnd.numbers fun ended => ?_
    split
    · exact numbers_pure (.refl _)
    · refine (stmtNumbers n).declaration.first fun first => ih.bind fun rest => numbers_pure ?_
      rw [toList_append_ids]

/-- The references of all statements that were read, behind whatever errors, are told apart. -/
theorem parse_distinct (tokens : List Token) (first : NodeId) :
    Distinct first (bodyIds (parse tokens first).statements) (parse tokens first).nextId := by
  have h := readProgram_numbers (enoughFuel (ReadState.start tokens first).pending.length)
    (ReadState.start tokens first)
  unfold parse
  dsimp only
  generalize readProgram _ _ = result at h
  cases result with
  | ok program s => exact h.2 first (distinct_nil (Nat.le_refl first))
  | fail e s => exact distinct_nil h
  | outOfFuel => exact distinct_nil (Nat.le_refl first)

end LoxLang
