import LoxLang.Proofs.Grammar.Soundness
import LoxLang.Proofs.Relabel

/-!
# Reading with shifted identities

A step of a reading gives identities away but never looks at them. So when the first free identity is a
larger one, it takes the same tokens and finds the same errors, and in what it yields every identity is
larger by as much. The errors that it finds are all errors of the grammar.
-/

namespace LoxLang

/-- All identities larger by a number, and the lines that are there. -/
def Relabelling.shift (count : Nat) : Relabelling := ⟨fun line => line, fun id => id + count⟩

/-- The state with a larger free identity. -/
def ReadState.shift (count : Nat) (s : ReadState) : ReadState := { s with nextId := s.nextId + count }

/-- All errors are errors of the grammar. -/
def ReadState.Grammatical (s : ReadState) : Prop := ∀ e ∈ s.errors, e.phase = .grammar

theorem ReadState.Grammatical.report {s : ReadState} (h : s.Grammatical) {e : StaticError}
    (he : e.phase = .grammar) : (s.report e).Grammatical := by
  intro found hf
  rcases List.mem_append.1 hf with hf | hf
  · exact h found hf
  · rw [List.mem_singleton.1 hf]
    exact he

namespace Reader

variable {α α' β β' : Type} {count : Nat}

/-- How the same step ends when the free identity is larger. -/
inductive EndsShifted (count : Nat) (f : α → α') : ReadResult α → ReadResult α' → Prop
  | ok {a : α} {s : ReadState} : s.Grammatical → EndsShifted count f (.ok a s) (.ok (f a) (s.shift count))
  | fail {e : StaticError} {s : ReadState} : e.phase = .grammar → s.Grammatical →
      EndsShifted count f (.fail e s) (.fail e (s.shift count))
  | outOfFuel : EndsShifted count f .outOfFuel .outOfFuel

/-- With a larger free identity, the second step does what the first one does and changes the result
by `f`. -/
def Shifts (count : Nat) (f : α → α') (step : Reader α) (step' : Reader α') : Prop :=
  ∀ s : ReadState, s.Grammatical → EndsShifted count f (step s) (step' (s.shift count))

theorem shifts_exhausted (f : α → α') : Shifts count f exhausted exhausted := fun _ _ => .outOfFuel

theorem shifts_fail (f : α → α') (fault : GrammarFault) : Shifts count f (fail fault) (fail fault) :=
  fun _ h => .fail rfl h

theorem shifts_failWith (f : α → α') {e : StaticError} (he : e.phase = .grammar) :
    Shifts count f (failWith e) (failWith e) := fun _ h => .fail he h

theorem shifts_pure {f : α → α'} {a : α} {a' : α'} (h : a' = f a) : Shifts count f (pure a) (pure a') := by
  subst h
  exact fun _ hs => .ok hs

section Bind
variable {f : α → α'} {g : β → β'}

theorem Shifts.bind {step : Reader α} {step' : Reader α'} {next : α → Reader β} {next' : α' → Reader β'}
    (h : Shifts count f step step') (hn : ∀ a, Shifts count g (next a) (next' (f a))) :
    Shifts count g (step >>= next) (step' >>= next') := by
  intro s hs
  have h₁ := h s hs
  change EndsShifted count g (andThen step next s) (andThen step' next' (s.shift count))
  unfold andThen
  generalize step s = result, step' (s.shift count) = result' at h₁
  cases h₁ with
  | ok hs₁ => exact hn _ _ hs₁
  | fail he hs₁ => exact .fail he hs₁
  | outOfFuel => exact .outOfFuel

theorem Shifts.map {step : Reader α} {step' : Reader α'} {b : α → β} {b' : α' → β'}
    (h : Shifts count f step step') (hb : ∀ a, b' (f a) = g (b a)) :
    Shifts count g (b <$> step) (b' <$> step') := h.bind fun a => shifts_pure (hb a)

theorem shifts_reportIf {condition : Bool} {fault : GrammarFault} {next : Unit → Reader β}
    {next' : Unit → Reader β'} (h : Shifts count g (next ()) (next' ())) :
    Shifts count g (reportIf condition fault >>= next) (reportIf condition fault >>= next') := by
  intro s hs
  cases condition with
  | false => exact h s hs
  | true => exact h (s.report (s.errorHere fault)) (hs.report rfl)

theorem shifts_at? {mark : Mark} {next : Bool → Reader β} {next' : Bool → Reader β'}
    (h : ∀ b, Shifts count g (next b) (next' b)) : Shifts count g (at? mark >>= next) (at? mark >>= next') :=
  fun s hs => h _ s hs

theorem shifts_atEnd {next : Bool → Reader β} {next' : Bool → Reader β'}
    (h : ∀ b, Shifts count g (next b) (next' b)) : Shifts count g (atEnd >>= next) (atEnd >>= next') :=
  fun s hs => h _ s hs

theorem shifts_takeIf {γ : Type} {choose : TokenKind → Option γ} {next : Option (γ × Token) → Reader β}
    {next' : Option (γ × Token) → Reader β'}
    (hs : ∀ c t, Shifts count g (next (some (c, t))) (next' (some (c, t))))
    (hn : Shifts count g (next none) (next' none)) :
    Shifts count g (takeIf choose >>= next) (takeIf choose >>= next') := by
  intro s h
  change EndsShifted count g (andThen (takeIf choose) next s)
    (andThen (takeIf choose) next' (s.shift count))
  obtain ⟨pending, endLine, nextId, errors⟩ := s
  cases pending with
  | nil => exact hn _ h
  | cons t rest =>
    unfold andThen takeIf ReadState.shift
    dsimp only
    cases choose t.kind with
    | none => exact hn _ h
    | some c => exact hs c t ⟨rest, endLine, nextId, errors⟩ h

theorem shifts_accept {kind : TokenKind} {next : Option Token → Reader β} {next' : Option Token → Reader β'}
    (hs : ∀ t, Shifts count g (next (some t)) (next' (some t)))
    (hn : Shifts count g (next none) (next' none)) :
    Shifts count g (accept kind >>= next) (accept kind >>= next') := by
  rw [accept, bind_assoc, bind_assoc]
  exact shifts_takeIf (fun _ t => hs t) hn

theorem shifts_expectMark {mark : Mark} {context : MarkContext} {next : Token → Reader β}
    {next' : Token → Reader β'} (h : ∀ t, Shifts count g (next t) (next' t)) :
    Shifts count g (expectMark mark context >>= next) (expectMark mark context >>= next') := by
  rw [expectMark, bind_assoc, bind_assoc]
  exact shifts_accept h (shifts_fail g _)

theorem shifts_expectName {role : NameRole} {next : Name → Reader β} {next' : Name → Reader β'}
    (h : ∀ name, Shifts count g (next name) (next' name)) :
    Shifts count g (expectName role >>= next) (expectName role >>= next') := by
  rw [expectName, bind_assoc, bind_assoc]
  exact shifts_accept (fun t => h t.toName) (shifts_fail g _)

end Bind

theorem shifts_newReference (name : Name) :
    Shifts count (Reference.relabel (.shift count)) (newReference name) (newReference name) := by
  intro s hs
  unfold newReference ReadState.shift
  dsimp only
  rw [Nat.add_right_comm]
  exact .ok hs

section Optional
variable {f : α → α'} {step : Reader α} {step' : Reader α'} (h : Shifts count f step step')
include h

theorem Shifts.behind {kind : TokenKind} :
    Shifts count (Option.map f) (behind? kind step) (behind? kind step') :=
  shifts_accept (fun _ => h.map fun _ => rfl) (shifts_pure rfl)

theorem Shifts.unlessAt {mark : Mark} :
    Shifts count (Option.map f) (unlessAt mark step) (unlessAt mark step') := by
  apply shifts_at?
  intro b
  split
  · exact shifts_pure rfl
  · exact h.map fun _ => rfl

theorem Shifts.attempt : Shifts count (Option.map f) (attempt step) (attempt step') := by
  intro s hs
  have h₁ := h s hs
  unfold Reader.attempt
  generalize step s = result, step' (s.shift count) = result' at h₁
  cases h₁ with
  | ok hs₁ => exact .ok hs₁
  | @fail e s₁ he hs₁ =>
    have hreport : ({ s₁.report e with pending := recover s₁.pending } : ReadState).Grammatical :=
      hs₁.report he
    exact @EndsShifted.ok _ _ count (Option.map f) none _ hreport
  | outOfFuel => exact .outOfFuel

end Optional

end Reader

open Reader

/-! ## Expressions -/

section
variable {count : Nat}

/-- A shift leaves names as they are. -/
theorem relabelNames_shift (names : List Name) : relabelNames (.shift count) names = names :=
  List.map_id names

theorem assigned_relabel (l : Relabelling) (target : Expr) (operator : AssignOperator) (value : Expr) :
    (target.relabel l).assigned? operator (value.relabel l) =
      (target.assigned? operator value).map (Expr.relabel l) := by
  cases target with
  | call object style line arguments => cases style <;> rfl
  | _ => rfl

theorem join_relabel (l : Relabelling) (operator : Joiner) (left right : Expr) (line : Nat) :
    (operator.join left line right).relabel l =
      operator.join (left.relabel l) (l.line line) (right.relabel l) := by
  cases operator <;> rfl

end

/-- Expressions, with the line of the mark behind them, whose identities are all larger. -/
def shiftArguments (count : Nat) (found : List Expr × Nat) : List Expr × Nat :=
  (relabelItems (.shift count) found.1, found.2)

/-- With this fuel the rules of expressions shift all identities. -/
structure ExprShifts (count fuel : Nat) : Prop where
  expr : Shifts count (Expr.relabel (.shift count)) (readExpr fuel) (readExpr fuel)
  level (o : Option Level) :
    Shifts count (Expr.relabel (.shift count)) (readLevel fuel o) (readLevel fuel o)
  joined (level : Level) (left : Expr) : Shifts count (Expr.relabel (.shift count))
    (readJoined fuel level left) (readJoined fuel level (left.relabel (.shift count)))
  unary : Shifts count (Expr.relabel (.shift count)) (readUnary fuel) (readUnary fuel)
  power : Shifts count (Expr.relabel (.shift count)) (readPower fuel) (readPower fuel)
  call : Shifts count (Expr.relabel (.shift count)) (readCall fuel) (readCall fuel)
  selectors (e : Expr) : Shifts count (Expr.relabel (.shift count))
    (readSelectors fuel e) (readSelectors fuel (e.relabel (.shift count)))
  arguments (closing : Mark) (limit : Option Nat) : Shifts count (shiftArguments count)
    (readArguments fuel closing limit) (readArguments fuel closing limit)
  items (limit : Option Nat) (earlier : Nat) : Shifts count (relabelItems (.shift count))
    (readItems fuel limit earlier) (readItems fuel limit earlier)
  primary : Shifts count (Expr.relabel (.shift count)) (readPrimary fuel) (readPrimary fuel)

namespace ExprShifts
variable {count fuel : Nat} (ih : ExprShifts count fuel)
include ih

theorem readExpr_shifts :
    Shifts count (Expr.relabel (.shift count)) (readExpr (fuel + 1)) (readExpr (fuel + 1)) := by
  rw [readExpr]
  apply (ih.level _).bind
  intro target
  refine shifts_takeIf (fun operator t => ?_) (shifts_pure rfl)
  apply ih.expr.bind
  intro value
  rw [assigned_relabel]
  cases target.assigned? operator value with
  | none => exact shifts_failWith _ rfl
  | some assignment => exact shifts_pure rfl

theorem readLevel_shifts (o : Option Level) :
    Shifts count (Expr.relabel (.shift count)) (readLevel (fuel + 1) o) (readLevel (fuel + 1) o) := by
  cases o with
  | none => exact ih.unary
  | some level =>
    rw [readLevel]
    apply (ih.level _).bind
    exact ih.joined level

theorem readJoined_shifts (level : Level) (left : Expr) : Shifts count (Expr.relabel (.shift count))
    (readJoined (fuel + 1) level left)
    (readJoined (fuel + 1) level (left.relabel (.shift count))) := by
  rw [readJoined, readJoined]
  refine shifts_takeIf (fun operator t => ?_) (shifts_pure rfl)
  apply (ih.level _).bind
  intro right
  have hjoined := ih.joined level (operator.join left t.line right)
  rwa [join_relabel] at hjoined

theorem readUnary_shifts :
    Shifts count (Expr.relabel (.shift count)) (readUnary (fuel + 1)) (readUnary (fuel + 1)) := by
  rw [readUnary]
  refine shifts_takeIf (fun operator t => ?_) ih.power
  exact ih.unary.bind fun right => shifts_pure rfl

theorem readPower_shifts :
    Shifts count (Expr.relabel (.shift count)) (readPower (fuel + 1)) (readPower (fuel + 1)) := by
  rw [readPower]
  apply ih.call.bind
  intro base
  refine shifts_accept (fun t => ?_) (shifts_pure rfl)
  exact ih.unary.bind fun exponent => shifts_pure rfl

theorem readCall_shifts :
    Shifts count (Expr.relabel (.shift count)) (readCall (fuel + 1)) (readCall (fuel + 1)) := by
  rw [readCall]
  exact ih.primary.bind ih.selectors

theorem readSelectors_shifts (e : Expr) : Shifts count (Expr.relabel (.shift count))
    (readSelectors (fuel + 1) e) (readSelectors (fuel + 1) (e.relabel (.shift count))) := by
  rw [readSelectors, readSelectors]
  apply shifts_accept
  · intro t
    exact (ih.arguments _ _).bind fun found => ih.selectors (.call e .parens found.2 found.1)
  apply shifts_accept
  · intro t
    exact (ih.arguments _ _).bind fun found => ih.selectors (.call e .brackets found.2 found.1)
  refine shifts_accept (fun t => ?_) (shifts_pure rfl)
  exact shifts_expectName fun name => ih.selectors (.get e name)

theorem readArguments_shifts (closing : Mark) (limit : Option Nat) : Shifts count (shiftArguments count)
    (readArguments (fuel + 1) closing limit) (readArguments (fuel + 1) closing limit) := by
  rw [readArguments]
  apply (ih.items limit 0).unlessAt.bind
  intro arguments
  apply shifts_expectMark
  intro t
  cases arguments <;> exact shifts_pure rfl

theorem readItems_shifts (limit : Option Nat) (earlier : Nat) : Shifts count (relabelItems (.shift count))
    (readItems (fuel + 1) limit earlier) (readItems (fuel + 1) limit earlier) := by
  rw [readItems]
  apply shifts_reportIf
  apply ih.expr.bind
  intro first
  refine shifts_accept (fun t => ?_) (shifts_pure rfl)
  exact (ih.items limit (earlier + 1)).bind fun rest => shifts_pure rfl

theorem readPrimary_shifts :
    Shifts count (Expr.relabel (.shift count)) (readPrimary (fuel + 1)) (readPrimary (fuel + 1)) := by
  rw [readPrimary]
  refine shifts_takeIf (fun value t => shifts_pure rfl) ?_
  apply shifts_accept
  · intro t
    exact (shifts_newReference _).bind fun target => shifts_pure rfl
  apply shifts_accept
  · intro t
    apply ih.expr.bind
    intro inner
    exact shifts_expectMark fun t => shifts_pure rfl
  apply shifts_accept
  · intro t
    exact (ih.arguments _ _).bind fun found => shifts_pure rfl
  apply shifts_accept
  · intro t
    exact (shifts_newReference _).bind fun target => shifts_pure rfl
  refine shifts_accept (fun t => ?_) (shifts_fail _ _)
  apply shifts_expectMark
  intro dot
  apply shifts_expectName
  intro method
  exact (shifts_newReference _).bind fun target => shifts_pure rfl

end ExprShifts

theorem exprShifts (count fuel : Nat) : ExprShifts count fuel := by
  induction fuel with
  | zero => constructor <;> intros <;> exact shifts_exhausted _
  | succ fuel ih =>
    exact ⟨ih.readExpr_shifts, ih.readLevel_shifts, ih.readJoined_shifts, ih.readUnary_shifts,
      ih.readPower_shifts, ih.readCall_shifts, ih.readSelectors_shifts, ih.readArguments_shifts,
      ih.readItems_shifts, ih.readPrimary_shifts⟩

/-! ## Statements -/

theorem readExpr_shifts (count fuel : Nat) :
    Shifts count (Expr.relabel (.shift count)) (readExpr fuel) (readExpr fuel) :=
  (exprShifts count fuel).expr

/-- Parameters are names only. -/
theorem readParameters_shifts (count fuel earlier : Nat) :
    Shifts count (fun params => params) (readParameters fuel earlier) (readParameters fuel earlier) := by
  induction fuel generalizing earlier with
  | zero => exact shifts_exhausted _
  | succ fuel ih =>
    rw [readParameters]
    apply shifts_reportIf
    apply shifts_expectName
    intro first
    refine shifts_accept (fun t => ?_) (shifts_pure rfl)
    exact (ih (earlier + 1)).bind fun rest => shifts_pure rfl

theorem readVariable_shifts (count fuel : Nat) :
    Shifts count (Stmt.relabel (.shift count)) (readVariable fuel) (readVariable fuel) := by
  unfold readVariable
  apply shifts_expectName
  intro name
  apply (readExpr_shifts count fuel).behind.bind
  intro initializer
  apply shifts_expectMark
  intro t
  cases initializer <;> exact shifts_pure rfl

theorem readExpressionStatement_shifts (count fuel : Nat) :
    Shifts count (Stmt.relabel (.shift count)) (readExpressionStatement fuel)
      (readExpressionStatement fuel) := by
  unfold readExpressionStatement
  apply (readExpr_shifts count fuel).bind
  intro value
  exact shifts_expectMark fun t => shifts_pure rfl

theorem readReturn_shifts (count fuel : Nat) (keyword : Name) :
    Shifts count (Stmt.relabel (.shift count)) (readReturn fuel keyword) (readReturn fuel keyword) := by
  unfold readReturn
  apply (readExpr_shifts count fuel).unlessAt.bind
  intro value
  apply shifts_expectMark
  intro t
  cases value <;> exact shifts_pure rfl

theorem readInitializer_shifts (count fuel : Nat) :
    Shifts count (Option.map (Stmt.relabel (.shift count))) (readInitializer fuel)
      (readInitializer fuel) := by
  unfold readInitializer
  apply shifts_accept
  · exact fun t => shifts_pure rfl
  apply shifts_accept
  · exact fun t => (readVariable_shifts count fuel).map fun _ => rfl
  exact (readExpressionStatement_shifts count fuel).map fun _ => rfl

/-- The clauses of a loop, relabelled. -/
def ForClauses.relabel (l : Relabelling) (c : ForClauses) : ForClauses :=
  ⟨c.initializer.map (Stmt.relabel l), c.condition.map (Expr.relabel l), c.increment.map (Expr.relabel l)⟩

theorem ForClauses.loop_relabel (l : Relabelling) (c : ForClauses) (body : Stmt) :
    (c.loop body).relabel l = (c.relabel l).loop (body.relabel l) := by
  obtain ⟨initializer, condition, increment⟩ := c
  cases initializer <;> cases condition <;> cases increment <;> rfl

theorem readForClauses_shifts (count fuel : Nat) :
    Shifts count (ForClauses.relabel (.shift count)) (readForClauses fuel) (readForClauses fuel) := by
  unfold readForClauses
  apply shifts_expectMark
  intro t
  apply (readInitializer_shifts count fuel).bind
  intro initializer
  apply (readExpr_shifts count fuel).unlessAt.bind
  intro condition
  apply shifts_expectMark
  intro t
  apply (readExpr_shifts count fuel).unlessAt.bind
  intro increment
  exact shifts_expectMark fun t => shifts_pure rfl

theorem readSuperclass_shifts (count : Nat) :
    Shifts count (Reference.relabel (.shift count)) readSuperclass readSuperclass := by
  unfold readSuperclass
  exact shifts_expectName fun name => shifts_newReference name

/-- With this fuel the rules of statements shift all identities. -/
structure StmtShifts (count fuel : Nat) : Prop where
  declaration : Shifts count (Option.map (Stmt.relabel (.shift count)))
    (readDeclaration fuel) (readDeclaration fuel)
  class_ : Shifts count (Stmt.relabel (.shift count)) (readClass fuel) (readClass fuel)
  methods : Shifts count (relabelMethods (.shift count)) (readMethods fuel) (readMethods fuel)
  function (form : FunctionForm) : Shifts count (FunctionDecl.relabel (.shift count))
    (readFunction fuel form) (readFunction fuel form)
  block : Shifts count (relabelBody (.shift count)) (readBlock fuel) (readBlock fuel)
  body : Shifts count (relabelBody (.shift count)) (readBody fuel) (readBody fuel)
  statement : Shifts count (Stmt.relabel (.shift count)) (readStatement fuel) (readStatement fuel)
  branch : Shifts count (Stmt.relabel (.shift count)) (readBranch fuel) (readBranch fuel)

/-- A declaration that was read, or nothing, in front of the others. -/
theorem toList_append_relabel (l : Relabelling) (first : Option Stmt) (rest : List Stmt) :
    (first.map (Stmt.relabel l)).toList ++ relabelBody l rest = relabelBody l (first.toList ++ rest) := by
  cases first <;> rfl

namespace StmtShifts
variable {count fuel : Nat} (ih : StmtShifts count fuel)
include ih

theorem readDeclaration_shifts : Shifts count (Option.map (Stmt.relabel (.shift count)))
    (readDeclaration (fuel + 1)) (readDeclaration (fuel + 1)) := by
  rw [readDeclaration]
  apply Shifts.attempt
  apply shifts_accept
  · exact fun t => ih.class_
  apply shifts_accept
  · exact fun t => (ih.function _).map fun _ => rfl
  apply shifts_accept
  · exact fun t => readVariable_shifts count fuel
  exact ih.statement

theorem readClass_shifts :
    Shifts count (Stmt.relabel (.shift count)) (readClass (fuel + 1)) (readClass (fuel + 1)) := by
  rw [readClass]
  apply shifts_expectName
  intro name
  apply (readSuperclass_shifts count).behind.bind
  intro superclass
  apply shifts_expectMark
  intro t
  apply ih.methods.bind
  intro methods
  apply shifts_expectMark
  intro t
  cases superclass <;> exact shifts_pure rfl

theorem readMethods_shifts :
    Shifts count (relabelMethods (.shift count)) (readMethods (fuel + 1)) (readMethods (fuel + 1)) := by
  rw [readMethods]
  apply shifts_at?
  intro closed
  apply shifts_atEnd
  intro ended
  split
  · exact shifts_pure rfl
  · apply (ih.function _).bind
    intro first
    exact ih.methods.bind fun rest => shifts_pure rfl

theorem readFunction_shifts (form : FunctionForm) : Shifts count (FunctionDecl.relabel (.shift count))
    (readFunction (fuel + 1) form) (readFunction (fuel + 1) form) := by
  rw [readFunction]
  apply shifts_expectName
  intro name
  apply shifts_expectMark
  intro t
  apply (readParameters_shifts count fuel 0).unlessAt.bind
  intro params
  apply shifts_expectMark
  intro t
  apply shifts_expectMark
  intro t
  apply ih.block.bind
  intro body
  apply shifts_pure
  rw [FunctionDecl.relabel, relabelNames_shift, Option.map_id']
  rfl

theorem readBlock_shifts :
    Shifts count (relabelBody (.shift count)) (readBlock (fuel + 1)) (readBlock (fuel + 1)) := by
  rw [readBlock]
  apply ih.body.bind
  intro body
  exact shifts_expectMark fun t => shifts_pure rfl

theorem readBody_shifts :
    Shifts count (relabelBody (.shift count)) (readBody (fuel + 1)) (readBody (fuel + 1)) := by
  rw [readBody]
  apply shifts_at?
  intro closed
  apply shifts_atEnd
  intro ended
  split
  · exact shifts_pure rfl
  · apply ih.declaration.bind
    intro first
    exact ih.body.bind fun rest => shifts_pure (toList_append_relabel _ first rest)

theorem readStatement_shifts :
    Shifts count (Stmt.relabel (.shift count)) (readStatement (fuel + 1)) (readStatement (fuel + 1)) := by
  rw [readStatement]
  apply shifts_accept
  · intro t
    apply (readForClauses_shifts count fuel).bind
    intro clauses
    exact ih.statement.bind fun body => shifts_pure (clauses.loop_relabel _ body).symm
  apply shifts_accept
  · exact fun t => ih.branch
  apply shifts_accept
  · intro t
    apply shifts_expectMark
    intro t
    apply (readExpr_shifts count fuel).bind
    intro condition
    apply shifts_expectMark
    intro t
    exact ih.statement.bind fun body => shifts_pure rfl
  apply shifts_accept
  · exact fun t => readReturn_shifts count fuel t.toName
  apply shifts_accept
  · exact fun t => ih.block.map fun _ => rfl
  exact readExpressionStatement_shifts count fuel

theorem readBranch_shifts :
    Shifts count (Stmt.relabel (.shift count)) (readBranch (fuel + 1)) (readBranch (fuel + 1)) := by
  rw [readBranch]
  apply shifts_expectMark
  intro t
  apply (readExpr_shifts count fuel).bind
  intro condition
  apply shifts_expectMark
  intro t
  apply ih.statement.bind
  intro thenBranch
  apply ih.statement.behind.bind
  intro elseBranch
  cases elseBranch <;> exact shifts_pure rfl

end StmtShifts

theorem stmtShifts (count fuel : Nat) : StmtShifts count fuel := by
  induction fuel with
  | zero => constructor <;> intros <;> exact shifts_exhausted _
  | succ fuel ih =>
    exact ⟨ih.readDeclaration_shifts, ih.readClass_shifts, ih.readMethods_shifts, ih.readFunction_shifts,
      ih.readBlock_shifts, ih.readBody_shifts, ih.readStatement_shifts, ih.readBranch_shifts⟩

theorem readProgram_shifts (count fuel : Nat) :
    Shifts count (relabelBody (.shift count)) (readProgram fuel) (readProgram fuel) := by
  induction fuel with
  | zero => exact shifts_exhausted _
  | succ fuel ih =>
    rw [readProgram]
    apply shifts_atEnd
    intro ended
    split
    · exact shifts_pure rfl
    · apply (stmtShifts count fuel).declaration.bind
      intro first
      exact ih.bind fun rest => shifts_pure (toList_append_relabel _ first rest)

section
variable (ts : List Token) (first : NodeId)

/-- With a larger first identity the same errors are found, and the same statements are read with identities
that are all larger. -/
theorem parse_shift (count : NodeId) :
    let parsing := parse ts first
    parse ts (first + count) =
      ⟨relabelBody (.shift count) parsing.statements, parsing.errors, parsing.nextId + count⟩ := by
  obtain ⟨program, s, hread, hparse, -⟩ := parse_eq ts first
  obtain ⟨program', s', hread', hparse', -⟩ := parse_eq ts (first + count)
  have hstart : (ReadState.start ts first).Grammatical := fun e he => by cases he
  have hends := readProgram_shifts count (enoughFuel (wordsOf ts).length) (.start ts first) hstart
  have hshift : (ReadState.start ts first).shift count = .start ts (first + count) := rfl
  rw [hshift, hread, hread'] at hends
  rw [hparse, hparse']
  cases hends
  rfl

/-- The errors of a reading do not depend on the first identity. -/
theorem parse_errors : (parse ts first).errors = (parse ts 0).errors := by
  have h := parse_shift ts 0 first
  rw [Nat.zero_add] at h
  rw [h]

theorem parse_phase : ∀ e ∈ (parse ts first).errors, e.phase = .grammar := by
  obtain ⟨program, s, hread, hparse, -⟩ := parse_eq ts first
  have hstart : (ReadState.start ts first).Grammatical := fun e he => by cases he
  have hends := readProgram_shifts 0 (enoughFuel (wordsOf ts).length) (.start ts first) hstart
  rw [hread] at hends
  rw [hparse]
  generalize readProgram (enoughFuel (wordsOf ts).length) ((ReadState.start ts first).shift 0) = result'
    at hends
  cases hends with
  | ok hs => exact hs

end

end LoxLang
