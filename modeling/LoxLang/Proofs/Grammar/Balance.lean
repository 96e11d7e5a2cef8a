import LoxLang.Proofs.Grammar.Soundness
import LoxLang.Proofs.Grammar.Weight

/-!
# Readings keep the balance

Every rule of the language yields no more than the tokens weigh that it takes, and without errors just as much:
one induction on the fuel for the rules of expressions and one for those of statements. A whole program weighs
what its tokens weigh, and what is left of it behind errors weighs no more than the tokens.
-/

namespace LoxLang

open Reader

/-! ## The rules of expressions -/

/-- With this fuel the rules of expressions keep the balance. -/
structure ExprWeighs (n : Nat) : Prop where
  expr : (readExpr n).Weighs .spare .exact 0 Expr.weight
  level : ∀ o, (readLevel n o).Weighs .spare .exact 0 Expr.weight
  joined : ∀ l left, (readJoined n l left).Weighs .exact .exact left.weight Expr.weight
  unary : (readUnary n).Weighs .spare .exact 0 Expr.weight
  power : (readPower n).Weighs .spare .exact 0 Expr.weight
  call : (readCall n).Weighs .spare .exact 0 Expr.weight
  selectors : ∀ object, (readSelectors n object).Weighs .exact .exact object.weight Expr.weight
  arguments : ∀ closing limit, closing ≠ .semicolon → (TokenKind.mark closing).weight = 0 →
    (readArguments n closing limit).Weighs .exact .exact 0 fun found => itemsWeight found.1
  items : ∀ limit count, (readItems n limit count).Weighs .spare .exact 0 itemsWeight
  primary : (readPrimary n).Weighs .spare .exact 0 Expr.weight

namespace ExprWeighs
variable {n : Nat} (ih : ExprWeighs n)
include ih

theorem readExpr_weighs : (readExpr (n + 1)).Weighs .spare .exact 0 Expr.weight := by
  rw [readExpr]
  refine (ih.level _).bind fun target => weighs_takeIf rfl (fun operator t ht => ?_) (weighs_pure (Nat.zero_add _).symm)
  refine ih.expr.of_spare.bind fun value => ?_
  split
  · next assignment he =>
    exact weighs_pure (by rw [Expr.assigned?_weight he, TokenKind.weight_of_assign ht, Nat.zero_add, Nat.add_zero])
  · exact weighs_failWith _

theorem readLevel_weighs (o : Option Level) : (readLevel (n + 1) o).Weighs .spare .exact 0 Expr.weight := by
  cases o with
  | none =>
    rw [readLevel]
    exact ih.unary
  | some l =>
    rw [readLevel]
    exact (ih.level _).bind fun first => (ih.joined l first).at (Nat.zero_add _).symm

theorem readJoined_weighs (l : Level) (left : Expr) :
    (readJoined (n + 1) l left).Weighs .exact .exact left.weight Expr.weight := by
  rw [readJoined]
  refine weighs_takeIf rfl (fun operator t ht => ?_) (weighs_pure rfl)
  refine (ih.level _).of_spare.bind fun right => (ih.joined l _).at ?_
  rw [Joiner.join_weight, TokenKind.weight_of_joiner ht, Nat.add_zero]

theorem readUnary_weighs : (readUnary (n + 1)).Weighs .spare .exact 0 Expr.weight := by
  rw [readUnary]
  refine weighs_takeIf rfl (fun operator t ht => ?_) ih.power
  refine ih.unary.of_spare.bind fun right => weighs_pure ?_
  rw [TokenKind.weight_of_unary ht, Expr.weight, Nat.zero_add]

theorem readPower_weighs : (readPower (n + 1)).Weighs .spare .exact 0 Expr.weight := by
  rw [readPower]
  refine ih.call.bind fun base => weighs_accept (by decide) (fun token => ?_) (weighs_pure (Nat.zero_add _).symm)
  refine ih.unary.of_spare.bind fun exponent => weighs_pure ?_
  rw [Expr.weight, Nat.zero_add]
  rfl

theorem readCall_weighs : (readCall (n + 1)).Weighs .spare .exact 0 Expr.weight := by
  rw [readCall]
  exact ih.primary.bind fun first => (ih.selectors first).at (Nat.zero_add _).symm

theorem readSelectors_weighs (object : Expr) :
    (readSelectors (n + 1) object).Weighs .exact .exact object.weight Expr.weight := by
  rw [readSelectors]
  refine weighs_accept (by decide) (fun _ => ?_) ?_
  · exact (ih.arguments _ _ (by decide) rfl).bind fun found => (ih.selectors _).at rfl
  refine weighs_accept (by decide) (fun _ => ?_) ?_
  · exact (ih.arguments _ _ (by decide) rfl).bind fun found => (ih.selectors _).at rfl
  refine weighs_accept (by decide) (fun _ => ?_) (weighs_pure rfl)
  exact weighs_expectName fun name => (ih.selectors _).at rfl

theorem readArguments_weighs {closing : Mark} (hc : closing ≠ .semicolon)
    (hw : (TokenKind.mark closing).weight = 0) (limit : Option Nat) :
    (readArguments (n + 1) closing limit).Weighs .exact .exact 0 fun found => itemsWeight found.1 := by
  rw [readArguments]
  refine (ih.items limit 0).unlessAt_other hc |>.of_spare.bind fun arguments => weighs_expectMark hc fun token => ?_
  refine weighs_pure ?_
  rw [hw, Nat.add_zero, Nat.zero_add]
  cases arguments <;> rfl

theorem readItems_weighs (limit : Option Nat) (count : Nat) :
    (readItems (n + 1) limit count).Weighs .spare .exact 0 itemsWeight := by
  rw [readItems]
  refine (weighs_reportIf _ _).bind fun _ => ih.expr.bind fun first => ?_
  refine weighs_accept (by decide) (fun _ => ?_) (weighs_pure (Nat.add_comm _ _))
  refine (ih.items limit _).of_spare.bind fun rest => weighs_pure ?_
  rw [itemsWeight, Nat.zero_add]
  rfl

theorem readPrimary_weighs : (readPrimary (n + 1)).Weighs .spare .exact 0 Expr.weight := by
  rw [readPrimary]
  refine weighs_takeIf rfl (fun value t ht => weighs_pure ?_) ?_
  · rw [TokenKind.weight_of_literal ht]
    rfl
  refine weighs_accept (by decide) (fun t => (weighs_newReference _).bind fun _ => weighs_pure rfl) ?_
  refine weighs_accept (by decide) (fun _ => ?_) ?_
  · refine ih.expr.of_spare.bind fun inner => weighs_expectMark (by decide) fun _ => weighs_pure ?_
    exact (Nat.zero_add _).symm
  refine weighs_accept (by decide) (fun _ => ?_) ?_
  · exact (ih.arguments _ _ (by decide) rfl).bind fun found => weighs_pure rfl
  refine weighs_accept (by decide) (fun t => (weighs_newReference _).bind fun _ => weighs_pure rfl) ?_
  refine weighs_accept (by decide) (fun t => ?_) (weighs_fail _)
  refine weighs_expectMark (by decide) fun _ => weighs_expectName fun method => ?_
  exact (weighs_newReference _).bind fun _ => weighs_pure rfl

end ExprWeighs

theorem exprWeighs (n : Nat) : ExprWeighs n := by
  induction n with
  | zero => constructor <;> intros <;> exact weighs_exhausted
  | succ n ih =>
    exact ⟨ih.readExpr_weighs, ih.readLevel_weighs, ih.readJoined_weighs, ih.readUnary_weighs, ih.readPower_weighs,
      ih.readCall_weighs, ih.readSelectors_weighs, fun _ limit hc hw => ih.readArguments_weighs hc hw limit,
      ih.readItems_weighs, ih.readPrimary_weighs⟩

/-! ## The rules of statements -/

section Statements
variable (n : Nat)

theorem readExpr_weighs : (readExpr n).Weighs .spare .exact 0 Expr.weight := (exprWeighs n).expr

theorem readParameters_weighs (count : Nat) : (readParameters n count).Weighs .spare .exact 0 List.length := by
  induction n generalizing count with
  | zero => exact weighs_exhausted
  | succ n ih =>
    rw [readParameters]
    refine (weighs_reportIf _ _).bind fun _ => weighs_expectName fun first => ?_
    refine weighs_accept (by decide) (fun _ => ?_) (weighs_pure rfl)
    refine (ih _).of_spare.bind fun rest => weighs_pure ?_
    exact Nat.add_comm _ _

theorem readVariable_weighs : (readVariable n).Weighs .spare .full 1 Stmt.weight := by
  refine weighs_expectName fun name => ?_
  refine (readExpr_weighs n).of_spare.behind (by decide) |>.bind fun initializer => ?_
  refine weighs_expectSemicolon fun _ => weighs_pure ?_
  cases initializer with
  | none => rfl
  | some value => exact congrArg (1 + 1 + ·) (Nat.zero_add _).symm

theorem readExpressionStatement_weighs : (readExpressionStatement n).Weighs .spare .full 0 Stmt.weight :=
  (readExpr_weighs n).bind fun _ => weighs_expectSemicolon fun _ => weighs_pure (Nat.zero_add _).symm

theorem readReturn_weighs (keyword : Name) : (readReturn n keyword).Weighs .exact .full 1 Stmt.weight :=
  ((readExpr_weighs n).of_spare.unlessAt fun _ _ _ => ⟨(Nat.zero_add _).symm, (Nat.zero_add _).symm⟩).bind fun _ =>
    weighs_expectSemicolon fun _ => weighs_pure rfl

theorem readInitializer_weighs : (readInitializer n).Weighs .exact .full 0 elseWeight := by
  refine weighs_acceptSemicolon (fun _ => weighs_pure rfl) (weighs_accept (by decide) (fun _ => ?_) ?_)
  · exact (readVariable_weighs n).of_spare.map fun s => (Nat.zero_add _).symm
  · exact (readExpressionStatement_weighs n).of_spare.map fun s => (Nat.zero_add _).symm

/-- Two semicolons side by side stand for a condition. -/
theorem readCondition_weighs :
    (unlessAt .semicolon (readExpr n)).Weighs .full .exact 0 fun o => o.elim 1 Expr.weight := by
  refine (readExpr_weighs n).of_spare.unlessAt fun t ts ht => ?_
  have hgap := gapWeight_semicolon ts ht
  have hfull : tokensWeight (t :: ts) + gapWeight (t :: ts) = 1 + tokensWeight (t :: ts) := by
    rw [hgap, Nat.add_comm]
  exact ⟨hfull, hfull⟩

theorem readForClauses_weighs : (readForClauses n).Weighs .exact .exact 0 ForClauses.weight := by
  refine weighs_expectMark (by decide) fun _ => (readInitializer_weighs n).bind fun initializer => ?_
  refine (readCondition_weighs n).bind fun condition => weighs_expectSemicolon fun _ => ?_
  refine ((readExpr_weighs n).unlessAt_other (by decide)).of_spare.bind fun increment => ?_
  refine weighs_expectMark (by decide) fun _ => weighs_pure ?_
  have hleft : (TokenKind.mark .leftParen).weight = 0 := rfl
  have hright : (TokenKind.mark .rightParen).weight = 0 := rfl
  rw [ForClauses.weight, hleft, hright, optionalWeight, Nat.add_zero, Nat.add_zero, Nat.zero_add]

theorem readSuperclass_weighs : readSuperclass.Weighs .exact .exact 0 fun _ => 1 :=
  weighs_expectName fun _ => (weighs_newReference _).bind_lead fun _ => weighs_pure rfl

end Statements

/-- With this fuel the rules of statements keep the balance. -/
structure StmtWeighs (n : Nat) : Prop where
  declaration : (readDeclaration n).Weighs .spare .spare 0 elseWeight
  class_ : (readClass n).Weighs .exact .exact 1 Stmt.weight
  methods : (readMethods n).Weighs .spare .exact 0 methodsWeight
  function : ∀ form, (readFunction n form).Weighs .spare .exact 0 FunctionDecl.weight
  block : (readBlock n).Weighs .exact .exact 0 bodyWeight
  body : (readBody n).Weighs .spare .exact 0 bodyWeight
  statement : (readStatement n).Weighs .spare .spare 0 Stmt.weight
  branch : (readBranch n).Weighs .exact .spare 1 Stmt.weight

namespace StmtWeighs
variable {n : Nat} (ih : StmtWeighs n)
include ih

theorem readDeclaration_weighs : (readDeclaration (n + 1)).Weighs .spare .spare 0 elseWeight := by
  rw [readDeclaration]
  have hweight : elseWeight = fun o => o.elim 0 Stmt.weight := by
    funext o
    cases o <;> rfl
  rw [hweight]
  refine Weighs.attempt (weighs_accept (by decide) (fun _ => ih.class_.to_spare) ?_)
  refine weighs_accept (by decide) (fun _ => ?_) ?_
  · have hfunction : (Stmt.function <$> readFunction n .function).Weighs .exact .exact 1 Stmt.weight :=
      (ih.function _).of_spare.map fun f => rfl
    exact hfunction.to_spare
  exact weighs_accept (by decide) (fun _ => (readVariable_weighs n).of_spare.to_spare) ih.statement

theorem readClass_weighs : (readClass (n + 1)).Weighs .exact .exact 1 Stmt.weight := by
  rw [readClass]
  refine weighs_expectName fun name => (readSuperclass_weighs.behind (by decide)).bind fun superclass => ?_
  refine weighs_expectMark (by decide) fun _ => ih.methods.of_spare.bind fun methods => ?_
  refine weighs_expectMark (by decide) fun _ => weighs_pure ?_
  cases superclass <;> rfl

theorem readMethods_weighs : (readMethods (n + 1)).Weighs .spare .exact 0 methodsWeight := by
  rw [readMethods]
  have hmore : (readFunction n .method >>= fun first => readMethods n >>= fun rest =>
      pure (first :: rest)).Weighs .spare .exact 0 methodsWeight :=
    (ih.function _).bind fun first => ih.methods.of_spare.bind fun rest =>
      weighs_pure (by rw [methodsWeight, Nat.zero_add])
  exact weighs_until (fun kind => kind == some (.mark .rightBrace) || kind.isNone) rfl rfl hmore

theorem readFunction_weighs (form : FunctionForm) :
    (readFunction (n + 1) form).Weighs .spare .exact 0 FunctionDecl.weight := by
  rw [readFunction]
  refine weighs_expectName fun name => weighs_expectMark (by decide) fun _ => ?_
  refine ((readParameters_weighs n 0).unlessAt_other (by decide)).of_spare.bind fun params => ?_
  refine weighs_expectMark (by decide) fun _ => weighs_expectMark (by decide) fun _ => ?_
  refine ih.block.bind fun body => weighs_pure ?_
  cases params <;> rfl

theorem readBlock_weighs : (readBlock (n + 1)).Weighs .exact .exact 0 bodyWeight := by
  rw [readBlock]
  exact ih.body.of_spare.bind fun body => weighs_expectMark (by decide) fun _ => weighs_pure (Nat.zero_add _).symm

/-- A declaration with what follows it, in a block or at the top. -/
theorem cons_weighs {rest : Reader (List Stmt)} (hr : rest.Weighs .spare .exact 0 bodyWeight) :
    (readDeclaration n >>= fun first => rest >>= fun others =>
      pure (first.toList ++ others)).Weighs .spare .exact 0 bodyWeight := by
  refine ih.declaration.bind fun first => ?_
  have hfirst : (rest >>= fun others => pure (first.toList ++ others)).Weighs .spare .exact (elseWeight first)
      bodyWeight := hr.bind fun others => weighs_pure (bodyWeight_toList_append first others)
  exact hfirst.at (Nat.zero_add _).symm

theorem readBody_weighs : (readBody (n + 1)).Weighs .spare .exact 0 bodyWeight := by
  rw [readBody]
  exact weighs_until (fun kind => kind == some (.mark .rightBrace) || kind.isNone) rfl rfl (ih.cons_weighs ih.body)

theorem readStatement_weighs : (readStatement (n + 1)).Weighs .spare .spare 0 Stmt.weight := by
  rw [readStatement]
  refine weighs_accept (by decide) (fun _ => ?_) ?_
  · refine (readForClauses_weighs n).bind fun clauses => ih.statement.of_spare.bind fun body => weighs_pure ?_
    rw [ForClauses.loop_weight]
    rfl
  refine weighs_accept (by decide) (fun _ => ih.branch) ?_
  refine weighs_accept (by decide) (fun _ => ?_) ?_
  · refine weighs_expectMark (by decide) fun _ => (readExpr_weighs n).of_spare.bind fun condition => ?_
    exact weighs_expectMark (by decide) fun _ => ih.statement.of_spare.bind fun body => weighs_pure rfl
  refine weighs_accept (by decide) (fun _ => (readReturn_weighs n _).to_spare) ?_
  refine weighs_accept (by decide) (fun _ => (ih.block.map fun body => ?_).to_spare)
    (readExpressionStatement_weighs n).to_spare
  exact (Nat.zero_add _).symm

theorem readBranch_weighs : (readBranch (n + 1)).Weighs .exact .spare 1 Stmt.weight := by
  rw [readBranch]
  refine weighs_expectMark (by decide) fun _ => (readExpr_weighs n).of_spare.bind fun condition => ?_
  refine weighs_expectMark (by decide) fun _ => ih.statement.of_spare.bind fun thenBranch => ?_
  refine (ih.statement.of_spare.behind (by decide)).bind fun elseBranch => weighs_pure ?_
  cases elseBranch with
  | none => rfl
  | some s =>
    change _ = _ + (0 + s.weight)
    rw [Nat.zero_add]
    rfl

end StmtWeighs

theorem stmtWeighs (n : Nat) : StmtWeighs n := by
  induction n with
  | zero => constructor <;> intros <;> exact weighs_exhausted
  | succ n ih =>
    exact ⟨ih.readDeclaration_weighs, ih.readClass_weighs, ih.readMethods_weighs, ih.readFunction_weighs,
      ih.readBlock_weighs, ih.readBody_weighs, ih.readStatement_weighs, ih.readBranch_weighs⟩

/-! ## In front of the first semicolon -/

/-- Some token in front of the first semicolon weighs something. -/
def Opens (ts : List Token) : Prop :=
  ∃ front t rest, ts = front ++ t :: rest ∧ 0 < t.kind.weight ∧ ∀ u ∈ front, u.kind ≠ .mark .semicolon

namespace Opens
variable {t : Token} {ts us : List Token}

theorem here (h : 0 < t.kind.weight) : Opens (t :: ts) := ⟨[], t, ts, rfl, h, List.forall_mem_nil _⟩

theorem append (h : Opens ts) : Opens (ts ++ us) := by
  obtain ⟨front, t, rest, rfl, ht, hfront⟩ := h
  exact ⟨front, t, rest ++ us, List.append_assoc .., ht, hfront⟩

theorem behind (h : Opens us) (hts : ∀ u ∈ ts, u.kind ≠ .mark .semicolon) : Opens (ts ++ us) := by
  obtain ⟨front, t, rest, rfl, ht, hfront⟩ := h
  exact ⟨ts ++ front, t, rest, (List.append_assoc ..).symm, ht, List.forall_mem_append.2 ⟨hts, hfront⟩⟩

theorem cons (h : Opens ts) (ht : t.kind ≠ .mark .semicolon) : Opens (t :: ts) := by
  have hone : ∀ u ∈ [t], u.kind ≠ .mark .semicolon := List.forall_mem_singleton.2 ht
  exact h.behind hone

/-- What stands behind the first semicolon weighs less than the whole. -/
theorem weight_lt {semicolon : Token} {front rest : List Token} (h : Opens (front ++ semicolon :: rest))
    (hs : semicolon.kind = .mark .semicolon) (hfront : ∀ u ∈ front, u.kind ≠ .mark .semicolon) :
    tokensWeight rest < tokensWeight (front ++ semicolon :: rest) := by
  obtain ⟨front', t, rest', heq, ht, hfront'⟩ := h
  have hother : t ≠ semicolon := by
    rintro rfl
    rw [hs] at ht
    exact absurd ht (by decide)
  have hsuffix : semicolon :: rest <:+ rest' := by
    rcases List.append_eq_append_iff.1 heq with ⟨between, rfl, hrest⟩ | ⟨between, rfl, hrest⟩
    · cases between with
      | nil => exact absurd (List.cons.inj hrest).1.symm hother
      | cons u between =>
        obtain ⟨rfl, -⟩ := List.cons.inj hrest
        exact absurd hs (hfront' _ (List.mem_append_right _ List.mem_cons_self))
    · cases between with
      | nil => exact absurd (List.cons.inj hrest).1 hother
      | cons u between =>
        obtain ⟨-, rfl⟩ := List.cons.inj hrest
        exact List.suffix_append _ _
  have hle := tokensWeight_of_suffix ((List.suffix_cons semicolon rest).trans hsuffix)
  have hlt := tokensWeight_append_cons (t := t) front' rest'
  rw [heq]
  omega

end Opens

theorem SpellsExpr.opens {r : Rank} {first next : NodeId} {ts : List Token} {e : Expr} :
    SpellsExpr r first ts e next → Opens ts
  | .literal h => .here (by rw [TokenKind.weight_of_literal h]; exact Nat.one_pos)
  | .reference h => .here (by rw [h]; decide)
  | .receiver h => .here (by rw [h]; decide)
  | .inherited h _ _ => .here (by rw [h]; decide)
  | .list hb _ _ => .here (by rw [hb]; decide)
  | .grouping hb h _ => h.opens.append.cons (by rw [hb]; decide)
  | .ofPrimary h => h.opens
  | .call h _ _ _ _ => h.opens.append
  | .get h _ _ => h.opens.append
  | .ofCall h => h.opens
  | .power h _ _ => h.opens.append
  | .ofPower h => h.opens
  | .unary ht h => h.opens.cons fun hk => by rw [hk] at ht; cases ht
  | .ofOperand h => h.opens
  | .join h _ _ => h.opens.append
  | .ofLevel h => h.opens
  | .assign h _ _ _ => h.opens.append

/-- There is no semicolon, or something that weighs in front of the first one. -/
abbrev OpensIfAny (ts : List Token) : Prop := (∀ u ∈ ts, u.kind ≠ .mark .semicolon) ∨ Opens ts

theorem OpensIfAny.append {ts us : List Token} (h : OpensIfAny ts) (h' : OpensIfAny us) : OpensIfAny (ts ++ us) := by
  rcases h with h | h
  · rcases h' with h' | h'
    · exact .inl (List.forall_mem_append.2 ⟨h, h'⟩)
    · exact .inr (h'.behind h)
  · exact .inr h.append

mutual

theorem SpellsStmt.opens {isOpen : Bool} {first next : NodeId} {ts : List Token} {s : Stmt} :
    SpellsStmt isOpen first ts s next → OpensIfAny ts
  | .plain ⟨h, _⟩ => .inr h.opens.append
  | .giveBack h _ _ => .inr (.here (by rw [h]; decide))
  | .block hb h ha =>
    (OpensIfAny.append (.inl (List.forall_mem_singleton.2 (by rw [hb]; decide))) h.opens).append
      (.inl (List.forall_mem_singleton.2 (by rw [ha]; decide)))
  | .loop h _ _ _ _ => .inr (.here (by rw [h]; decide))
  | .forLoop h _ _ => .inr (.here (by rw [h]; decide))
  | .branch h _ _ _ _ => .inr (.here (by rw [h]; decide))
  | .branchElse h _ _ _ _ _ _ => .inr (.here (by rw [h]; decide))

theorem SpellsDeclaration.opens {isOpen : Bool} {first next : NodeId} {ts : List Token} {s : Stmt} :
    SpellsDeclaration isOpen first ts s next → OpensIfAny ts
  | .declare h _ => .inr (.here (by rw [h]; decide))
  | .function h _ => .inr (.here (by rw [h]; decide))
  | .base h _ _ _ _ => .inr (.here (by rw [h]; decide))
  | .derived h _ _ _ _ _ _ => .inr (.here (by rw [h]; decide))
  | .statement h => h.opens

theorem SpellsBody.opens {first next : NodeId} {ts : List Token} {body : List Stmt} :
    SpellsBody first ts body next → OpensIfAny ts
  | .nil => .inl (List.forall_mem_nil _)
  | .cons h hs => h.opens.append hs.opens

end

/-! ## Programs -/

theorem readProgram_weighs (n : Nat) : (readProgram n).Weighs .spare .exact 0 bodyWeight := by
  induction n with
  | zero => exact weighs_exhausted
  | succ n ih =>
    rw [readProgram]
    exact weighs_until Option.isNone rfl rfl ((stmtWeighs n).cons_weighs ih)

/-- What is read of a program weighs no more than the tokens that were pending. -/
theorem readProgram_weight_le {n : Nat} {s s' : ReadState} {program : List Stmt}
    (h : readProgram n s = .ok program s') : bodyWeight program ≤ tokensWeight s.pending := by
  have hweighed := readProgram_weighs n s
  rw [h] at hweighed
  have hle := hweighed.2.1
  rw [Nat.zero_add] at hle
  exact Nat.le_trans (Nat.le_add_right _ _) hle

/-- What is read of a program weighs no more than its tokens, and without errors it weighs as much. -/
theorem parse_weight (ts : List Token) (first : NodeId) :
    bodyWeight (parse ts first).statements ≤ tokensWeight (wordsOf ts) ∧
      ((parse ts first).errors = [] → tokensWeight (wordsOf ts) ≤ bodyWeight (parse ts first).statements) := by
  obtain ⟨program, s, hs, hparse, -⟩ := parse_eq ts first
  have hweighed := readProgram_weighs (enoughFuel (wordsOf ts).length) (.start ts first)
  have hfollows := readProgram_follows (enoughFuel (wordsOf ts).length) (.start ts first)
  rw [hs] at hweighed hfollows
  obtain ⟨-, -, hge⟩ := hweighed
  rw [hparse]
  refine ⟨readProgram_weight_le hs, fun he => ?_⟩
  obtain ⟨-, _, -, hrest, -⟩ := hfollows he
  obtain ⟨-, hge⟩ := hge he
  rw [hrest, Nat.zero_add] at hge
  exact Nat.le_trans (Nat.le_add_right _ _) hge

end LoxLang
