import LoxLang.Proofs.Grammar
import LoxLang.Proofs.Grammar.Fuel

/-!
# What a reading without errors has read

The tokens that a rule takes spell its result. The proof is one induction on the fuel for the rules of
expressions and one for those of statements, with a lemma for each rule.
-/

namespace LoxLang

open Reader

/-- The law of arguments with their closing mark, of which only the line is kept. -/
def ArgumentsLaw (closing : Mark) (limit : Option Nat) : Law (List Expr × Nat) :=
  fun first ts a next _ => ∃ us after, ts = us ++ [after] ∧ after.kind = .mark closing ∧
    after.line = a.2 ∧ SpellsArguments first us a.1 next ∧ ∀ l, limit = some l → a.1.length ≤ l

/-- The law of arguments behind `count` earlier ones. -/
def ItemsLaw (limit : Option Nat) (count : Nat) : Law (List Expr) :=
  fun first ts es next _ => SpellsItems first ts es next ∧
    ∀ l, limit = some l → count ≤ l → count + es.length ≤ l

/-- With this fuel the rules of expressions keep to the grammar. -/
structure ExprSound (n : Nat) : Prop where
  expr : (readExpr n).Follows (.of (SpellsExpr .assignment))
  level : ∀ o, (readLevel n o).Follows (.of (SpellsExpr (.operand o)))
  joined : ∀ l left, (readJoined n l left).Follows
    (Law.after (.of (SpellsExpr (.level l))) left (.of (SpellsExpr (.level l))))
  unary : (readUnary n).Follows (.of (SpellsExpr .unary))
  power : (readPower n).Follows (.of (SpellsExpr .power))
  call : (readCall n).Follows (.of (SpellsExpr .call))
  selectors : ∀ e, (readSelectors n e).Follows
    (Law.after (.of (SpellsExpr .call)) e (.of (SpellsExpr .call)))
  arguments : ∀ closing limit, (readArguments n closing limit).Follows (ArgumentsLaw closing limit)
  items : ∀ limit count, (readItems n limit count).Follows (ItemsLaw limit count)
  primary : (readPrimary n).Follows (.of (SpellsExpr .primary))

namespace ExprSound
variable {n : Nat}

theorem readExpr_follows (ih : ExprSound n) :
    (readExpr (n + 1)).Follows (.of (SpellsExpr .assignment)) := by
  rw [readExpr]
  refine (ih.level _).bind fun target => follows_takeIf (fun operator t ht => ?_) ?_
  · refine ih.expr.bind fun value => ?_
    split
    · next e he =>
      refine follows_pure fun last _ middle us hv first ts hl => ?_
      simpa using SpellsExpr.assign hl ht hv he
    · exact follows_failWith _ _
  · refine follows_pure fun middle _ first ts hl => ?_
    simpa using SpellsExpr.ofLevel hl

theorem readLevel_follows (ih : ExprSound n) (o : Option Level) :
    (readLevel (n + 1) o).Follows (.of (SpellsExpr (.operand o))) := by
  cases o with
  | none =>
    rw [readLevel]
    exact ih.unary
  | some l =>
    rw [readLevel]
    refine (ih.level _).bind fun left => (ih.joined l left).mono ?_
    intro middle us e next _ h first ts hl
    exact h first ts (.ofOperand hl)

theorem readJoined_follows (ih : ExprSound n) (l : Level) (left : Expr) :
    (readJoined (n + 1) l left).Follows
      (Law.after (.of (SpellsExpr (.level l))) left (.of (SpellsExpr (.level l)))) := by
  rw [readJoined]
  refine follows_takeIf (fun operator t ht => ?_) ?_
  · refine (ih.level _).bind fun right => (ih.joined l _).mono ?_
    intro last vs e next _ h middle us hr first ts hl
    simpa using h _ _ (.join hl ht hr)
  · refine follows_pure fun middle _ first ts hl => ?_
    simpa using hl

theorem readUnary_follows (ih : ExprSound n) :
    (readUnary (n + 1)).Follows (.of (SpellsExpr .unary)) := by
  rw [readUnary]
  refine follows_takeIf (fun operator t ht => ?_) ?_
  · refine ih.unary.bind fun right => follows_pure fun middle _ first ts h => ?_
    simpa using SpellsExpr.unary ht h
  · exact ih.power.mono fun first ts e next _ h => .ofPower h

theorem readPower_follows (ih : ExprSound n) :
    (readPower (n + 1)).Follows (.of (SpellsExpr .power)) := by
  rw [readPower]
  refine ih.call.bind fun base => follows_accept (fun t ht => ?_) ?_
  · refine ih.unary.bind fun exponent => follows_pure fun last _ middle us hu first ts hc => ?_
    simpa using SpellsExpr.power hc ht hu
  · refine follows_pure fun middle _ first ts hc => ?_
    simpa using SpellsExpr.ofCall hc

theorem readCall_follows (ih : ExprSound n) :
    (readCall (n + 1)).Follows (.of (SpellsExpr .call)) := by
  rw [readCall]
  refine ih.primary.bind fun e => (ih.selectors e).mono ?_
  intro middle us e' next _ h first ts hp
  exact h first ts (.ofPrimary hp)

/-- A call with the selectors behind it. -/
theorem call_follows (ih : ExprSound n) (e : Expr) (style : CallStyle) {before : Token}
    (hb : before.kind = .mark style.opening) :
    (readArguments n style.closing (some style.limit) >>= fun a =>
      readSelectors n (.call e style a.2 a.1)).Follows
        (Law.behind before (Law.after (.of (SpellsExpr .call)) e (.of (SpellsExpr .call)))) := by
  refine (ih.arguments _ _).bind fun a => (ih.selectors _).mono ?_
  rintro last ws e' next _ h middle us ⟨vs, after, rfl, ha, hline, hs, hlimit⟩ first ts hc
  have hcall := SpellsExpr.call hc hb hs (hlimit _ rfl) ha
  rw [hline] at hcall
  simpa using h _ _ hcall

theorem readSelectors_follows (ih : ExprSound n) (e : Expr) :
    (readSelectors (n + 1) e).Follows (Law.after (.of (SpellsExpr .call)) e (.of (SpellsExpr .call))) := by
  rw [readSelectors]
  refine follows_accept (fun t ht => ih.call_follows e .parens ht) ?_
  refine follows_accept (fun t ht => ih.call_follows e .brackets ht) ?_
  refine follows_accept (fun dot hd => follows_expectName fun name hn => ?_) ?_
  · refine (ih.selectors _).mono ?_
    intro middle us e' next _ h first ts hc
    simpa using h _ _ (.get hc hd hn)
  · refine follows_pure fun middle _ first ts hc => ?_
    simpa using hc

theorem readArguments_follows (ih : ExprSound n) (closing : Mark) (limit : Option Nat) :
    (readArguments (n + 1) closing limit).Follows (ArgumentsLaw closing limit) := by
  rw [readArguments]
  refine (ih.items limit 0).unlessAt.bind fun a => follows_expectMark fun after ha => ?_
  refine follows_pure fun middle _ first ts hi => ⟨ts, after, rfl, ha, rfl, ?_⟩
  cases hi with
  | none => exact ⟨.nil, fun l _ => Nat.zero_le l⟩
  | some hs =>
    refine ⟨.items hs.1, fun l hl => ?_⟩
    simpa using hs.2 l hl (Nat.zero_le l)

theorem readItems_follows (ih : ExprSound n) (limit : Option Nat) (count : Nat) :
    (readItems (n + 1) limit count).Follows (ItemsLaw limit count) := by
  rw [readItems]
  refine follows_reportIf (ih.expr.bind fun e => follows_accept (fun comma hm => ?_) ?_)
  · refine (ih.items limit (count + 1)).bind fun rest => ?_
    refine follows_pure fun last _ middle us hr first ts he hb => ⟨?_, fun l hl hc => ?_⟩
    · simpa using SpellsItems.more he hm hr.1
    · have hne : l ≠ count := by simpa [hl] using hb
      have := hr.2 l hl (by omega)
      simp only [List.length_cons]
      omega
  · refine follows_pure fun middle _ first ts he hb => ⟨?_, fun l hl hc => ?_⟩
    · simpa using SpellsItems.last he
    · have hne : l ≠ count := by simpa [hl] using hb
      simp only [List.length_singleton]
      omega

theorem readPrimary_follows (ih : ExprSound n) :
    (readPrimary (n + 1)).Follows (.of (SpellsExpr .primary)) := by
  rw [readPrimary]
  refine follows_takeIf (fun value t ht => follows_pure fun first _ => .literal ht) ?_
  refine follows_accept (fun t ht => follows_newReference fun first _ => .reference ht) ?_
  refine follows_accept (fun before hb => ?_) ?_
  · refine ih.expr.bind fun e => follows_expectMark fun after ha => follows_pure ?_
    intro next _ first ts he
    simpa using SpellsExpr.grouping hb he ha
  refine follows_accept (fun before hb => ?_) ?_
  · refine (ih.arguments .rightBracket none).bind fun a => follows_pure ?_
    rintro next _ first _ ⟨ts, after, rfl, ha, hline, hs, -⟩
    rw [← hline]
    simpa using SpellsExpr.list hb hs ha
  refine follows_accept (fun t ht => follows_newReference fun first _ => .receiver ht) ?_
  refine follows_accept (fun t ht => ?_) (follows_fail _ _)
  refine follows_expectMark fun dot hd => follows_expectName fun name hn => ?_
  exact follows_newReference fun first _ => .inherited ht hd hn

end ExprSound

/-- Expressions are read by the grammar, whatever the fuel. -/
theorem exprSound (n : Nat) : ExprSound n := by
  induction n with
  | zero =>
    constructor <;> intros <;> exact follows_exhausted _
  | succ n ih =>
    exact ⟨ih.readExpr_follows, ih.readLevel_follows, ih.readJoined_follows, ih.readUnary_follows,
      ih.readPower_follows, ih.readCall_follows, ih.readSelectors_follows, ih.readArguments_follows,
      ih.readItems_follows, ih.readPrimary_follows⟩

theorem readExpr_follows (n : Nat) : (readExpr n).Follows (.of (SpellsExpr .assignment)) :=
  (exprSound n).expr

/-- The law of parameters behind `count` earlier ones. -/
def NamesLaw (count : Nat) : Law (List Name) :=
  fun first ts names next _ => first = next ∧ SpellsNames ts names ∧
    (count ≤ argumentLimit → count + names.length ≤ argumentLimit)

theorem readParameters_follows (n count : Nat) : (readParameters n count).Follows (NamesLaw count) := by
  induction n generalizing count with
  | zero => exact follows_exhausted _
  | succ n ih =>
    rw [readParameters]
    refine follows_reportIf (follows_expectName fun t ht => follows_accept (fun comma hm => ?_) ?_)
    · refine (ih (count + 1)).bind fun rest => follows_pure ?_
      rintro middle _ first ts ⟨rfl, hs, hl⟩ hb
      have hlt : ¬ argumentLimit ≤ count := by simpa using hb
      refine ⟨rfl, by simpa using SpellsNames.more ht hm hs, fun _ => ?_⟩
      have := hl (by omega)
      simp only [List.length_cons]
      omega
    · refine follows_pure fun first _ hb => ⟨rfl, .last ht, fun _ => ?_⟩
      have hlt : ¬ argumentLimit ≤ count := by simpa using hb
      simp only [List.length_singleton]
      omega

theorem readVariable_follows (n : Nat) : (readVariable n).Follows (.of SpellsVariable) := by
  refine follows_expectName fun name hn => ?_
  refine (readExpr_follows n).behind.bind fun value => follows_expectMark fun semicolon hs => ?_
  refine follows_pure fun next _ first ts hv => ?_
  cases hv with
  | none => exact .bare hn hs
  | some he hv => simpa using SpellsVariable.initialized hn he hv hs

theorem readExpressionStatement_follows (n : Nat) :
    (readExpressionStatement n).Follows (.of SpellsPlain) := by
  refine (readExpr_follows n).bind fun value => follows_expectMark fun semicolon hs => ?_
  exact follows_pure fun next _ first ts he => .intro he hs

/-- The two ways to say that an expression may be missing. -/
theorem spellsOptional_of_law {first next : NodeId} {ts rest : List Token} {value : Option Expr}
    (h : Law.Optional (.of (SpellsExpr .assignment)) first ts value next rest) :
    SpellsOptional first ts value next := by
  cases h with
  | none => exact .none
  | some h => exact .some h

theorem readReturn_follows (n : Nat) {keyword : Token} (hk : keyword.kind = .keyword .returnWord) :
    (readReturn n keyword.toName).Follows fun first ts s next _ =>
      SpellsStmt false first (keyword :: ts) s next := by
  refine (readExpr_follows n).unlessAt.bind fun value => follows_expectMark fun semicolon hs => ?_
  exact follows_pure fun next _ first ts hv => .giveBack hk (spellsOptional_of_law hv) hs

theorem readInitializer_follows (n : Nat) : (readInitializer n).Follows (.of SpellsInitializer) := by
  refine follows_accept (fun t ht => follows_pure fun first _ => .none ht) ?_
  refine follows_accept (fun t ht => ?_) ?_
  · exact (readVariable_follows n).some fun first ts s next _ h => .declare ht h
  · exact (readExpressionStatement_follows n).some fun first ts s next _ h => .plain h

theorem readForClauses_follows (n : Nat) : (readForClauses n).Follows (.of SpellsClauses) := by
  refine follows_expectMark fun before hb => ?_
  refine (readInitializer_follows n).bind fun initializer => ?_
  refine (readExpr_follows n).unlessAt.bind fun condition => follows_expectMark fun middle hm => ?_
  refine (readExpr_follows n).unlessAt.bind fun increment => follows_expectMark fun after ha => ?_
  refine follows_pure fun next _ third vs hv second us hu first ts hi => ?_
  simpa using SpellsClauses.intro hb hi (spellsOptional_of_law hu) hm (spellsOptional_of_law hv) ha

/-- The law of a statement that is open or not. -/
abbrev StatementLaw : Law Stmt := fun first ts s next rest =>
  ∃ isOpen, SpellsStmt isOpen first ts s next ∧ (isOpen = true → Absent (.keyword .elseWord) rest)

theorem StatementLaw.closed {first next : NodeId} {ts rest : List Token} {s : Stmt}
    (h : SpellsStmt false first ts s next) : StatementLaw first ts s next rest :=
  ⟨false, h, fun h => by cases h⟩

/-- With this fuel the rules of statements keep to the grammar. -/
structure StmtSound (n : Nat) : Prop where
  declaration : (readDeclaration n).Follows fun first ts o next _ =>
    ∃ s, o = some s ∧ ∃ isOpen, SpellsDeclaration isOpen first ts s next
  class_ : (readClass n).Follows fun first ts s next _ => ∀ keyword : Token,
    keyword.kind = .keyword .classWord → SpellsDeclaration false first (keyword :: ts) s next
  methods : (readMethods n).Follows (.of SpellsMethods)
  function : ∀ form, (readFunction n form).Follows (.of SpellsFunction)
  block : (readBlock n).Follows fun first ts body next _ =>
    ∃ us after, ts = us ++ [after] ∧ after.kind = .mark .rightBrace ∧ SpellsBody first us body next
  body : (readBody n).Follows (.of SpellsBody)
  statement : (readStatement n).Follows StatementLaw
  branch : (readBranch n).Follows fun first ts s next rest => ∀ keyword : Token,
    keyword.kind = .keyword .ifWord → StatementLaw first (keyword :: ts) s next rest

namespace StmtSound
variable {n : Nat}

theorem readDeclaration_follows (ih : StmtSound n) :
    (readDeclaration (n + 1)).Follows fun first ts o next _ =>
      ∃ s, o = some s ∧ ∃ isOpen, SpellsDeclaration isOpen first ts s next := by
  rw [readDeclaration]
  refine Follows.attempt (follows_accept (fun t ht => ?_) ?_)
  · exact ih.class_.mono fun first ts s next _ h => ⟨_, h t ht⟩
  refine follows_accept (fun t ht => ?_) ?_
  · refine (ih.function _).bind fun f => follows_pure fun next _ first ts h => ?_
    exact ⟨false, by simpa using SpellsDeclaration.function ht h⟩
  refine follows_accept (fun t ht => ?_) ?_
  · exact (readVariable_follows n).mono fun first ts s next _ h => ⟨_, .declare ht h⟩
  · refine ih.statement.mono fun first ts s next _ h => ?_
    obtain ⟨isOpen, h, -⟩ := h
    exact ⟨isOpen, .statement h⟩

theorem readSuperclass_follows : readSuperclass.Follows fun first ts r next _ =>
    ∃ t, ts = [t] ∧ t.kind = .identifier ∧ r = ⟨first, t.toName⟩ ∧ next = first + 1 :=
  follows_expectName fun t ht => follows_newReference (f := id) fun _ _ => ⟨t, rfl, ht, rfl, rfl⟩

theorem readClass_follows (ih : StmtSound n) :
    (readClass (n + 1)).Follows fun first ts s next _ => ∀ keyword : Token,
      keyword.kind = .keyword .classWord → SpellsDeclaration false first (keyword :: ts) s next := by
  rw [readClass]
  refine follows_expectName fun name hn => readSuperclass_follows.behind.bind fun superclass => ?_
  refine follows_expectMark fun before hb => ih.methods.bind fun methods => ?_
  refine follows_expectMark fun after ha => follows_pure fun next _ middle us hm first ts hs => ?_
  intro keyword hk
  cases hs with
  | none => simpa using SpellsDeclaration.base hk hn hb hm ha
  | some hl hs =>
    obtain ⟨t, rfl, ht, rfl, rfl⟩ := hs
    simpa using SpellsDeclaration.derived hk hn hl ht hb hm ha

theorem readMethods_follows (ih : StmtSound n) : (readMethods (n + 1)).Follows (.of SpellsMethods) := by
  rw [readMethods]
  refine follows_at? fun _ => follows_atEnd fun _ => ?_
  split
  · exact follows_pure fun first _ => .nil
  · refine (ih.function _).bind fun f => ih.methods.bind fun rest => ?_
    refine follows_pure fun next _ middle us hr first ts hf => ?_
    simpa using SpellsMethods.cons hf hr

theorem readFunction_follows (ih : StmtSound n) (form : FunctionForm) :
    (readFunction (n + 1) form).Follows (.of SpellsFunction) := by
  rw [readFunction]
  refine follows_expectName fun name hn => follows_expectMark fun before hb => ?_
  refine (readParameters_follows n 0).unlessAt.bind fun params => ?_
  refine follows_expectMark fun after ha => follows_expectMark fun opening ho => ?_
  refine ih.block.bind fun body => follows_pure ?_
  rintro next _ middle _ ⟨us, closing, rfl, hc, hbody⟩ first ts hp
  have hparams : first = middle ∧ SpellsParameters ts (params.getD []) := by
    cases hp with
    | none => exact ⟨rfl, .nil⟩
    | some h => exact ⟨h.1, .names h.2.1 (by simpa using h.2.2 (Nat.zero_le _))⟩
  obtain ⟨rfl, hparams⟩ := hparams
  simpa using SpellsFunction.intro hn hb hparams ha ho hbody hc

theorem readBlock_follows (ih : StmtSound n) :
    (readBlock (n + 1)).Follows fun first ts body next _ =>
      ∃ us after, ts = us ++ [after] ∧ after.kind = .mark .rightBrace ∧
        SpellsBody first us body next := by
  rw [readBlock]
  refine ih.body.bind fun body => follows_expectMark fun after ha => ?_
  exact follows_pure fun next _ first ts hb => ⟨ts, after, rfl, ha, hb⟩

/-- A declaration with what follows it, in a block or at the top. -/
theorem cons_follows {rest : Reader (List Stmt)} (ih : StmtSound n)
    (hr : rest.Follows (.of SpellsBody)) :
    (readDeclaration n >>= fun first => rest >>= fun others =>
      pure (first.toList ++ others)).Follows (.of SpellsBody) := by
  refine ih.declaration.bind fun o => hr.bind fun others => follows_pure ?_
  rintro next _ middle us hr first ts ⟨s, rfl, isOpen, hs⟩
  simpa using SpellsBody.cons hs hr

theorem readBody_follows (ih : StmtSound n) : (readBody (n + 1)).Follows (.of SpellsBody) := by
  rw [readBody]
  refine follows_at? fun _ => follows_atEnd fun _ => ?_
  split
  · exact follows_pure fun first _ => .nil
  · exact ih.cons_follows ih.body

theorem readStatement_follows (ih : StmtSound n) :
    (readStatement (n + 1)).Follows StatementLaw := by
  rw [readStatement]
  refine follows_accept (fun t ht => ?_) ?_
  · refine (readForClauses_follows n).bind fun clauses => ih.statement.bind fun body => ?_
    refine follows_pure ?_
    rintro next rest middle us ⟨isOpen, hb, ho⟩ first ts hc
    exact ⟨isOpen, by simpa using SpellsStmt.forLoop ht hc hb, ho⟩
  refine follows_accept (fun t ht => ?_) ?_
  · exact ih.branch.mono fun first ts s next rest h => h t ht
  refine follows_accept (fun t ht => ?_) ?_
  · refine follows_expectMark fun before hb => (readExpr_follows n).bind fun condition => ?_
    refine follows_expectMark fun after ha => ih.statement.bind fun body => follows_pure ?_
    rintro next rest middle us ⟨isOpen, hs, ho⟩ first ts hc
    exact ⟨isOpen, by simpa using SpellsStmt.loop ht hb hc ha hs, ho⟩
  refine follows_accept (fun t ht => ?_) ?_
  · exact (readReturn_follows n ht).mono fun first ts s next _ h => .closed h
  refine follows_accept (fun before hb => ?_) ?_
  · refine ih.block.bind fun body => follows_pure ?_
    rintro next _ first _ ⟨us, after, rfl, ha, hs⟩
    exact .closed (by simpa using SpellsStmt.block hb hs ha)
  · exact (readExpressionStatement_follows n).mono fun first ts s next _ h => .closed (.plain h)

theorem readBranch_follows (ih : StmtSound n) :
    (readBranch (n + 1)).Follows fun first ts s next rest => ∀ keyword : Token,
      keyword.kind = .keyword .ifWord → StatementLaw first (keyword :: ts) s next rest := by
  rw [readBranch]
  refine follows_expectMark fun before hb => (readExpr_follows n).bind fun condition => ?_
  refine follows_expectMark fun after ha => ih.statement.bind fun thenBranch => ?_
  refine ih.statement.behind.bind fun elseBranch => follows_pure ?_
  rintro next rest third vs he second us ⟨isOpen, ht, ho⟩ first ts hc keyword hk
  cases he with
  | none _ habsent =>
    exact ⟨true, by simpa using SpellsStmt.branch hk hb hc ha ht, fun _ => habsent⟩
  | some hw he =>
    obtain ⟨elseOpen, he, hl⟩ := he
    -- An open then-branch has no `else` behind it.
    have hclosed : isOpen = false := by
      refine Bool.eq_false_iff.2 fun h => ?_
      exact ho h _ (by simp) hw
    subst hclosed
    exact ⟨elseOpen, by simpa using SpellsStmt.branchElse hk hb hc ha ht hw he, hl⟩

end StmtSound

/-- Declarations and statements are read by the grammar, whatever the fuel. -/
theorem stmtSound (n : Nat) : StmtSound n := by
  induction n with
  | zero =>
    constructor <;> intros <;> exact follows_exhausted _
  | succ n ih =>
    exact ⟨ih.readDeclaration_follows, ih.readClass_follows, ih.readMethods_follows,
      ih.readFunction_follows, ih.readBlock_follows, ih.readBody_follows, ih.readStatement_follows,
      ih.readBranch_follows⟩

/-- A whole program is read up to the last token. -/
theorem readProgram_follows (n : Nat) : (readProgram n).Follows fun first ts program next rest =>
    rest = [] ∧ SpellsBody first ts program next := by
  induction n with
  | zero => exact follows_exhausted _
  | succ n ih =>
    rw [readProgram]
    refine follows_atEnd_nil (fun s hs => ⟨[], rfl, rfl, .nil⟩) ?_
    refine (stmtSound n).declaration.bind fun o => ih.bind fun others => follows_pure ?_
    rintro next rest middle us ⟨hrest, hr⟩ first ts ⟨s, rfl, isOpen, hs⟩
    exact ⟨hrest, by simpa using SpellsBody.cons hs hr⟩

/-- The tokens in front of the end. -/
abbrev wordsOf (ts : List Token) : List Token := ts.takeWhile fun t => t.kind != .eof

/-- A reading always comes to an end, and what it yields is what its last state says. -/
theorem parse_eq (ts : List Token) (first : NodeId) : ∃ program s,
    readProgram (enoughFuel (wordsOf ts).length) (.start ts first) = .ok program s ∧
      parse ts first = ⟨program, s.errors, s.nextId⟩ ∧ first ≤ s.nextId := by
  obtain ⟨program, s, hs, hle⟩ := readProgram_ends (.start ts first)
  refine ⟨program, s, hs, ?_, hle⟩
  unfold parse
  dsimp only
  rw [hs]

/-- Identities are numbered upwards, also by a reading with errors. -/
theorem le_parse_nextId (ts : List Token) (first : NodeId) : first ≤ (parse ts first).nextId := by
  obtain ⟨program, s, -, hp, hle⟩ := parse_eq ts first
  rw [hp]
  exact hle

/-- A program that is read without an error is spelled by its tokens. -/
theorem spellsBody_of_parse {ts : List Token} {first : NodeId} {program : List Stmt}
    (h : (parse ts first).result = .ok program) :
    SpellsBody first (wordsOf ts) program (parse ts first).nextId := by
  obtain ⟨found, s, hs, hp, -⟩ := parse_eq ts first
  have hl := readProgram_follows (enoughFuel (wordsOf ts).length) (.start ts first)
  rw [hs] at hl
  rw [hp] at h ⊢
  have he : s.errors = [] ∧ found = program := by
    simp only [Parsing.result] at h
    split at h
    · next he => exact ⟨List.isEmpty_iff.1 he, by injection h⟩
    · cases h
  obtain ⟨-, us, hus, hrest, hb⟩ := hl he.1
  rw [hrest, List.append_nil] at hus
  rw [← he.2]
  subst hus
  exact hb

end LoxLang
