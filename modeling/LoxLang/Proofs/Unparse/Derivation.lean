import LoxLang.Proofs.Unparse

/-!
# The words of a tree spell it

The tokens that a shaped tree is written with spell that tree again, up to identities and lines. The proof
follows the tree; an operand that binds more tightly than its place asks for is spelled at that place too.
-/

namespace LoxLang

/-! ## Words and kinds -/

@[simp] theorem Mark.word_kind (m : Mark) : m.word.kind = .mark m := rfl

@[simp] theorem Keyword.word_kind (k : Keyword) : k.word.kind = .keyword k := rfl

@[simp] theorem Keyword.wordFor_kind (k : Keyword) (n : Name) : (k.wordFor n).kind = .keyword k := rfl

@[simp] theorem Name.word_kind (n : Name) : n.word.kind = .identifier := rfl

@[simp] theorem Name.word_toName (n : Name) : n.word.toName = n.bare := rfl

theorem Literal.word_literal (v : Literal) : v.word.kind.literal? = some v := by
  cases v with
  | bool value => cases value <;> rfl
  | _ => rfl

theorem UnaryOperator.ofToken?_mark (operator : UnaryOperator) :
    UnaryOperator.ofToken? (.mark operator.mark) = some operator := by cases operator <;> rfl

theorem Joiner.atLevel?_mark {operator : BinaryOperator} {l : Level} (h : operator.level? = some l) :
    Joiner.atLevel? l (.mark operator.mark) = some (.binary operator) := by
  cases operator <;> cases h <;> rfl

theorem Joiner.atLevel?_keyword (operator : LogicalOperator) :
    Joiner.atLevel? operator.level (.keyword operator.keyword) = some (.logical operator) := by
  cases operator <;> rfl

theorem AssignOperator.ofToken?_mark {operator : AssignOperator} {m : Mark}
    (h : operator.mark? = some m) : AssignOperator.ofToken? (.mark m) = some operator := by
  cases operator with
  | plain => cases h; rfl
  | compound operator => cases operator <;> cases h <;> rfl

/-! ## Ranks -/

theorem Level.height_injective {l l' : Level} (h : l.height = l'.height) : l = l' := by
  cases l <;> cases l' <;> first | rfl | cases h

/-- Below the height of a level is only what its operands may be. -/
theorem Rank.le_operand {q : Rank} {l : Level} (h : q ≤ .level l) (hne : q ≠ .level l) :
    q ≤ .operand l.tighter? := by
  have hh := operandHeight_tighter l
  have h₁ : q.height ≤ l.height := h
  change q.height ≤ (Rank.operand l.tighter?).height
  cases ho : l.tighter? with
  | none =>
    rw [ho] at hh
    have h₂ : l.height = 6 := hh.symm
    rw [h₂] at h₁
    cases q with
    | level l' =>
      have h₃ : l'.height ≠ l.height := fun h => hne (by rw [Level.height_injective h])
      have h₄ := operandHeight_tighter l'
      have h₅ : 5 ≤ operandHeight l'.tighter? := by cases l' <;> decide
      simp only [Rank.height] at h₁
      omega
    | assignment => simp [Rank.height] at h₁
    | _ => simp [Rank.height, Rank.operand]
  | some l'' =>
    rw [ho] at hh
    have h₂ : l''.height + 1 = l.height := hh
    have h₅ : 6 ≤ l''.height := by cases l'' <;> decide
    cases q with
    | level l' =>
      have h₃ : l'.height ≠ l.height := fun h => hne (by rw [Level.height_injective h])
      simp only [Rank.height, Rank.operand] at h₁ ⊢
      omega
    | assignment =>
      have := l.height_le
      simp only [Rank.height] at h₁
      omega
    | _ => simp only [Rank.height, Rank.operand]; omega

section Lift
variable {q : Rank} {first next : NodeId} {ts : List Token} {e : Expr}

theorem SpellsExpr.lift_call (h : SpellsExpr q first ts e next) (hq : q ≤ .call) :
    SpellsExpr .call first ts e next := by
  change q.height ≤ 2 at hq
  cases q with
  | primary => exact .ofPrimary h
  | call => exact h
  | level l => exact absurd hq (by cases l <;> decide)
  | _ => exact absurd hq (by decide)

theorem SpellsExpr.lift_unary (h : SpellsExpr q first ts e next) (hq : q ≤ .unary) :
    SpellsExpr .unary first ts e next := by
  change q.height ≤ 4 at hq
  cases q with
  | primary => exact .ofPower (.ofCall (.ofPrimary h))
  | call => exact .ofPower (.ofCall h)
  | power => exact .ofPower h
  | unary => exact h
  | level l => exact absurd hq (by cases l <;> decide)
  | assignment => exact absurd hq (by decide)

theorem SpellsExpr.lift_operand (o : Option Level) (h : SpellsExpr q first ts e next)
    (hq : q ≤ .operand o) : SpellsExpr (.operand o) first ts e next := by
  match o with
  | none => exact h.lift_unary hq
  | some l =>
    by_cases hl : q = .level l
    · rw [hl] at h
      exact h
    · exact .ofOperand (lift_operand l.tighter? h (Rank.le_operand hq hl))
termination_by operandHeight o
decreasing_by
  have hh := operandHeight_tighter l
  change operandHeight l.tighter? < l.height
  omega

theorem SpellsExpr.lift_assignment (h : SpellsExpr q first ts e next) :
    SpellsExpr .assignment first ts e next := by
  by_cases hq : q = .assignment
  · rw [hq] at h
    exact h
  · refine .ofLevel (h.lift_operand (some .disjunction) ?_)
    cases q with
    | level l => exact l.height_le
    | assignment => exact absurd rfl hq
    | _ => decide

end Lift

/-! ## Expressions -/

/-- The tokens spell, at the rank of the tree, a tree that differs from it in identities and lines only. -/
def SpelledLike (ts : List Token) (e : Expr) : Prop :=
  ∀ first, ∃ e' next, SpellsExpr e.rank first ts e' next ∧ e'.bare = e.bare

/-- The tokens spell expressions that differ from these in identities and lines only. -/
def SpelledLikeAll (ts : List Token) (es : List Expr) : Prop :=
  ∀ first, ∃ es' next, SpellsArguments first ts es' next ∧ bareItems es' = bareItems es

theorem bareItems_length (es : List Expr) : (bareItems es).length = es.length := by
  induction es with
  | nil => rfl
  | cons e rest ih => simp [ih]

theorem length_eq_of_bareItems {es es' : List Expr} (h : bareItems es' = bareItems es) :
    es'.length = es.length := by
  rw [← bareItems_length es', h, bareItems_length]

section Forms
variable {left right object value inner : Expr} {es : List Expr} {ts us vs : List Token}

theorem spelledLike_unary (operator : UnaryOperator) (line : Nat) (hr : right.rank ≤ .unary)
    (h : SpelledLike ts right) :
    SpelledLike (operator.mark.word :: ts) (.unary operator line right) := by
  intro first
  obtain ⟨right', next, hs, he⟩ := h first
  refine ⟨_, next, .unary operator.ofToken?_mark (hs.lift_unary hr), ?_⟩
  simp [he]

theorem spelledLike_binary {operator : BinaryOperator} {l : Level} (line : Nat)
    (hl : operator.level? = some l) (hleft : left.rank ≤ .level l)
    (hright : right.rank ≤ .operand l.tighter?) (h₁ : SpelledLike ts left) (h₂ : SpelledLike us right) :
    SpelledLike (ts ++ operator.mark.word :: us) (.binary left operator line right) := by
  intro first
  obtain ⟨left', middle, hs, he⟩ := h₁ first
  obtain ⟨right', next, hs', he'⟩ := h₂ middle
  have hj := SpellsExpr.join (hs.lift_operand (some l) hleft) (t := operator.mark.word)
    (Joiner.atLevel?_mark hl) (hs'.lift_operand _ hright)
  refine ⟨_, next, by simpa [Expr.rank, hl] using hj, ?_⟩
  simp [Joiner.join, he, he', Mark.word]

theorem spelledLike_power (line : Nat) (hleft : left.rank ≤ .call) (hright : right.rank ≤ .unary)
    (h₁ : SpelledLike ts left) (h₂ : SpelledLike us right) :
    SpelledLike (ts ++ Mark.starStar.word :: us) (.binary left .power line right) := by
  intro first
  obtain ⟨left', middle, hs, he⟩ := h₁ first
  obtain ⟨right', next, hs', he'⟩ := h₂ middle
  refine ⟨_, next, .power (hs.lift_call hleft) rfl (hs'.lift_unary hright), ?_⟩
  simp [he, he']

theorem spelledLike_logical (operator : LogicalOperator) (hleft : left.rank ≤ .level operator.level)
    (hright : right.rank ≤ .operand operator.level.tighter?) (h₁ : SpelledLike ts left)
    (h₂ : SpelledLike us right) :
    SpelledLike (ts ++ operator.keyword.word :: us) (.logical left operator right) := by
  intro first
  obtain ⟨left', middle, hs, he⟩ := h₁ first
  obtain ⟨right', next, hs', he'⟩ := h₂ middle
  refine ⟨_, next, .join (hs.lift_operand (some _) hleft) (t := operator.keyword.word)
    (Joiner.atLevel?_keyword operator) (hs'.lift_operand _ hright), ?_⟩
  simp [Joiner.join, he, he']

theorem spelledLike_grouping (h : SpelledLike ts inner) :
    SpelledLike (Mark.leftParen.word :: (ts ++ [Mark.rightParen.word])) (.grouping inner) := by
  intro first
  obtain ⟨inner', next, hs, he⟩ := h first
  exact ⟨_, next, .grouping rfl hs.lift_assignment rfl, by simp [he]⟩

/-- An assignment to a target that is spelled as tightly as a call. -/
theorem spelledLike_assigned {target' a : Expr} {operator : AssignOperator} {q : Rank}
    {first middle : NodeId} (ho : operator.mark?.isSome) (hq : q ≤ .call)
    (ht : SpellsExpr q first ts target' middle) (hv : SpelledLike us value)
    (ha : ∀ value' : Expr, value'.bare = value.bare →
      ∃ e', target'.assigned? operator value' = some e' ∧ e'.bare = a.bare) :
    ∃ e' next, SpellsExpr .assignment first (ts ++ (operator.words ++ us)) e' next ∧
      e'.bare = a.bare := by
  obtain ⟨m, hm⟩ := Option.isSome_iff_exists.1 ho
  obtain ⟨value', next, hs, he⟩ := hv middle
  obtain ⟨e', hassign, hbare⟩ := ha value' he
  have ht' : SpellsExpr (.level .disjunction) first ts target' middle :=
    (SpellsExpr.ofPower (.ofCall (ht.lift_call hq))).lift_operand (some .disjunction) (by decide)
  have hspell := SpellsExpr.assign ht' (t := m.word) (AssignOperator.ofToken?_mark hm)
    hs.lift_assignment hassign
  exact ⟨e', next, by simpa [AssignOperator.words, hm] using hspell, hbare⟩

theorem spelledLike_assign (target : Reference) {operator : AssignOperator}
    (ho : operator.mark?.isSome) (h : SpelledLike us value) :
    SpelledLike (target.name.word :: (operator.words ++ us)) (.assign target operator value) := by
  intro first
  refine spelledLike_assigned ho (by decide) (.reference target.name.word_kind) h fun value' hv => ?_
  exact ⟨_, rfl, by simp [hv, Reference.bare, Name.bare]⟩

theorem spelledLike_set (name : Name) {operator : AssignOperator} (ho : operator.mark?.isSome)
    (hr : object.rank ≤ .call) (h : SpelledLike ts object) (hv : SpelledLike us value) :
    SpelledLike (ts ++ Mark.dot.word :: name.word :: (operator.words ++ us))
      (.set object name operator value) := by
  intro first
  obtain ⟨object', middle, hs, he⟩ := h first
  have hget := SpellsExpr.get (hs.lift_call hr) Mark.dot.word_kind name.word_kind
  have := spelledLike_assigned (a := .set object name operator value) ho (by decide) hget hv
    fun value' hv => ⟨_, rfl, by simp [he, hv, Name.bare]⟩
  simpa [Expr.rank] using this

theorem spelledLike_setElement {operator : AssignOperator} (line : Nat) (ho : operator.mark?.isSome)
    (hr : object.rank ≤ .call) (hl : es.length ≤ 1) (h : SpelledLike ts object)
    (hi : SpelledLikeAll vs es) (hv : SpelledLike us value) :
    SpelledLike (ts ++ Mark.leftBracket.word :: (vs ++ Mark.rightBracket.word :: (operator.words ++ us)))
      (.setElement object es operator line value) := by
  intro first
  obtain ⟨object', second, hs, he⟩ := h first
  obtain ⟨es', third, hs', he'⟩ := hi second
  have hlimit : es'.length ≤ CallStyle.brackets.limit := by
    rw [length_eq_of_bareItems he']
    exact hl
  have hb : Mark.leftBracket.word.kind = .mark CallStyle.brackets.opening := rfl
  have hcall := SpellsExpr.call (hs.lift_call hr) hb hs' hlimit Mark.rightBracket.word_kind
  have := spelledLike_assigned (a := .setElement object es operator line value) ho (by decide)
    hcall hv fun value' hv => ⟨_, rfl, by simp [he, he', hv]⟩
  simpa [Expr.rank] using this

theorem spelledLike_call (style : CallStyle) (line : Nat) (hr : object.rank ≤ .call)
    (hl : es.length ≤ style.limit) (h : SpelledLike ts object) (hi : SpelledLikeAll us es) :
    SpelledLike (ts ++ style.opening.word :: (us ++ [style.closing.word])) (.call object style line es) := by
  intro first
  obtain ⟨object', middle, hs, he⟩ := h first
  obtain ⟨es', next, hs', he'⟩ := hi middle
  have hlimit : es'.length ≤ style.limit := by
    rw [length_eq_of_bareItems he']
    exact hl
  refine ⟨_, next, .call (hs.lift_call hr) (Mark.word_kind _) hs' hlimit (Mark.word_kind _), ?_⟩
  simp [he, he']

theorem spelledLike_get (name : Name) (hr : object.rank ≤ .call) (h : SpelledLike ts object) :
    SpelledLike (ts ++ [Mark.dot.word, name.word]) (.get object name) := by
  intro first
  obtain ⟨object', next, hs, he⟩ := h first
  refine ⟨_, next, .get (hs.lift_call hr) (Mark.word_kind _) name.word_kind, ?_⟩
  simp [he, Name.bare]

theorem spelledLike_list (line : Nat) (h : SpelledLikeAll ts es) :
    SpelledLike (Mark.leftBracket.word :: (ts ++ [Mark.rightBracket.word])) (.list line es) := by
  intro first
  obtain ⟨es', next, hs, he⟩ := h first
  exact ⟨_, next, .list rfl hs rfl, by simp [he]⟩

theorem spelledLikeAll_last {e : Expr} (h : SpelledLike ts e) : SpelledLikeAll ts [e] := by
  intro first
  obtain ⟨e', next, hs, he⟩ := h first
  exact ⟨[e'], next, .items (.last hs.lift_assignment), by simp [he]⟩

theorem spelledLikeAll_more {e f : Expr} (h : SpelledLike ts e) (hi : SpelledLikeAll us (f :: es)) :
    SpelledLikeAll (ts ++ Mark.comma.word :: us) (e :: f :: es) := by
  intro first
  obtain ⟨e', middle, hs, he⟩ := h first
  obtain ⟨es', next, hs', he'⟩ := hi middle
  cases hs' with
  | nil => cases he'
  | items hs' =>
    exact ⟨e' :: es', next, .items (.more hs.lift_assignment rfl hs'), by rw [bareItems, he, he']; rfl⟩

end Forms

mutual

/-- The words of a shaped expression spell it. -/
theorem Expr.spelledLike : (e : Expr) → e.Shaped → SpelledLike e.words e
  | .literal value, _ => fun first => ⟨_, first, .literal value.word_literal, rfl⟩
  | .unary operator line right, h => by
    simp only [Expr.Shaped] at h
    exact spelledLike_unary operator line h.2 (right.spelledLike h.1)
  | .binary left operator line right, h => by
    simp only [Expr.Shaped] at h
    obtain ⟨hleft, hright, hr⟩ := h
    rw [Expr.words]
    cases hl : operator.level? with
    | some l =>
      rw [hl] at hr
      exact spelledLike_binary line hl hr.1 hr.2 (left.spelledLike hleft) (right.spelledLike hright)
    | none =>
      rw [hl] at hr
      have : operator = .power := by cases operator <;> first | rfl | cases hl
      subst this
      exact spelledLike_power line hr.1 hr.2 (left.spelledLike hleft) (right.spelledLike hright)
  | .logical left operator right, h => by
    simp only [Expr.Shaped] at h
    exact spelledLike_logical operator h.2.2.1 h.2.2.2 (left.spelledLike h.1) (right.spelledLike h.2.1)
  | .grouping inner, h => spelledLike_grouping (inner.spelledLike h)
  | .reference target, _ => fun first =>
    ⟨_, first + 1, .reference target.name.word_kind, rfl⟩
  | .assign target operator value, h => by
    exact spelledLike_assign target h.1 (value.spelledLike h.2)
  | .call callee style line arguments, h => by
    simp only [Expr.Shaped] at h
    exact spelledLike_call style line h.2.1 h.2.2.2 (callee.spelledLike h.1)
      (spelledLikeAll arguments h.2.2.1)
  | .list line elements, h => spelledLike_list line (spelledLikeAll elements h)
  | .get object name, h => spelledLike_get name h.2 (object.spelledLike h.1)
  | .set object name operator value, h => by
    simp only [Expr.Shaped] at h
    exact spelledLike_set name h.2.2.1 h.2.1 (object.spelledLike h.1) (value.spelledLike h.2.2.2)
  | .setElement object arguments operator line value, h => by
    simp only [Expr.Shaped] at h
    obtain ⟨ho, hr, ha, hl, hop, hv⟩ := h
    exact spelledLike_setElement line hop hr hl (object.spelledLike ho) (spelledLikeAll arguments ha)
      (value.spelledLike hv)
  | .receiver target, _ => fun first =>
    ⟨_, first + 1, .receiver rfl, rfl⟩
  | .inherited target method, _ => fun first =>
    ⟨_, first + 1, .inherited rfl rfl rfl, rfl⟩

/-- The words of shaped arguments spell them. -/
theorem spelledLikeAll : (es : List Expr) → AllShaped es → SpelledLikeAll (itemWords es) es
  | [], _ => fun first => ⟨[], first, .nil, rfl⟩
  | [e], h => spelledLikeAll_last (e.spelledLike h.1)
  | e :: f :: rest, h => spelledLikeAll_more (e.spelledLike h.1) (spelledLikeAll (f :: rest) h.2)

end

/-! ## Statements -/

/-- An expression as it is spelled where any expression may stand. -/
theorem Expr.spelled (e : Expr) (h : e.Shaped) (first : NodeId) :
    ∃ e' next, SpellsExpr .assignment first e.words e' next ∧ e'.bare = e.bare := by
  obtain ⟨e', next, hs, he⟩ := e.spelledLike h first
  exact ⟨e', next, hs.lift_assignment, he⟩

theorem spelled_optional (o : Option Expr) (h : OptionalShaped o) (first : NodeId) :
    ∃ o' next, SpellsOptional first (optionalWords o) o' next ∧ bareOptional o' = bareOptional o := by
  cases o with
  | none => exact ⟨none, first, .none, rfl⟩
  | some e =>
    obtain ⟨e', next, hs, he⟩ := e.spelled h first
    exact ⟨some e', next, .some hs, by simp [bareOptional, he]⟩

theorem spelled_names : (names : List Name) → names ≠ [] →
    SpellsNames (nameWords names) (names.map Name.bare)
  | [], h => absurd rfl h
  | [name], _ => .last name.word_kind
  | name :: other :: rest, _ => .more name.word_kind rfl (spelled_names (other :: rest) (by simp))

theorem spelled_parameters (names : List Name) (h : names.length ≤ argumentLimit) :
    SpellsParameters (nameWords names) (names.map Name.bare) := by
  cases names with
  | nil => exact .nil
  | cons name rest => exact .names (spelled_names _ (by simp)) (by simpa using h)

/-- The tokens spell a statement that differs from this one in identities and lines only. -/
def StmtSpelledLike (ts : List Token) (s : Stmt) : Prop :=
  ∀ first, ∃ s' next, SpellsStmt s.endsOpen first ts s' next ∧ s'.bare = s.bare

/-- The tokens spell a declaration that differs from this one in identities and lines only. -/
def DeclarationSpelledLike (ts : List Token) (s : Stmt) : Prop :=
  ∀ first, ∃ s' next, SpellsDeclaration s.endsOpen first ts s' next ∧ s'.bare = s.bare

/-- The tokens spell declarations that differ from these in identities and lines only. -/
def BodySpelledLike (ts : List Token) (body : List Stmt) : Prop :=
  ∀ first, ∃ body' next, SpellsBody first ts body' next ∧ bareBody body' = bareBody body

/-- The tokens spell a function that differs from this one in identities and lines only. -/
def FunctionSpelledLike (ts : List Token) (f : FunctionDecl) : Prop :=
  ∀ first, ∃ f' next, SpellsFunction first ts f' next ∧ f'.bare = f.bare

/-- The tokens spell methods that differ from these in identities and lines only. -/
def MethodsSpelledLike (ts : List Token) (methods : List FunctionDecl) : Prop :=
  ∀ first, ∃ methods' next, SpellsMethods first ts methods' next ∧
    bareMethods methods' = bareMethods methods

section StatementForms
variable {condition value : Expr} {s t : Stmt} {body : List Stmt} {methods : List FunctionDecl}
  {ts us : List Token}

theorem spelledLike_expression (h : value.Shaped) :
    StmtSpelledLike (value.words ++ [Mark.semicolon.word]) (.expression value) := by
  intro first
  obtain ⟨value', next, hs, he⟩ := value.spelled h first
  exact ⟨_, next, .plain ⟨hs, rfl⟩, by simp [he]⟩

theorem spelledLike_giveBack (keyword : Name) {o : Option Expr} (h : OptionalShaped o) :
    StmtSpelledLike (Keyword.returnWord.wordFor keyword :: (optionalWords o ++ [Mark.semicolon.word]))
      (.giveBack keyword o) := by
  intro first
  obtain ⟨o', next, hs, he⟩ := spelled_optional o h first
  refine ⟨_, next, .giveBack rfl hs rfl, ?_⟩
  simp [he, Name.bare, Token.toName, Keyword.wordFor]

theorem spelledLike_block (h : BodySpelledLike ts body) :
    StmtSpelledLike (Mark.leftBrace.word :: (ts ++ [Mark.rightBrace.word])) (.block body) := by
  intro first
  obtain ⟨body', next, hs, he⟩ := h first
  exact ⟨_, next, .block rfl hs rfl, by simp [he]⟩

theorem spelledLike_loop (hc : condition.Shaped) (h : StmtSpelledLike ts s) :
    StmtSpelledLike (Keyword.whileWord.word :: Mark.leftParen.word ::
      (condition.words ++ Mark.rightParen.word :: ts)) (.loop condition s) := by
  intro first
  obtain ⟨condition', middle, hs, he⟩ := condition.spelled hc first
  obtain ⟨s', next, hs', he'⟩ := h middle
  exact ⟨_, next, .loop rfl rfl hs rfl hs', by simp [he, he']⟩

theorem spelledLike_branch (hc : condition.Shaped) (h : StmtSpelledLike ts s) :
    StmtSpelledLike (Keyword.ifWord.word :: Mark.leftParen.word ::
      (condition.words ++ Mark.rightParen.word :: ts)) (.branch condition s none) := by
  intro first
  obtain ⟨condition', middle, hs, he⟩ := condition.spelled hc first
  obtain ⟨s', next, hs', he'⟩ := h middle
  exact ⟨_, next, .branch rfl rfl hs rfl hs', by simp [he, he']⟩

theorem spelledLike_branchElse (hc : condition.Shaped) (h : StmtSpelledLike ts s)
    (ho : s.endsOpen = false) (h' : StmtSpelledLike us t) :
    StmtSpelledLike (Keyword.ifWord.word :: Mark.leftParen.word :: (condition.words ++
      Mark.rightParen.word :: (ts ++ Keyword.elseWord.word :: us))) (.branch condition s (some t)) := by
  intro first
  obtain ⟨condition', second, hs, he⟩ := condition.spelled hc first
  obtain ⟨s', third, hs', he'⟩ := h second
  obtain ⟨t', next, hs'', he''⟩ := h' third
  rw [ho] at hs'
  exact ⟨_, next, .branchElse rfl rfl hs rfl hs' rfl hs'', by simp [he, he', he'']⟩

theorem spelledLike_declare (name : Name) {o : Option Expr} (h : OptionalShaped o) :
    DeclarationSpelledLike (Stmt.declare name o).words (.declare name o) := by
  intro first
  cases o with
  | none =>
    refine ⟨_, first, .declare rfl (.bare name.word_kind rfl), ?_⟩
    simp [bareOptional, Name.bare]
  | some e =>
    obtain ⟨e', next, hs, he⟩ := e.spelled h first
    refine ⟨_, next, .declare rfl (.initialized name.word_kind rfl hs rfl), ?_⟩
    simp [bareOptional, he, Name.bare]

theorem spelledLike_class (name : Name) (superclass : Option Reference)
    (h : MethodsSpelledLike (methodWords methods) methods) :
    DeclarationSpelledLike (Stmt.declareClass name superclass methods).words
      (.declareClass name superclass methods) := by
  intro first
  cases superclass with
  | none =>
    obtain ⟨methods', next, hs, he⟩ := h first
    refine ⟨_, next, .base rfl name.word_kind rfl hs rfl, ?_⟩
    simp [he, Name.bare]
  | some target =>
    obtain ⟨methods', next, hs, he⟩ := h (first + 1)
    refine ⟨_, next, .derived rfl name.word_kind rfl target.name.word_kind rfl hs rfl, ?_⟩
    simp [he, Name.bare, Reference.bare]

theorem spelledLike_function {f : FunctionDecl} (h : FunctionSpelledLike ts f) :
    DeclarationSpelledLike (Keyword.funWord.word :: ts) (.function f) := by
  intro first
  obtain ⟨f', next, hs, he⟩ := h first
  exact ⟨_, next, .function rfl hs, by simp [he]⟩

theorem spelledLike_statement (h : StmtSpelledLike ts s) : DeclarationSpelledLike ts s := by
  intro first
  obtain ⟨s', next, hs, he⟩ := h first
  exact ⟨s', next, .statement hs, he⟩

end StatementForms

mutual

/-- The words of a shaped statement spell it, unless it is a declaration. -/
theorem Stmt.spelledLike : (s : Stmt) → s.Shaped → s.Placed → s.isDeclaration = false →
    StmtSpelledLike s.words s
  | .expression value, h, _, _ => spelledLike_expression h
  | .giveBack keyword value, h, _, _ => spelledLike_giveBack keyword h
  | .block body, h, hp, _ => spelledLike_block (bodySpelledLike body h hp)
  | .loop condition body, h, hp, _ => by
    simp only [Stmt.Shaped, Stmt.Placed] at h hp
    exact spelledLike_loop h.1 (body.spelledLike h.2 hp.2 hp.1)
  | .branch condition thenBranch none, h, hp, _ => by
    simp only [Stmt.Shaped, Stmt.Placed] at h hp
    exact spelledLike_branch h.1 (thenBranch.spelledLike h.2 hp.2 hp.1)
  | .branch condition thenBranch (some elseBranch), h, hp, _ => by
    simp only [Stmt.Shaped, Stmt.Placed] at h hp
    exact spelledLike_branchElse h.1 (thenBranch.spelledLike h.2.1 hp.2.1 hp.1) h.2.2.1
      (elseBranch.spelledLike h.2.2.2 hp.2.2.2 hp.2.2.1)
  | .declare .., _, _, hd => by cases hd
  | .function _, _, _, hd => by cases hd
  | .declareClass .., _, _, hd => by cases hd

/-- The words of a shaped declaration or statement spell it. -/
theorem Stmt.declarationSpelledLike : (s : Stmt) → s.Shaped → s.Placed →
    DeclarationSpelledLike s.words s
  | .declare name initializer, h, _ => spelledLike_declare name h
  | .function f, h, hp => spelledLike_function (f.spelledLike h hp)
  | .declareClass name superclass methods, h, hp =>
    spelledLike_class name superclass (methodsSpelledLike methods h hp)
  | .expression value, h, hp => spelledLike_statement (spelledLike_expression h)
  | .giveBack keyword value, h, hp => spelledLike_statement (spelledLike_giveBack keyword h)
  | .block body, h, hp => spelledLike_statement (spelledLike_block (bodySpelledLike body h hp))
  | .loop condition body, h, hp => by
    simp only [Stmt.Shaped, Stmt.Placed] at h hp
    exact spelledLike_statement (spelledLike_loop h.1 (body.spelledLike h.2 hp.2 hp.1))
  | .branch condition thenBranch none, h, hp => by
    simp only [Stmt.Shaped, Stmt.Placed] at h hp
    exact spelledLike_statement (spelledLike_branch h.1 (thenBranch.spelledLike h.2 hp.2 hp.1))
  | .branch condition thenBranch (some elseBranch), h, hp => by
    simp only [Stmt.Shaped, Stmt.Placed] at h hp
    exact spelledLike_statement (spelledLike_branchElse h.1
      (thenBranch.spelledLike h.2.1 hp.2.1 hp.1) h.2.2.1
      (elseBranch.spelledLike h.2.2.2 hp.2.2.2 hp.2.2.1))

/-- The words of shaped statements spell them. -/
theorem bodySpelledLike : (body : List Stmt) → BodyShaped body → BodyPlaced body →
    BodySpelledLike (bodyWords body) body
  | [], _, _ => fun first => ⟨[], first, .nil, rfl⟩
  | s :: rest, h, hp => fun first => by
    obtain ⟨s', middle, hs, he⟩ := s.declarationSpelledLike h.1 hp.1 first
    obtain ⟨rest', next, hs', he'⟩ := bodySpelledLike rest h.2 hp.2 middle
    exact ⟨s' :: rest', next, .cons hs hs', by rw [bareBody, he, he', bareBody]⟩

/-- The words of a shaped function spell it. -/
theorem FunctionDecl.spelledLike : (f : FunctionDecl) → f.Shaped → f.Placed →
    FunctionSpelledLike f.words f
  | ⟨name, params, body⟩, h, hp => fun first => by
    obtain ⟨body', next, hs, he⟩ := bodySpelledLike body h.2 hp first
    refine ⟨_, next, .intro name.word_kind rfl (spelled_parameters params h.1) rfl rfl hs rfl, ?_⟩
    simp [he, Name.bare]

/-- The words of shaped methods spell them. -/
theorem methodsSpelledLike : (methods : List FunctionDecl) → MethodsShaped methods →
    MethodsPlaced methods → MethodsSpelledLike (methodWords methods) methods
  | [], _, _ => fun first => ⟨[], first, .nil, rfl⟩
  | f :: rest, h, hp => fun first => by
    obtain ⟨f', middle, hs, he⟩ := f.spelledLike h.1 hp.1 first
    obtain ⟨rest', next, hs', he'⟩ := methodsSpelledLike rest h.2 hp.2 middle
    exact ⟨f' :: rest', next, .cons hs hs', by rw [bareMethods, he, he', bareMethods]⟩

end

end LoxLang
