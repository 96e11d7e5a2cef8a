import LoxLang.Proofs.Grammar.First

/-!
# The grammar without its limits

Which tokens spell which tree if parameters and arguments may be of any number, together with the errors that are
noted on the way. The rules are those of the grammar, but for the limits: a parameter beyond the limit is noted,
each one anew, and of the arguments only the one that reaches the limit. The errors of a phrase stand in the order
of its tokens.

A phrase that keeps the limits is spelled by the same tokens here, and nothing is noted.
-/

namespace LoxLang

/-- An error in front of the first of some tokens, under a condition. -/
def notedAt (condition : Bool) (fault : GrammarFault) (ts : List Token) : List StaticError :=
  if condition then (ts.head?.map fun t => .grammar t.line t.place fault).toList else []

/-- The error at a parameter beyond the limit. -/
def parameterBeyondLimit (param : Name) : StaticError :=
  .grammar param.line (.lexeme param.text) (.tooManyParameters argumentLimit)

/-- The errors at the parameters of a function, behind `count` earlier ones. -/
def notedParameters (count : Nat) (params : List Name) : List StaticError :=
  (params.drop (argumentLimit - count)).map parameterBeyondLimit

mutual

/-- The tokens spell the expression at the rank, and these errors are noted. -/
inductive NotesExpr : Rank → NodeId → List Token → Expr → List StaticError → NodeId → Prop
  | literal {first : NodeId} {t : Token} {value : Literal} :
      t.kind.literal? = some value → NotesExpr .primary first [t] (.literal value) [] first
  | reference {first : NodeId} {t : Token} :
      t.kind = .identifier →
      NotesExpr .primary first [t] (.reference ⟨first, t.toName⟩) [] (first + 1)
  | grouping {first next : NodeId} {before after : Token} {ts : List Token} {e : Expr}
      {noted : List StaticError} :
      before.kind = .mark .leftParen → NotesExpr .assignment first ts e noted next →
      after.kind = .mark .rightParen →
      NotesExpr .primary first (before :: (ts ++ [after])) (.grouping e) noted next
  | list {first next : NodeId} {before after : Token} {ts : List Token} {es : List Expr}
      {noted : List StaticError} :
      before.kind = .mark .leftBracket → NotesArguments none first ts es noted next →
      after.kind = .mark .rightBracket →
      NotesExpr .primary first (before :: (ts ++ [after])) (.list after.line es) noted next
  | receiver {first : NodeId} {t : Token} :
      t.kind = .keyword .thisWord →
      NotesExpr .primary first [t] (.receiver ⟨first, t.toName⟩) [] (first + 1)
  | inherited {first : NodeId} {t dot name : Token} :
      t.kind = .keyword .superWord → dot.kind = .mark .dot → name.kind = .identifier →
      NotesExpr .primary first [t, dot, name] (.inherited ⟨first, t.toName⟩ name.toName) [] (first + 1)
  | ofPrimary {first next : NodeId} {ts : List Token} {e : Expr} {noted : List StaticError} :
      NotesExpr .primary first ts e noted next → NotesExpr .call first ts e noted next
  | call {first middle next : NodeId} {style : CallStyle} {before after : Token}
      {ts us : List Token} {e : Expr} {es : List Expr} {noted noted' : List StaticError} :
      NotesExpr .call first ts e noted middle → before.kind = .mark style.opening →
      NotesArguments (some style.limit) middle us es noted' next → after.kind = .mark style.closing →
      NotesExpr .call first (ts ++ before :: (us ++ [after])) (.call e style after.line es)
        (noted ++ noted') next
  | get {first next : NodeId} {dot name : Token} {ts : List Token} {e : Expr} {noted : List StaticError} :
      NotesExpr .call first ts e noted next → dot.kind = .mark .dot → name.kind = .identifier →
      NotesExpr .call first (ts ++ [dot, name]) (.get e name.toName) noted next
  | ofCall {first next : NodeId} {ts : List Token} {e : Expr} {noted : List StaticError} :
      NotesExpr .call first ts e noted next → NotesExpr .power first ts e noted next
  | power {first middle next : NodeId} {t : Token} {ts us : List Token} {base exponent : Expr}
      {noted noted' : List StaticError} :
      NotesExpr .call first ts base noted middle → t.kind = .mark .starStar →
      NotesExpr .unary middle us exponent noted' next →
      NotesExpr .power first (ts ++ t :: us) (.binary base .power t.line exponent) (noted ++ noted') next
  | ofPower {first next : NodeId} {ts : List Token} {e : Expr} {noted : List StaticError} :
      NotesExpr .power first ts e noted next → NotesExpr .unary first ts e noted next
  | unary {first next : NodeId} {operator : UnaryOperator} {t : Token} {ts : List Token} {e : Expr}
      {noted : List StaticError} :
      UnaryOperator.ofToken? t.kind = some operator → NotesExpr .unary first ts e noted next →
      NotesExpr .unary first (t :: ts) (.unary operator t.line e) noted next
  | ofOperand {first next : NodeId} {l : Level} {ts : List Token} {e : Expr} {noted : List StaticError} :
      NotesExpr (.operand l.tighter?) first ts e noted next → NotesExpr (.level l) first ts e noted next
  | join {first middle next : NodeId} {l : Level} {operator : Joiner} {t : Token}
      {ts us : List Token} {left right : Expr} {noted noted' : List StaticError} :
      NotesExpr (.level l) first ts left noted middle → Joiner.atLevel? l t.kind = some operator →
      NotesExpr (.operand l.tighter?) middle us right noted' next →
      NotesExpr (.level l) first (ts ++ t :: us) (operator.join left t.line right) (noted ++ noted') next
  | ofLevel {first next : NodeId} {ts : List Token} {e : Expr} {noted : List StaticError} :
      NotesExpr (.level .disjunction) first ts e noted next → NotesExpr .assignment first ts e noted next
  | assign {first middle next : NodeId} {operator : AssignOperator} {t : Token}
      {ts us : List Token} {target value e : Expr} {noted noted' : List StaticError} :
      NotesExpr (.level .disjunction) first ts target noted middle →
      AssignOperator.ofToken? t.kind = some operator →
      NotesExpr .assignment middle us value noted' next → target.assigned? operator value = some e →
      NotesExpr .assignment first (ts ++ t :: us) e (noted ++ noted') next

/-- The tokens spell expressions with commas between them, if there are any, under a limit. -/
inductive NotesArguments : Option Nat → NodeId → List Token → List Expr → List StaticError → NodeId → Prop
  | nil {limit : Option Nat} {first : NodeId} : NotesArguments limit first [] [] [] first
  | items {limit : Option Nat} {first next : NodeId} {ts : List Token} {es : List Expr}
      {noted : List StaticError} :
      NotesItems limit 0 first ts es noted next → NotesArguments limit first ts es noted next

/-- The tokens spell one or more expressions with commas between them, behind a number of earlier ones. Only the
one that reaches the limit is noted. -/
inductive NotesItems : Option Nat → Nat → NodeId → List Token → List Expr → List StaticError → NodeId → Prop
  | last {limit : Option Nat} {count : Nat} {first next : NodeId} {ts : List Token} {e : Expr}
      {noted : List StaticError} :
      NotesExpr .assignment first ts e noted next →
      NotesItems limit count first ts [e]
        (notedAt (limit == some count) (.tooManyArguments count) ts ++ noted) next
  | more {limit : Option Nat} {count : Nat} {first middle next : NodeId} {comma : Token}
      {ts us : List Token} {e : Expr} {es : List Expr} {noted noted' : List StaticError} :
      NotesExpr .assignment first ts e noted middle → comma.kind = .mark .comma →
      NotesItems limit (count + 1) middle us es noted' next →
      NotesItems limit count first (ts ++ comma :: us) (e :: es)
        (notedAt (limit == some count) (.tooManyArguments count) ts ++ (noted ++ noted')) next

end

/-- The tokens spell the parameters of a function, if it has any. -/
inductive NotesParameters : List Token → List Name → List StaticError → Prop
  | nil : NotesParameters [] [] []
  | names {ts : List Token} {params : List Name} :
      SpellsNames ts params → NotesParameters ts params (notedParameters 0 params)

/-- The tokens spell an expression, if there is one. -/
inductive NotesOptional : NodeId → List Token → Option Expr → List StaticError → NodeId → Prop
  | none {first : NodeId} : NotesOptional first [] none [] first
  | some {first next : NodeId} {ts : List Token} {e : Expr} {noted : List StaticError} :
      NotesExpr .assignment first ts e noted next → NotesOptional first ts (some e) noted next

/-- The tokens behind `var` spell the declaration of a variable. -/
inductive NotesVariable : NodeId → List Token → Stmt → List StaticError → NodeId → Prop
  | bare {first : NodeId} {name semicolon : Token} :
      name.kind = .identifier → semicolon.kind = .mark .semicolon →
      NotesVariable first [name, semicolon] (.declare name.toName none) [] first
  | initialized {first next : NodeId} {name equal semicolon : Token} {ts : List Token} {e : Expr}
      {noted : List StaticError} :
      name.kind = .identifier → equal.kind = .mark .equal →
      NotesExpr .assignment first ts e noted next → semicolon.kind = .mark .semicolon →
      NotesVariable first (name :: equal :: (ts ++ [semicolon])) (.declare name.toName (some e)) noted next

/-- The tokens spell an expression as a statement. -/
inductive NotesPlain : NodeId → List Token → Stmt → List StaticError → NodeId → Prop
  | intro {first next : NodeId} {semicolon : Token} {ts : List Token} {e : Expr} {noted : List StaticError} :
      NotesExpr .assignment first ts e noted next → semicolon.kind = .mark .semicolon →
      NotesPlain first (ts ++ [semicolon]) (.expression e) noted next

/-- The tokens spell what stands first between the parentheses of a `for` loop, with its semicolon. -/
inductive NotesInitializer : NodeId → List Token → Option Stmt → List StaticError → NodeId → Prop
  | none {first : NodeId} {semicolon : Token} :
      semicolon.kind = .mark .semicolon → NotesInitializer first [semicolon] none [] first
  | declare {first next : NodeId} {keyword : Token} {ts : List Token} {s : Stmt} {noted : List StaticError} :
      keyword.kind = .keyword .varWord → NotesVariable first ts s noted next →
      NotesInitializer first (keyword :: ts) (some s) noted next
  | plain {first next : NodeId} {ts : List Token} {s : Stmt} {noted : List StaticError} :
      NotesPlain first ts s noted next → NotesInitializer first ts (some s) noted next

/-- The tokens spell the clauses of a `for` loop with their parentheses. -/
inductive NotesClauses : NodeId → List Token → ForClauses → List StaticError → NodeId → Prop
  | intro {first second third next : NodeId} {before middle after : Token}
      {ts us vs : List Token} {initializer : Option Stmt} {condition increment : Option Expr}
      {noted noted' noted'' : List StaticError} :
      before.kind = .mark .leftParen → NotesInitializer first ts initializer noted second →
      NotesOptional second us condition noted' third → middle.kind = .mark .semicolon →
      NotesOptional third vs increment noted'' next → after.kind = .mark .rightParen →
      NotesClauses first (before :: (ts ++ (us ++ middle :: (vs ++ [after]))))
        ⟨initializer, condition, increment⟩ (noted ++ (noted' ++ noted'')) next

mutual

/-- The tokens spell the statement, which is open or not. -/
inductive NotesStmt : Bool → NodeId → List Token → Stmt → List StaticError → NodeId → Prop
  | plain {first next : NodeId} {ts : List Token} {s : Stmt} {noted : List StaticError} :
      NotesPlain first ts s noted next → NotesStmt false first ts s noted next
  | giveBack {first next : NodeId} {keyword semicolon : Token} {ts : List Token}
      {value : Option Expr} {noted : List StaticError} :
      keyword.kind = .keyword .returnWord → NotesOptional first ts value noted next →
      semicolon.kind = .mark .semicolon →
      NotesStmt false first (keyword :: (ts ++ [semicolon])) (.giveBack keyword.toName value) noted next
  | block {first next : NodeId} {before after : Token} {ts : List Token} {body : List Stmt}
      {noted : List StaticError} :
      before.kind = .mark .leftBrace → NotesBody first ts body noted next →
      after.kind = .mark .rightBrace →
      NotesStmt false first (before :: (ts ++ [after])) (.block body) noted next
  | loop {isOpen : Bool} {first middle next : NodeId} {keyword before after : Token}
      {ts us : List Token} {condition : Expr} {body : Stmt} {noted noted' : List StaticError} :
      keyword.kind = .keyword .whileWord → before.kind = .mark .leftParen →
      NotesExpr .assignment first ts condition noted middle → after.kind = .mark .rightParen →
      NotesStmt isOpen middle us body noted' next →
      NotesStmt isOpen first (keyword :: before :: (ts ++ after :: us)) (.loop condition body)
        (noted ++ noted') next
  | forLoop {isOpen : Bool} {first middle next : NodeId} {keyword : Token} {ts us : List Token}
      {clauses : ForClauses} {body : Stmt} {noted noted' : List StaticError} :
      keyword.kind = .keyword .forWord → NotesClauses first ts clauses noted middle →
      NotesStmt isOpen middle us body noted' next →
      NotesStmt isOpen first (keyword :: (ts ++ us)) (clauses.loop body) (noted ++ noted') next
  | branch {isOpen : Bool} {first middle next : NodeId} {keyword before after : Token}
      {ts us : List Token} {condition : Expr} {thenBranch : Stmt} {noted noted' : List StaticError} :
      keyword.kind = .keyword .ifWord → before.kind = .mark .leftParen →
      NotesExpr .assignment first ts condition noted middle → after.kind = .mark .rightParen →
      NotesStmt isOpen middle us thenBranch noted' next →
      NotesStmt true first (keyword :: before :: (ts ++ after :: us))
        (.branch condition thenBranch none) (noted ++ noted') next
  | branchElse {isOpen : Bool} {first second third next : NodeId}
      {keyword before after elseWord : Token} {ts us vs : List Token} {condition : Expr}
      {thenBranch elseBranch : Stmt} {noted noted' noted'' : List StaticError} :
      keyword.kind = .keyword .ifWord → before.kind = .mark .leftParen →
      NotesExpr .assignment first ts condition noted second → after.kind = .mark .rightParen →
      NotesStmt false second us thenBranch noted' third → elseWord.kind = .keyword .elseWord →
      NotesStmt isOpen third vs elseBranch noted'' next →
      NotesStmt isOpen first (keyword :: before :: (ts ++ after :: (us ++ elseWord :: vs)))
        (.branch condition thenBranch (some elseBranch)) (noted ++ (noted' ++ noted'')) next

/-- The tokens spell a declaration or a statement, which is open or not. -/
inductive NotesDeclaration : Bool → NodeId → List Token → Stmt → List StaticError → NodeId → Prop
  | declare {first next : NodeId} {keyword : Token} {ts : List Token} {s : Stmt} {noted : List StaticError} :
      keyword.kind = .keyword .varWord → NotesVariable first ts s noted next →
      NotesDeclaration false first (keyword :: ts) s noted next
  | function {first next : NodeId} {keyword : Token} {ts : List Token} {f : FunctionDecl}
      {noted : List StaticError} :
      keyword.kind = .keyword .funWord → NotesFunction first ts f noted next →
      NotesDeclaration false first (keyword :: ts) (.function f) noted next
  | base {first next : NodeId} {keyword name before after : Token} {ts : List Token}
      {methods : List FunctionDecl} {noted : List StaticError} :
      keyword.kind = .keyword .classWord → name.kind = .identifier →
      before.kind = .mark .leftBrace → NotesMethods first ts methods noted next →
      after.kind = .mark .rightBrace →
      NotesDeclaration false first (keyword :: name :: before :: (ts ++ [after]))
        (.declareClass name.toName none methods) noted next
  | derived {first next : NodeId} {keyword name less superName before after : Token}
      {ts : List Token} {methods : List FunctionDecl} {noted : List StaticError} :
      keyword.kind = .keyword .classWord → name.kind = .identifier → less.kind = .mark .less →
      superName.kind = .identifier → before.kind = .mark .leftBrace →
      NotesMethods (first + 1) ts methods noted next → after.kind = .mark .rightBrace →
      NotesDeclaration false first (keyword :: name :: less :: superName :: before :: (ts ++ [after]))
        (.declareClass name.toName (some ⟨first, superName.toName⟩) methods) noted next
  | statement {isOpen : Bool} {first next : NodeId} {ts : List Token} {s : Stmt} {noted : List StaticError} :
      NotesStmt isOpen first ts s noted next → NotesDeclaration isOpen first ts s noted next

/-- The tokens spell declarations one after the other. -/
inductive NotesBody : NodeId → List Token → List Stmt → List StaticError → NodeId → Prop
  | nil {first : NodeId} : NotesBody first [] [] [] first
  | cons {isOpen : Bool} {first middle next : NodeId} {ts us : List Token} {s : Stmt}
      {rest : List Stmt} {noted noted' : List StaticError} :
      NotesDeclaration isOpen first ts s noted middle → NotesBody middle us rest noted' next →
      NotesBody first (ts ++ us) (s :: rest) (noted ++ noted') next

/-- The tokens spell a function: its name, its parameters and its body. -/
inductive NotesFunction : NodeId → List Token → FunctionDecl → List StaticError → NodeId → Prop
  | intro {first next : NodeId} {name before after opening closing : Token} {ts us : List Token}
      {params : List Name} {body : List Stmt} {noted noted' : List StaticError} :
      name.kind = .identifier → before.kind = .mark .leftParen → NotesParameters ts params noted →
      after.kind = .mark .rightParen → opening.kind = .mark .leftBrace →
      NotesBody first us body noted' next → closing.kind = .mark .rightBrace →
      NotesFunction first (name :: before :: (ts ++ after :: opening :: (us ++ [closing])))
        ⟨name.toName, params, body⟩ (noted ++ noted') next

/-- The tokens spell functions one after the other. -/
inductive NotesMethods : NodeId → List Token → List FunctionDecl → List StaticError → NodeId → Prop
  | nil {first : NodeId} : NotesMethods first [] [] [] first
  | cons {first middle next : NodeId} {ts us : List Token} {f : FunctionDecl}
      {rest : List FunctionDecl} {noted noted' : List StaticError} :
      NotesFunction first ts f noted middle → NotesMethods middle us rest noted' next →
      NotesMethods first (ts ++ us) (f :: rest) (noted ++ noted') next

end

/-! ## Beginnings -/

theorem NotesExpr.begins {r : Rank} {first next : NodeId} {ts : List Token} {e : Expr}
    {noted : List StaticError} : NotesExpr r first ts e noted next → BeginsWith r.starts ts
  | .literal h => .cons (TokenKind.startsPrimary_of_literal h)
  | .reference h => .cons (by rw [h]; rfl)
  | .grouping h _ _ => .cons (by rw [h]; rfl)
  | .list h _ _ => .cons (by rw [h]; rfl)
  | .receiver h => .cons (by rw [h]; rfl)
  | .inherited h _ _ => .cons (by rw [h]; rfl)
  | .ofPrimary h => h.begins
  | .call h _ _ _ => h.begins.append
  | .get h _ _ => h.begins.append
  | .ofCall h => h.begins
  | .power h _ _ => h.begins.append
  | .ofPower h => h.begins.mono fun _ => TokenKind.startsExpr_of_startsPrimary
  | .unary h _ => .cons (TokenKind.startsExpr_of_unary h)
  | .ofOperand h => h.begins.mono fun _ => Rank.startsExpr_of_starts
  | .join h _ _ => h.begins.append
  | .ofLevel h => h.begins
  | .assign h _ _ _ => h.begins.append

theorem NotesExpr.begins_expr {r : Rank} {first next : NodeId} {ts : List Token} {e : Expr}
    {noted : List StaticError} (h : NotesExpr r first ts e noted next) :
    BeginsWith TokenKind.startsExpr ts := h.begins.mono fun _ => Rank.startsExpr_of_starts

section
variable {first next : NodeId} {ts : List Token} {s : Stmt} {noted : List StaticError}

theorem NotesItems.begins {limit : Option Nat} {count : Nat} {es : List Expr}
    (h : NotesItems limit count first ts es noted next) : BeginsWith TokenKind.startsExpr ts := by
  cases h with
  | last h => exact h.begins
  | more h _ _ => exact h.begins.append

theorem NotesPlain.begins (h : NotesPlain first ts s noted next) : BeginsWith TokenKind.startsExpr ts := by
  obtain ⟨h, -⟩ := h
  exact h.begins.append

theorem NotesStmt.begins {isOpen : Bool} (h : NotesStmt isOpen first ts s noted next) :
    BeginsWith TokenKind.beginsStatement ts := by
  cases h with
  | plain h => exact h.begins.mono fun _ => TokenKind.beginsStatement_of_startsExpr
  | giveBack h _ _ => exact .cons (by rw [h]; rfl)
  | block h _ _ => exact .cons (by rw [h]; rfl)
  | loop h _ _ _ _ => exact .cons (by rw [h]; rfl)
  | forLoop h _ _ => exact .cons (by rw [h]; rfl)
  | branch h _ _ _ _ => exact .cons (by rw [h]; rfl)
  | branchElse h _ _ _ _ _ _ => exact .cons (by rw [h]; rfl)

theorem NotesDeclaration.begins {isOpen : Bool} (h : NotesDeclaration isOpen first ts s noted next) :
    BeginsWith TokenKind.beginsDeclaration ts := by
  cases h with
  | declare h _ => exact .cons (by rw [h]; rfl)
  | function h _ => exact .cons (by rw [h]; rfl)
  | base h _ _ _ _ => exact .cons (by rw [h]; rfl)
  | derived h _ _ _ _ _ _ => exact .cons (by rw [h]; rfl)
  | statement h => exact h.begins.mono fun _ => TokenKind.beginsDeclaration_of_beginsStatement

theorem NotesFunction.begins {f : FunctionDecl} (h : NotesFunction first ts f noted next) :
    BeginsWith (· == .identifier) ts := by
  cases h with
  | intro hn _ _ _ _ _ _ => exact .cons (by simp [hn])

end

/-! ## Within the limits -/

/-- None of so many items behind `count` earlier ones reaches the limit. -/
def Clears (limit : Option Nat) (count items : Nat) : Prop :=
  ∀ l, limit = some l → l < count ∨ count + items ≤ l

theorem Clears.notedAt {limit : Option Nat} {count items : Nat} (h : Clears limit count (items + 1))
    (fault : GrammarFault) (ts : List Token) : notedAt (limit == some count) fault ts = [] := by
  have hne : (limit == some count) = false := by
    rw [beq_eq_false_iff_ne]
    intro hl
    have hreached := h count hl
    omega
  simp [LoxLang.notedAt, hne]

theorem Clears.next {limit : Option Nat} {count items : Nat} (h : Clears limit count (items + 1)) :
    Clears limit (count + 1) items := by
  intro l hl
  have hbehind := h l hl
  omega

theorem notedParameters_of_le {count : Nat} {params : List Name} (h : count + params.length ≤ argumentLimit) :
    notedParameters count params = [] := by
  have hall : params.drop (argumentLimit - count) = [] := List.drop_eq_nil_of_le (by omega)
  simp [notedParameters, hall]

mutual

theorem SpellsExpr.notes {r : Rank} {first next : NodeId} {ts : List Token} {e : Expr} :
    SpellsExpr r first ts e next → NotesExpr r first ts e [] next
  | .literal ht => .literal ht
  | .reference ht => .reference ht
  | .grouping hb h ha => .grouping hb h.notes ha
  | .list hb h ha => .list hb (h.notes fun _ hl => by cases hl) ha
  | .receiver ht => .receiver ht
  | .inherited ht hd hn => .inherited ht hd hn
  | .ofPrimary h => .ofPrimary h.notes
  | .call h hb hs hl ha => .call h.notes hb (hs.notes fun _ hlimit => by cases hlimit; omega) ha
  | .get h hd hn => .get h.notes hd hn
  | .ofCall h => .ofCall h.notes
  | .power h ht hu => .power h.notes ht hu.notes
  | .ofPower h => .ofPower h.notes
  | .unary ht h => .unary ht h.notes
  | .ofOperand h => .ofOperand h.notes
  | .join h ht hr => .join h.notes ht hr.notes
  | .ofLevel h => .ofLevel h.notes
  | .assign h ht hv ha => .assign h.notes ht hv.notes ha

theorem SpellsArguments.notes {limit : Option Nat} {first next : NodeId} {ts : List Token} {es : List Expr} :
    SpellsArguments first ts es next → Clears limit 0 es.length → NotesArguments limit first ts es [] next
  | .nil, _ => .nil
  | .items h, hl => .items (h.notes hl)

theorem SpellsItems.notes {limit : Option Nat} {count : Nat} {first next : NodeId} {ts : List Token}
    {es : List Expr} :
    SpellsItems first ts es next → Clears limit count es.length → NotesItems limit count first ts es [] next
  | .last h, hl => by
    have hitem : NotesItems limit count first ts [_] _ next := .last h.notes
    rwa [hl.notedAt] at hitem
  | .more h hm hr, hl => by
    have hitems := NotesItems.more h.notes hm (hr.notes hl.next)
    rwa [hl.notedAt] at hitems

end

section
variable {first next : NodeId} {ts : List Token} {s : Stmt}

theorem SpellsParameters.notes {params : List Name} (h : SpellsParameters ts params) :
    NotesParameters ts params [] := by
  cases h with
  | nil => exact .nil
  | names h hl =>
    have hnone : notedParameters 0 params = [] := notedParameters_of_le (by omega)
    exact hnone ▸ .names h

theorem SpellsOptional.notes {value : Option Expr} (h : SpellsOptional first ts value next) :
    NotesOptional first ts value [] next := by
  cases h with
  | none => exact .none
  | some h => exact .some h.notes

theorem SpellsVariable.notes (h : SpellsVariable first ts s next) : NotesVariable first ts s [] next := by
  cases h with
  | bare hn hs => exact .bare hn hs
  | initialized hn he h hs => exact .initialized hn he h.notes hs

theorem SpellsPlain.notes (h : SpellsPlain first ts s next) : NotesPlain first ts s [] next := by
  obtain ⟨h, hs⟩ := h
  exact .intro h.notes hs

theorem SpellsInitializer.notes {o : Option Stmt} (h : SpellsInitializer first ts o next) :
    NotesInitializer first ts o [] next := by
  cases h with
  | none hs => exact .none hs
  | declare hk h => exact .declare hk h.notes
  | plain h => exact .plain h.notes

theorem SpellsClauses.notes {clauses : ForClauses} (h : SpellsClauses first ts clauses next) :
    NotesClauses first ts clauses [] next := by
  obtain ⟨hb, hi, hc, hm, hv, ha⟩ := h
  exact .intro hb hi.notes hc.notes hm hv.notes ha

end

mutual

theorem SpellsStmt.notes {isOpen : Bool} {first next : NodeId} {ts : List Token} {s : Stmt} :
    SpellsStmt isOpen first ts s next → NotesStmt isOpen first ts s [] next
  | .plain h => .plain h.notes
  | .giveBack hk h hs => .giveBack hk h.notes hs
  | .block hb h ha => .block hb h.notes ha
  | .loop hk hb h ha hs => .loop hk hb h.notes ha hs.notes
  | .forLoop hk h hs => .forLoop hk h.notes hs.notes
  | .branch hk hb h ha hs => .branch hk hb h.notes ha hs.notes
  | .branchElse hk hb h ha ht hw he => .branchElse hk hb h.notes ha ht.notes hw he.notes

theorem SpellsDeclaration.notes {isOpen : Bool} {first next : NodeId} {ts : List Token} {s : Stmt} :
    SpellsDeclaration isOpen first ts s next → NotesDeclaration isOpen first ts s [] next
  | .declare hk h => .declare hk h.notes
  | .function hk h => .function hk h.notes
  | .base hk hn hb h ha => .base hk hn hb h.notes ha
  | .derived hk hn hl hs hb h ha => .derived hk hn hl hs hb h.notes ha
  | .statement h => .statement h.notes

theorem SpellsBody.notes {first next : NodeId} {ts : List Token} {body : List Stmt} :
    SpellsBody first ts body next → NotesBody first ts body [] next
  | .nil => .nil
  | .cons h hs => .cons h.notes hs.notes

theorem SpellsFunction.notes {first next : NodeId} {ts : List Token} {f : FunctionDecl} :
    SpellsFunction first ts f next → NotesFunction first ts f [] next
  | .intro hn hb hp ha ho h hc => .intro hn hb hp.notes ha ho h.notes hc

theorem SpellsMethods.notes {first next : NodeId} {ts : List Token} {methods : List FunctionDecl} :
    SpellsMethods first ts methods next → NotesMethods first ts methods [] next
  | .nil => .nil
  | .cons h hs => .cons h.notes hs.notes

end

end LoxLang
