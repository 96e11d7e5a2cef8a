import LoxLang.Proofs.Prefix.Reading
import LoxLang.Proofs.Renaming.Scan

/-!
# Two programs with the same prefix text

A program that was read from a text without strings and without numbers with a point is got back from the
parts of its prefix text, up to identities and lines. The proof follows the derivation from the tokens: what a
tree is made of is got back, so it is got back itself. As a prefix text has one tree of parts only, no other
program has it.
-/

namespace LoxLang

open PrefixTree

/-! ## Words -/

/-- An identifier is a plain word. -/
theorem IsIdentifier.isPlainWord {name : String} (h : IsIdentifier name) : isPlainWord name = true := by
  have hword := h.word
  unfold LoxLang.isPlainWord
  generalize name.toList = text at hword
  cases hword with
  | @word c rest hc hrest =>
    have hall : ∀ d ∈ c :: rest, isDelimiter d = false :=
      List.forall_mem_cons.2 ⟨isWordChar_not_isDelimiter (isWordStart_isWordChar hc),
        fun d hd => isWordChar_not_isDelimiter (hrest d hd)⟩
    simp only [List.forall_mem_cons] at hall
    simpa [hc, hall.1] using hall.2

/-- An identifier stands for a reference. -/
theorem IsIdentifier.wordExpr {name : String} (h : IsIdentifier name) :
    wordExpr name = .reference ⟨0, name, 0⟩ := by
  have hnone : Keyword.ofSpelling? name.toList = none := by
    refine Keyword.ofSpelling?_none fun k hk => h.free k ?_
    rw [Keyword.text, ← hk, String.ofList_toList]
  rw [LoxLang.wordExpr, hnone]

theorem Mark.text_isPlainWord (m : Mark) (hl : m ≠ .leftParen) (hr : m ≠ .rightParen) :
    isPlainWord m.text = true := by
  cases m <;> first | rfl | exact absurd rfl hl | exact absurd rfl hr

theorem AssignOperator.text_eq {operator : AssignOperator} {m : Mark} (h : operator.mark? = some m) :
    operator.text = m.text := by
  cases operator with
  | plain => cases h; rfl
  | compound operator => cases operator <;> cases h <;> rfl

/-! ## What is got back -/

/-- The expression is got back from its parts. -/
structure Expr.Readable (e : Expr) : Prop where
  plain : e.prefixTree.Plain
  read : e.prefixTree.expr? = some e.bare

/-- The expressions are got back from their parts. -/
structure ItemsReadable (es : List Expr) : Prop where
  plain : PartsPlain (Expr.prefixTrees es)
  read : exprs? (Expr.prefixTrees es) = some (bareItems es)

/-- The statement is got back from its parts. -/
structure Stmt.Readable (s : Stmt) : Prop where
  plain : s.prefixTree.Plain
  read : s.prefixTree.stmt? = some s.bare

/-- The statements are got back from their parts. -/
structure BodyReadable (body : List Stmt) : Prop where
  plain : PartsPlain (Stmt.prefixTrees body)
  read : stmts? (Stmt.prefixTrees body) = some (bareBody body)

/-- The function is got back from its parts. -/
structure FunctionDecl.Readable (f : FunctionDecl) : Prop where
  plain : PartsPlain f.prefixParts
  read : function? f.prefixParts = some f.bare

/-- The methods are got back from their parts. -/
structure MethodsReadable (methods : List FunctionDecl) : Prop where
  plain : PartsPlain (FunctionDecl.prefixTrees methods)
  read : functions? (FunctionDecl.prefixTrees methods) = some (bareMethods methods)

section Expressions
variable {e left right value target : Expr} {es : List Expr}

theorem itemsReadable_nil : ItemsReadable [] := ⟨trivial, rfl⟩

theorem itemsReadable_cons (h : e.Readable) (hs : ItemsReadable es) : ItemsReadable (e :: es) :=
  ⟨⟨h.plain, hs.plain⟩, by simp [Expr.prefixTrees, h.read, hs.read]⟩

theorem readable_reference {target : Reference} (h : IsIdentifier target.name.text) :
    (Expr.reference target).Readable :=
  ⟨h.isPlainWord, congrArg some h.wordExpr⟩

theorem readable_receiver {target : Reference} (h : target.name.text = "this") :
    (Expr.receiver target).Readable := by
  refine ⟨rfl, ?_⟩
  simp only [Expr.bare, Reference.bare, Name.bare, h]
  rfl

theorem readable_inherited {target : Reference} {method : Name} (h : target.name.text = "super")
    (hm : IsIdentifier method.text) : (Expr.inherited target method).Readable := by
  refine ⟨⟨rfl, hm.isPlainWord, trivial⟩, ?_⟩
  simp only [Expr.bare, Reference.bare, Name.bare, h]
  rfl

theorem readable_grouping (h : e.Readable) : (Expr.grouping e).Readable :=
  ⟨⟨rfl, h.plain, trivial⟩, by simp [Expr.prefixTree, expr?_grouping, h.read]⟩

theorem readable_list (line : Nat) (h : ItemsReadable es) : (Expr.list line es).Readable :=
  ⟨⟨rfl, h.plain⟩, by simp [Expr.prefixTree, expr?_list, h.read]⟩

theorem readable_call (style : CallStyle) (line : Nat) (h : e.Readable) (hs : ItemsReadable es) :
    (Expr.call e style line es).Readable := by
  refine ⟨⟨?_, h.plain, hs.plain⟩, by simp [Expr.prefixTree, expr?_call, h.read, hs.read]⟩
  cases style <;> rfl

theorem readable_get {name : Name} (h : e.Readable) (hn : IsIdentifier name.text) :
    (Expr.get e name).Readable :=
  ⟨⟨rfl, h.plain, hn.isPlainWord, trivial⟩, by simp [Expr.prefixTree, expr?_get, h.read, Name.bare]⟩

/-- A mark in front of its operands. -/
theorem readable_mark (m : Mark) (hm : m ≠ .dot) (hplain : isPlainWord m.text = true)
    (htree : e.prefixTree = .group (.word m.text :: Expr.prefixTrees es)) (hs : ItemsReadable es)
    (hread : operation? (.mark m) (bareItems es) = some e.bare) : e.Readable := by
  refine ⟨?_, ?_⟩
  · rw [htree]
    exact ⟨hplain, hs.plain⟩
  · rw [htree, expr?_mark m hm, hs.read]
    exact hread

theorem readable_unary (operator : UnaryOperator) (line : Nat) (h : e.Readable) :
    (Expr.unary operator line e).Readable := by
  have hoperand := itemsReadable_cons h itemsReadable_nil
  cases operator <;> exact readable_mark _ Mark.noConfusion rfl rfl hoperand rfl

theorem readable_binary (operator : BinaryOperator) (line : Nat) (hl : left.Readable)
    (hr : right.Readable) : (Expr.binary left operator line right).Readable := by
  have hoperands := itemsReadable_cons hl (itemsReadable_cons hr itemsReadable_nil)
  cases operator <;> exact readable_mark _ Mark.noConfusion rfl rfl hoperands rfl

theorem readable_logical (operator : LogicalOperator) (hl : left.Readable) (hr : right.Readable) :
    (Expr.logical left operator right).Readable := by
  refine ⟨⟨?_, hl.plain, hr.plain, trivial⟩, ?_⟩
  · cases operator <;> rfl
  · rw [Expr.prefixTree, expr?_logical]
    simp only [exprs?_cons, hl.read, hr.read]
    cases operator <;> rfl

theorem readable_join (operator : Joiner) (line : Nat) (hl : left.Readable) (hr : right.Readable) :
    (operator.join left line right).Readable := by
  cases operator with
  | logical operator => exact readable_logical operator hl hr
  | binary operator => exact readable_binary operator line hl hr

/-- The parts of an assignment: its target stands there as it is read. -/
theorem prefixTree_assigned {operator : AssignOperator} (h : target.assigned? operator value = some e) :
    e.prefixTree = .group (.word operator.text :: Expr.prefixTrees [target, value]) := by
  unfold Expr.assigned? at h
  split at h <;> cases h <;> rfl

theorem bare_assigned {operator : AssignOperator} (h : target.assigned? operator value = some e) :
    target.bare.assigned? operator value.bare = some e.bare := by
  unfold Expr.assigned? at h
  split at h <;> cases h <;> rfl

theorem readable_assigned {operator : AssignOperator} {kind : TokenKind}
    (ho : AssignOperator.ofToken? kind = some operator) (h : target.assigned? operator value = some e)
    (ht : target.Readable) (hv : value.Readable) : e.Readable := by
  obtain ⟨m, hm, rfl⟩ := AssignOperator.mark_of_ofToken? ho
  have hplain : isPlainWord m.text = true :=
    m.text_isPlainWord (by rintro rfl; cases ho) (by rintro rfl; cases ho)
  have htree := prefixTree_assigned h
  rw [AssignOperator.text_eq hm] at htree
  refine readable_mark m (by rintro rfl; cases ho) hplain htree
    (itemsReadable_cons ht (itemsReadable_cons hv itemsReadable_nil)) ?_
  simp only [bareItems, operation?, ho]
  exact bare_assigned h

end Expressions

section Statements
variable {s thenBranch elseBranch : Stmt} {body : List Stmt} {name : Name} {condition value : Expr}

theorem bodyReadable_nil : BodyReadable [] := ⟨trivial, rfl⟩

theorem bodyReadable_cons (h : s.Readable) (hs : BodyReadable body) : BodyReadable (s :: body) :=
  ⟨⟨h.plain, hs.plain⟩, by simp [Stmt.prefixTrees, h.read, hs.read]⟩

theorem readable_expression (h : value.Readable) : (Stmt.expression value).Readable :=
  ⟨⟨rfl, h.plain, trivial⟩, by simp [Stmt.prefixTree, stmt?_expression, h.read]⟩

theorem readable_declare (hn : IsIdentifier name.text) : (Stmt.declare name none).Readable :=
  ⟨⟨rfl, hn.isPlainWord, trivial⟩, rfl⟩

theorem readable_initialized (hn : IsIdentifier name.text) (h : value.Readable) :
    (Stmt.declare name (some value)).Readable :=
  ⟨⟨rfl, hn.isPlainWord, h.plain, trivial⟩,
    by simp [Stmt.prefixTree, Expr.prefixTree?, stmt?_initialized, h.read, bareOptional, Name.bare]⟩

theorem readable_block (h : BodyReadable body) : (Stmt.block body).Readable :=
  ⟨⟨rfl, h.plain⟩, by simp [Stmt.prefixTree, stmt?_block, h.read]⟩

theorem readable_branch (hc : condition.Readable) (ht : thenBranch.Readable) :
    (Stmt.branch condition thenBranch none).Readable :=
  ⟨⟨rfl, hc.plain, ht.plain, trivial⟩,
    by simp [Stmt.prefixTree, Stmt.prefixTree?, stmt?_branch, hc.read, ht.read]⟩

theorem readable_branchElse (hc : condition.Readable) (ht : thenBranch.Readable) (he : elseBranch.Readable) :
    (Stmt.branch condition thenBranch (some elseBranch)).Readable :=
  ⟨⟨rfl, hc.plain, ht.plain, he.plain, trivial⟩,
    by simp [Stmt.prefixTree, Stmt.prefixTree?, stmt?_branchElse, hc.read, ht.read, he.read]⟩

theorem readable_loop (hc : condition.Readable) (h : s.Readable) : (Stmt.loop condition s).Readable :=
  ⟨⟨rfl, hc.plain, h.plain, trivial⟩, by simp [Stmt.prefixTree, stmt?_loop, hc.read, h.read]⟩

theorem readable_giveBack {keyword : Name} (hk : keyword.text = "return") {value : Option Expr}
    (h : ∀ e ∈ value, e.Readable) : (Stmt.giveBack keyword value).Readable := by
  cases value with
  | none =>
    refine ⟨⟨rfl, trivial⟩, ?_⟩
    simp only [Stmt.bare, bareOptional, Name.bare, hk]
    rfl
  | some e =>
    have he := h e rfl
    refine ⟨⟨rfl, he.plain, trivial⟩, ?_⟩
    simp [Stmt.prefixTree, Expr.prefixTree?, stmt?_giveBack, he.read, bareOptional, Name.bare, hk]

/-- Names as words between parentheses. -/
theorem names_readable {names : List Name} (h : ∀ n ∈ names, IsIdentifier n.text) :
    PartsPlain (names.map fun n => .word n.text) ∧
      (names.map fun n => PrefixTree.word n.text).mapM PrefixTree.name? = some (names.map Name.bare) := by
  induction names with
  | nil => exact ⟨trivial, rfl⟩
  | cons n names ih =>
    simp only [List.forall_mem_cons] at h
    obtain ⟨hplain, hread⟩ := ih h.2
    exact ⟨⟨h.1.isPlainWord, hplain⟩, by simp [PrefixTree.name?, hread, Name.bare]⟩

theorem function_readable {params : List Name} (hn : IsIdentifier name.text)
    (hp : ∀ n ∈ params, IsIdentifier n.text) (h : BodyReadable body) :
    FunctionDecl.Readable ⟨name, params, body⟩ := by
  obtain ⟨hplain, hread⟩ := names_readable hp
  refine ⟨⟨hn.isPlainWord, hplain, h.plain⟩, ?_⟩
  simp [FunctionDecl.prefixParts, function?_eq, hread, h.read, Name.bare]

theorem methodsReadable_nil : MethodsReadable [] := ⟨trivial, rfl⟩

theorem methodsReadable_cons {f : FunctionDecl} {methods : List FunctionDecl} (h : f.Readable)
    (hs : MethodsReadable methods) : MethodsReadable (f :: methods) :=
  ⟨⟨⟨rfl, h.plain⟩, hs.plain⟩, by simp [FunctionDecl.prefixTrees, h.read, hs.read]⟩

theorem readable_function {f : FunctionDecl} (h : f.Readable) : (Stmt.function f).Readable :=
  ⟨⟨rfl, h.plain⟩, by simp [Stmt.prefixTree, stmt?_function, h.read]⟩

theorem readable_derived {superclass : Reference} {methods : List FunctionDecl}
    (hn : IsIdentifier name.text) (hs : IsIdentifier superclass.name.text) (h : MethodsReadable methods) :
    (Stmt.declareClass name (some superclass) methods).Readable :=
  ⟨⟨rfl, hn.isPlainWord, rfl, hs.isPlainWord, h.plain⟩,
    by simp [Stmt.prefixTree, stmt?_derived, h.read, Name.bare, Reference.bare]⟩

theorem readable_base {methods : List FunctionDecl} (hn : IsIdentifier name.text)
    (h : MethodsReadable methods) : (Stmt.declareClass name none methods).Readable :=
  ⟨⟨rfl, hn.isPlainWord, h.plain⟩, by simp [Stmt.prefixTree, stmt?_base, h.read, Name.bare]⟩

end Statements

/-! ## From the tokens -/

/-- Strings and numbers with a point. -/
def TokenKind.isStringOrFloat : TokenKind → Bool
  | .string _ => true
  | .float _ => true
  | _ => false

/-- The token is spelled as its kind asks for, an identifier is a word, and the token is neither a string nor
a number with a point. -/
structure Token.Legible (t : Token) : Prop where
  spelled : t.Spelled
  identifier : t.kind = .identifier → IsIdentifier t.lexeme
  plain : t.kind.isStringOrFloat = false

theorem Token.Legible.literal {t : Token} {value : Literal} (h : t.Legible)
    (hk : t.kind.literal? = some value) : (Expr.literal value).Readable := by
  obtain ⟨kind, lexeme, line⟩ := t
  cases kind with
  | int n => cases hk; exact ⟨trivial, rfl⟩
  | float x => cases h.plain
  | string text => cases h.plain
  | keyword k => cases k <;> cases hk <;> exact ⟨rfl, rfl⟩
  | mark m => cases hk
  | identifier => cases hk
  | eof => cases hk

mutual

theorem SpellsExpr.readable {r : Rank} {first next : NodeId} {ts : List Token} {e : Expr} :
    SpellsExpr r first ts e next → (∀ t ∈ ts, t.Legible) → e.Readable
  | .literal hk, ht => (ht _ (by simp)).literal hk
  | .reference hk, ht => readable_reference ((ht _ (by simp)).identifier hk)
  | .grouping _ h _, ht => readable_grouping (h.readable fun t hm => ht t (by simp [hm]))
  | .list _ h _, ht => readable_list _ (h.readable fun t hm => ht t (by simp [hm]))
  | .receiver hk, ht => readable_receiver (toName_of_keyword (ht _ (by simp)).spelled hk)
  | .inherited hk _ hn, ht =>
    readable_inherited (toName_of_keyword (ht _ (by simp)).spelled hk) ((ht _ (by simp)).identifier hn)
  | .ofPrimary h, ht => h.readable ht
  | .call h _ hs _ _, ht =>
    readable_call _ _ (h.readable fun t hm => ht t (by simp [hm]))
      (hs.readable fun t hm => ht t (by simp [hm]))
  | .get h _ hn, ht =>
    readable_get (h.readable fun t hm => ht t (by simp [hm])) ((ht _ (by simp)).identifier hn)
  | .ofCall h, ht => h.readable ht
  | .power h _ hu, ht =>
    readable_binary .power _ (h.readable fun t hm => ht t (by simp [hm]))
      (hu.readable fun t hm => ht t (by simp [hm]))
  | .ofPower h, ht => h.readable ht
  | .unary _ h, ht => readable_unary _ _ (h.readable fun t hm => ht t (by simp [hm]))
  | .ofOperand h, ht => h.readable ht
  | .join h _ hr, ht =>
    readable_join _ _ (h.readable fun t hm => ht t (by simp [hm]))
      (hr.readable fun t hm => ht t (by simp [hm]))
  | .ofLevel h, ht => h.readable ht
  | .assign h ho hv ha, ht =>
    readable_assigned ho ha (h.readable fun t hm => ht t (by simp [hm]))
      (hv.readable fun t hm => ht t (by simp [hm]))

theorem SpellsArguments.readable {first next : NodeId} {ts : List Token} {es : List Expr} :
    SpellsArguments first ts es next → (∀ t ∈ ts, t.Legible) → ItemsReadable es
  | .nil, _ => itemsReadable_nil
  | .items h, ht => h.readable ht

theorem SpellsItems.readable {first next : NodeId} {ts : List Token} {es : List Expr} :
    SpellsItems first ts es next → (∀ t ∈ ts, t.Legible) → ItemsReadable es
  | .last h, ht => itemsReadable_cons (h.readable ht) itemsReadable_nil
  | .more h _ hr, ht =>
    itemsReadable_cons (h.readable fun t hm => ht t (by simp [hm]))
      (hr.readable fun t hm => ht t (by simp [hm]))

end

section Parts
variable {first next : NodeId} {ts : List Token}

theorem SpellsNames.identifiers {names : List Name} (h : SpellsNames ts names)
    (ht : ∀ t ∈ ts, t.Legible) : ∀ n ∈ names, IsIdentifier n.text := by
  induction h with
  | last hk => exact List.forall_mem_singleton.2 ((ht _ (by simp)).identifier hk)
  | more hk _ _ ih =>
    simp only [List.forall_mem_cons] at ht ⊢
    exact ⟨ht.1.identifier hk, ih ht.2.2⟩

theorem SpellsParameters.identifiers {params : List Name} (h : SpellsParameters ts params)
    (ht : ∀ t ∈ ts, t.Legible) : ∀ n ∈ params, IsIdentifier n.text := by
  cases h with
  | nil => simp
  | names h _ => exact h.identifiers ht

theorem SpellsOptional.readable {value : Option Expr} (h : SpellsOptional first ts value next)
    (ht : ∀ t ∈ ts, t.Legible) : ∀ e ∈ value, e.Readable := by
  cases h with
  | none => simp
  | some h => simpa using h.readable ht

theorem SpellsPlain.readable {s : Stmt} (h : SpellsPlain first ts s next) (ht : ∀ t ∈ ts, t.Legible) :
    s.Readable := by
  obtain ⟨h, -⟩ := h
  exact readable_expression (h.readable fun t hm => ht t (by simp [hm]))

theorem SpellsVariable.readable {s : Stmt} (h : SpellsVariable first ts s next)
    (ht : ∀ t ∈ ts, t.Legible) : s.Readable := by
  cases h with
  | bare hn _ => exact readable_declare ((ht _ (by simp)).identifier hn)
  | initialized hn _ h _ =>
    exact readable_initialized ((ht _ (by simp)).identifier hn) (h.readable fun t hm => ht t (by simp [hm]))

theorem SpellsInitializer.readable {o : Option Stmt} (h : SpellsInitializer first ts o next)
    (ht : ∀ t ∈ ts, t.Legible) : ∀ s ∈ o, s.Readable := by
  cases h with
  | none _ => simp
  | declare _ h => simpa using h.readable fun t hm => ht t (by simp [hm])
  | plain h => simpa using h.readable ht

/-- The loop that a `for` stands for. -/
theorem SpellsClauses.readable {clauses : ForClauses} {body : Stmt} (h : SpellsClauses first ts clauses next)
    (ht : ∀ t ∈ ts, t.Legible) (hb : body.Readable) : (clauses.loop body).Readable := by
  obtain @⟨_, _, _, _, _, _, _, _, _, initializer, condition, increment, _, hi, hc, _, hv, _⟩ := h
  replace hi := hi.readable fun t hm => ht t (by simp [hm])
  replace hc := hc.readable fun t hm => ht t (by simp [hm])
  replace hv := hv.readable fun t hm => ht t (by simp [hm])
  have hcondition : (condition.getD (.literal (.bool true))).Readable := by
    cases condition with
    | none => exact ⟨rfl, rfl⟩
    | some e => exact hc e rfl
  have hround : (ForClauses.round ⟨initializer, condition, increment⟩ body).Readable := by
    cases increment with
    | none => exact hb
    | some e =>
      exact readable_block
        (bodyReadable_cons hb (bodyReadable_cons (readable_expression (hv e rfl)) bodyReadable_nil))
  have hloop := readable_loop hcondition hround
  cases initializer with
  | none => exact hloop
  | some s => exact readable_block (bodyReadable_cons (hi s rfl) (bodyReadable_cons hloop bodyReadable_nil))

end Parts

mutual

theorem SpellsStmt.readable {isOpen : Bool} {first next : NodeId} {ts : List Token} {s : Stmt} :
    SpellsStmt isOpen first ts s next → (∀ t ∈ ts, t.Legible) → s.Readable
  | .plain h, ht => h.readable ht
  | .giveBack hk h _, ht =>
    readable_giveBack (toName_of_keyword (ht _ (by simp)).spelled hk) (h.readable fun t hm => ht t (by simp [hm]))
  | .block _ h _, ht => readable_block (h.readable fun t hm => ht t (by simp [hm]))
  | .loop _ _ h _ hs, ht =>
    readable_loop (h.readable fun t hm => ht t (by simp [hm])) (hs.readable fun t hm => ht t (by simp [hm]))
  | .forLoop _ h hs, ht =>
    h.readable (fun t hm => ht t (by simp [hm])) (hs.readable fun t hm => ht t (by simp [hm]))
  | .branch _ _ h _ hs, ht =>
    readable_branch (h.readable fun t hm => ht t (by simp [hm])) (hs.readable fun t hm => ht t (by simp [hm]))
  | .branchElse _ _ h _ hs _ he, ht =>
    readable_branchElse (h.readable fun t hm => ht t (by simp [hm]))
      (hs.readable fun t hm => ht t (by simp [hm])) (he.readable fun t hm => ht t (by simp [hm]))

theorem SpellsDeclaration.readable {isOpen : Bool} {first next : NodeId} {ts : List Token} {s : Stmt} :
    SpellsDeclaration isOpen first ts s next → (∀ t ∈ ts, t.Legible) → s.Readable
  | .declare _ h, ht => h.readable fun t hm => ht t (by simp [hm])
  | .function _ h, ht => readable_function (h.readable fun t hm => ht t (by simp [hm]))
  | .base _ hn _ h _, ht =>
    readable_base ((ht _ (by simp)).identifier hn) (h.readable fun t hm => ht t (by simp [hm]))
  | .derived _ hn _ hs _ h _, ht =>
    readable_derived ((ht _ (by simp)).identifier hn) ((ht _ (by simp)).identifier hs)
      (h.readable fun t hm => ht t (by simp [hm]))
  | .statement h, ht => h.readable ht

theorem SpellsBody.readable {first next : NodeId} {ts : List Token} {body : List Stmt} :
    SpellsBody first ts body next → (∀ t ∈ ts, t.Legible) → BodyReadable body
  | .nil, _ => bodyReadable_nil
  | .cons h hs, ht =>
    bodyReadable_cons (h.readable fun t hm => ht t (by simp [hm])) (hs.readable fun t hm => ht t (by simp [hm]))

theorem SpellsFunction.readable {first next : NodeId} {ts : List Token} {f : FunctionDecl} :
    SpellsFunction first ts f next → (∀ t ∈ ts, t.Legible) → f.Readable
  | .intro hn _ hp _ _ h _, ht =>
    function_readable ((ht _ (by simp)).identifier hn) (hp.identifiers fun t hm => ht t (by simp [hm]))
      (h.readable fun t hm => ht t (by simp [hm]))

theorem SpellsMethods.readable {first next : NodeId} {ts : List Token} {methods : List FunctionDecl} :
    SpellsMethods first ts methods next → (∀ t ∈ ts, t.Legible) → MethodsReadable methods
  | .nil, _ => methodsReadable_nil
  | .cons h hs, ht =>
    methodsReadable_cons (h.readable fun t hm => ht t (by simp [hm]))
      (hs.readable fun t hm => ht t (by simp [hm]))

end

/-! ## From the text -/

/-- There is neither a string nor a number with a point among the tokens. -/
def WithoutStringsAndFloats (ts : List Token) : Prop := ∀ t ∈ ts, t.kind.isStringOrFloat = false

instance (ts : List Token) : Decidable (WithoutStringsAndFloats ts) :=
  inferInstanceAs (Decidable (∀ t ∈ ts, _))

theorem exists_lexeme_of_wordsFrom {ls : List Lexeme} {line : Nat} {t : Token} (h : t ∈ wordsFrom line ls) :
    ∃ l ∈ ls, l.kind = .token t.kind ∧ t.lexeme = String.ofList l.text := by
  induction ls generalizing line with
  | nil => cases h
  | cons l rest ih =>
    rw [wordsFrom, List.mem_append, Lexeme.items_tokens] at h
    rcases h with h | h
    · refine ⟨l, List.mem_cons_self, ?_⟩
      split at h
      · next kind hk =>
        obtain rfl := List.mem_singleton.1 h
        exact ⟨hk, rfl⟩
      · cases h
    · obtain ⟨l', hl, hfound⟩ := ih h
      exact ⟨l', List.mem_cons_of_mem _ hl, hfound⟩

/-- The tokens of a text without strings and without numbers with a point. -/
theorem sourceWords_legible {source : String} (h : WithoutStringsAndFloats (tokens source)) :
    ∀ t ∈ sourceWords source, t.Legible := by
  intro t ht
  have hplain := h t (by rw [tokens_eq]; exact List.mem_append_left _ ht)
  have hspelled := (sourceWords_spelled source t ht).2
  refine ⟨hspelled, fun hk => ⟨?_, free_of_spelled hspelled hk⟩, hplain⟩
  obtain ⟨l, hl, hkind, hlexeme⟩ := exists_lexeme_of_wordsFrom ht
  rw [hlexeme, String.toList_ofList]
  exact lexemes_words l hl (hk ▸ hkind)

/-- A program read from a text without strings and without numbers with a point is got back from the parts of
its prefix text. -/
theorem readable_of_parse {source : String} {first : NodeId} {program : List Stmt}
    (h : (parse (tokens source) first).result = .ok program)
    (hplain : WithoutStringsAndFloats (tokens source)) : BodyReadable program := by
  obtain ⟨next, hs⟩ := parse_result_iff.1 h
  rw [wordsOf_tokens] at hs
  exact hs.readable (sourceWords_legible hplain)

theorem prefixTrees_eq_of_texts : (body body' : List Stmt) → PartsPlain (Stmt.prefixTrees body) →
    PartsPlain (Stmt.prefixTrees body') → body.map Stmt.prefixText = body'.map Stmt.prefixText →
    Stmt.prefixTrees body = Stmt.prefixTrees body'
  | [], [], _, _, _ => rfl
  | s :: rest, s' :: rest', h, h', htext => by
    simp only [List.map_cons, List.cons.injEq, ← Stmt.text_prefixTree] at htext
    rw [Stmt.prefixTrees, Stmt.prefixTrees, PrefixTree.text_injective h.1 h'.1 htext.1,
      prefixTrees_eq_of_texts rest rest' h.2 h'.2 htext.2]

/-- The prefix text is unambiguous: if the statements of two programs, read from texts without strings and
without numbers with a point, have the same prefix texts one by one, the programs are the same but for
identities and lines. -/
theorem prefix_text_unambiguous {source source' : String} {first first' : NodeId}
    {program program' : List Stmt} (h : (parse (tokens source) first).result = .ok program)
    (h' : (parse (tokens source') first').result = .ok program')
    (hplain : WithoutStringsAndFloats (tokens source)) (hplain' : WithoutStringsAndFloats (tokens source'))
    (htext : program.map Stmt.prefixText = program'.map Stmt.prefixText) :
    bareBody program = bareBody program' := by
  obtain ⟨hp, hread⟩ := readable_of_parse h hplain
  obtain ⟨hp', hread'⟩ := readable_of_parse h' hplain'
  rw [prefixTrees_eq_of_texts program program' hp hp' htext, hread'] at hread
  exact (Option.some.inj hread).symm

/-- The same program twice, with other blanks, lines and first identities. -/
theorem prefix_text_unambiguous_spaced :
    let parsing := parse (tokens "class A < B \x7b m(x) \x7b return x - -1; \x7d \x7d a.b[0] <<= f(a);") 0
    let parsing' := parse
      (tokens "class A<B\n\x7b m(x) \x7b return x--1;\x7d \x7d // a method\n a.b[0]<<=f(a);") 7
    parsing.statements.map Stmt.prefixText =
        ["(class A < B (fun m (x) (return (- x (- 1)))))", "(; (<<= (index (. a b) 0) (call f a)))"] ∧
      bodyIds parsing.statements ≠ bodyIds parsing'.statements ∧
      bareBody parsing.statements = bareBody parsing'.statements := by
  intro parsing parsing'
  have hresult {p : Parsing} (h : p.errors = []) : p.result = .ok p.statements := by
    unfold Parsing.result
    rw [h]
    rfl
  have htext : parsing.statements.map Stmt.prefixText = parsing'.statements.map Stmt.prefixText := by
    decide +kernel
  exact ⟨by decide +kernel, by decide +kernel,
    prefix_text_unambiguous (hresult (by decide +kernel)) (hresult (by decide +kernel)) (by decide +kernel)
      (by decide +kernel) htext⟩

end LoxLang
