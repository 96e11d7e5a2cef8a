import LoxLang.Proofs.Grammar.Soundness
import LoxLang.Proofs.Unparse

/-!
# What is read can be written

A tree that tokens spell is shaped, its declarations are placed, and unless a `for` loop is among the
tokens it is written with these very tokens. The proof follows the derivation. Loops of the form `for` are
written as the loops they stand for.
-/

namespace LoxLang

/-! ## Tokens -/

section Tokens
variable {t : Token}

theorem bare_mark {m : Mark} (h : t.Spelled) (hk : t.kind = .mark m) : t.bare = m.word := by
  obtain ⟨kind, lexeme, line⟩ := t
  subst hk
  change lexeme = m.text at h
  subst h
  rfl

theorem bare_keyword {k : Keyword} (h : t.Spelled) (hk : t.kind = .keyword k) : t.bare = k.word := by
  obtain ⟨kind, lexeme, line⟩ := t
  subst hk
  change lexeme = k.text at h
  subst h
  rfl

theorem bare_wordFor {k : Keyword} (hk : t.kind = .keyword k) : t.bare = k.wordFor t.toName := by
  obtain ⟨kind, lexeme, line⟩ := t
  subst hk
  rfl

theorem bare_name (hk : t.kind = .identifier) : t.bare = t.toName.word := by
  obtain ⟨kind, lexeme, line⟩ := t
  subst hk
  rfl

theorem bare_literal {value : Literal} (h : t.Spelled) (hk : t.kind.literal? = some value) :
    t.bare = value.word := by
  cases hkind : t.kind with
  | int n =>
    rw [hkind] at hk
    cases hk
    simp [Token.bare, hkind, Literal.word]
  | float x =>
    rw [hkind] at hk
    cases hk
    simp [Token.bare, hkind, Literal.word]
  | string text =>
    rw [hkind] at hk
    cases hk
    simp [Token.bare, hkind, Literal.word]
  | keyword k =>
    rw [bare_keyword h hkind]
    rw [hkind] at hk
    cases k <;> cases hk <;> rfl
  | mark m => rw [hkind] at hk; cases hk
  | identifier => rw [hkind] at hk; cases hk
  | eof => rw [hkind] at hk; cases hk

end Tokens

theorem UnaryOperator.mark_of_ofToken? {kind : TokenKind} {operator : UnaryOperator}
    (h : UnaryOperator.ofToken? kind = some operator) : kind = .mark operator.mark := by
  unfold UnaryOperator.ofToken? at h
  split at h <;> cases h <;> rfl

theorem AssignOperator.mark_of_ofToken? {kind : TokenKind} {operator : AssignOperator}
    (h : AssignOperator.ofToken? kind = some operator) :
    ∃ m, operator.mark? = some m ∧ kind = .mark m := by
  unfold AssignOperator.ofToken? at h
  split at h <;> cases h <;> exact ⟨_, rfl, rfl⟩

/-- The token of a joiner, and its level. -/
theorem Joiner.of_atLevel? {l : Level} {kind : TokenKind} {operator : Joiner}
    (h : Joiner.atLevel? l kind = some operator) :
    (∃ b, operator = .binary b ∧ b.level? = some l ∧ kind = .mark b.mark) ∨
      ∃ b, operator = .logical b ∧ b.level = l ∧ kind = .keyword b.keyword := by
  have hj := Joiner.ofToken?_of_atLevel? h
  unfold Joiner.ofToken? at hj
  split at hj
  · cases hj; exact .inr ⟨_, rfl, rfl, rfl⟩
  · cases hj; exact .inr ⟨_, rfl, rfl, rfl⟩
  all_goals first | (cases hj; exact .inl ⟨_, rfl, rfl, rfl⟩) | cases hj

/-! ## Expressions -/

/-- The expression can be written at the rank, with these tokens. -/
structure WrittenAs (r : Rank) (ts : List Token) (e : Expr) : Prop where
  shaped : e.Shaped
  rank : e.rank ≤ r
  words : ts.map Token.bare = e.words

/-- The expressions can be written with these tokens. -/
structure ItemsWrittenAs (ts : List Token) (es : List Expr) : Prop where
  shaped : AllShaped es
  words : ts.map Token.bare = itemWords es

section Forms
variable {r q : Rank} {ts us vs : List Token} {e left right value target : Expr} {es : List Expr}
  {t before after : Token}

theorem WrittenAs.mono (h : WrittenAs q ts e) (hq : q ≤ r) : WrittenAs r ts e :=
  ⟨h.shaped, Nat.le_trans h.rank hq, h.words⟩

theorem operand_le_level (l : Level) : Rank.operand l.tighter? ≤ .level l := by cases l <;> decide

theorem writtenAs_join {l : Level} {operator : Joiner} (ht : t.Spelled) (h : WrittenAs (.level l) ts left)
    (hj : Joiner.atLevel? l t.kind = some operator) (hr : WrittenAs (.operand l.tighter?) us right) :
    WrittenAs (.level l) (ts ++ t :: us) (operator.join left t.line right) := by
  obtain ⟨b, rfl, hl, hk⟩ | ⟨b, rfl, hl, hk⟩ := Joiner.of_atLevel? hj
  · refine ⟨?_, ?_, ?_⟩
    · simp only [Joiner.join, Expr.Shaped, hl]
      exact ⟨h.shaped, hr.shaped, h.rank, hr.rank⟩
    · simp only [Joiner.join, Expr.rank, hl]
      exact Nat.le_refl _
    · simp [Joiner.join, Expr.words, h.words, hr.words, bare_mark ht hk]
  · subst hl
    refine ⟨⟨h.shaped, hr.shaped, h.rank, hr.rank⟩, Nat.le_refl _, ?_⟩
    simp [Joiner.join, Expr.words, h.words, hr.words, bare_keyword ht hk]

theorem writtenAs_assign {operator : AssignOperator} (ht : t.Spelled) (h : WrittenAs q ts target)
    (ho : AssignOperator.ofToken? t.kind = some operator) (hv : WrittenAs .assignment us value)
    (ha : target.assigned? operator value = some e) : WrittenAs .assignment (ts ++ t :: us) e := by
  obtain ⟨m, hm, hk⟩ := AssignOperator.mark_of_ofToken? ho
  have hsome : operator.mark?.isSome := by rw [hm]; rfl
  have hword : t.bare :: us.map Token.bare = operator.words ++ value.words := by
    simp [AssignOperator.words, hm, bare_mark ht hk, hv.words]
  have hs := h.shaped
  have hw := h.words
  unfold Expr.assigned? at ha
  split at ha
  · cases ha
    refine ⟨⟨hsome, hv.shaped⟩, Nat.le_refl _, ?_⟩
    rw [List.map_append, List.map_cons, hword, hw]
    simp [Expr.words]
  · cases ha
    simp only [Expr.Shaped] at hs
    refine ⟨⟨hs.1, hs.2, hsome, hv.shaped⟩, Nat.le_refl _, ?_⟩
    rw [List.map_append, List.map_cons, hword, hw]
    simp [Expr.words]
  · cases ha
    simp only [Expr.Shaped] at hs
    refine ⟨⟨hs.1, hs.2.1, hs.2.2.1, hs.2.2.2, hsome, hv.shaped⟩, Nat.le_refl _, ?_⟩
    rw [List.map_append, List.map_cons, hword, hw]
    simp [Expr.words, CallStyle.opening, CallStyle.closing]
  · cases ha

theorem itemsWrittenAs_more {comma : Token} (hc : comma.Spelled) (h : WrittenAs .assignment ts e)
    (hm : comma.kind = .mark .comma) (hi : ItemsWrittenAs us es) (hne : es ≠ []) :
    ItemsWrittenAs (ts ++ comma :: us) (e :: es) := by
  refine ⟨⟨h.shaped, hi.shaped⟩, ?_⟩
  cases es with
  | nil => exact absurd rfl hne
  | cons f rest => simp [itemWords, h.words, hi.words, bare_mark hc hm]

end Forms

theorem SpellsItems.ne_nil {first next : NodeId} {ts : List Token} {es : List Expr}
    (h : SpellsItems first ts es next) : es ≠ [] := by
  cases h <;> exact List.cons_ne_nil _ _

mutual

theorem SpellsExpr.written {r : Rank} {first next : NodeId} {ts : List Token} {e : Expr} :
    SpellsExpr r first ts e next → (∀ t ∈ ts, t.Spelled) → WrittenAs r ts e
  | .literal hk, ht => ⟨trivial, Nat.le_refl _, by simp [Expr.words, bare_literal (ht _ (by simp)) hk]⟩
  | .reference hk, _ => ⟨trivial, Nat.le_refl _, by simp [Expr.words, bare_name hk]⟩
  | .grouping hb h ha, ht => by
    simp only [List.forall_mem_cons, List.forall_mem_append] at ht
    have hi := h.written ht.2.1
    refine ⟨hi.shaped, Nat.le_refl _, ?_⟩
    simp [Expr.words, bare_mark ht.1 hb, bare_mark ht.2.2.1 ha, hi.words]
  | .list hb h ha, ht => by
    simp only [List.forall_mem_cons, List.forall_mem_append] at ht
    have hi := h.written ht.2.1
    refine ⟨hi.shaped, Nat.le_refl _, ?_⟩
    simp [Expr.words, bare_mark ht.1 hb, bare_mark ht.2.2.1 ha, hi.words]
  | .receiver hk, _ => ⟨trivial, Nat.le_refl _, by simp [Expr.words, bare_wordFor hk]⟩
  | .inherited hk hd hn, ht => by
    simp only [List.forall_mem_cons] at ht
    refine ⟨trivial, Nat.le_refl _, ?_⟩
    simp [Expr.words, bare_wordFor hk, bare_mark ht.2.1 hd, bare_name hn]
  | .ofPrimary h, ht => (h.written ht).mono (by decide)
  | .call h hb hs hl ha, ht => by
    simp only [List.forall_mem_cons, List.forall_mem_append] at ht
    have hc := h.written ht.1
    have hi := hs.written ht.2.2.1
    refine ⟨⟨hc.shaped, hc.rank, hi.shaped, hl⟩, Nat.le_refl _, ?_⟩
    simp [Expr.words, bare_mark ht.2.1 hb, bare_mark ht.2.2.2.1 ha, hc.words, hi.words]
  | .get h hd hn, ht => by
    simp only [List.forall_mem_cons, List.forall_mem_append] at ht
    have ho := h.written ht.1
    refine ⟨⟨ho.shaped, ho.rank⟩, Nat.le_refl _, ?_⟩
    simp [Expr.words, bare_mark ht.2.1 hd, bare_name hn, ho.words]
  | .ofCall h, ht => (h.written ht).mono (by decide)
  | .power h hk hu, ht => by
    simp only [List.forall_mem_cons, List.forall_mem_append] at ht
    have hb := h.written ht.1
    have he := hu.written ht.2.2
    refine ⟨⟨hb.shaped, he.shaped, hb.rank, he.rank⟩, Nat.le_refl _, ?_⟩
    simp [Expr.words, bare_mark ht.2.1 hk, hb.words, he.words, BinaryOperator.mark]
  | .ofPower h, ht => (h.written ht).mono (by decide)
  | .unary hk h, ht => by
    simp only [List.forall_mem_cons] at ht
    have hr := h.written ht.2
    refine ⟨⟨hr.shaped, hr.rank⟩, Nat.le_refl _, ?_⟩
    simp [Expr.words, bare_mark ht.1 (UnaryOperator.mark_of_ofToken? hk), hr.words]
  | .ofOperand h, ht => (h.written ht).mono (operand_le_level _)
  | .join h hk hr, ht => by
    simp only [List.forall_mem_cons, List.forall_mem_append] at ht
    exact writtenAs_join ht.2.1 (h.written ht.1) hk (hr.written ht.2.2)
  | .ofLevel h, ht => (h.written ht).mono (by decide)
  | .assign h hk hv ha, ht => by
    simp only [List.forall_mem_cons, List.forall_mem_append] at ht
    exact writtenAs_assign ht.2.1 (h.written ht.1) hk (hv.written ht.2.2) ha

theorem SpellsArguments.written {first next : NodeId} {ts : List Token} {es : List Expr} :
    SpellsArguments first ts es next → (∀ t ∈ ts, t.Spelled) → ItemsWrittenAs ts es
  | .nil, _ => ⟨trivial, rfl⟩
  | .items h, ht => h.written ht

theorem SpellsItems.written {first next : NodeId} {ts : List Token} {es : List Expr} :
    SpellsItems first ts es next → (∀ t ∈ ts, t.Spelled) → ItemsWrittenAs ts es
  | .last h, ht =>
    have he := h.written ht
    ⟨⟨he.shaped, trivial⟩, he.words⟩
  | .more h hm hr, ht => by
    simp only [List.forall_mem_cons, List.forall_mem_append] at ht
    exact itemsWrittenAs_more ht.2.1 (h.written ht.1) hm (hr.written ht.2.2) hr.ne_nil

end

/-! ## Statements -/

/-- No `for` is among the tokens. -/
abbrev WithoutFor (ts : List Token) : Prop := ∀ t ∈ ts, t.kind ≠ .keyword .forWord

/-- The declaration can be written, and with these tokens unless they hold a `for`. -/
structure DeclarationWrittenAs (isOpen : Bool) (ts : List Token) (s : Stmt) : Prop where
  shaped : s.Shaped
  placed : s.Placed
  ends : s.endsOpen = true → isOpen = true
  words : WithoutFor ts → ts.map Token.bare = s.words

/-- The statement can be written, and with these tokens unless they hold a `for`. -/
structure StmtWrittenAs (isOpen : Bool) (ts : List Token) (s : Stmt) : Prop
    extends DeclarationWrittenAs isOpen ts s where
  statement : s.isDeclaration = false

/-- The declarations can be written, and with these tokens unless they hold a `for`. -/
structure BodyWrittenAs (ts : List Token) (body : List Stmt) : Prop where
  shaped : BodyShaped body
  placed : BodyPlaced body
  words : WithoutFor ts → ts.map Token.bare = bodyWords body

/-- The function can be written, and with these tokens unless they hold a `for`. -/
structure FunctionWrittenAs (ts : List Token) (f : FunctionDecl) : Prop where
  shaped : f.Shaped
  placed : f.Placed
  words : WithoutFor ts → ts.map Token.bare = f.words

/-- The methods can be written, and with these tokens unless they hold a `for`. -/
structure MethodsWrittenAs (ts : List Token) (methods : List FunctionDecl) : Prop where
  shaped : MethodsShaped methods
  placed : MethodsPlaced methods
  words : WithoutFor ts → ts.map Token.bare = methodWords methods

section Parts
variable {first next : NodeId} {ts : List Token}

theorem SpellsNames.written {names : List Name} (h : SpellsNames ts names)
    (ht : ∀ t ∈ ts, t.Spelled) : ts.map Token.bare = nameWords names := by
  induction h with
  | last hk => simp [nameWords, bare_name hk]
  | more hk hm hr ih =>
    simp only [List.forall_mem_cons] at ht
    have hw := ih ht.2.2
    cases hr <;> simp_all [nameWords, bare_name, bare_mark]

theorem SpellsParameters.written {params : List Name} (h : SpellsParameters ts params)
    (ht : ∀ t ∈ ts, t.Spelled) :
    params.length ≤ argumentLimit ∧ ts.map Token.bare = nameWords params := by
  cases h with
  | nil => exact ⟨Nat.zero_le _, rfl⟩
  | names h hl => exact ⟨hl, h.written ht⟩

theorem SpellsOptional.written {value : Option Expr} (h : SpellsOptional first ts value next)
    (ht : ∀ t ∈ ts, t.Spelled) :
    OptionalShaped value ∧ ts.map Token.bare = optionalWords value := by
  cases h with
  | none => exact ⟨trivial, rfl⟩
  | some h => exact ⟨(h.written ht).shaped, (h.written ht).words⟩

theorem SpellsPlain.written {s : Stmt} (h : SpellsPlain first ts s next) (ht : ∀ t ∈ ts, t.Spelled) :
    StmtWrittenAs false ts s := by
  obtain ⟨h, hs⟩ := h
  simp only [List.forall_mem_append, List.forall_mem_cons] at ht
  have he := h.written ht.1
  refine ⟨⟨he.shaped, trivial, fun h => (by cases h), fun _ => ?_⟩, rfl⟩
  simp [Stmt.words, he.words, bare_mark ht.2.1 hs]

/-- A variable declaration together with its keyword. -/
theorem SpellsVariable.written {s : Stmt} {keyword : Token} (h : SpellsVariable first ts s next)
    (hk : keyword.kind = .keyword .varWord) (ht : ∀ t ∈ keyword :: ts, t.Spelled) :
    DeclarationWrittenAs false (keyword :: ts) s := by
  cases h with
  | bare hn hs =>
    simp only [List.forall_mem_cons] at ht
    refine ⟨trivial, trivial, fun h => (by cases h), fun _ => ?_⟩
    simp [Stmt.words, bare_keyword ht.1 hk, bare_name hn, bare_mark ht.2.2.1 hs]
  | initialized hn he h hs =>
    simp only [List.forall_mem_append, List.forall_mem_cons] at ht
    have hw := h.written ht.2.2.2.1
    refine ⟨hw.shaped, trivial, fun h => (by cases h), fun _ => ?_⟩
    simp [Stmt.words, bare_keyword ht.1 hk, bare_name hn, bare_mark ht.2.2.1 he, hw.words,
      bare_mark ht.2.2.2.2.1 hs]

/-- One round of a `for` loop can be written. -/
theorem StmtWrittenAs.round {c : ForClauses} {body : Stmt} {isOpen : Bool}
    (h : StmtWrittenAs isOpen ts body) (hi : OptionalShaped c.increment) :
    (c.round body).Shaped ∧ (c.round body).Placed ∧
      ((c.round body).endsOpen = true → isOpen = true) ∧
      (c.round body).isDeclaration = false := by
  unfold ForClauses.round
  split
  · next increment hincrement =>
    rw [hincrement] at hi
    exact ⟨⟨h.shaped, hi, trivial⟩, ⟨h.placed, trivial, trivial⟩, fun h => (by cases h), rfl⟩
  · exact ⟨h.shaped, h.placed, h.ends, h.statement⟩

/-- A loop that a `for` stands for can be written. -/
theorem SpellsClauses.written {clauses : ForClauses} {body : Stmt} {isOpen : Bool} {us : List Token}
    (h : SpellsClauses first ts clauses next) (ht : ∀ t ∈ ts, t.Spelled)
    (hb : StmtWrittenAs isOpen us body) :
    (clauses.loop body).Shaped ∧ (clauses.loop body).Placed ∧
      ((clauses.loop body).endsOpen = true → isOpen = true) ∧
      (clauses.loop body).isDeclaration = false := by
  obtain @⟨_, _, _, _, _, _, _, _, _, initializer, condition, increment, _, hi, hc, _, hv, _⟩ := h
  simp only [List.forall_mem_append, List.forall_mem_cons] at ht
  obtain ⟨-, hti, htc, -, htv, -⟩ := ht
  replace hc := (hc.written htc).1
  replace hv := (hv.written htv).1
  have hinit : ∀ s, initializer = some s → s.Shaped ∧ s.Placed := by
    intro s hs
    subst hs
    cases hi with
    | declare hk h =>
      have hw := h.written hk hti
      exact ⟨hw.shaped, hw.placed⟩
    | plain h =>
      have hw := h.written hti
      exact ⟨hw.shaped, hw.placed⟩
  have hcond : (condition.getD (.literal (.bool true))).Shaped := by
    cases condition with
    | none => trivial
    | some e => exact hc
  obtain ⟨hs, hp, ho, hd⟩ := hb.round (c := ⟨initializer, condition, increment⟩) hv
  unfold ForClauses.loop
  cases initializer with
  | none => exact ⟨⟨hcond, hs⟩, ⟨hd, hp⟩, ho, rfl⟩
  | some s =>
    obtain ⟨hss, hsp⟩ := hinit s rfl
    exact ⟨⟨hss, ⟨hcond, hs⟩, trivial⟩, ⟨hsp, ⟨hd, hp⟩, trivial⟩, fun h => (by cases h), rfl⟩

end Parts

mutual

theorem SpellsStmt.written {isOpen : Bool} {first next : NodeId} {ts : List Token} {s : Stmt} :
    SpellsStmt isOpen first ts s next → (∀ t ∈ ts, t.Spelled) → StmtWrittenAs isOpen ts s
  | .plain h, ht => h.written ht
  | .giveBack hk h hs, ht => by
    simp only [List.forall_mem_append, List.forall_mem_cons] at ht
    have hv := h.written ht.2.1
    refine ⟨⟨hv.1, trivial, fun h => (by cases h), fun _ => ?_⟩, rfl⟩
    simp [Stmt.words, bare_wordFor hk, hv.2, bare_mark ht.2.2.1 hs]
  | .block hb h ha, ht => by
    simp only [List.forall_mem_append, List.forall_mem_cons] at ht
    have hw := h.written ht.2.1
    refine ⟨⟨hw.shaped, hw.placed, fun h => (by cases h), fun hf => ?_⟩, rfl⟩
    simp only [WithoutFor, List.forall_mem_append, List.forall_mem_cons] at hf
    simp [Stmt.words, bare_mark ht.1 hb, hw.words hf.2.1, bare_mark ht.2.2.1 ha]
  | .loop hk hb h ha hs, ht => by
    simp only [List.forall_mem_append, List.forall_mem_cons] at ht
    obtain ⟨htk, htb, htc, hta, hts⟩ := ht
    have hc := h.written htc
    have hw := hs.written hts
    refine ⟨⟨⟨hc.shaped, hw.shaped⟩, ⟨hw.statement, hw.placed⟩, hw.ends, fun hf => ?_⟩, rfl⟩
    simp only [WithoutFor, List.forall_mem_append, List.forall_mem_cons] at hf
    simp [Stmt.words, bare_keyword htk hk, bare_mark htb hb, hc.words, bare_mark hta ha,
      hw.words hf.2.2.2.2]
  | .forLoop hk h hs, ht => by
    simp only [List.forall_mem_append, List.forall_mem_cons] at ht
    obtain ⟨hsh, hp, ho, hd⟩ := h.written ht.2.1 (hs.written ht.2.2)
    exact ⟨⟨hsh, hp, ho, fun hf => absurd hk (hf _ (by simp))⟩, hd⟩
  | .branch hk hb h ha hs, ht => by
    simp only [List.forall_mem_append, List.forall_mem_cons] at ht
    obtain ⟨htk, htb, htc, hta, hts⟩ := ht
    have hc := h.written htc
    have hw := hs.written hts
    refine ⟨⟨⟨hc.shaped, hw.shaped⟩, ⟨hw.statement, hw.placed⟩, fun _ => rfl, fun hf => ?_⟩, rfl⟩
    simp only [WithoutFor, List.forall_mem_append, List.forall_mem_cons] at hf
    simp [Stmt.words, bare_keyword htk hk, bare_mark htb hb, hc.words, bare_mark hta ha,
      hw.words hf.2.2.2.2]
  | .branchElse hk hb h ha hs hw he, ht => by
    simp only [List.forall_mem_append, List.forall_mem_cons] at ht
    obtain ⟨htk, htb, htc, hta, hts, htw, hte⟩ := ht
    have hc := h.written htc
    have hthen := hs.written hts
    have helse := he.written hte
    have hclosed : _ = false := Bool.eq_false_iff.2 fun h => by cases hthen.ends h
    refine ⟨⟨⟨hc.shaped, hthen.shaped, hclosed, helse.shaped⟩,
      ⟨hthen.statement, hthen.placed, helse.statement, helse.placed⟩, helse.ends, fun hf => ?_⟩, rfl⟩
    simp only [WithoutFor, List.forall_mem_append, List.forall_mem_cons] at hf
    simp [Stmt.words, bare_keyword htk hk, bare_mark htb hb, hc.words, bare_mark hta ha,
      hthen.words hf.2.2.2.2.1, bare_keyword htw hw, helse.words hf.2.2.2.2.2.2]

theorem SpellsDeclaration.written {isOpen : Bool} {first next : NodeId} {ts : List Token} {s : Stmt} :
    SpellsDeclaration isOpen first ts s next → (∀ t ∈ ts, t.Spelled) → DeclarationWrittenAs isOpen ts s
  | .declare hk h, ht => h.written hk ht
  | .function hk h, ht => by
    simp only [List.forall_mem_cons] at ht
    have hw := h.written ht.2
    refine ⟨hw.shaped, hw.placed, fun h => (by cases h), fun hf => ?_⟩
    simp only [WithoutFor, List.forall_mem_cons] at hf
    simp [Stmt.words, bare_keyword ht.1 hk, hw.words hf.2]
  | .base hk hn hb h ha, ht => by
    simp only [List.forall_mem_append, List.forall_mem_cons] at ht
    obtain ⟨htk, -, htb, htm, hta, -⟩ := ht
    have hw := h.written htm
    refine ⟨hw.shaped, hw.placed, fun h => (by cases h), fun hf => ?_⟩
    simp only [WithoutFor, List.forall_mem_append, List.forall_mem_cons] at hf
    simp [Stmt.words, bare_keyword htk hk, bare_name hn, bare_mark htb hb, hw.words hf.2.2.2.1,
      bare_mark hta ha]
  | .derived hk hn hl hs hb h ha, ht => by
    simp only [List.forall_mem_append, List.forall_mem_cons] at ht
    obtain ⟨htk, -, htl, -, htb, htm, hta, -⟩ := ht
    have hw := h.written htm
    refine ⟨hw.shaped, hw.placed, fun h => (by cases h), fun hf => ?_⟩
    simp only [WithoutFor, List.forall_mem_append, List.forall_mem_cons] at hf
    simp [Stmt.words, bare_keyword htk hk, bare_name hn, bare_mark htl hl, bare_name hs,
      bare_mark htb hb, hw.words hf.2.2.2.2.2.1, bare_mark hta ha]
  | .statement h, ht => (h.written ht).toDeclarationWrittenAs

theorem SpellsBody.written {first next : NodeId} {ts : List Token} {body : List Stmt} :
    SpellsBody first ts body next → (∀ t ∈ ts, t.Spelled) → BodyWrittenAs ts body
  | .nil, _ => ⟨trivial, trivial, fun _ => rfl⟩
  | .cons h hs, ht => by
    simp only [List.forall_mem_append] at ht
    have hw := h.written ht.1
    have hr := hs.written ht.2
    refine ⟨⟨hw.shaped, hr.shaped⟩, ⟨hw.placed, hr.placed⟩, fun hf => ?_⟩
    simp only [WithoutFor, List.forall_mem_append] at hf
    simp [bodyWords, hw.words hf.1, hr.words hf.2]

theorem SpellsFunction.written {first next : NodeId} {ts : List Token} {f : FunctionDecl} :
    SpellsFunction first ts f next → (∀ t ∈ ts, t.Spelled) → FunctionWrittenAs ts f
  | .intro hn hb hp ha ho h hc, ht => by
    simp only [List.forall_mem_append, List.forall_mem_cons] at ht
    obtain ⟨-, htb, htp, hta, hto, hts, htc, -⟩ := ht
    have hparams := hp.written htp
    have hw := h.written hts
    refine ⟨⟨hparams.1, hw.shaped⟩, hw.placed, fun hf => ?_⟩
    simp only [WithoutFor, List.forall_mem_append, List.forall_mem_cons] at hf
    simp [FunctionDecl.words, bare_name hn, bare_mark htb hb, hparams.2, bare_mark hta ha,
      bare_mark hto ho, hw.words hf.2.2.2.2.2.1, bare_mark htc hc]

theorem SpellsMethods.written {first next : NodeId} {ts : List Token} {methods : List FunctionDecl} :
    SpellsMethods first ts methods next → (∀ t ∈ ts, t.Spelled) → MethodsWrittenAs ts methods
  | .nil, _ => ⟨trivial, trivial, fun _ => rfl⟩
  | .cons h hs, ht => by
    simp only [List.forall_mem_append] at ht
    have hw := h.written ht.1
    have hr := hs.written ht.2
    refine ⟨⟨hw.shaped, hr.shaped⟩, ⟨hw.placed, hr.placed⟩, fun hf => ?_⟩
    simp only [WithoutFor, List.forall_mem_append] at hf
    simp [methodWords, hw.words hf.1, hr.words hf.2]

end

end LoxLang
