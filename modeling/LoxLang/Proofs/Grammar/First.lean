import LoxLang.Proofs.Grammar
import LoxLang.Proofs.Grammar.Fuel

/-!
# Where phrases begin and end

The first token of a phrase tells which rule reads it, and the token behind a phrase tells that it has
ended. Both are properties of the kind of one token.
-/

namespace LoxLang

open Reader

/-! ## Beginnings -/

namespace TokenKind

/-- Whether a token of this kind begins a primary expression. -/
def startsPrimary : TokenKind → Bool
  | identifier => true
  | mark .leftParen => true
  | mark .leftBracket => true
  | keyword .thisWord => true
  | keyword .superWord => true
  | kind => kind.literal?.isSome

/-- Whether a token of this kind begins an expression. -/
def startsExpr (kind : TokenKind) : Bool :=
  kind.startsPrimary || (UnaryOperator.ofToken? kind).isSome

/-- Whether a token of this kind begins a statement. -/
def beginsStatement : TokenKind → Bool
  | keyword .forWord => true
  | keyword .ifWord => true
  | keyword .whileWord => true
  | keyword .returnWord => true
  | mark .leftBrace => true
  | kind => kind.startsExpr

/-- Whether a token of this kind begins a declaration or a statement. -/
def beginsDeclaration : TokenKind → Bool
  | keyword .classWord => true
  | keyword .funWord => true
  | keyword .varWord => true
  | kind => kind.beginsStatement

theorem startsPrimary_of_literal {kind : TokenKind} {value : Literal}
    (h : kind.literal? = some value) : kind.startsPrimary = true := by
  unfold startsPrimary
  split <;> simp [h]

theorem startsExpr_of_startsPrimary {kind : TokenKind} (h : kind.startsPrimary = true) :
    kind.startsExpr = true := by
  unfold startsExpr
  rw [h, Bool.true_or]

theorem startsExpr_of_unary {kind : TokenKind} {operator : UnaryOperator}
    (h : UnaryOperator.ofToken? kind = some operator) : kind.startsExpr = true := by
  simp [startsExpr, h]

theorem beginsStatement_of_startsExpr {kind : TokenKind} (h : kind.startsExpr = true) :
    kind.beginsStatement = true := by
  unfold beginsStatement
  split <;> trivial

theorem beginsDeclaration_of_beginsStatement {kind : TokenKind} (h : kind.beginsStatement = true) :
    kind.beginsDeclaration = true := by
  unfold beginsDeclaration
  split <;> trivial

theorem not_unary_of_startsPrimary {kind : TokenKind} (h : kind.startsPrimary = true) :
    UnaryOperator.ofToken? kind = none := by
  unfold UnaryOperator.ofToken?
  split
  · cases h
  · cases h
  · cases h
  · rfl

end TokenKind

/-- The first of the tokens has the property. -/
def BeginsWith (p : TokenKind → Bool) (ts : List Token) : Prop :=
  ∃ t us, ts = t :: us ∧ p t.kind = true

namespace BeginsWith
variable {p q : TokenKind → Bool} {ts us : List Token}

theorem cons {t : Token} (h : p t.kind = true) : BeginsWith p (t :: ts) := ⟨t, ts, rfl, h⟩

theorem append (h : BeginsWith p ts) : BeginsWith p (ts ++ us) := by
  obtain ⟨t, vs, rfl, ht⟩ := h
  exact ⟨t, vs ++ us, rfl, ht⟩

theorem mono (h : BeginsWith p ts) (hp : ∀ kind, p kind = true → q kind = true) : BeginsWith q ts := by
  obtain ⟨t, vs, rfl, ht⟩ := h
  exact ⟨t, vs, rfl, hp _ ht⟩

theorem ne_nil (h : BeginsWith p ts) : ts ≠ [] := by
  obtain ⟨t, vs, rfl, -⟩ := h
  exact List.cons_ne_nil t vs

theorem absent {kind : TokenKind} (h : BeginsWith p ts) (hk : p kind = false) : Absent kind ts := by
  obtain ⟨t, vs, rfl, ht⟩ := h
  intro u hu hkind
  cases hu
  rw [hkind, hk] at ht
  cases ht

theorem refused {α : Type} {choose : TokenKind → Option α} (h : BeginsWith p ts)
    (hp : ∀ kind, p kind = true → choose kind = none) : Refused choose ts := by
  obtain ⟨t, vs, rfl, ht⟩ := h
  intro u hu
  cases hu
  exact hp _ ht

end BeginsWith

@[simp] theorem absent_cons {kind : TokenKind} {t : Token} {ts : List Token} :
    Absent kind (t :: ts) ↔ t.kind ≠ kind := by simp [Absent]

@[simp] theorem absent_nil {kind : TokenKind} : Absent kind [] := by simp [Absent]

@[simp] theorem refused_cons {α : Type} {choose : TokenKind → Option α} {t : Token} {ts : List Token} :
    Refused choose (t :: ts) ↔ choose t.kind = none := by simp [Refused]

/-- The kinds of token that begin an expression of a rank. -/
def Rank.starts : Rank → TokenKind → Bool
  | .primary => TokenKind.startsPrimary
  | .call => TokenKind.startsPrimary
  | .power => TokenKind.startsPrimary
  | .unary => TokenKind.startsExpr
  | .level _ => TokenKind.startsExpr
  | .assignment => TokenKind.startsExpr

theorem Rank.startsExpr_of_starts {r : Rank} {kind : TokenKind} (h : r.starts kind = true) :
    kind.startsExpr = true := by
  cases r <;> first | exact h | exact TokenKind.startsExpr_of_startsPrimary h

theorem SpellsExpr.begins {r : Rank} {first next : NodeId} {ts : List Token} {e : Expr} :
    SpellsExpr r first ts e next → BeginsWith r.starts ts
  | .literal h => .cons (TokenKind.startsPrimary_of_literal h)
  | .reference h => .cons (by rw [h]; rfl)
  | .grouping h _ _ => .cons (by rw [h]; rfl)
  | .list h _ _ => .cons (by rw [h]; rfl)
  | .receiver h => .cons (by rw [h]; rfl)
  | .inherited h _ _ => .cons (by rw [h]; rfl)
  | .ofPrimary h => h.begins
  | .call h _ _ _ _ => h.begins.append
  | .get h _ _ => h.begins.append
  | .ofCall h => h.begins
  | .power h _ _ => h.begins.append
  | .ofPower h => h.begins.mono fun _ => TokenKind.startsExpr_of_startsPrimary
  | .unary h _ => .cons (TokenKind.startsExpr_of_unary h)
  | .ofOperand h => h.begins.mono fun _ => Rank.startsExpr_of_starts
  | .join h _ _ => h.begins.append
  | .ofLevel h => h.begins
  | .assign h _ _ _ => h.begins.append

theorem SpellsExpr.begins_expr {r : Rank} {first next : NodeId} {ts : List Token} {e : Expr}
    (h : SpellsExpr r first ts e next) : BeginsWith TokenKind.startsExpr ts :=
  h.begins.mono fun _ => Rank.startsExpr_of_starts

theorem SpellsItems.begins {first next : NodeId} {ts : List Token} {es : List Expr}
    (h : SpellsItems first ts es next) : BeginsWith TokenKind.startsExpr ts := by
  cases h with
  | last h => exact h.begins
  | more h _ _ => exact h.begins.append

theorem SpellsPlain.begins {first next : NodeId} {ts : List Token} {s : Stmt}
    (h : SpellsPlain first ts s next) : BeginsWith TokenKind.startsExpr ts := by
  obtain ⟨h, -⟩ := h
  exact h.begins.append

theorem SpellsStmt.begins {isOpen : Bool} {first next : NodeId} {ts : List Token} {s : Stmt}
    (h : SpellsStmt isOpen first ts s next) : BeginsWith TokenKind.beginsStatement ts := by
  cases h with
  | plain h => exact h.begins.mono fun _ => TokenKind.beginsStatement_of_startsExpr
  | giveBack h _ _ => exact .cons (by rw [h]; rfl)
  | block h _ _ => exact .cons (by rw [h]; rfl)
  | loop h _ _ _ _ => exact .cons (by rw [h]; rfl)
  | forLoop h _ _ => exact .cons (by rw [h]; rfl)
  | branch h _ _ _ _ => exact .cons (by rw [h]; rfl)
  | branchElse h _ _ _ _ _ _ => exact .cons (by rw [h]; rfl)

theorem SpellsDeclaration.begins {isOpen : Bool} {first next : NodeId} {ts : List Token} {s : Stmt}
    (h : SpellsDeclaration isOpen first ts s next) : BeginsWith TokenKind.beginsDeclaration ts := by
  cases h with
  | declare h _ => exact .cons (by rw [h]; rfl)
  | function h _ => exact .cons (by rw [h]; rfl)
  | base h _ _ _ _ => exact .cons (by rw [h]; rfl)
  | derived h _ _ _ _ _ _ => exact .cons (by rw [h]; rfl)
  | statement h => exact h.begins.mono fun _ => TokenKind.beginsDeclaration_of_beginsStatement

/-! ## Ends -/

/-- Whether a token of this kind selects something from a call. -/
def TokenKind.selects : TokenKind → Bool
  | mark .leftParen => true
  | mark .leftBracket => true
  | mark .dot => true
  | _ => false

/-- Whether a token of this kind, behind an expression of a rank, makes it longer. -/
def Rank.goesOn : Rank → TokenKind → Bool
  | .primary, _ => false
  | .call, kind => kind.selects
  | .power, kind => kind.selects || kind == .mark .starStar
  | .unary, kind => kind.selects || kind == .mark .starStar
  | .level l, kind =>
    kind.selects || kind == .mark .starStar ||
      (Joiner.ofToken? kind).any fun found => found.1.height ≤ l.height
  | .assignment, kind =>
    kind.selects || kind == .mark .starStar || (Joiner.ofToken? kind).isSome ||
      (AssignOperator.ofToken? kind).isSome

/-- No token comes next that makes an expression of the rank longer. -/
def Stops (r : Rank) (ts : List Token) : Prop := ∀ t ∈ ts.head?, r.goesOn t.kind = false

@[simp] theorem stops_cons {r : Rank} {t : Token} {ts : List Token} :
    Stops r (t :: ts) ↔ r.goesOn t.kind = false := by simp [Stops]

theorem Stops.mono {r q : Rank} {ts : List Token} (h : Stops r ts)
    (hg : ∀ kind, r.goesOn kind = false → q.goesOn kind = false) : Stops q ts :=
  fun t ht => hg _ (h t ht)

theorem Stops.call {ts : List Token} (h : Stops .power ts) : Stops .call ts :=
  h.mono fun kind hk => by
    simp only [Rank.goesOn, Bool.or_eq_false_iff] at hk ⊢
    exact hk.1

theorem Stops.operand {l : Level} {ts : List Token} (h : Stops (.level l) ts) :
    Stops (.operand l.tighter?) ts := by
  refine h.mono fun kind hk => ?_
  have hh := operandHeight_tighter l
  cases ho : l.tighter? with
  | none =>
    simp only [Rank.operand, Rank.goesOn, Bool.or_eq_false_iff] at hk ⊢
    exact hk.1
  | some l' =>
    rw [ho, operandHeight] at hh
    simp only [Rank.operand, Rank.goesOn, Bool.or_eq_false_iff] at hk ⊢
    refine ⟨hk.1, ?_⟩
    cases hj : Joiner.ofToken? kind with
    | none => rfl
    | some found =>
      have := hk.2
      simp only [hj, Option.any_some, decide_eq_false_iff_not] at this ⊢
      omega

theorem Stops.level {ts : List Token} (h : Stops .assignment ts) : Stops (.level .disjunction) ts := by
  refine h.mono fun kind hk => ?_
  simp only [Rank.goesOn, Bool.or_eq_false_iff, Option.isSome_eq_false_iff, Option.isNone_iff_eq_none]
    at hk ⊢
  obtain ⟨⟨hk, hj⟩, -⟩ := hk
  exact ⟨hk, by rw [hj]; rfl⟩

/-- Closing marks and separators end every expression. -/
def Mark.closes : Mark → Bool
  | .rightParen => true
  | .rightBracket => true
  | .comma => true
  | .semicolon => true
  | _ => false

theorem stops_of_closes {r : Rank} {mark : Mark} {t : Token} {ts : List Token}
    (ht : t.kind = .mark mark) (hm : mark.closes = true) : Stops r (t :: ts) := by
  rw [stops_cons, ht]
  cases mark <;> first | (cases hm; done) | (cases r <;> rfl)

theorem Joiner.ofToken?_of_atLevel? {l : Level} {kind : TokenKind} {operator : Joiner}
    (h : Joiner.atLevel? l kind = some operator) : Joiner.ofToken? kind = some (l, operator) := by
  unfold Joiner.atLevel? at h
  split at h
  · next found op hf =>
    split at h
    · next hl =>
      cases h
      rw [hf, hl]
    · cases h
  · cases h

theorem selects_of_joiner {kind : TokenKind} {found : Level × Joiner}
    (h : Joiner.ofToken? kind = some found) : (kind.selects || kind == .mark .starStar) = false := by
  unfold TokenKind.selects
  split
  · cases h
  · cases h
  · cases h
  · rw [Bool.false_or, beq_eq_false_iff_ne]
    rintro rfl
    cases h

/-- An operator of a level ends its left operand. -/
theorem stops_operand_of_joiner {l : Level} {t : Token} {ts : List Token} {operator : Joiner}
    (h : Joiner.atLevel? l t.kind = some operator) : Stops (.operand l.tighter?) (t :: ts) := by
  have hj := Joiner.ofToken?_of_atLevel? h
  have hs := selects_of_joiner hj
  have hh := operandHeight_tighter l
  rw [stops_cons]
  cases ho : l.tighter? with
  | none => exact hs
  | some l' =>
    rw [ho, operandHeight] at hh
    simp only [Rank.operand, Rank.goesOn, hs, hj, Option.any_some, Bool.false_or,
      decide_eq_false_iff_not]
    omega

theorem stops_level_of_assign {t : Token} {ts : List Token} {operator : AssignOperator}
    (h : AssignOperator.ofToken? t.kind = some operator) : Stops (.level .disjunction) (t :: ts) := by
  rw [stops_cons]
  unfold AssignOperator.ofToken? at h
  split at h
  all_goals first | (cases h; done) | (next hk => rw [hk]; rfl)

theorem refused_joiner_of_stops {l : Level} {ts : List Token} (h : Stops (.level l) ts) :
    Refused (Joiner.atLevel? l) ts := by
  intro t ht
  have hk := h t ht
  cases hj : Joiner.atLevel? l t.kind with
  | none => rfl
  | some operator =>
    rw [Rank.goesOn, Joiner.ofToken?_of_atLevel? hj] at hk
    simp at hk

theorem refused_assign_of_stops {ts : List Token} (h : Stops .assignment ts) :
    Refused AssignOperator.ofToken? ts := by
  intro t ht
  have hk := h t ht
  simp only [Rank.goesOn, Bool.or_eq_false_iff, Option.isSome_eq_false_iff,
    Option.isNone_iff_eq_none] at hk
  exact hk.2

theorem absent_starStar_of_stops {ts : List Token} (h : Stops .power ts) :
    Absent (.mark .starStar) ts := by
  intro t ht hk
  have := h t ht
  rw [hk] at this
  cases this

theorem absent_of_stops_call {ts : List Token} {mark : Mark} (h : Stops .call ts)
    (hm : (TokenKind.mark mark).selects = true) : Absent (.mark mark) ts := by
  intro t ht hk
  have hs := h t ht
  rw [hk, Rank.goesOn, hm] at hs
  cases hs

end LoxLang
