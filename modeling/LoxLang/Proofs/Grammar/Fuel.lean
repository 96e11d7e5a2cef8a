import LoxLang.Proofs.Grammar.Law
import LoxLang.Tree.Parse

/-!
# The fuel of a reading

A rule given fuel in proportion to the tokens that are left does not run out of it. Between two tokens
that are taken the rules nest by a constant, the height of the rule, and every loop of the grammar takes a
token in each round; the slope of the fuel is larger than every height.
-/

namespace LoxLang

namespace Reader

/-- With at most `count` tokens left the step comes to an end, and if it ends well it has taken `spent`
tokens or all that were left. Identities are only given away, never taken back. -/
def Lasts {α : Type} (count spent : Nat) (step : Reader α) : Prop :=
  ∀ s, s.pending.length ≤ count → match step s with
    | .ok _ s' => s'.pending.length ≤ s.pending.length - spent ∧ s.nextId ≤ s'.nextId
    | .fail _ s' => s'.pending.length ≤ s.pending.length ∧ s.nextId ≤ s'.nextId
    | .outOfFuel => False

variable {α β : Type} {count spent more : Nat}

theorem Lasts.mono {step : Reader α} {more : Nat} (h : step.Lasts count more) (hs : spent ≤ more) :
    step.Lasts count spent := by
  intro s hc
  have h₁ := h s hc
  cases hr : step s with
  | ok a s' =>
    rw [hr] at h₁
    dsimp only at h₁ ⊢
    exact ⟨by omega, h₁.2⟩
  | fail e s' => rwa [hr] at h₁
  | outOfFuel => rw [hr] at h₁; exact h₁

theorem lasts_pure (a : α) : (pure a : Reader α).Lasts count 0 :=
  fun _ _ => ⟨Nat.le_refl _, Nat.le_refl _⟩

theorem lasts_fail (fault : GrammarFault) : (fail fault : Reader α).Lasts count spent :=
  fun _ _ => ⟨Nat.le_refl _, Nat.le_refl _⟩

theorem lasts_failWith (e : StaticError) : (failWith e : Reader α).Lasts count spent :=
  fun _ _ => ⟨Nat.le_refl _, Nat.le_refl _⟩

theorem Lasts.bind {step : Reader α} {next : α → Reader β} (hs : step.Lasts count more)
    (hn : ∀ a, (next a).Lasts (count - more) (spent - more)) : (step >>= next).Lasts count spent := by
  intro s hc
  have h₁ := hs s hc
  change match andThen step next s with
    | .ok _ _ => _
    | .fail _ _ => _
    | .outOfFuel => _
  unfold andThen
  cases hr : step s with
  | ok a s₁ =>
    rw [hr] at h₁
    dsimp only at h₁ ⊢
    have h₂ := hn a s₁ (by omega)
    cases hr' : next a s₁ with
    | ok b s₂ =>
      rw [hr'] at h₂
      exact ⟨by dsimp only at h₂; omega, Nat.le_trans h₁.2 h₂.2⟩
    | fail e s₂ =>
      rw [hr'] at h₂
      exact ⟨by dsimp only at h₂; omega, Nat.le_trans h₁.2 h₂.2⟩
    | outOfFuel => rw [hr'] at h₂; exact h₂
  | fail e s₁ => rwa [hr] at h₁
  | outOfFuel => rw [hr] at h₁; exact h₁

theorem Lasts.map {step : Reader α} (f : α → β) (h : step.Lasts count spent) :
    (f <$> step).Lasts count spent :=
  h.bind fun a => (lasts_pure _).mono (by omega)

theorem lasts_takeIf {choose : TokenKind → Option α} {next : Option (α × Token) → Reader β}
    (hs : ∀ left a t, count = left + 1 → (next (some (a, t))).Lasts left (spent - 1))
    (hn : (next none).Lasts count spent) : (takeIf choose >>= next).Lasts count spent := by
  intro s hc
  change match andThen (takeIf choose) next s with
    | .ok _ _ => _
    | .fail _ _ => _
    | .outOfFuel => _
  have h₁ := hn s hc
  unfold andThen takeIf
  cases hp : s.pending with
  | nil => rwa [hp] at h₁
  | cons t rest =>
    dsimp only
    cases hk : choose t.kind with
    | none => rwa [hp] at h₁
    | some a =>
      rw [hp, List.length_cons] at hc
      have h₂ := hs (count - 1) a t (by omega) { s with pending := rest } (by dsimp only; omega)
      dsimp only
      cases hr : next (some (a, t)) { s with pending := rest } with
      | ok b s' =>
        rw [hr] at h₂
        exact ⟨by dsimp only [List.length_cons] at h₂ ⊢; omega, h₂.2⟩
      | fail e s' =>
        rw [hr] at h₂
        exact ⟨by dsimp only [List.length_cons] at h₂ ⊢; omega, h₂.2⟩
      | outOfFuel => rw [hr] at h₂; exact h₂

theorem lasts_accept {kind : TokenKind} {next : Option Token → Reader β}
    (hs : ∀ left t, count = left + 1 → (next (some t)).Lasts left (spent - 1))
    (hn : (next none).Lasts count spent) : (accept kind >>= next).Lasts count spent := by
  rw [accept, bind_assoc]
  exact lasts_takeIf (fun left _ t hl => hs left t hl) hn

theorem lasts_expectMark {mark : Mark} {context : MarkContext} {next : Token → Reader β}
    (h : ∀ left t, count = left + 1 → (next t).Lasts left (spent - 1)) :
    (expectMark mark context >>= next).Lasts count spent := by
  rw [expectMark, bind_assoc]
  exact lasts_accept h (lasts_fail _)

theorem lasts_expectName {role : NameRole} {next : Name → Reader β}
    (h : ∀ left name, count = left + 1 → (next name).Lasts left (spent - 1)) :
    (expectName role >>= next).Lasts count spent := by
  rw [expectName, bind_assoc]
  exact lasts_accept (fun left t hl => h left t.toName hl) (lasts_fail _)

theorem lasts_newReference (name : Name) : (newReference name).Lasts count 0 :=
  fun _ _ => ⟨Nat.le_refl _, Nat.le_succ _⟩

theorem lasts_reportIf {condition : Bool} {fault : GrammarFault} {next : Unit → Reader β}
    (h : (next ()).Lasts count spent) : (reportIf condition fault >>= next).Lasts count spent := by
  have hr : (reportIf condition fault).Lasts count 0 := by
    intro s _
    cases condition <;> exact ⟨Nat.le_refl _, Nat.le_refl _⟩
  exact hr.bind fun _ => h

theorem lasts_at? {mark : Mark} {next : Bool → Reader β} (h : ∀ b, (next b).Lasts count spent) :
    (at? mark >>= next).Lasts count spent := fun s hc => h _ s hc

/-- Only before the end is anything to be taken. -/
theorem lasts_atEnd {next : Bool → Reader β} (ht : (next true).Lasts 0 0)
    (hn : ∀ left, count = left + 1 → (next false).Lasts count spent) :
    (atEnd >>= next).Lasts count spent := by
  intro s hc
  change match next (s.pending.head?.map Token.kind).isNone s with
    | .ok _ _ => _
    | .fail _ _ => _
    | .outOfFuel => _
  cases hp : s.pending with
  | nil =>
    have h := ht s (by simp [hp])
    simpa [hp] using h
  | cons t rest =>
    rw [hp, List.length_cons] at hc
    have h := hn (count - 1) (by omega) s (by rw [hp, List.length_cons]; exact hc)
    simpa [hp] using h

theorem Lasts.behind {kind : TokenKind} {step : Reader α}
    (h : ∀ left, count = left + 1 → step.Lasts left 0) : (behind? kind step).Lasts count 0 :=
  lasts_accept (fun left _ hl => (h left hl).map _) (lasts_pure _)

theorem Lasts.unlessAt {mark : Mark} {step : Reader α} (h : step.Lasts count 0) :
    (unlessAt mark step).Lasts count 0 := by
  refine lasts_at? fun b => ?_
  split
  · exact lasts_pure _
  · exact h.map _

theorem recover_length (ts : List Token) : (recover ts).length ≤ ts.length - 1 := by
  induction ts with
  | nil => exact Nat.le_refl _
  | cons t rest ih =>
    rw [recover.eq_def]
    dsimp only
    split
    · exact Nat.le_refl _
    · cases rest with
      | nil => exact Nat.le_refl _
      | cons next rest =>
        dsimp only
        split
        · exact Nat.le_refl _
        · simp only [List.length_cons] at ih ⊢
          omega

/-- A failed step is paid for by the tokens that are skipped behind it. -/
theorem Lasts.attempt {step : Reader α} (h : step.Lasts count 1) : (attempt step).Lasts count 1 := by
  intro s hc
  have h₁ := h s hc
  unfold Reader.attempt
  cases hr : step s with
  | ok a s' => rwa [hr] at h₁
  | fail e s' =>
    rw [hr] at h₁
    have h₂ := recover_length s'.pending
    dsimp only at h₁
    exact ⟨by dsimp only; omega, h₁.2⟩
  | outOfFuel => rw [hr] at h₁; exact h₁

/-- The step does not fail. -/
def Sure {α : Type} (step : Reader α) : Prop := ∀ s e s', step s ≠ .fail e s'

theorem sure_pure (a : α) : (pure a : Reader α).Sure := fun _ _ _ h => by cases h

theorem sure_atEnd : atEnd.Sure := fun _ _ _ h => by cases h

theorem sure_attempt (step : Reader α) : (attempt step).Sure := by
  intro s e s' h
  unfold Reader.attempt at h
  split at h <;> cases h

theorem Sure.bind {step : Reader α} {next : α → Reader β} (hs : step.Sure) (hn : ∀ a, (next a).Sure) :
    (step >>= next).Sure := by
  intro s e s' h
  change andThen step next s = _ at h
  unfold andThen at h
  split at h
  · exact hn _ _ _ _ h
  · next hr => exact hs _ _ _ hr
  · cases h

end Reader

open Reader

/-- How deep the rules nest from a level down to a primary expression. -/
def Level.height : Level → Nat
  | .disjunction => 15
  | .conjunction => 14
  | .equality => 13
  | .comparison => 12
  | .bitOr => 11
  | .bitXor => 10
  | .bitAnd => 9
  | .shift => 8
  | .additive => 7
  | .multiplicative => 6

/-- The height of the rule for operands of a level, given the next tighter level. -/
def operandHeight : Option Level → Nat
  | some l => l.height
  | none => 5

theorem operandHeight_tighter (l : Level) : operandHeight l.tighter? + 1 = l.height := by
  cases l <;> rfl

theorem operandHeight_pos (o : Option Level) : 0 < operandHeight o := by
  rcases o with _ | l
  · decide
  · cases l <;> decide

theorem Level.height_le (l : Level) : l.height ≤ 15 := by cases l <;> decide

/-- With this fuel the rules of expressions come to an end, as far as the tokens allow. -/
structure ExprLasts (n : Nat) : Prop where
  expr : ∀ count, 32 * count + 16 ≤ n → (readExpr n).Lasts count 1
  level : ∀ count o, 32 * count + operandHeight o ≤ n → (readLevel n o).Lasts count 1
  joined : ∀ count l left, 32 * count + 1 ≤ n → (readJoined n l left).Lasts count 0
  unary : ∀ count, 32 * count + 4 ≤ n → (readUnary n).Lasts count 1
  power : ∀ count, 32 * count + 3 ≤ n → (readPower n).Lasts count 1
  call : ∀ count, 32 * count + 2 ≤ n → (readCall n).Lasts count 1
  selectors : ∀ count e, 32 * count + 1 ≤ n → (readSelectors n e).Lasts count 0
  arguments : ∀ count closing limit, 32 * count + 18 ≤ n →
    (readArguments n closing limit).Lasts count 1
  items : ∀ count limit earlier, 32 * count + 17 ≤ n → (readItems n limit earlier).Lasts count 1
  primary : ∀ count, 32 * count + 1 ≤ n → (readPrimary n).Lasts count 1

namespace ExprLasts
variable {n count : Nat}

theorem readExpr_lasts (ih : ExprLasts n) (h : 32 * count + 16 ≤ n + 1) :
    (readExpr (n + 1)).Lasts count 1 := by
  rw [readExpr]
  have hl : 32 * count + operandHeight (some .disjunction) ≤ n := by
    change 32 * count + 15 ≤ n
    omega
  refine (ih.level count _ hl).bind fun target => lasts_takeIf (fun left a t hk => ?_) (lasts_pure _)
  refine ((ih.expr left (by omega)).mono (Nat.zero_le 1)).bind fun value => ?_
  split
  · exact lasts_pure _
  · exact lasts_failWith _

theorem readLevel_lasts (ih : ExprLasts n) (o : Option Level)
    (h : 32 * count + operandHeight o ≤ n + 1) : (readLevel (n + 1) o).Lasts count 1 := by
  cases o with
  | none =>
    rw [readLevel]
    exact ih.unary count (by simp only [operandHeight] at h; omega)
  | some l =>
    rw [readLevel]
    have hh := operandHeight_tighter l
    have hpos := operandHeight_pos l.tighter?
    simp only [operandHeight] at h
    refine (ih.level count _ (by omega)).bind fun left => ih.joined _ l left ?_
    omega

theorem readJoined_lasts (ih : ExprLasts n) (l : Level) (left : Expr) (h : 32 * count + 1 ≤ n + 1) :
    (readJoined (n + 1) l left).Lasts count 0 := by
  rw [readJoined]
  refine lasts_takeIf (fun less a t hk => ?_) (lasts_pure _)
  have hh := operandHeight_tighter l
  have hle := l.height_le
  refine ((ih.level less _ (by omega)).mono (Nat.zero_le 1)).bind fun right => ?_
  exact ih.joined _ l _ (by omega)

theorem readUnary_lasts (ih : ExprLasts n) (h : 32 * count + 4 ≤ n + 1) :
    (readUnary (n + 1)).Lasts count 1 := by
  rw [readUnary]
  refine lasts_takeIf (fun left a t hk => ?_) (ih.power count (by omega))
  exact ((ih.unary left (by omega)).mono (Nat.zero_le 1)).bind fun right => lasts_pure _

theorem readPower_lasts (ih : ExprLasts n) (h : 32 * count + 3 ≤ n + 1) :
    (readPower (n + 1)).Lasts count 1 := by
  rw [readPower]
  refine (ih.call count (by omega)).bind fun base => lasts_accept (fun left t hk => ?_) (lasts_pure _)
  exact ((ih.unary left (by omega)).mono (Nat.zero_le 1)).bind fun exponent => lasts_pure _

theorem readCall_lasts (ih : ExprLasts n) (h : 32 * count + 2 ≤ n + 1) :
    (readCall (n + 1)).Lasts count 1 := by
  rw [readCall]
  exact (ih.primary count (by omega)).bind fun e => ih.selectors _ e (by omega)

/-- A call with the selectors behind it. -/
theorem call_lasts (ih : ExprLasts n) (closing : Mark) (limit : Option Nat)
    (f : List Expr × Nat → Expr) (h : 32 * count + 32 ≤ n) :
    (readArguments n closing limit >>= fun a => readSelectors n (f a)).Lasts count 0 :=
  ((ih.arguments count _ _ (by omega)).mono (Nat.zero_le 1)).bind fun a => ih.selectors _ _ (by omega)

theorem readSelectors_lasts (ih : ExprLasts n) (e : Expr) (h : 32 * count + 1 ≤ n + 1) :
    (readSelectors (n + 1) e).Lasts count 0 := by
  rw [readSelectors]
  refine lasts_accept (fun left t hk => ih.call_lasts _ _ _ (by omega)) ?_
  refine lasts_accept (fun left t hk => ih.call_lasts _ _ _ (by omega)) ?_
  refine lasts_accept (fun left t hk => lasts_expectName fun less name hl => ?_) (lasts_pure _)
  exact ih.selectors _ _ (by omega)

theorem readArguments_lasts (ih : ExprLasts n) (closing : Mark) (limit : Option Nat)
    (h : 32 * count + 18 ≤ n + 1) : (readArguments (n + 1) closing limit).Lasts count 1 := by
  rw [readArguments]
  have hi := (ih.items count limit 0 (by omega)).mono (Nat.zero_le 1)
  exact hi.unlessAt.bind fun arguments => lasts_expectMark fun left t hk => lasts_pure _

theorem readItems_lasts (ih : ExprLasts n) (limit : Option Nat) (earlier : Nat)
    (h : 32 * count + 17 ≤ n + 1) : (readItems (n + 1) limit earlier).Lasts count 1 := by
  rw [readItems]
  refine lasts_reportIf ((ih.expr count (by omega)).bind fun first => ?_)
  refine lasts_accept (fun left t hk => ?_) (lasts_pure _)
  exact ((ih.items left limit _ (by omega)).mono (Nat.zero_le 1)).bind fun rest => lasts_pure _

theorem readPrimary_lasts (ih : ExprLasts n) (h : 32 * count + 1 ≤ n + 1) :
    (readPrimary (n + 1)).Lasts count 1 := by
  rw [readPrimary]
  refine lasts_takeIf (fun left value t hk => lasts_pure _) ?_
  refine lasts_accept (fun left t hk => (lasts_newReference _).bind fun _ => lasts_pure _) ?_
  refine lasts_accept (fun left t hk => ?_) ?_
  · refine ((ih.expr left (by omega)).mono (Nat.zero_le 1)).bind fun inner => ?_
    exact lasts_expectMark fun _ _ _ => lasts_pure _
  refine lasts_accept (fun left t hk => ?_) ?_
  · exact ((ih.arguments left _ _ (by omega)).mono (Nat.zero_le 1)).bind fun _ => lasts_pure _
  refine lasts_accept (fun left t hk => (lasts_newReference _).bind fun _ => lasts_pure _) ?_
  refine lasts_accept (fun left t hk => ?_) (lasts_fail _)
  refine lasts_expectMark fun _ _ _ => lasts_expectName fun _ _ _ => ?_
  exact (lasts_newReference _).bind fun _ => lasts_pure _

end ExprLasts

theorem exprLasts (n : Nat) : ExprLasts n := by
  induction n with
  | zero =>
    have hpos := operandHeight_pos
    constructor
    case level => intro count o h; have := hpos o; omega
    all_goals intros; omega
  | succ n ih =>
    exact ⟨fun _ => ih.readExpr_lasts, fun _ => ih.readLevel_lasts, fun _ => ih.readJoined_lasts,
      fun _ => ih.readUnary_lasts, fun _ => ih.readPower_lasts, fun _ => ih.readCall_lasts,
      fun _ => ih.readSelectors_lasts, fun _ => ih.readArguments_lasts, fun _ => ih.readItems_lasts,
      fun _ => ih.readPrimary_lasts⟩

theorem readExpr_lasts {n count : Nat} (h : 32 * count + 16 ≤ n) : (readExpr n).Lasts count 1 :=
  (exprLasts n).expr count h

theorem readParameters_lasts (n count earlier : Nat) (h : 32 * count + 1 ≤ n) :
    (readParameters n earlier).Lasts count 1 := by
  induction n generalizing count earlier with
  | zero => omega
  | succ n ih =>
    rw [readParameters]
    refine lasts_reportIf (lasts_expectName fun left name hl => ?_)
    refine lasts_accept (fun less t hk => ?_) (lasts_pure _)
    exact ((ih less _ (by omega)).mono (Nat.zero_le 1)).bind fun rest => lasts_pure _

theorem readVariable_lasts {n count : Nat} (h : 32 * count + 16 ≤ n) :
    (readVariable n).Lasts count 1 := by
  refine lasts_expectName fun left name hl => ?_
  refine (Lasts.behind fun less _ => (readExpr_lasts (by omega)).mono (Nat.zero_le 1)).bind fun value => ?_
  exact lasts_expectMark fun _ _ _ => lasts_pure _

theorem readExpressionStatement_lasts {n count : Nat} (h : 32 * count + 16 ≤ n) :
    (readExpressionStatement n).Lasts count 1 :=
  (readExpr_lasts h).bind fun _ => lasts_expectMark fun _ _ _ => lasts_pure _

/-- An expression that may be missing in front of a mark. -/
theorem optional_lasts {n count : Nat} {mark : Mark} (h : 32 * count + 16 ≤ n) :
    (unlessAt mark (readExpr n)).Lasts count 0 :=
  ((readExpr_lasts h).mono (Nat.zero_le 1)).unlessAt

theorem readReturn_lasts {n count : Nat} (keyword : Name) (h : 32 * count + 16 ≤ n) :
    (readReturn n keyword).Lasts count 0 :=
  (optional_lasts h).bind fun _ => lasts_expectMark fun _ _ _ => lasts_pure _

theorem readInitializer_lasts {n count : Nat} (h : 32 * count + 16 ≤ n) :
    (readInitializer n).Lasts count 0 := by
  refine lasts_accept (fun left t hk => lasts_pure _) ?_
  refine lasts_accept (fun left t hk => ?_) ?_
  · exact ((readVariable_lasts (by omega)).mono (Nat.zero_le 1)).map _
  · exact ((readExpressionStatement_lasts h).mono (Nat.zero_le 1)).map _

theorem readForClauses_lasts {n count : Nat} (h : 32 * count + 16 ≤ n) :
    (readForClauses n).Lasts count 0 := by
  refine lasts_expectMark fun left t hk => (readInitializer_lasts (by omega)).bind fun initializer => ?_
  refine (optional_lasts (by omega)).bind fun condition => lasts_expectMark fun less t hk => ?_
  refine (optional_lasts (by omega)).bind fun increment => ?_
  exact lasts_expectMark fun _ _ _ => lasts_pure _

theorem readSuperclass_lasts (count : Nat) : readSuperclass.Lasts count 0 :=
  lasts_expectName fun _ _ _ => lasts_newReference _

/-- With this fuel the rules of statements come to an end, as far as the tokens allow. -/
structure StmtLasts (n : Nat) : Prop where
  declaration : ∀ count, 32 * count + 18 ≤ n → (readDeclaration n).Lasts count 1
  class_ : ∀ count, 32 * count + 3 ≤ n → (readClass n).Lasts count 0
  methods : ∀ count, 32 * count + 2 ≤ n → (readMethods n).Lasts count 0
  function : ∀ count form, 32 * count + 1 ≤ n → (readFunction n form).Lasts count 1
  block : ∀ count, 32 * count + 20 ≤ n → (readBlock n).Lasts count 0
  body : ∀ count, 32 * count + 19 ≤ n → (readBody n).Lasts count 0
  statement : ∀ count, 32 * count + 17 ≤ n → (readStatement n).Lasts count 1
  branch : ∀ count, 32 * count + 1 ≤ n → (readBranch n).Lasts count 0

namespace StmtLasts
variable {n count : Nat}

theorem readDeclaration_lasts (ih : StmtLasts n) (h : 32 * count + 18 ≤ n + 1) :
    (readDeclaration (n + 1)).Lasts count 1 := by
  rw [readDeclaration]
  refine Lasts.attempt (lasts_accept (fun left t hk => ih.class_ left (by omega)) ?_)
  refine lasts_accept (fun left t hk => ?_) ?_
  · exact ((ih.function left _ (by omega)).mono (Nat.zero_le 1)).map _
  refine lasts_accept (fun left t hk => ?_) (ih.statement count (by omega))
  exact (readVariable_lasts (by omega)).mono (Nat.zero_le 1)

theorem readClass_lasts (ih : StmtLasts n) (h : 32 * count + 3 ≤ n + 1) :
    (readClass (n + 1)).Lasts count 0 := by
  rw [readClass]
  refine lasts_expectName fun left name hl => ?_
  refine (Lasts.behind fun less _ => readSuperclass_lasts less).bind fun superclass => ?_
  refine lasts_expectMark fun less t hk => (ih.methods less (by omega)).bind fun methods => ?_
  exact lasts_expectMark fun _ _ _ => lasts_pure _

theorem readMethods_lasts (ih : StmtLasts n) (h : 32 * count + 2 ≤ n + 1) :
    (readMethods (n + 1)).Lasts count 0 := by
  rw [readMethods]
  refine lasts_at? fun b => lasts_atEnd ?_ fun left hl => ?_
  · simpa using lasts_pure []
  · split
    · exact lasts_pure _
    · refine (ih.function count _ (by omega)).bind fun f => ?_
      exact (ih.methods _ (by omega)).bind fun rest => lasts_pure _

theorem readFunction_lasts (ih : StmtLasts n) (form : FunctionForm) (h : 32 * count + 1 ≤ n + 1) :
    (readFunction (n + 1) form).Lasts count 1 := by
  rw [readFunction]
  refine lasts_expectName fun left name hl => lasts_expectMark fun left t hk => ?_
  have hp := (readParameters_lasts n left 0 (by omega)).mono (Nat.zero_le 1)
  refine hp.unlessAt.bind fun params => ?_
  refine lasts_expectMark fun left t hk => lasts_expectMark fun left t hk => ?_
  exact (ih.block left (by omega)).bind fun body => lasts_pure _

theorem readBlock_lasts (ih : StmtLasts n) (h : 32 * count + 20 ≤ n + 1) :
    (readBlock (n + 1)).Lasts count 0 := by
  rw [readBlock]
  exact (ih.body count (by omega)).bind fun body => lasts_expectMark fun _ _ _ => lasts_pure _

theorem readBody_lasts (ih : StmtLasts n) (h : 32 * count + 19 ≤ n + 1) :
    (readBody (n + 1)).Lasts count 0 := by
  rw [readBody]
  refine lasts_at? fun b => lasts_atEnd ?_ fun left hl => ?_
  · simpa using lasts_pure []
  · split
    · exact lasts_pure _
    · refine (ih.declaration count (by omega)).bind fun first => ?_
      exact (ih.body _ (by omega)).bind fun rest => lasts_pure _

theorem readStatement_lasts (ih : StmtLasts n) (h : 32 * count + 17 ≤ n + 1) :
    (readStatement (n + 1)).Lasts count 1 := by
  rw [readStatement]
  refine lasts_accept (fun left t hk => ?_) ?_
  · refine (readForClauses_lasts (by omega)).bind fun clauses => ?_
    exact ((ih.statement _ (by omega)).mono (Nat.zero_le 1)).bind fun body => lasts_pure _
  refine lasts_accept (fun left t hk => ih.branch left (by omega)) ?_
  refine lasts_accept (fun left t hk => ?_) ?_
  · refine lasts_expectMark fun less t hk => ?_
    refine ((readExpr_lasts (by omega)).mono (Nat.zero_le 1)).bind fun condition => ?_
    refine lasts_expectMark fun less t hk => ?_
    exact ((ih.statement _ (by omega)).mono (Nat.zero_le 1)).bind fun body => lasts_pure _
  refine lasts_accept (fun left t hk => readReturn_lasts _ (by omega)) ?_
  refine lasts_accept (fun left t hk => (ih.block left (by omega)).map _) ?_
  exact readExpressionStatement_lasts (by omega)

theorem readBranch_lasts (ih : StmtLasts n) (h : 32 * count + 1 ≤ n + 1) :
    (readBranch (n + 1)).Lasts count 0 := by
  rw [readBranch]
  refine lasts_expectMark fun left t hk => ?_
  refine ((readExpr_lasts (by omega)).mono (Nat.zero_le 1)).bind fun condition => ?_
  refine lasts_expectMark fun less t hk => ?_
  refine ((ih.statement _ (by omega)).mono (Nat.zero_le 1)).bind fun thenBranch => ?_
  refine (Lasts.behind fun left _ => (ih.statement left (by omega)).mono (Nat.zero_le 1)).bind ?_
  exact fun elseBranch => lasts_pure _

end StmtLasts

theorem stmtLasts (n : Nat) : StmtLasts n := by
  induction n with
  | zero => constructor <;> intros <;> omega
  | succ n ih =>
    exact ⟨fun _ => ih.readDeclaration_lasts, fun _ => ih.readClass_lasts,
      fun _ => ih.readMethods_lasts, fun _ => ih.readFunction_lasts, fun _ => ih.readBlock_lasts,
      fun _ => ih.readBody_lasts, fun _ => ih.readStatement_lasts, fun _ => ih.readBranch_lasts⟩

theorem readProgram_lasts (n count : Nat) (h : 32 * count + 19 ≤ n) :
    (readProgram n).Lasts count 0 := by
  induction n generalizing count with
  | zero => omega
  | succ n ih =>
    rw [readProgram]
    refine lasts_atEnd (by simpa using lasts_pure []) fun left hl => ?_
    refine ((stmtLasts n).declaration count (by omega)).bind fun first => ?_
    exact (ih _ (by omega)).bind fun rest => lasts_pure _

theorem readDeclaration_sure (n : Nat) : (readDeclaration n).Sure := by
  cases n with
  | zero => exact fun _ _ _ h => by cases h
  | succ n =>
    rw [readDeclaration]
    exact sure_attempt _

/-- A program never fails as a whole, only declarations do. -/
theorem readProgram_sure (n : Nat) : (readProgram n).Sure := by
  induction n with
  | zero => exact fun _ _ _ h => by cases h
  | succ n ih =>
    rw [readProgram]
    refine sure_atEnd.bind fun b => ?_
    split
    · exact sure_pure _
    · exact (readDeclaration_sure n).bind fun first => ih.bind fun rest => sure_pure _

/-- The reading of a program comes to an end. -/
theorem readProgram_ends (s : ReadState) : ∃ program s',
    readProgram (enoughFuel s.pending.length) s = .ok program s' ∧ s.nextId ≤ s'.nextId := by
  have h := readProgram_lasts (enoughFuel s.pending.length) s.pending.length
    (by unfold enoughFuel; omega) s (Nat.le_refl _)
  cases hr : readProgram (enoughFuel s.pending.length) s with
  | ok program s' =>
    rw [hr] at h
    exact ⟨program, s', rfl, h.2⟩
  | fail e s' => exact absurd hr (readProgram_sure _ _ _ _)
  | outOfFuel => rw [hr] at h; exact h.elim

end LoxLang
