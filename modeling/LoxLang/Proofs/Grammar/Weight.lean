import LoxLang.Proofs.Grammar.Agreement
import LoxLang.Proofs.Grammar.First

/-!
# The weight of tokens and trees

A tree weighs as much as the tokens it is read from. Tokens that always leave something in the tree weigh one
each: the words that begin a statement, names, literals, `this`, `super` and opening square brackets. A loop
without a condition gets `true` for one, and what that weighs lies between the two semicolons that then stand side
by side.

A reading without errors yields the weight of the tokens that it takes, and no reading yields more. So what was
skipped by a recovery shows in the weight of what is left.
-/

namespace LoxLang

open Reader

/-! ## Tokens -/

/-- What a token of this kind weighs. -/
def TokenKind.weight : TokenKind → Nat
  | .identifier => 1
  | .mark .leftBracket => 1
  | .keyword .thisWord => 1
  | .keyword .superWord => 1
  | kind => if kind.startsStatement || kind.literal?.isSome then 1 else 0

/-- What lies in front of these tokens behind a semicolon. -/
def gapWeight : List Token → Nat
  | [] => 0
  | t :: _ => if t.kind = .mark .semicolon then 1 else 0

/-- What the tokens weigh, together with the gaps between semicolons. -/
def tokensWeight : List Token → Nat
  | [] => 0
  | t :: rest => t.kind.weight + (if t.kind = .mark .semicolon then gapWeight rest else 0) + tokensWeight rest

theorem TokenKind.weight_of_literal {kind : TokenKind} {value : Literal} (h : kind.literal? = some value) :
    kind.weight = 1 := by
  unfold weight
  split <;> first | rfl | simp [h]

theorem TokenKind.weight_of_startsStatement {kind : TokenKind} (h : kind.startsStatement = true) :
    kind.weight = 1 := by
  unfold weight
  split <;> first | rfl | simp [h]

theorem TokenKind.weight_of_unary {kind : TokenKind} {operator : UnaryOperator}
    (h : UnaryOperator.ofToken? kind = some operator) : kind.weight = 0 := by
  unfold UnaryOperator.ofToken? at h
  split at h <;> first | rfl | cases h

theorem TokenKind.weight_of_joiner {kind : TokenKind} {l : Level} {operator : Joiner}
    (h : Joiner.atLevel? l kind = some operator) : kind.weight = 0 := by
  have hj := Joiner.ofToken?_of_atLevel? h
  unfold Joiner.ofToken? at hj
  split at hj <;> first | rfl | cases hj

theorem TokenKind.weight_of_assign {kind : TokenKind} {operator : AssignOperator}
    (h : AssignOperator.ofToken? kind = some operator) : kind.weight = 0 := by
  unfold AssignOperator.ofToken? at h
  split at h <;> first | rfl | cases h

theorem gapWeight_cons {t : Token} (ts : List Token) (h : t.kind ≠ .mark .semicolon) :
    gapWeight (t :: ts) = 0 := if_neg h

theorem gapWeight_semicolon {t : Token} (ts : List Token) (h : t.kind = .mark .semicolon) :
    gapWeight (t :: ts) = 1 := if_pos h

theorem tokensWeight_cons {t : Token} (ts : List Token) (h : t.kind ≠ .mark .semicolon) :
    tokensWeight (t :: ts) = t.kind.weight + tokensWeight ts := by
  rw [tokensWeight, if_neg h, Nat.add_zero]

theorem tokensWeight_semicolon {t : Token} (ts : List Token) (h : t.kind = .mark .semicolon) :
    tokensWeight (t :: ts) = tokensWeight ts + gapWeight ts := by
  rw [tokensWeight, if_pos h, h, Nat.add_comm (TokenKind.weight _), Nat.add_comm]
  rfl

theorem tokensWeight_of_suffix {ts us : List Token} (h : ts <:+ us) : tokensWeight ts ≤ tokensWeight us := by
  obtain ⟨front, rfl⟩ := h
  induction front with
  | nil => exact Nat.le_refl _
  | cons t front ih =>
    rw [List.cons_append, tokensWeight]
    omega

/-- Behind a token of some weight less is left. -/
theorem tokensWeight_append_cons {t : Token} (front rest : List Token) :
    t.kind.weight + tokensWeight rest ≤ tokensWeight (front ++ t :: rest) := by
  refine Nat.le_trans ?_ (tokensWeight_of_suffix (List.suffix_append front (t :: rest)))
  rw [tokensWeight]
  omega

/-- A recovery skips the token in front of it. -/
theorem recover_suffix (ts : List Token) : recover ts <:+ ts.tail := by
  induction ts with
  | nil => exact List.suffix_refl _
  | cons t rest ih =>
    rw [recover.eq_def, List.tail_cons]
    dsimp only
    split
    · exact List.suffix_refl _
    · cases rest with
      | nil => exact List.suffix_refl _
      | cons next rest =>
        dsimp only
        split
        · exact List.suffix_refl _
        · exact ih.trans (List.tail_suffix _)

/-! ## Trees -/

mutual

/-- What an expression weighs. -/
def Expr.weight : Expr → Nat
  | .literal _ => 1
  | .unary _ _ right => right.weight
  | .binary left _ _ right => left.weight + right.weight
  | .logical left _ right => left.weight + right.weight
  | .grouping inner => inner.weight
  | .reference _ => 1
  | .assign _ _ value => 1 + value.weight
  | .call callee .parens _ arguments => callee.weight + itemsWeight arguments
  | .call callee .brackets _ arguments => callee.weight + 1 + itemsWeight arguments
  | .list _ elements => 1 + itemsWeight elements
  | .get object _ => object.weight + 1
  | .set object _ _ value => object.weight + 1 + value.weight
  | .setElement object arguments _ _ value => object.weight + 1 + itemsWeight arguments + value.weight
  | .receiver _ => 1
  | .inherited _ _ => 2

def itemsWeight : List Expr → Nat
  | [] => 0
  | e :: rest => e.weight + itemsWeight rest

end

/-- What an expression weighs that may be missing. -/
def optionalWeight (o : Option Expr) : Nat := o.elim 0 Expr.weight

mutual

/-- What a statement weighs. -/
def Stmt.weight : Stmt → Nat
  | .expression value => value.weight
  | .declare _ initializer => 2 + optionalWeight initializer
  | .block body => bodyWeight body
  | .branch condition thenBranch elseBranch => 1 + condition.weight + thenBranch.weight + elseWeight elseBranch
  | .loop condition body => 1 + condition.weight + body.weight
  | .function declaration => 1 + declaration.weight
  | .giveBack _ value => 1 + optionalWeight value
  | .declareClass _ superclass methods => 2 + superclass.elim 0 (fun _ => 1) + methodsWeight methods

def elseWeight : Option Stmt → Nat
  | none => 0
  | some s => s.weight

def FunctionDecl.weight : FunctionDecl → Nat
  | ⟨_, params, body⟩ => 1 + params.length + bodyWeight body

def bodyWeight : List Stmt → Nat
  | [] => 0
  | s :: rest => s.weight + bodyWeight rest

def methodsWeight : List FunctionDecl → Nat
  | [] => 0
  | f :: rest => f.weight + methodsWeight rest

end

/-- What the clauses of a `for` loop weigh, with the condition that stands for a missing one. -/
def ForClauses.weight (clauses : ForClauses) : Nat :=
  elseWeight clauses.initializer + clauses.condition.elim 1 Expr.weight + optionalWeight clauses.increment

theorem Joiner.join_weight (left : Expr) (operator : Joiner) (line : Nat) (right : Expr) :
    (operator.join left line right).weight = left.weight + right.weight := by
  cases operator <;> rfl

theorem Expr.assigned?_weight {target value e : Expr} {operator : AssignOperator}
    (h : target.assigned? operator value = some e) : e.weight = target.weight + value.weight := by
  unfold assigned? at h
  split at h <;> cases h <;> rfl

theorem ForClauses.loop_weight (clauses : ForClauses) (body : Stmt) :
    (clauses.loop body).weight = 1 + clauses.weight + body.weight := by
  obtain ⟨initializer, condition, increment⟩ := clauses
  unfold loop round ForClauses.weight optionalWeight
  rcases initializer with _ | initializer <;> rcases condition with _ | condition <;>
    rcases increment with _ | increment <;>
    simp [Stmt.weight, bodyWeight, elseWeight, Expr.weight] <;> omega

theorem bodyWeight_toList_append (o : Option Stmt) (rest : List Stmt) :
    bodyWeight (o.toList ++ rest) = elseWeight o + bodyWeight rest := by
  cases o with
  | none => rw [elseWeight, Nat.zero_add]; rfl
  | some s => rfl

theorem bodyWeight_of_sublist {body rest : List Stmt} (h : body.Sublist rest) : bodyWeight body ≤ bodyWeight rest := by
  induction h with
  | slnil => exact Nat.le_refl _
  | cons s _ ih =>
    rw [bodyWeight]
    exact Nat.le_trans ih (Nat.le_add_left _ _)
  | cons_cons s _ ih =>
    rw [bodyWeight, bodyWeight]
    exact Nat.add_le_add_left ih _

/-! ## Steps -/

/-- How the tokens that are left are weighed. A gap in front of them is left out, or it counts, or it counts only
where too much would do no harm. -/
inductive Gauge where
  | exact
  | spare
  | full

namespace Gauge

/-- What the tokens that are left weigh at least. -/
def least : Gauge → List Token → Nat
  | full, ts => tokensWeight ts + gapWeight ts
  | _, ts => tokensWeight ts

/-- What the tokens that are left weigh at most. -/
def most : Gauge → List Token → Nat
  | exact, ts => tokensWeight ts
  | _, ts => tokensWeight ts + gapWeight ts

theorem tokensWeight_le_least (g : Gauge) (ts : List Token) : tokensWeight ts ≤ g.least ts := by
  cases g <;> simp [least]

theorem least_of_gapless (g : Gauge) {ts : List Token} (h : gapWeight ts = 0) : g.least ts = tokensWeight ts := by
  cases g <;> simp [least, h]

theorem most_of_gapless (g : Gauge) {ts : List Token} (h : gapWeight ts = 0) : g.most ts = tokensWeight ts := by
  cases g <;> simp [most, h]

theorem most_le_spare (g : Gauge) (ts : List Token) : g.most ts ≤ spare.most ts := by
  cases g <;> simp [most]

end Gauge

namespace Reader
variable {α β : Type} {before middle after : Gauge} {lead : Nat} {weight : α → Nat} {whole : β → Nat}

/-- What is yielded is no more than `lead` and the weight of the tokens that were taken behind `s`, and just as
much if there are no errors. -/
def Weighed (s : ReadState) (before after : Gauge) (lead : Nat) (weight : α → Nat) : ReadResult α → Prop
  | .ok a s' => s'.pending <:+ s.pending ∧ weight a + after.least s'.pending ≤ lead + before.least s.pending ∧
      (s'.errors = [] → s.errors = [] ∧ lead + before.most s.pending ≤ weight a + after.most s'.pending)
  | .fail _ s' => s'.pending <:+ s.pending
  | .outOfFuel => True

/-- The step keeps the balance from every state. -/
def Weighs (before after : Gauge) (lead : Nat) (weight : α → Nat) (step : Reader α) : Prop :=
  ∀ s, Weighed s before after lead weight (step s)

theorem weighs_exhausted : (exhausted : Reader α).Weighs before after lead weight := fun _ => trivial

theorem weighs_fail (fault : GrammarFault) : (fail fault : Reader α).Weighs before after lead weight :=
  fun _ => List.suffix_refl _

theorem weighs_failWith (e : StaticError) : (failWith e : Reader α).Weighs before after lead weight :=
  fun _ => List.suffix_refl _

theorem weighs_pure {a : α} (h : weight a = lead) : (pure a : Reader α).Weighs before before lead weight :=
  fun _ => ⟨List.suffix_refl _, Nat.le_of_eq (by rw [h]), fun he => ⟨he, Nat.le_of_eq (by rw [h])⟩⟩

theorem Weighs.at {step : Reader α} {other : Nat} (h : step.Weighs before after lead weight) (hl : lead = other) :
    step.Weighs before after other weight := hl ▸ h

theorem Weighs.bind_lead {step : Reader α} {next : α → Reader β} {own : Nat}
    (hs : step.Weighs before middle own weight)
    (hn : ∀ a, (next a).Weighs middle after (lead + weight a) whole) :
    (step >>= next).Weighs before after (lead + own) whole := by
  intro s
  have h₁ := hs s
  change Weighed s before after (lead + own) whole (andThen step next s)
  unfold andThen
  cases hr : step s with
  | ok a s₁ =>
    rw [hr] at h₁
    obtain ⟨hsuffix₁, hle₁, hge₁⟩ := h₁
    have h₂ := hn a s₁
    dsimp only
    cases hr' : next a s₁ with
    | ok b s₂ =>
      rw [hr'] at h₂
      obtain ⟨hsuffix₂, hle₂, hge₂⟩ := h₂
      refine ⟨hsuffix₂.trans hsuffix₁, by omega, fun he => ?_⟩
      obtain ⟨he₁, hge₂⟩ := hge₂ he
      obtain ⟨he₀, hge₁⟩ := hge₁ he₁
      exact ⟨he₀, by omega⟩
    | fail e s₂ =>
      rw [hr'] at h₂
      exact List.IsSuffix.trans h₂ hsuffix₁
    | outOfFuel => trivial
  | fail e s₁ => rwa [hr] at h₁
  | outOfFuel => trivial

theorem Weighs.bind {step : Reader α} {next : α → Reader β} (hs : step.Weighs before middle 0 weight)
    (hn : ∀ a, (next a).Weighs middle after (lead + weight a) whole) :
    (step >>= next).Weighs before after lead whole := hs.bind_lead hn

theorem Weighs.map {step : Reader α} {f : α → β} {own : Nat} (h : step.Weighs before after own weight)
    (hf : ∀ a, whole (f a) = lead + weight a) : (f <$> step).Weighs before after (lead + own) whole :=
  h.bind_lead fun a => weighs_pure (hf a)

/-- What starts with a spare gap starts with any. -/
theorem Weighs.of_spare {step : Reader α} (h : step.Weighs .spare after lead weight) :
    step.Weighs before after lead weight := by
  intro s
  have hs := h s
  cases hr : step s with
  | ok a s' =>
    rw [hr] at hs
    obtain ⟨hsuffix, hle, hge⟩ := hs
    refine ⟨hsuffix, Nat.le_trans hle (Nat.add_le_add_left (before.tokensWeight_le_least _) _), fun he => ?_⟩
    obtain ⟨he₀, hge⟩ := hge he
    exact ⟨he₀, Nat.le_trans (Nat.add_le_add_left (before.most_le_spare _) _) hge⟩
  | fail e s' => rwa [hr] at hs
  | outOfFuel => trivial

/-- A gap that is left may be spared. -/
theorem Weighs.to_spare {step : Reader α} (h : step.Weighs before after lead weight) :
    step.Weighs before .spare lead weight := by
  intro s
  have hs := h s
  cases hr : step s with
  | ok a s' =>
    rw [hr] at hs
    obtain ⟨hsuffix, hle, hge⟩ := hs
    refine ⟨hsuffix, Nat.le_trans (Nat.add_le_add_left (after.tokensWeight_le_least _) _) hle, fun he => ?_⟩
    obtain ⟨he₀, hge⟩ := hge he
    exact ⟨he₀, Nat.le_trans hge (Nat.add_le_add_left (after.most_le_spare _) _)⟩
  | fail e s' => rwa [hr] at hs
  | outOfFuel => trivial

/-- Behind a token that is no semicolon. -/
theorem Weighed.cons {s : ReadState} {t : Token} {rest : List Token} {result : ReadResult α}
    (hs : s.pending = t :: rest) (ht : t.kind ≠ .mark .semicolon)
    (h : Weighed { s with pending := rest } .exact after (lead + t.kind.weight) weight result) :
    Weighed s before after lead weight result := by
  have hgap := gapWeight_cons rest ht
  have hweight := tokensWeight_cons rest ht
  have hsuffix : rest <:+ s.pending := hs ▸ List.suffix_cons t rest
  have hleast : before.least s.pending = t.kind.weight + tokensWeight rest := by
    rw [hs, before.least_of_gapless hgap, hweight]
  have hmost : before.most s.pending = t.kind.weight + tokensWeight rest := by
    rw [hs, before.most_of_gapless hgap, hweight]
  cases result with
  | ok a s' =>
    obtain ⟨hrest, hle, hge⟩ := h
    change _ ≤ _ + tokensWeight rest at hle
    refine ⟨hrest.trans hsuffix, by omega, fun he => ?_⟩
    obtain ⟨he₀, hge⟩ := hge he
    change _ + tokensWeight rest ≤ _ at hge
    exact ⟨he₀, by omega⟩
  | fail e s' => exact List.IsSuffix.trans h hsuffix
  | outOfFuel => trivial

/-- Behind a semicolon the gap counts. -/
theorem Weighed.semicolon {s : ReadState} {t : Token} {rest : List Token} {result : ReadResult α}
    (hs : s.pending = t :: rest) (ht : t.kind = .mark .semicolon)
    (h : Weighed { s with pending := rest } .full after lead weight result) :
    Weighed s .exact after lead weight result := by
  have hsuffix : rest <:+ s.pending := hs ▸ List.suffix_cons t rest
  have hweight : tokensWeight s.pending = tokensWeight rest + gapWeight rest := by
    rw [hs, tokensWeight_semicolon rest ht]
  cases result with
  | ok a s' =>
    obtain ⟨hrest, hle, hge⟩ := h
    change _ ≤ lead + (tokensWeight rest + gapWeight rest) at hle
    refine ⟨hrest.trans hsuffix, ?_, fun he => ?_⟩
    · change _ ≤ lead + tokensWeight s.pending
      omega
    · obtain ⟨he₀, hge⟩ := hge he
      change lead + (tokensWeight rest + gapWeight rest) ≤ _ at hge
      refine ⟨he₀, ?_⟩
      change lead + tokensWeight s.pending ≤ _
      omega
  | fail e s' => exact List.IsSuffix.trans h hsuffix
  | outOfFuel => trivial

/-- A token of some weight is taken, or none; no semicolon is. -/
theorem weighs_takeIf {choose : TokenKind → Option α} {next : Option (α × Token) → Reader β}
    (hc : choose (.mark .semicolon) = none)
    (hs : ∀ a t, choose t.kind = some a → (next (some (a, t))).Weighs .exact after (lead + t.kind.weight) whole)
    (hn : (next none).Weighs before after lead whole) : (takeIf choose >>= next).Weighs before after lead whole := by
  intro s
  change Weighed s before after lead whole (andThen (takeIf choose) next s)
  unfold andThen takeIf
  cases hp : s.pending with
  | nil => exact hn s
  | cons t rest =>
    dsimp only
    cases hk : choose t.kind with
    | none => exact hn s
    | some a =>
      have hother : t.kind ≠ .mark .semicolon := fun h => by rw [h, hc] at hk; cases hk
      exact (hs a t hk _).cons hp hother

theorem weighs_accept {kind : TokenKind} {next : Option Token → Reader β} (hk : kind ≠ .mark .semicolon)
    (hs : ∀ t, (next (some t)).Weighs .exact after (lead + kind.weight) whole)
    (hn : (next none).Weighs before after lead whole) : (accept kind >>= next).Weighs before after lead whole := by
  rw [accept, bind_assoc]
  refine weighs_takeIf (if_neg (Ne.symm hk)) (fun _ t ht => ?_) hn
  split at ht
  · next he => exact he ▸ hs t
  · cases ht

theorem weighs_expectMark {mark : Mark} {context : MarkContext} {next : Token → Reader β}
    (hm : mark ≠ .semicolon) (h : ∀ t, (next t).Weighs .exact after (lead + (TokenKind.mark mark).weight) whole) :
    (expectMark mark context >>= next).Weighs before after lead whole := by
  rw [expectMark, bind_assoc]
  exact weighs_accept (fun he => hm (TokenKind.mark.inj he)) h (weighs_fail _)

theorem weighs_expectName {role : NameRole} {next : Name → Reader β}
    (h : ∀ name, (next name).Weighs .exact after (lead + 1) whole) :
    (expectName role >>= next).Weighs before after lead whole := by
  rw [expectName, bind_assoc]
  exact weighs_accept (by decide) (fun t => h t.toName) (weighs_fail _)

theorem weighs_acceptSemicolon {next : Option Token → Reader β}
    (hs : ∀ t, (next (some t)).Weighs .full after lead whole) (hn : (next none).Weighs .exact after lead whole) :
    (acceptMark .semicolon >>= next).Weighs .exact after lead whole := by
  intro s
  change Weighed s .exact after lead whole (andThen (accept _) next s)
  unfold andThen
  rw [accept_eq]
  cases hp : s.pending with
  | nil => exact hn s
  | cons t rest =>
    dsimp only
    by_cases hk : t.kind = .mark .semicolon
    · rw [if_pos hk]
      exact (hs t _).semicolon hp hk
    · rw [if_neg hk]
      exact hn s

theorem weighs_expectSemicolon {context : MarkContext} {next : Token → Reader β}
    (h : ∀ t, (next t).Weighs .full after lead whole) :
    (expectMark .semicolon context >>= next).Weighs .exact after lead whole := by
  rw [expectMark, bind_assoc]
  exact weighs_acceptSemicolon h (weighs_fail _)

theorem weighs_newReference (name : Name) : (newReference name).Weighs before before 0 fun _ => 0 :=
  fun _ => ⟨List.suffix_refl _, Nat.le_refl _, fun he => ⟨he, Nat.le_refl _⟩⟩

theorem weighs_reportIf (condition : Bool) (fault : GrammarFault) :
    (reportIf condition fault).Weighs before before 0 fun _ => 0 := by
  intro s
  cases condition with
  | false => exact ⟨List.suffix_refl _, Nat.le_refl _, fun he => ⟨he, Nat.le_refl _⟩⟩
  | true =>
    refine ⟨List.suffix_refl _, Nat.le_refl _, fun he => ?_⟩
    simp [ReadState.report] at he

theorem Weighs.behind {kind : TokenKind} {step : Reader α} (hk : kind ≠ .mark .semicolon)
    (h : step.Weighs .exact before 0 weight) :
    (behind? kind step).Weighs before before 0 fun o => o.elim 0 fun a => kind.weight + weight a := by
  refine weighs_accept hk (fun _ => h.map fun a => ?_) (weighs_pure rfl)
  exact congrArg (· + weight a) (Nat.zero_add _).symm

/-- The mark in front of which a step is left out counts as `missing`. -/
theorem Weighs.unlessAt {mark : Mark} {step : Reader α} {missing : Nat}
    (hm : ∀ t ts, t.kind = .mark mark → before.least (t :: ts) = missing + tokensWeight (t :: ts) ∧
      before.most (t :: ts) = missing + tokensWeight (t :: ts))
    (h : step.Weighs before .exact 0 weight) :
    (unlessAt mark step).Weighs before .exact 0 fun o => o.elim missing weight := by
  have hsome : (some <$> step).Weighs before .exact 0 fun o => o.elim missing weight :=
    h.map fun a => (Nat.zero_add _).symm
  intro s
  change Weighed s before .exact 0 _ ((if s.pending.head?.map Token.kind == some (.mark mark) then pure none
    else some <$> step : Reader (Option α)) s)
  by_cases hmark : ∃ t ts, s.pending = t :: ts ∧ t.kind = .mark mark
  · obtain ⟨t, ts, hp, ht⟩ := hmark
    obtain ⟨hleast, hmost⟩ := hm t ts ht
    rw [← hp] at hleast hmost
    rw [hp, List.head?_cons, Option.map_some, ht, beq_self_eq_true, if_pos rfl]
    refine ⟨List.suffix_refl _, ?_, fun he => ⟨he, ?_⟩⟩
    · rw [hleast, Nat.zero_add]
      exact Nat.le_refl _
    · rw [hmost, Nat.zero_add]
      exact Nat.le_refl _
  · rw [if_neg]
    · exact hsome s
    · intro hhead
      cases hp : s.pending with
      | nil => rw [hp] at hhead; cases hhead
      | cons t ts =>
        rw [hp] at hhead
        exact hmark ⟨t, ts, hp, by simpa using hhead⟩

theorem Weighs.unlessAt_other {mark : Mark} {step : Reader α} (hm : mark ≠ .semicolon)
    (h : step.Weighs before .exact 0 weight) :
    (Reader.unlessAt mark step).Weighs before .exact 0 fun o => o.elim 0 weight := by
  refine h.unlessAt fun t ts ht => ?_
  have hgap := gapWeight_cons ts fun he => hm (TokenKind.mark.inj (ht.symm.trans he))
  exact ⟨by rw [before.least_of_gapless hgap, Nat.zero_add], by rw [before.most_of_gapless hgap, Nat.zero_add]⟩

/-- Where a loop over declarations or methods stops, there is no gap in front. -/
theorem weighs_until (stop : Option TokenKind → Bool) {next : Reader β} {b : β}
    (hstop : stop (some (.mark .semicolon)) = false) (hb : whole b = lead)
    (hn : next.Weighs .spare .exact lead whole) :
    (peek >>= fun kind => if stop kind then pure b else next : Reader β).Weighs .spare .exact lead whole := by
  intro s
  change Weighed s .spare .exact lead whole ((if stop (s.pending.head?.map Token.kind) then pure b else next :
    Reader β) s)
  split
  · next hs =>
    have hgap : gapWeight s.pending = 0 := by
      cases hp : s.pending with
      | nil => rfl
      | cons t ts =>
        refine gapWeight_cons ts fun ht => ?_
        rw [hp, List.head?_cons, Option.map_some, ht, hstop] at hs
        cases hs
    refine ⟨List.suffix_refl _, ?_, fun he => ⟨he, ?_⟩⟩
    · rw [hb]
      exact Nat.le_refl _
    · rw [hb, Gauge.spare.most_of_gapless hgap]
      exact Nat.le_refl _
  · exact hn s

/-- What a recovery skips is not yielded. -/
theorem Weighs.attempt {step : Reader α} (h : step.Weighs before .spare 0 weight) :
    (attempt step).Weighs before .spare 0 fun o => o.elim 0 weight := by
  intro s
  have h₁ := h s
  unfold Reader.attempt
  cases hr : step s with
  | ok a s' =>
    rw [hr] at h₁
    exact h₁
  | fail e s' =>
    rw [hr] at h₁
    have hsuffix : recover s'.pending <:+ s.pending := ((recover_suffix _).trans (List.tail_suffix _)).trans h₁
    refine ⟨hsuffix, ?_, fun he => ?_⟩
    · rw [Nat.zero_add]
      exact Nat.le_trans (Nat.le_of_eq (Nat.zero_add _))
        (Nat.le_trans (tokensWeight_of_suffix hsuffix) (before.tokensWeight_le_least _))
    · simp [ReadState.report] at he
  | outOfFuel => trivial

end Reader

end LoxLang
