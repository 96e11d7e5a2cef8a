import LoxLang.Proofs.Grammar.Limits
import LoxLang.Proofs.Grammar.Reach

/-!
# What is noted on the way

Tokens that spell a phrase without regard to the limits are read as that phrase, if no token behind them makes it
longer, and the errors at the limits are noted on the way. The proof follows the derivation, one lemma for each way
to write a phrase; the fuel may end at any point. That it does not end is known apart from this, so that a whole
program is read in the end.
-/

namespace LoxLang

open Reader

namespace Reader
variable {α β : Type} {first middle next : NodeId} {ts u rest : List Token} {t : Token} {a : α}
  {noted noted' : List StaticError}

/-! ## Steps that note errors -/

/-- Notes errors and goes on with a step. -/
def noting (noted : List StaticError) (step : Reader α) : Reader α := fun s =>
  step { s with errors := s.errors ++ noted }

/-- On these tokens the step notes errors and goes over to a loop, unless its fuel ends before. -/
abbrev Notes (step : Reader α) (noted : List StaticError) (loop : Nat → Reader α) (first : NodeId)
    (ts : List Token) (next : NodeId) (rest : List Token) : Prop :=
  step.Reaches (fun fuel => noting noted (loop fuel)) first ts next rest

/-- On these tokens the step notes errors and yields a value, unless its fuel ends before. -/
abbrev TakesNoting (step : Reader α) (noted : List StaticError) (first : NodeId) (ts : List Token) (a : α)
    (next : NodeId) (rest : List Token) : Prop := step.Notes noted (fun _ => pure a) first ts next rest

theorem noting_nil (step : Reader α) : noting [] step = step := by
  funext s
  simp [noting]

theorem noting_append (step : Reader α) : noting (noted ++ noted') step = noting noted (noting noted' step) := by
  funext s
  simp [noting]

/-- To note nothing is to go on. -/
theorem notes_nil {step : Reader α} {loop : Nat → Reader α} :
    step.Notes [] loop first ts next rest ↔ step.Reaches loop first ts next rest := by
  simp only [Notes, noting_nil]

/-- Behind earlier errors a step notes the same ones. -/
theorem Notes.behind_noting {step : Reader α} {loop : Nat → Reader α}
    (h : step.Notes noted' loop first ts next rest) :
    (noting noted step).Notes (noted ++ noted') loop first ts next rest := by
  intro endLine errors
  simp only [noting_append]
  exact h endLine (errors ++ noted)

theorem Notes.trans {step : Reader α} {loop other : Nat → Reader α}
    (h : step.Notes noted loop first ts middle (u ++ rest))
    (hl : ∀ fuel, (loop fuel).Notes noted' other middle u next rest) :
    step.Notes (noted ++ noted') other first (ts ++ u) next rest :=
  Reaches.trans h fun fuel => (hl fuel).behind_noting

theorem TakesNoting.bind {step : Reader α} {f : α → Reader β} {loop : Nat → Reader β}
    (h : step.TakesNoting noted first ts a middle (u ++ rest))
    (hf : (f a).Notes noted' loop middle u next rest) :
    (step >>= f).Notes (noted ++ noted') loop first (ts ++ u) next rest := by
  intro endLine errors
  rw [List.append_assoc]
  simp only [noting_append]
  change andThen step f _ = _ ∨ ∃ fuel, andThen step f _ = _
  unfold andThen
  obtain h | ⟨_, h⟩ := h endLine errors
  · exact .inl (by rw [h])
  · rw [h]
    exact hf endLine (errors ++ noted)

/-- What follows notes nothing. -/
theorem TakesNoting.bind_reaches {step : Reader α} {f : α → Reader β} {loop : Nat → Reader β}
    (h : step.TakesNoting noted first ts a middle (u ++ rest))
    (hf : (f a).Reaches loop middle u next rest) :
    (step >>= f).Notes noted loop first (ts ++ u) next rest := by
  rw [← List.append_nil noted]
  exact h.bind (notes_nil.2 hf)

/-- What follows takes nothing and notes nothing. -/
theorem TakesNoting.bind_last {step : Reader α} {f : α → Reader β} {loop : Nat → Reader β}
    (h : step.TakesNoting noted first ts a middle rest) (hf : (f a).Reaches loop middle [] next rest) :
    (step >>= f).Notes noted loop first ts next rest := by
  rw [← List.append_nil ts]
  exact h.bind_reaches (u := []) hf

theorem TakesNoting.map {step : Reader α} (f : α → β) (h : step.TakesNoting noted first ts a next rest) :
    (f <$> step).TakesNoting noted first ts (f a) next rest :=
  h.bind_last (f := fun a => pure (f a)) (takes_pure (f a))

theorem TakesNoting.behind {kind : TokenKind} {step : Reader α} (ht : t.kind = kind)
    (h : step.TakesNoting noted first ts a next rest) :
    (behind? kind step).TakesNoting noted first (t :: ts) (some a) next rest :=
  takes_accept_some ht (h.map _)

theorem TakesNoting.unlessAt {mark : Mark} {step : Reader α} (hr : Absent (.mark mark) (ts ++ rest))
    (h : step.TakesNoting noted first ts a next rest) :
    (unlessAt mark step).TakesNoting noted first ts (some a) next rest :=
  takes_at?_false hr (h.map _)

theorem TakesNoting.attempt {step : Reader α} (h : step.TakesNoting noted first ts a next rest) :
    (attempt step).TakesNoting noted first ts (some a) next rest := by
  intro endLine errors
  unfold Reader.attempt
  obtain h | ⟨_, h⟩ := h endLine errors
  · exact .inl (by rw [h])
  · exact .inr ⟨0, by rw [h]; rfl⟩

theorem notes_reportIf {condition : Bool} {fault : GrammarFault} {f : Unit → Reader β} {loop : Nat → Reader β}
    (hts : ts ≠ []) (h : (f ()).Notes noted loop first ts next rest) :
    (reportIf condition fault >>= f).Notes (notedAt condition fault ts ++ noted) loop first ts next rest := by
  intro endLine errors
  obtain ⟨t, us, rfl⟩ := List.exists_cons_of_ne_nil hts
  simp only [noting_append]
  have hs : (reportIf condition fault >>= f) ⟨t :: us ++ rest, endLine, first, errors⟩ =
      f () ⟨t :: us ++ rest, endLine, first, errors ++ notedAt condition fault (t :: us)⟩ := by
    cases condition
    · rw [notedAt, if_neg Bool.false_ne_true, List.append_nil]
      rfl
    · rfl
  rw [hs]
  exact h endLine (errors ++ notedAt condition fault (t :: us))

end Reader

/-! ## Expressions -/

/-- How an expression of a rank is read. A phrase that leans to the left is read up to the loop that looks
for more of it. -/
def ReadsNotingExpr : Rank → NodeId → List Token → Expr → List StaticError → NodeId → Prop
  | .primary, first, ts, e, noted, next => ∀ n rest, (readPrimary n).TakesNoting noted first ts e next rest
  | .call, first, ts, e, noted, next =>
    ∀ n rest, (readCall n).Notes noted (fun m => readSelectors m e) first ts next rest
  | .power, first, ts, e, noted, next =>
    ∀ n rest, Stops .power rest → (readPower n).TakesNoting noted first ts e next rest
  | .unary, first, ts, e, noted, next =>
    ∀ n rest, Stops .unary rest → (readUnary n).TakesNoting noted first ts e next rest
  | .level l, first, ts, e, noted, next => ∀ n rest, Stops (.operand l.tighter?) rest →
    (readLevel n (some l)).Notes noted (fun m => readJoined m l e) first ts next rest
  | .assignment, first, ts, e, noted, next =>
    ∀ n rest, Stops .assignment rest → (readExpr n).TakesNoting noted first ts e next rest

/-- How arguments are read, together with the mark behind them. -/
def ReadsNotingArguments (limit : Option Nat) (first : NodeId) (ts : List Token) (es : List Expr)
    (noted : List StaticError) (next : NodeId) : Prop :=
  ∀ n rest (style : CallStyle) after, after.kind = .mark style.closing →
    (readArguments n style.closing limit).TakesNoting noted first (ts ++ [after]) (es, after.line) next rest

/-- How one or more expressions are read behind `count` earlier ones. -/
def ReadsNotingItems (limit : Option Nat) (count : Nat) (first : NodeId) (ts : List Token) (es : List Expr)
    (noted : List StaticError) (next : NodeId) : Prop :=
  ∀ n rest, Stops .assignment rest → Absent (.mark .comma) rest →
    (readItems n limit count).TakesNoting noted first ts es next rest

variable {first middle next : NodeId} {ts us rest : List Token} {e : Expr} {t : Token}
  {noted noted' : List StaticError}

theorem readSelectors_takes (n : Nat) (h : Stops .call rest) :
    (readSelectors n e).Takes first [] e first rest := by
  cases n with
  | zero => exact reaches_exhausted _
  | succ n =>
    rw [readSelectors]
    refine takes_accept_none (absent_of_stops_call h rfl) ?_
    refine takes_accept_none (absent_of_stops_call h rfl) ?_
    exact takes_accept_none (absent_of_stops_call h rfl) (takes_pure e)

theorem readJoined_takes (n : Nat) {l : Level} (h : Stops (.level l) rest) :
    (readJoined n l e).Takes first [] e first rest := by
  cases n with
  | zero => exact reaches_exhausted _
  | succ n =>
    rw [readJoined]
    exact takes_takeIf_none (refused_joiner_of_stops h) (takes_pure e)

/-- A loop that finds nothing more has read its phrase. -/
theorem takes_of_notes {step : Reader Expr} {loop : Nat → Reader Expr}
    (h : step.Notes noted loop first ts next rest) (hl : ∀ n, (loop n).Takes next [] e next rest) :
    step.TakesNoting noted first ts e next rest := by
  have hall := h.trans (u := []) fun fuel => notes_nil.2 (hl fuel)
  rwa [List.append_nil, List.append_nil] at hall

theorem ReadsNotingExpr.takes_call (h : ReadsNotingExpr .call first ts e noted next) (n : Nat)
    (hs : Stops .call rest) : (readCall n).TakesNoting noted first ts e next rest :=
  takes_of_notes (h n rest) fun m => readSelectors_takes m hs

/-- An operand of a level is read whole. -/
theorem ReadsNotingExpr.takes_operand {o : Option Level} (h : ReadsNotingExpr (.operand o) first ts e noted next)
    (n : Nat) (hs : Stops (.operand o) rest) : (readLevel n o).TakesNoting noted first ts e next rest := by
  cases o with
  | none =>
    cases n with
    | zero => exact reaches_exhausted _
    | succ n =>
      rw [readLevel]
      exact h n rest hs
  | some l => exact takes_of_notes (h n rest hs.operand) fun m => readJoined_takes m hs

section Primary

theorem refused_literal {kind : TokenKind} (ht : t.kind = kind) (hk : kind.literal? = none) :
    Refused TokenKind.literal? (t :: ts) := by
  rw [refused_cons, ht]
  exact hk

theorem readsNotingExpr_literal {value : Literal} (ht : t.kind.literal? = some value) :
    ReadsNotingExpr .primary first [t] (.literal value) [] first := by
  intro n rest
  rw [TakesNoting, notes_nil]
  cases n with
  | zero => exact reaches_exhausted _
  | succ n =>
    rw [readPrimary]
    exact takes_takeIf_some ht (takes_pure _)

theorem readsNotingExpr_reference (ht : t.kind = .identifier) :
    ReadsNotingExpr .primary first [t] (.reference ⟨first, t.toName⟩) [] (first + 1) := by
  intro n rest
  rw [TakesNoting, notes_nil]
  cases n with
  | zero => exact reaches_exhausted _
  | succ n =>
    rw [readPrimary]
    refine takes_takeIf_none (refused_literal ht rfl) ?_
    exact takes_accept_some ht (takes_newReference _ _)

theorem readsNotingExpr_grouping {before after : Token} (hb : before.kind = .mark .leftParen)
    (h : ReadsNotingExpr .assignment first ts e noted next) (ha : after.kind = .mark .rightParen) :
    ReadsNotingExpr .primary first (before :: (ts ++ [after])) (.grouping e) noted next := by
  intro n rest
  cases n with
  | zero => exact reaches_exhausted _
  | succ n =>
    rw [readPrimary]
    refine takes_takeIf_none (refused_literal hb rfl) ?_
    refine takes_accept_none (by simp [hb]) (takes_accept_some hb ?_)
    refine (h n _ (stops_of_closes ha rfl)).bind_reaches ?_
    exact takes_expectMark ha (takes_pure _)

theorem readsNotingExpr_list {before after : Token} {es : List Expr} (hb : before.kind = .mark .leftBracket)
    (h : ReadsNotingArguments none first ts es noted next) (ha : after.kind = .mark .rightBracket) :
    ReadsNotingExpr .primary first (before :: (ts ++ [after])) (.list after.line es) noted next := by
  intro n rest
  cases n with
  | zero => exact reaches_exhausted _
  | succ n =>
    rw [readPrimary]
    refine takes_takeIf_none (refused_literal hb rfl) ?_
    refine takes_accept_none (by simp [hb]) (takes_accept_none (by simp [hb]) ?_)
    refine takes_accept_some hb ?_
    exact (h n rest .brackets after ha).bind_last (takes_pure _)

theorem readsNotingExpr_receiver (ht : t.kind = .keyword .thisWord) :
    ReadsNotingExpr .primary first [t] (.receiver ⟨first, t.toName⟩) [] (first + 1) := by
  intro n rest
  rw [TakesNoting, notes_nil]
  cases n with
  | zero => exact reaches_exhausted _
  | succ n =>
    rw [readPrimary]
    refine takes_takeIf_none (refused_literal ht rfl) ?_
    refine takes_accept_none (by simp [ht]) (takes_accept_none (by simp [ht]) ?_)
    refine takes_accept_none (by simp [ht]) (takes_accept_some ht ?_)
    exact takes_newReference _ _

theorem readsNotingExpr_inherited {dot name : Token} (ht : t.kind = .keyword .superWord)
    (hd : dot.kind = .mark .dot) (hn : name.kind = .identifier) :
    ReadsNotingExpr .primary first [t, dot, name] (.inherited ⟨first, t.toName⟩ name.toName) [] (first + 1) := by
  intro n rest
  rw [TakesNoting, notes_nil]
  cases n with
  | zero => exact reaches_exhausted _
  | succ n =>
    rw [readPrimary]
    refine takes_takeIf_none (refused_literal ht rfl) ?_
    refine takes_accept_none (by simp [ht]) (takes_accept_none (by simp [ht]) ?_)
    refine takes_accept_none (by simp [ht]) (takes_accept_none (by simp [ht]) ?_)
    refine takes_accept_some ht (takes_expectMark hd (takes_expectName hn ?_))
    exact takes_newReference _ _

end Primary

section Selectors

theorem readsNotingExpr_ofPrimary (h : ReadsNotingExpr .primary first ts e noted next) :
    ReadsNotingExpr .call first ts e noted next := by
  intro n rest
  cases n with
  | zero => exact reaches_exhausted _
  | succ n =>
    rw [readCall]
    exact (h n rest).bind_last (reaches_loop (fun m => readSelectors m e) n)

theorem readsNotingExpr_call {style : CallStyle} {before after : Token} {es : List Expr}
    (h : ReadsNotingExpr .call first ts e noted middle) (hb : before.kind = .mark style.opening)
    (hs : ReadsNotingArguments (some style.limit) middle us es noted' next)
    (ha : after.kind = .mark style.closing) :
    ReadsNotingExpr .call first (ts ++ before :: (us ++ [after])) (.call e style after.line es)
      (noted ++ noted') next := by
  intro n rest
  refine (h n _).trans fun m => ?_
  cases m with
  | zero => exact reaches_exhausted _
  | succ m =>
    have hgo := (hs m rest style after ha).bind_last (f := fun a => readSelectors m (.call e style a.2 a.1))
      (reaches_loop (fun m => readSelectors m (.call e style after.line es)) m)
    rw [readSelectors]
    cases style with
    | parens => exact takes_accept_some hb hgo
    | brackets =>
      refine takes_accept_none (by simp [hb, CallStyle.opening]) ?_
      exact takes_accept_some hb hgo

theorem readsNotingExpr_get {dot name : Token} (h : ReadsNotingExpr .call first ts e noted next)
    (hd : dot.kind = .mark .dot) (hn : name.kind = .identifier) :
    ReadsNotingExpr .call first (ts ++ [dot, name]) (.get e name.toName) noted next := by
  intro n rest
  rw [← List.append_nil noted]
  refine (h n _).trans fun m => notes_nil.2 ?_
  cases m with
  | zero => exact reaches_exhausted _
  | succ m =>
    rw [readSelectors]
    refine takes_accept_none (by simp [hd]) (takes_accept_none (by simp [hd]) ?_)
    refine takes_accept_some hd (takes_expectName hn ?_)
    exact reaches_loop (fun m => readSelectors m (.get e name.toName)) m

end Selectors

section Operators

theorem readsNotingExpr_ofCall (h : ReadsNotingExpr .call first ts e noted next) :
    ReadsNotingExpr .power first ts e noted next := by
  intro n rest hs
  cases n with
  | zero => exact reaches_exhausted _
  | succ n =>
    rw [readPower]
    refine (h.takes_call n hs.call).bind_last ?_
    exact takes_accept_none (absent_starStar_of_stops hs) (takes_pure e)

theorem readsNotingExpr_power {exponent : Expr} (h : ReadsNotingExpr .call first ts e noted middle)
    (ht : t.kind = .mark .starStar) (hu : ReadsNotingExpr .unary middle us exponent noted' next) :
    ReadsNotingExpr .power first (ts ++ t :: us) (.binary e .power t.line exponent) (noted ++ noted') next := by
  intro n rest hs
  cases n with
  | zero => exact reaches_exhausted _
  | succ n =>
    rw [readPower]
    have hstops : Stops .call (t :: us ++ rest) := by simp [ht, Rank.goesOn, TokenKind.selects]
    refine (h.takes_call n hstops).bind (takes_accept_some ht ?_)
    exact (hu n rest hs).bind_last (takes_pure _)

theorem readsNotingExpr_ofPower (h : ReadsNotingExpr .power first ts e noted next)
    (hb : BeginsWith TokenKind.startsPrimary ts) : ReadsNotingExpr .unary first ts e noted next := by
  intro n rest hs
  cases n with
  | zero => exact reaches_exhausted _
  | succ n =>
    rw [readUnary]
    refine takes_takeIf_none ?_ (h n rest hs)
    exact hb.append.refused fun _ => TokenKind.not_unary_of_startsPrimary

theorem readsNotingExpr_unary {operator : UnaryOperator} (ht : UnaryOperator.ofToken? t.kind = some operator)
    (h : ReadsNotingExpr .unary first ts e noted next) :
    ReadsNotingExpr .unary first (t :: ts) (.unary operator t.line e) noted next := by
  intro n rest hs
  cases n with
  | zero => exact reaches_exhausted _
  | succ n =>
    rw [readUnary]
    exact takes_takeIf_some ht ((h n rest hs).bind_last (takes_pure _))

theorem readsNotingExpr_ofOperand {l : Level} (h : ReadsNotingExpr (.operand l.tighter?) first ts e noted next) :
    ReadsNotingExpr (.level l) first ts e noted next := by
  intro n rest hs
  cases n with
  | zero => exact reaches_exhausted _
  | succ n =>
    rw [readLevel]
    exact (h.takes_operand n hs).bind_last (reaches_loop (fun m => readJoined m l e) n)

theorem readsNotingExpr_join {l : Level} {operator : Joiner} {right : Expr}
    (h : ReadsNotingExpr (.level l) first ts e noted middle) (ht : Joiner.atLevel? l t.kind = some operator)
    (hr : ReadsNotingExpr (.operand l.tighter?) middle us right noted' next) :
    ReadsNotingExpr (.level l) first (ts ++ t :: us) (operator.join e t.line right) (noted ++ noted') next := by
  intro n rest hs
  refine (h n _ (stops_operand_of_joiner ht)).trans fun m => ?_
  cases m with
  | zero => exact reaches_exhausted _
  | succ m =>
    rw [readJoined]
    refine takes_takeIf_some ht ((hr.takes_operand m hs).bind_last ?_)
    exact reaches_loop (fun m => readJoined m l (operator.join e t.line right)) m

theorem readsNotingExpr_ofLevel (h : ReadsNotingExpr (.level .disjunction) first ts e noted next) :
    ReadsNotingExpr .assignment first ts e noted next := by
  intro n rest hs
  cases n with
  | zero => exact reaches_exhausted _
  | succ n =>
    rw [readExpr]
    refine (h.takes_operand (o := some .disjunction) n hs.level).bind_last ?_
    exact takes_takeIf_none (refused_assign_of_stops hs) (takes_pure e)

theorem readsNotingExpr_assign {operator : AssignOperator} {value assignment : Expr}
    (h : ReadsNotingExpr (.level .disjunction) first ts e noted middle)
    (ht : AssignOperator.ofToken? t.kind = some operator)
    (hv : ReadsNotingExpr .assignment middle us value noted' next)
    (ha : e.assigned? operator value = some assignment) :
    ReadsNotingExpr .assignment first (ts ++ t :: us) assignment (noted ++ noted') next := by
  intro n rest hs
  cases n with
  | zero => exact reaches_exhausted _
  | succ n =>
    rw [readExpr]
    refine (h.takes_operand (o := some .disjunction) n (stops_level_of_assign ht)).bind ?_
    refine takes_takeIf_some ht ((hv n rest hs).bind_last ?_)
    rw [ha]
    exact takes_pure assignment

end Operators

section Arguments
variable {limit : Option Nat} {count : Nat} {es : List Expr}

theorem readsNotingArguments_nil : ReadsNotingArguments limit first [] [] [] first := by
  intro n rest style after ha
  rw [TakesNoting, notes_nil]
  cases n with
  | zero => exact reaches_exhausted _
  | succ n =>
    rw [readArguments]
    exact (takes_unlessAt_none ha).bind (takes_expectMark ha (takes_pure _))

theorem readsNotingArguments_items (h : ReadsNotingItems limit 0 first ts es noted next)
    (hb : BeginsWith TokenKind.startsExpr ts) : ReadsNotingArguments limit first ts es noted next := by
  intro n rest style after ha
  cases n with
  | zero => exact reaches_exhausted _
  | succ n =>
    rw [readArguments]
    have hmark : TokenKind.startsExpr (.mark style.closing) = false := by cases style <;> rfl
    have hclose : style.closing.closes = true := by cases style <;> rfl
    have hcomma : Absent (.mark .comma) (after :: rest) := by cases style <;> simp [ha, CallStyle.closing]
    have hi := h n (after :: rest) (stops_of_closes ha hclose) hcomma
    exact (hi.unlessAt (hb.append.absent hmark)).bind_reaches (takes_expectMark ha (takes_pure _))

theorem readsNotingItems_last (h : ReadsNotingExpr .assignment first ts e noted next) (hts : ts ≠ []) :
    ReadsNotingItems limit count first ts [e]
      (notedAt (limit == some count) (.tooManyArguments count) ts ++ noted) next := by
  intro n rest hs hc
  cases n with
  | zero => exact reaches_exhausted _
  | succ n =>
    rw [readItems]
    exact notes_reportIf hts ((h n rest hs).bind_last (takes_accept_none hc (takes_pure _)))

theorem readsNotingItems_more {comma : Token} (h : ReadsNotingExpr .assignment first ts e noted middle)
    (hts : ts ≠ []) (hm : comma.kind = .mark .comma)
    (hr : ReadsNotingItems limit (count + 1) middle us es noted' next) :
    ReadsNotingItems limit count first (ts ++ comma :: us) (e :: es)
      (notedAt (limit == some count) (.tooManyArguments count) ts ++ (noted ++ noted')) next := by
  intro n rest hs hc
  have hfirst : ∀ behind, notedAt (limit == some count) (.tooManyArguments count) (ts ++ behind) =
      notedAt (limit == some count) (.tooManyArguments count) ts := by
    obtain ⟨t, ts, rfl⟩ := List.exists_cons_of_ne_nil hts
    exact fun _ => rfl
  cases n with
  | zero => exact reaches_exhausted _
  | succ n =>
    rw [readItems, ← hfirst (comma :: us)]
    refine notes_reportIf (by simp) ((h n _ (stops_of_closes hm rfl)).bind (takes_accept_some hm ?_))
    exact (hr n rest hs hc).bind_last (takes_pure _)

end Arguments

mutual

theorem NotesExpr.reads {r : Rank} {first next : NodeId} {ts : List Token} {e : Expr} {noted : List StaticError} :
    NotesExpr r first ts e noted next → ReadsNotingExpr r first ts e noted next
  | .literal ht => readsNotingExpr_literal ht
  | .reference ht => readsNotingExpr_reference ht
  | .grouping hb h ha => readsNotingExpr_grouping hb h.reads ha
  | .list hb h ha => readsNotingExpr_list hb h.reads ha
  | .receiver ht => readsNotingExpr_receiver ht
  | .inherited ht hd hn => readsNotingExpr_inherited ht hd hn
  | .ofPrimary h => readsNotingExpr_ofPrimary h.reads
  | .call h hb hs ha => readsNotingExpr_call h.reads hb hs.reads ha
  | .get h hd hn => readsNotingExpr_get h.reads hd hn
  | .ofCall h => readsNotingExpr_ofCall h.reads
  | .power h ht hu => readsNotingExpr_power h.reads ht hu.reads
  | .ofPower h => readsNotingExpr_ofPower h.reads h.begins
  | .unary ht h => readsNotingExpr_unary ht h.reads
  | .ofOperand h => readsNotingExpr_ofOperand h.reads
  | .join h ht hr => readsNotingExpr_join h.reads ht hr.reads
  | .ofLevel h => readsNotingExpr_ofLevel h.reads
  | .assign h ht hv ha => readsNotingExpr_assign h.reads ht hv.reads ha

theorem NotesArguments.reads {limit : Option Nat} {first next : NodeId} {ts : List Token} {es : List Expr}
    {noted : List StaticError} :
    NotesArguments limit first ts es noted next → ReadsNotingArguments limit first ts es noted next
  | .nil => readsNotingArguments_nil
  | .items h => readsNotingArguments_items h.reads h.begins

theorem NotesItems.reads {limit : Option Nat} {count : Nat} {first next : NodeId} {ts : List Token}
    {es : List Expr} {noted : List StaticError} :
    NotesItems limit count first ts es noted next → ReadsNotingItems limit count first ts es noted next
  | .last h => readsNotingItems_last h.reads h.begins.ne_nil
  | .more h hm hr => readsNotingItems_more h.reads h.begins.ne_nil hm hr.reads

end

/-! ## Statements without statements inside -/

theorem notedParameters_cons (count : Nat) (ht : t.kind = .identifier) (ts : List Token) (params : List Name) :
    notedParameters count (t.toName :: params) =
      notedAt (argumentLimit ≤ count) (.tooManyParameters argumentLimit) (t :: ts) ++
        notedParameters (count + 1) params := by
  by_cases hl : argumentLimit ≤ count
  · have hplace : t.place = .lexeme t.lexeme := by simp [Token.place, ht]
    have hnow : argumentLimit - count = 0 := by omega
    have hlater : argumentLimit - (count + 1) = 0 := by omega
    simp [notedParameters, notedAt, hl, hnow, hlater, hplace, parameterBeyondLimit, Token.toName]
  · have hnow : argumentLimit - count = argumentLimit - (count + 1) + 1 := by omega
    simp [notedParameters, notedAt, hl, hnow]

/-- Parameters are read, and each one beyond the limit is noted. -/
theorem SpellsNames.takesNoting {params : List Name} (h : SpellsNames ts params) (n count : Nat)
    (hc : Absent (.mark .comma) rest) :
    (readParameters n count).TakesNoting (notedParameters count params) first ts params first rest := by
  induction h generalizing n count with
  | @last t ht =>
    cases n with
    | zero => exact reaches_exhausted _
    | succ n =>
      have hnone : notedParameters (count + 1) [] = [] := by simp [notedParameters]
      rw [readParameters, notedParameters_cons count ht [], hnone]
      refine notes_reportIf (by simp) (notes_nil.2 (takes_expectName ht ?_))
      exact takes_accept_none hc (takes_pure _)
  | @more t comma ts params ht hm hr ih =>
    cases n with
    | zero => exact reaches_exhausted _
    | succ n =>
      rw [readParameters, notedParameters_cons count ht (comma :: ts)]
      refine notes_reportIf (by simp) (takes_expectName ht (takes_accept_some hm ?_))
      exact (ih n (count + 1)).bind_last (takes_pure _)

theorem NotesParameters.takes {params : List Name} {after : Token} (h : NotesParameters ts params noted)
    (n : Nat) (ha : after.kind = .mark .rightParen) :
    ∃ found, params = found.getD [] ∧
      (unlessAt .rightParen (readParameters n 0)).TakesNoting noted first ts found first (after :: rest) := by
  cases h with
  | nil => exact ⟨none, rfl, notes_nil.2 (takes_unlessAt_none ha)⟩
  | names h =>
    refine ⟨some params, rfl, (h.takesNoting n 0 (by simp [ha])).unlessAt ?_⟩
    cases h with
    | last ht => simp [ht]
    | more ht _ _ => simp [ht]

theorem NotesOptional.takes {value : Option Expr} {after : Token} {mark : Mark}
    (h : NotesOptional first ts value noted next) (n : Nat) (ha : after.kind = .mark mark)
    (hm : mark.closes = true) (hn : TokenKind.startsExpr (.mark mark) = false) :
    (unlessAt mark (readExpr n)).TakesNoting noted first ts value next (after :: rest) := by
  cases h with
  | none => exact notes_nil.2 (takes_unlessAt_none ha)
  | some h => exact (h.reads n _ (stops_of_closes ha hm)).unlessAt (h.begins_expr.append.absent hn)

theorem NotesVariable.takes {s : Stmt} (h : NotesVariable first ts s noted next) (n : Nat) :
    (readVariable n).TakesNoting noted first ts s next rest := by
  cases h with
  | bare hn hs =>
    refine takes_expectName hn (notes_nil.2 ?_)
    exact (takes_behind_none (by simp [hs])).bind (u := [_]) (takes_expectMark hs (takes_pure _))
  | initialized hn he h hs =>
    refine takes_expectName hn ?_
    refine ((h.reads n _ (stops_of_closes hs rfl)).behind he).bind_reaches (u := [_]) ?_
    exact takes_expectMark hs (takes_pure _)

theorem NotesPlain.takes {s : Stmt} (h : NotesPlain first ts s noted next) (n : Nat) :
    (readExpressionStatement n).TakesNoting noted first ts s next rest := by
  obtain ⟨h, hs⟩ := h
  exact (h.reads n _ (stops_of_closes hs rfl)).bind_reaches (takes_expectMark hs (takes_pure _))

theorem NotesInitializer.takes {o : Option Stmt} (h : NotesInitializer first ts o noted next) (n : Nat) :
    (readInitializer n).TakesNoting noted first ts o next rest := by
  cases h with
  | none hs => exact takes_accept_some hs (notes_nil.2 (takes_pure _))
  | declare hk h =>
    refine takes_accept_none (by simp [hk]) (takes_accept_some hk ?_)
    exact (h.takes n).map _
  | plain h =>
    refine takes_accept_none (h.begins.append.absent rfl) ?_
    refine takes_accept_none (h.begins.append.absent rfl) ?_
    exact (h.takes n).map _

theorem NotesClauses.takes {clauses : ForClauses} (h : NotesClauses first ts clauses noted next) (n : Nat) :
    (readForClauses n).TakesNoting noted first ts clauses next rest := by
  obtain ⟨hb, hi, hc, hm, hv, ha⟩ := h
  refine takes_expectMark hb ((hi.takes n).bind ?_)
  refine (hc.takes n hm rfl rfl).bind (takes_expectMark hm ?_)
  exact (hv.takes n ha rfl rfl).bind_reaches (takes_expectMark ha (takes_pure _))

/-! ## Statements -/

/-- An `else` behind an open phrase would belong to it. -/
abbrev Closes (isOpen : Bool) (rest : List Token) : Prop :=
  isOpen = true → Absent (.keyword .elseWord) rest

/-- How a statement is read. -/
def ReadsNotingStmt (isOpen : Bool) (first : NodeId) (ts : List Token) (s : Stmt) (noted : List StaticError)
    (next : NodeId) : Prop :=
  ∀ n rest, Closes isOpen rest → (readStatement n).TakesNoting noted first ts s next rest

/-- How a declaration is read. -/
def ReadsNotingDeclaration (isOpen : Bool) (first : NodeId) (ts : List Token) (s : Stmt)
    (noted : List StaticError) (next : NodeId) : Prop :=
  ∀ n rest, Closes isOpen rest → (readDeclaration n).TakesNoting noted first ts (some s) next rest

/-- How declarations in braces are read. -/
def ReadsNotingBody (first : NodeId) (ts : List Token) (body : List Stmt) (noted : List StaticError)
    (next : NodeId) : Prop :=
  ∀ n rest after, after.kind = .mark .rightBrace →
    (readBody n).TakesNoting noted first ts body next (after :: rest)

/-- How a function is read. -/
def ReadsNotingFunction (first : NodeId) (ts : List Token) (f : FunctionDecl) (noted : List StaticError)
    (next : NodeId) : Prop := ∀ n rest form, (readFunction n form).TakesNoting noted first ts f next rest

/-- How the methods of a class are read. -/
def ReadsNotingMethods (first : NodeId) (ts : List Token) (methods : List FunctionDecl)
    (noted : List StaticError) (next : NodeId) : Prop :=
  ∀ n rest after, after.kind = .mark .rightBrace →
    (readMethods n).TakesNoting noted first ts methods next (after :: rest)

section Statements
variable {isOpen : Bool} {s : Stmt} {keyword before after : Token}

theorem readsNotingStmt_plain (h : NotesPlain first ts s noted next) :
    ReadsNotingStmt false first ts s noted next := by
  intro n rest _
  cases n with
  | zero => exact reaches_exhausted _
  | succ n =>
    rw [readStatement]
    refine takes_accept_none (h.begins.append.absent rfl) ?_
    refine takes_accept_none (h.begins.append.absent rfl) ?_
    refine takes_accept_none (h.begins.append.absent rfl) ?_
    refine takes_accept_none (h.begins.append.absent rfl) ?_
    exact takes_accept_none (h.begins.append.absent rfl) (h.takes n)

theorem readsNotingStmt_giveBack {semicolon : Token} {value : Option Expr}
    (hk : keyword.kind = .keyword .returnWord) (h : NotesOptional first ts value noted next)
    (hs : semicolon.kind = .mark .semicolon) :
    ReadsNotingStmt false first (keyword :: (ts ++ [semicolon])) (.giveBack keyword.toName value) noted next := by
  intro n rest _
  cases n with
  | zero => exact reaches_exhausted _
  | succ n =>
    rw [readStatement]
    refine takes_accept_none (by simp [hk]) (takes_accept_none (by simp [hk]) ?_)
    refine takes_accept_none (by simp [hk]) (takes_accept_some hk ?_)
    exact (h.takes n hs rfl rfl).bind_reaches (takes_expectMark hs (takes_pure _))

/-- A body and its closing brace. -/
theorem ReadsNotingBody.takes_block {body : List Stmt} (h : ReadsNotingBody first ts body noted next)
    (ha : after.kind = .mark .rightBrace) (n : Nat) :
    (readBlock n).TakesNoting noted first (ts ++ [after]) body next rest := by
  cases n with
  | zero => exact reaches_exhausted _
  | succ n =>
    rw [readBlock]
    exact (h n rest after ha).bind_reaches (takes_expectMark ha (takes_pure _))

theorem readsNotingStmt_block {body : List Stmt} (hb : before.kind = .mark .leftBrace)
    (h : ReadsNotingBody first ts body noted next) (ha : after.kind = .mark .rightBrace) :
    ReadsNotingStmt false first (before :: (ts ++ [after])) (.block body) noted next := by
  intro n rest _
  cases n with
  | zero => exact reaches_exhausted _
  | succ n =>
    rw [readStatement]
    refine takes_accept_none (by simp [hb]) (takes_accept_none (by simp [hb]) ?_)
    refine takes_accept_none (by simp [hb]) (takes_accept_none (by simp [hb]) ?_)
    exact takes_accept_some hb ((h.takes_block ha n).map _)

theorem readsNotingStmt_loop {condition : Expr} (hk : keyword.kind = .keyword .whileWord)
    (hb : before.kind = .mark .leftParen) (h : NotesExpr .assignment first ts condition noted middle)
    (ha : after.kind = .mark .rightParen) (hs : ReadsNotingStmt isOpen middle us s noted' next) :
    ReadsNotingStmt isOpen first (keyword :: before :: (ts ++ after :: us)) (.loop condition s)
      (noted ++ noted') next := by
  intro n rest ho
  cases n with
  | zero => exact reaches_exhausted _
  | succ n =>
    rw [readStatement]
    refine takes_accept_none (by simp [hk]) (takes_accept_none (by simp [hk]) ?_)
    refine takes_accept_some hk (takes_expectMark hb ?_)
    refine (h.reads n _ (stops_of_closes ha rfl)).bind (takes_expectMark ha ?_)
    exact (hs n rest ho).bind_last (takes_pure _)

theorem readsNotingStmt_forLoop {clauses : ForClauses} (hk : keyword.kind = .keyword .forWord)
    (h : NotesClauses first ts clauses noted middle) (hs : ReadsNotingStmt isOpen middle us s noted' next) :
    ReadsNotingStmt isOpen first (keyword :: (ts ++ us)) (clauses.loop s) (noted ++ noted') next := by
  intro n rest ho
  cases n with
  | zero => exact reaches_exhausted _
  | succ n =>
    rw [readStatement]
    refine takes_accept_some hk ((h.takes n).bind ?_)
    exact (hs n rest ho).bind_last (takes_pure _)

/-- The condition of an `if` and what follows it. -/
theorem NotesExpr.takes_branch {condition : Expr}
    (hk : keyword.kind = .keyword .ifWord) (hb : before.kind = .mark .leftParen)
    (h : NotesExpr .assignment first ts condition noted middle) (ha : after.kind = .mark .rightParen) (n : Nat)
    (hf : ∀ n, Reader.TakesNoting (do
      let thenBranch ← readStatement n
      let elseBranch ← behind? (.keyword .elseWord) (readStatement n)
      pure (.branch condition thenBranch elseBranch)) noted' middle us s next rest) :
    (readStatement n).TakesNoting (noted ++ noted') first (keyword :: before :: (ts ++ after :: us)) s next
      rest := by
  cases n with
  | zero => exact reaches_exhausted _
  | succ n =>
    rw [readStatement]
    refine takes_accept_none (by simp [hk]) (takes_accept_some hk ?_)
    cases n with
    | zero => exact reaches_exhausted _
    | succ n =>
      rw [readBranch]
      refine takes_expectMark hb ((h.reads n _ (stops_of_closes ha rfl)).bind ?_)
      exact takes_expectMark ha (hf n)

theorem readsNotingStmt_branch {condition : Expr} (hk : keyword.kind = .keyword .ifWord)
    (hb : before.kind = .mark .leftParen) (h : NotesExpr .assignment first ts condition noted middle)
    (ha : after.kind = .mark .rightParen) (hs : ReadsNotingStmt isOpen middle us s noted' next) :
    ReadsNotingStmt true first (keyword :: before :: (ts ++ after :: us)) (.branch condition s none)
      (noted ++ noted') next := by
  intro n rest ho
  refine h.takes_branch hk hb ha n fun n => ?_
  refine (hs n rest fun _ => ho rfl).bind_last ?_
  exact (takes_behind_none (ho rfl)).bind (u := []) (takes_pure _)

theorem readsNotingStmt_branchElse {third : NodeId} {vs : List Token} {elseWord : Token} {condition : Expr}
    {elseBranch : Stmt} {noted'' : List StaticError} (hk : keyword.kind = .keyword .ifWord)
    (hb : before.kind = .mark .leftParen) (h : NotesExpr .assignment first ts condition noted middle)
    (ha : after.kind = .mark .rightParen) (ht : ReadsNotingStmt false middle us s noted' third)
    (hw : elseWord.kind = .keyword .elseWord) (he : ReadsNotingStmt isOpen third vs elseBranch noted'' next) :
    ReadsNotingStmt isOpen first (keyword :: before :: (ts ++ after :: (us ++ elseWord :: vs)))
      (.branch condition s (some elseBranch)) (noted ++ (noted' ++ noted'')) next := by
  intro n rest ho
  refine h.takes_branch hk hb ha n fun n => ?_
  refine (ht n _ fun h => by cases h).bind ?_
  exact ((he n rest ho).behind hw).bind_last (takes_pure _)

end Statements

section Declarations
variable {isOpen : Bool} {s : Stmt} {keyword before after name : Token} {methods : List FunctionDecl}

theorem readsNotingDeclaration_declare (hk : keyword.kind = .keyword .varWord)
    (h : NotesVariable first ts s noted next) :
    ReadsNotingDeclaration false first (keyword :: ts) s noted next := by
  intro n rest _
  cases n with
  | zero => exact reaches_exhausted _
  | succ n =>
    rw [readDeclaration]
    refine TakesNoting.attempt (takes_accept_none (by simp [hk]) (takes_accept_none (by simp [hk]) ?_))
    exact takes_accept_some hk (h.takes n)

theorem readsNotingDeclaration_function {f : FunctionDecl} (hk : keyword.kind = .keyword .funWord)
    (h : ReadsNotingFunction first ts f noted next) :
    ReadsNotingDeclaration false first (keyword :: ts) (.function f) noted next := by
  intro n rest _
  cases n with
  | zero => exact reaches_exhausted _
  | succ n =>
    rw [readDeclaration]
    refine TakesNoting.attempt (takes_accept_none (by simp [hk]) (takes_accept_some hk ?_))
    exact (h n rest _).map _

theorem readsNotingDeclaration_base (hk : keyword.kind = .keyword .classWord) (hn : name.kind = .identifier)
    (hb : before.kind = .mark .leftBrace) (h : ReadsNotingMethods first ts methods noted next)
    (ha : after.kind = .mark .rightBrace) :
    ReadsNotingDeclaration false first (keyword :: name :: before :: (ts ++ [after]))
      (.declareClass name.toName none methods) noted next := by
  intro n rest _
  cases n with
  | zero => exact reaches_exhausted _
  | succ n =>
    rw [readDeclaration]
    refine TakesNoting.attempt (takes_accept_some hk ?_)
    cases n with
    | zero => exact reaches_exhausted _
    | succ n =>
      rw [readClass]
      refine takes_expectName hn ?_
      refine (takes_behind_none (by simp [hb])).bind (u := before :: (ts ++ [after])) ?_
      refine takes_expectMark hb ((h n rest after ha).bind_reaches ?_)
      exact takes_expectMark ha (takes_pure _)

theorem readsNotingDeclaration_derived {less superName : Token} (hk : keyword.kind = .keyword .classWord)
    (hn : name.kind = .identifier) (hl : less.kind = .mark .less) (hs : superName.kind = .identifier)
    (hb : before.kind = .mark .leftBrace) (h : ReadsNotingMethods (first + 1) ts methods noted next)
    (ha : after.kind = .mark .rightBrace) :
    ReadsNotingDeclaration false first (keyword :: name :: less :: superName :: before :: (ts ++ [after]))
      (.declareClass name.toName (some ⟨first, superName.toName⟩) methods) noted next := by
  intro n rest _
  cases n with
  | zero => exact reaches_exhausted _
  | succ n =>
    rw [readDeclaration]
    refine TakesNoting.attempt (takes_accept_some hk ?_)
    cases n with
    | zero => exact reaches_exhausted _
    | succ n =>
      rw [readClass]
      refine takes_expectName hn ?_
      have hr : readSuperclass.Takes first [superName] ⟨first, superName.toName⟩ (first + 1)
          (before :: (ts ++ [after]) ++ rest) := takes_expectName hs (takes_newReference _ id)
      refine (hr.behind hl).bind (u := before :: (ts ++ [after])) ?_
      refine takes_expectMark hb ((h n rest after ha).bind_reaches ?_)
      exact takes_expectMark ha (takes_pure _)

theorem readsNotingDeclaration_statement (h : ReadsNotingStmt isOpen first ts s noted next)
    (hb : BeginsWith TokenKind.beginsStatement ts) :
    ReadsNotingDeclaration isOpen first ts s noted next := by
  intro n rest ho
  cases n with
  | zero => exact reaches_exhausted _
  | succ n =>
    rw [readDeclaration]
    refine TakesNoting.attempt (takes_accept_none (hb.append.absent rfl) ?_)
    refine takes_accept_none (hb.append.absent rfl) ?_
    exact takes_accept_none (hb.append.absent rfl) (h n rest ho)

end Declarations

section Bodies

theorem NotesBody.absent_else {body : List Stmt} (h : NotesBody first ts body noted next)
    (hr : Absent (.keyword .elseWord) rest) : Absent (.keyword .elseWord) (ts ++ rest) := by
  cases h with
  | nil => exact hr
  | cons h hs =>
    rw [List.append_assoc]
    exact h.begins.append.absent rfl

theorem readsNotingBody_nil : ReadsNotingBody first [] [] [] first := by
  intro n rest after ha
  rw [TakesNoting, notes_nil]
  cases n with
  | zero => exact reaches_exhausted _
  | succ n =>
    rw [readBody]
    exact takes_at?_true ha (takes_atEnd_false (by simp) (takes_pure _))

theorem readsNotingBody_cons {isOpen : Bool} {s : Stmt} {body : List Stmt}
    (h : ReadsNotingDeclaration isOpen first ts s noted middle)
    (hb : BeginsWith TokenKind.beginsDeclaration ts) (hs : NotesBody middle us body noted' next)
    (hr : ReadsNotingBody middle us body noted' next) :
    ReadsNotingBody first (ts ++ us) (s :: body) (noted ++ noted') next := by
  intro n rest after ha
  cases n with
  | zero => exact reaches_exhausted _
  | succ n =>
    rw [readBody]
    refine takes_at?_false (hb.append.append.absent rfl) ?_
    refine takes_atEnd_false hb.append.append.ne_nil ?_
    refine (h n _ fun _ => hs.absent_else (by simp [ha])).bind ?_
    exact (hr n rest after ha).bind_last (takes_pure _)

theorem readsNotingFunction_intro {name before after opening closing : Token} {params : List Name}
    {body : List Stmt} (hn : name.kind = .identifier) (hb : before.kind = .mark .leftParen)
    (hp : NotesParameters ts params noted) (ha : after.kind = .mark .rightParen)
    (ho : opening.kind = .mark .leftBrace) (h : ReadsNotingBody first us body noted' next)
    (hc : closing.kind = .mark .rightBrace) :
    ReadsNotingFunction first (name :: before :: (ts ++ after :: opening :: (us ++ [closing])))
      ⟨name.toName, params, body⟩ (noted ++ noted') next := by
  intro n rest form
  cases n with
  | zero => exact reaches_exhausted _
  | succ n =>
    obtain ⟨found, rfl, hp⟩ := hp.takes n ha
    rw [readFunction]
    refine takes_expectName hn (takes_expectMark hb (hp.bind ?_))
    refine takes_expectMark ha (takes_expectMark ho ?_)
    exact (h.takes_block hc n).bind_last (takes_pure _)

theorem readsNotingMethods_nil : ReadsNotingMethods first [] [] [] first := by
  intro n rest after ha
  rw [TakesNoting, notes_nil]
  cases n with
  | zero => exact reaches_exhausted _
  | succ n =>
    rw [readMethods]
    exact takes_at?_true ha (takes_atEnd_false (by simp) (takes_pure _))

theorem readsNotingMethods_cons {f : FunctionDecl} {methods : List FunctionDecl}
    (h : ReadsNotingFunction first ts f noted middle) (hb : BeginsWith (· == .identifier) ts)
    (hr : ReadsNotingMethods middle us methods noted' next) :
    ReadsNotingMethods first (ts ++ us) (f :: methods) (noted ++ noted') next := by
  intro n rest after ha
  cases n with
  | zero => exact reaches_exhausted _
  | succ n =>
    rw [readMethods]
    refine takes_at?_false (hb.append.append.absent rfl) ?_
    refine takes_atEnd_false hb.append.append.ne_nil ?_
    refine (h n _ .method).bind ?_
    exact (hr n rest after ha).bind_last (takes_pure _)

end Bodies

mutual

theorem NotesStmt.reads {isOpen : Bool} {first next : NodeId} {ts : List Token} {s : Stmt}
    {noted : List StaticError} : NotesStmt isOpen first ts s noted next → ReadsNotingStmt isOpen first ts s noted next
  | .plain h => readsNotingStmt_plain h
  | .giveBack hk h hs => readsNotingStmt_giveBack hk h hs
  | .block hb h ha => readsNotingStmt_block hb h.reads ha
  | .loop hk hb h ha hs => readsNotingStmt_loop hk hb h ha hs.reads
  | .forLoop hk h hs => readsNotingStmt_forLoop hk h hs.reads
  | .branch hk hb h ha hs => readsNotingStmt_branch hk hb h ha hs.reads
  | .branchElse hk hb h ha ht hw he => readsNotingStmt_branchElse hk hb h ha ht.reads hw he.reads

theorem NotesDeclaration.reads {isOpen : Bool} {first next : NodeId} {ts : List Token} {s : Stmt}
    {noted : List StaticError} :
    NotesDeclaration isOpen first ts s noted next → ReadsNotingDeclaration isOpen first ts s noted next
  | .declare hk h => readsNotingDeclaration_declare hk h
  | .function hk h => readsNotingDeclaration_function hk h.reads
  | .base hk hn hb h ha => readsNotingDeclaration_base hk hn hb h.reads ha
  | .derived hk hn hl hs hb h ha => readsNotingDeclaration_derived hk hn hl hs hb h.reads ha
  | .statement h => readsNotingDeclaration_statement h.reads h.begins

theorem NotesBody.reads {first next : NodeId} {ts : List Token} {body : List Stmt} {noted : List StaticError} :
    NotesBody first ts body noted next → ReadsNotingBody first ts body noted next
  | .nil => readsNotingBody_nil
  | .cons h hs => readsNotingBody_cons h.reads h.begins hs hs.reads

theorem NotesFunction.reads {first next : NodeId} {ts : List Token} {f : FunctionDecl}
    {noted : List StaticError} : NotesFunction first ts f noted next → ReadsNotingFunction first ts f noted next
  | .intro hn hb hp ha ho h hc => readsNotingFunction_intro hn hb hp ha ho h.reads hc

theorem NotesMethods.reads {first next : NodeId} {ts : List Token} {methods : List FunctionDecl}
    {noted : List StaticError} :
    NotesMethods first ts methods noted next → ReadsNotingMethods first ts methods noted next
  | .nil => readsNotingMethods_nil
  | .cons h hs => readsNotingMethods_cons h.reads h.begins hs.reads

end

end LoxLang
