import LoxLang.Proofs.Grammar.Agreement
import LoxLang.Proofs.Grammar.Soundness

/-!
# Errors in front of a semicolon

Tokens that end in a semicolon, and in which no brace and no `for` opens anything, are read without a look at
what stands behind them, however wrong they are: every statement ends at a semicolon, and so does every
recovery from an error. The reading of the tokens behind them starts afresh, but for the identities that are
given away. Without a second semicolon and without a word at which a recovery may stop there is at most one
error that ends a declaration.
-/

namespace LoxLang

open Reader

/-- Whether an error was noted while the reading went on. -/
def StaticError.isLimit : StaticError → Bool
  | .grammar _ _ fault => fault.isLimit
  | _ => false

/-! ## Earlier errors -/

/-- The first reading has made some errors before. -/
structure Continued (earlier : List StaticError) (s t : ReadState) : Prop where
  pending : s.pending = t.pending
  endLine : s.endLine = t.endLine
  nextId : s.nextId = t.nextId
  errors : s.errors = earlier ++ t.errors

theorem Continued.here {earlier : List StaticError} {s t : ReadState} (h : Continued earlier s t)
    (fault : GrammarFault) : s.errorHere fault = t.errorHere fault := by
  unfold ReadState.errorHere ReadState.line ReadState.place
  rw [h.pending, h.endLine]

theorem Continued.report {earlier : List StaticError} {s t : ReadState} (h : Continued earlier s t)
    (e : StaticError) : Continued earlier (s.report e) (t.report e) := by
  refine ⟨h.pending, h.endLine, h.nextId, ?_⟩
  unfold ReadState.report
  rw [h.errors, List.append_assoc]

theorem Continued.drop {earlier : List StaticError} {s t : ReadState} {u : Token} {us vs : List Token}
    (h : Continued earlier s t) (hs : s.pending = u :: us) (ht : t.pending = u :: vs) :
    Continued earlier { s with pending := us } { t with pending := vs } := by
  have hpending := h.pending
  rw [hs, ht] at hpending
  exact ⟨(List.cons.inj hpending).2, h.endLine, h.nextId, h.errors⟩

theorem continued_recovers (earlier : List StaticError) : Recovers (Continued earlier) (Continued earlier) :=
  fun _ _ e h _ => ⟨congrArg recover h.pending, h.endLine, h.nextId, (h.report e).errors⟩

/-- What was wrong before does not change a reading. -/
theorem continued_inStep (earlier : List StaticError) :
    InStep (Continued earlier) (Continued earlier) where
  head h := by rw [h.pending]
  here fault h := h.here fault
  nextId h := h.nextId
  numbered h := ⟨h.pending, h.endLine, congrArg (· + 1) h.nextId, h.errors⟩
  limit _ h := by
    rw [h.here]
    exact h.report _
  taken h hs ht _ := h.drop hs ht
  finished h hs ht _ := h.drop hs ht
  unfinished h := .inl h
  looped _ _ _ := rfl
  nested _ _ _ := ⟨rfl, fun h hs ht _ => h.drop hs ht, continued_recovers earlier⟩

/-- A declaration takes at least one token, whatever the fuel. -/
theorem readDeclaration_length_lt {n : Nat} {s s' : ReadState} {a : Option Stmt}
    (h : readDeclaration n s = .ok a s') (hs : s.pending ≠ []) : s'.pending.length < s.pending.length := by
  -- With more fuel the tokens are counted, and the two readings end at the same place.
  have hlasts := (stmtLasts (32 * s.pending.length + 18)).declaration s.pending.length (Nat.le_refl _) s (Nat.le_refl _)
  have hagree := (stmtAgrees (continued_inStep []) n (32 * s.pending.length + 18)).declaration (fun _ _ => id)
    (continued_recovers []) s s ⟨rfl, rfl, rfl, rfl⟩
  rw [h] at hagree
  generalize readDeclaration (32 * s.pending.length + 18) s = result at hlasts hagree
  cases hagree with
  | ok _ hcontinued =>
    have hlength := hlasts.1
    rw [← hcontinued.pending] at hlength
    have hsome := List.length_pos_iff.2 hs
    omega
  | second _ => exact hlasts.elim

/-! ## In front of a token -/

/-- Both readings stand in front of the same tokens, which all have a property, and of a last one, behind which the
first reading has more. -/
structure Ahead (p : Token → Prop) (last : Token) (more : List Token) (line : Nat) (s t : ReadState) : Prop where
  pending : ∃ front, (∀ u ∈ front, p u) ∧ s.pending = front ++ last :: more ∧ t.pending = front ++ [last]
  endLine : s.endLine = line
  nextId : s.nextId = t.nextId
  errors : s.errors = t.errors

/-- A recovery ends in front of the last token, or it goes on from there whatever stands behind. -/
theorem recover_cases (last : Token) (front more : List Token) :
    (∃ rest, rest ⊆ front ∧ recover (front ++ last :: more) = rest ++ last :: more ∧
      recover (front ++ [last]) = rest ++ [last]) ∨
    recover (front ++ last :: more) = recover (last :: more) ∧ recover (front ++ [last]) = recover [last] := by
  induction front with
  | nil => exact .inr ⟨rfl, rfl⟩
  | cons u front ih =>
    have hsub : front ⊆ u :: front := List.subset_cons_self u front
    have hstep (behind : List Token) : recover (u :: front ++ last :: behind) =
        if u.kind = .mark .semicolon then front ++ last :: behind
        else if ((front ++ [last]).head (by simp)).kind.startsStatement then front ++ last :: behind
        else recover (front ++ last :: behind) := by
      rw [List.cons_append, recover.eq_def]
      cases front <;> rfl
    rw [hstep more, hstep []]
    split
    · exact .inl ⟨front, hsub, rfl, rfl⟩
    split
    · exact .inl ⟨front, hsub, rfl, rfl⟩
    rcases ih with ⟨rest, hrest, hmore, hnone⟩ | hpast
    · exact .inl ⟨rest, fun v hv => hsub (hrest hv), hmore, hnone⟩
    · exact .inr hpast

namespace Ahead
variable {p : Token → Prop} {last u : Token} {more us vs : List Token} {line : Nat} {s t : ReadState}

/-- The next token of both readings. -/
theorem next (h : Ahead p last more line s t) : ∃ u front,
    s.pending = u :: (front ++ more) ∧ t.pending = u :: front ∧
      (u = last ∧ front = [] ∨ p u ∧ ∃ inner, (∀ v ∈ inner, p v) ∧ front = inner ++ [last]) := by
  obtain ⟨front, hp, hs, ht⟩ := h.pending
  cases front with
  | nil => exact ⟨last, [], hs, ht, .inl ⟨rfl, rfl⟩⟩
  | cons u front =>
    rw [List.forall_mem_cons] at hp
    refine ⟨u, front ++ [last], ?_, ht, .inr ⟨hp.1, front, hp.2, rfl⟩⟩
    rw [hs, List.append_assoc]
    rfl

/-- The first reading differs only in what is left. -/
theorem first (h : Ahead p last more line s t) : s = ⟨s.pending, line, t.nextId, t.errors⟩ := by
  rw [← h.endLine, ← h.nextId, ← h.errors]

theorem head (h : Ahead p last more line s t) : s.pending.head? = t.pending.head? := by
  obtain ⟨u, front, hs, ht, -⟩ := h.next
  rw [hs, ht]
  rfl

theorem here (h : Ahead p last more line s t) (fault : GrammarFault) : s.errorHere fault = t.errorHere fault := by
  obtain ⟨u, front, hs, ht, -⟩ := h.next
  unfold ReadState.errorHere ReadState.line ReadState.place
  rw [hs, ht]

theorem report (h : Ahead p last more line s t) (e : StaticError) :
    Ahead p last more line (s.report e) (t.report e) :=
  ⟨h.pending, h.endLine, h.nextId, congrArg (· ++ [e]) h.errors⟩

theorem numbered (h : Ahead p last more line s t) :
    Ahead p last more line { s with nextId := s.nextId + 1 } { t with nextId := t.nextId + 1 } :=
  ⟨h.pending, h.endLine, congrArg (· + 1) h.nextId, h.errors⟩

/-- A token of another kind than the last one has the property. -/
theorem inner (h : Ahead p last more line s t) (hs : s.pending = u :: us) (hu : u.kind ≠ last.kind) : p u := by
  obtain ⟨u', front, hs', -, hcases⟩ := h.next
  obtain ⟨rfl, -⟩ := List.cons.inj (hs.symm.trans hs')
  rcases hcases with ⟨rfl, -⟩ | ⟨hp, -⟩
  · exact absurd rfl hu
  · exact hp

theorem drop (h : Ahead p last more line s t) (hs : s.pending = u :: us) (ht : t.pending = u :: vs)
    (hu : u.kind ≠ last.kind) : Ahead p last more line { s with pending := us } { t with pending := vs } := by
  obtain ⟨u', front, hs', ht', hcases⟩ := h.next
  obtain ⟨rfl, rfl⟩ := List.cons.inj (hs.symm.trans hs')
  obtain ⟨-, rfl⟩ := List.cons.inj (ht.symm.trans ht')
  rcases hcases with ⟨rfl, -⟩ | ⟨-, inner, hp, rfl⟩
  · exact absurd rfl hu
  · exact ⟨⟨inner, hp, List.append_assoc .., rfl⟩, h.endLine, h.nextId, h.errors⟩

/-- After an error the readings stand in front of the last token, or the recovery goes on from there. -/
theorem recovered (h : Ahead p last more line s t) (e : StaticError) :
    Ahead p last more line { s.report e with pending := recover s.pending }
        { t.report e with pending := recover t.pending } ∨
      recover s.pending = recover (last :: more) ∧ recover t.pending = recover [last] := by
  obtain ⟨front, hp, hs, ht⟩ := h.pending
  rcases recover_cases last front more with ⟨rest, hsub, hmore, hnone⟩ | hpast
  · refine .inl ⟨⟨rest, fun u hu => hp u (hsub hu), ?_, ?_⟩, h.endLine, h.nextId, (h.report e).errors⟩
    · rw [hs, hmore]
    · rw [ht, hnone]
  · rw [hs, ht]
    exact .inr hpast

end Ahead

/-! ## In front of a semicolon -/

/-- A token that opens nothing in which statements may follow one another. -/
def Token.Plain (t : Token) : Prop := t.kind ≠ .mark .leftBrace ∧ t.kind ≠ .keyword .forWord

/-- The first reading stands in front of what it has more, the second one at the end. -/
structure Past (more : List Token) (line : Nat) (s t : ReadState) : Prop where
  first : s = ⟨more, line, t.nextId, t.errors⟩
  second : t.pending = []

theorem recover_semicolon {t : Token} (ht : t.kind = .mark .semicolon) (rest : List Token) :
    recover (t :: rest) = rest := by
  rw [recover.eq_def]
  exact if_pos ht

/-- Up to the semicolon the readings go in step, unless the tokens behind it begin with `else`. -/
theorem ahead_inStep {last : Token} (hlast : last.kind = .mark .semicolon) {more : List Token} (line : Nat)
    (helse : Absent (.keyword .elseWord) more) :
    InStep (Ahead Token.Plain last more line) fun s t => Ahead Token.Plain last more line s t ∨ Past more line s t where
  head h := h.head
  here fault h := h.here fault
  nextId h := h.nextId
  numbered h := h.numbered
  limit _ h := by
    rw [h.here]
    exact h.report _
  taken h hs ht hu := h.drop hs ht (hlast ▸ hu.1)
  finished {s t u us vs} h hs ht hu := by
    obtain ⟨u', front, hs', ht', hcases⟩ := h.next
    obtain ⟨rfl, rfl⟩ := List.cons.inj (hs.symm.trans hs')
    obtain ⟨-, rfl⟩ := List.cons.inj (ht.symm.trans ht')
    rcases hcases with ⟨-, rfl⟩ | ⟨-, inner, hplain, rfl⟩
    · refine .inr ⟨?_, rfl⟩
      rw [h.endLine, h.nextId, h.errors]
      rfl
    · exact .inl ⟨⟨inner, hplain, List.append_assoc .., rfl⟩, h.endLine, h.nextId, h.errors⟩
  unfinished h := by
    rcases h with h | h
    · exact .inl h
    · refine .inr ⟨?_, ?_⟩
      · rw [h.first]
        exact helse
      · rw [h.second]
        exact fun u hu => by cases hu
  looped h hs hu := absurd hu (h.inner hs (by rw [hlast, hu]; exact TokenKind.noConfusion)).2
  nested h hs hu := absurd hu (h.inner hs (by rw [hlast, hu]; decide)).1

/-- A recovery stops in front of the semicolon or directly behind it. -/
theorem ahead_recovers {last : Token} (hlast : last.kind = .mark .semicolon) (more : List Token) (line : Nat) :
    Recovers (Ahead Token.Plain last more line)
      fun s t => Ahead Token.Plain last more line s t ∨ Past more line s t := by
  intro s t e h _
  rcases h.recovered e with hahead | ⟨hmore, hnone⟩
  · exact .inl hahead
  · rw [recover_semicolon hlast] at hmore hnone
    refine .inr ⟨?_, hnone⟩
    rw [hmore]
    unfold ReadState.report
    rw [h.endLine, h.nextId, h.errors]

/-! ## One program behind another -/

theorem readProgram_end (n : Nat) {s : ReadState} (h : s.pending = []) : readProgram (n + 1) s = .ok [] s := by
  rw [readProgram]
  change (if (s.pending.head?.map Token.kind).isNone then _ else _ : Reader (List Stmt)) s = _
  rw [h]
  rfl

theorem readProgram_next (n : Nat) {s : ReadState} (h : s.pending ≠ []) : readProgram (n + 1) s =
    andThen (readDeclaration n) (fun first => (first.toList ++ ·) <$> readProgram n) s := by
  obtain ⟨u, us, hs⟩ := List.exists_cons_of_ne_nil h
  rw [readProgram]
  change (if (s.pending.head?.map Token.kind).isNone then _ else _ : Reader (List Stmt)) s = _
  rw [hs]
  rfl

theorem map_eq_ok {α β : Type} {f : α → β} {step : Reader α} {s s' : ReadState} {b : β}
    (h : (f <$> step) s = .ok b s') : ∃ a, step s = .ok a s' ∧ b = f a := by
  change andThen step _ s = _ at h
  unfold andThen at h
  split at h
  · next a u hu =>
    cases h
    exact ⟨a, hu, rfl⟩
  · cases h
  · cases h

theorem map_congr {α β γ : Type} {f : α → β} {g : γ → α} {step : Reader α} {step' : Reader γ}
    {s s' : ReadState} (h : step s = (g <$> step') s') :
    (f <$> step) s = ((fun c => f (g c)) <$> step') s' := by
  change andThen step _ s = andThen step' _ s'
  change step s = andThen step' _ s' at h
  unfold andThen at h ⊢
  rw [h]
  cases step' s' <;> rfl

theorem map_ok {α β : Type} {step : Reader α} {s s' : ReadState} {a : α} (h : step s = .ok a s') (f : α → β) :
    (f <$> step) s = .ok (f a) s' := by
  change andThen step _ s = _
  unfold andThen
  rw [h]
  rfl

theorem map_ne_outOfFuel {α β : Type} {f : α → β} {step : Reader α} {s : ReadState}
    (h : (f <$> step) s ≠ .outOfFuel) : step s ≠ .outOfFuel := by
  intro hout
  refine h ?_
  change andThen step _ s = _
  unfold andThen
  rw [hout]

theorem map_nil_append {α : Type} (step : Reader (List α)) (s : ReadState) :
    (([] ++ ·) <$> step : Reader _) s = step s := by
  change andThen step _ s = _
  unfold andThen
  cases step s <;> rfl

/-- Of two readings that agree the first goes on where the second does, in states that are related. -/
theorem goes_on_of_agree {α β : Type} {inside after : Pairing} {step step' : Reader α}
    {next next' : α → Reader β} {s t t' : ReadState} {b : β} (h : (step s).Agree inside after (step' t))
    (ht : andThen step' next' t = .ok b t') (hs : andThen step next s ≠ .outOfFuel) :
    ∃ a s₁ t₁, after s₁ t₁ ∧ andThen step next s = next a s₁ ∧ next' a t₁ = .ok b t' := by
  unfold andThen at ht hs ⊢
  generalize step s = r at h hs
  generalize step' t = r' at h ht
  cases h with
  | @ok s₁ t₁ a hafter => exact ⟨a, s₁, t₁, hafter, rfl, ht⟩
  | fail e _ _ => cases ht
  | first _ => exact absurd rfl hs
  | second _ => cases ht

/-- A program up to a semicolon is read as if nothing stood behind it; then the rest is read. -/
theorem readProgram_ahead {last : Token} (hlast : last.kind = .mark .semicolon) {more : List Token} {line : Nat}
    (helse : Absent (.keyword .elseWord) more) (n n' : Nat) {s t t' : ReadState} {own : List Stmt}
    (h : Ahead Token.Plain last more line s t ∨ Past more line s t) (ht : readProgram n' t = .ok own t')
    (hs : readProgram n s ≠ .outOfFuel) : ∃ fuel,
      readProgram n s = ((own ++ ·) <$> readProgram fuel : Reader _) ⟨more, line, t'.nextId, t'.errors⟩ := by
  induction n' generalizing n s t own with
  | zero => cases ht
  | succ n' ih =>
    rcases h with h | h
    · obtain ⟨u, front, hpending, hpending', -⟩ := h.next
      cases n with
      | zero => exact absurd rfl hs
      | succ n =>
        rw [readProgram_next n (by rw [hpending]; exact List.cons_ne_nil _ _)] at hs ⊢
        rw [readProgram_next n' (by rw [hpending']; exact List.cons_ne_nil _ _)] at ht
        have hagree := (stmtAgrees (ahead_inStep hlast line helse) n n').declaration (fun _ _ => id)
          (ahead_recovers hlast more line) s t h
        obtain ⟨first, s₁, t₁, hbehind, hstep, ht⟩ := goes_on_of_agree hagree ht hs
        obtain ⟨rest, hrest, rfl⟩ := map_eq_ok ht
        rw [hstep] at hs ⊢
        obtain ⟨fuel, hmore⟩ := ih n hbehind hrest (map_ne_outOfFuel hs)
        refine ⟨fuel, ?_⟩
        simp only [List.append_assoc]
        exact map_congr hmore
    · rw [readProgram_end n' h.second] at ht
      cases ht
      refine ⟨n, ?_⟩
      rw [h.first]
      exact (map_nil_append _ _).symm

/-! ## One semicolon -/

/-- Errors of which all were noted while the reading went on. -/
def OnlyLimits (errors : List StaticError) : Prop := ∀ e ∈ errors, e.isLimit = true

/-- Errors that end a declaration. -/
def endingErrors (errors : List StaticError) : List StaticError := errors.filter fun e => !e.isLimit

/-- A reading in front of its only semicolon: a recovery does not stop before, and no error ended anything. -/
structure Lone (last : Token) (s t : ReadState) : Prop where
  same : s = t
  pending : ∃ front, (∀ u ∈ front, u.Plain ∧ u.kind ≠ .mark .semicolon) ∧
    (∀ u ∈ front.tail, u.kind.startsStatement = false) ∧ s.pending = front ++ [last]
  errors : OnlyLimits s.errors

/-- A reading behind its only semicolon, after at most one error that ended a declaration. -/
structure Done (s t : ReadState) : Prop where
  same : s = t
  pending : s.pending = []
  errors : (endingErrors s.errors).length ≤ 1

/-- The words at which a recovery stops. -/
theorem TokenKind.startsStatement_cases {kind : TokenKind} (h : kind.startsStatement = true) :
    kind = .keyword .forWord ∨ kind ∈ [.keyword .classWord, .keyword .funWord, .keyword .varWord,
      .keyword .ifWord, .keyword .whileWord, .keyword .returnWord] := by
  unfold startsStatement at h
  split at h <;> first | exact absurd h Bool.false_ne_true | simp

theorem recover_lone {last : Token} (hlast : last.kind = .mark .semicolon) {front : List Token}
    (hs : ∀ u ∈ front, u.kind ≠ .mark .semicolon) (hw : ∀ u ∈ front.tail, u.kind.startsStatement = false) :
    recover (front ++ [last]) = [] := by
  induction front with
  | nil => exact recover_semicolon hlast []
  | cons u front ih =>
    rw [List.forall_mem_cons] at hs
    have hrest := ih hs.2 fun v hv => hw v (List.mem_of_mem_tail hv)
    rw [List.cons_append, recover.eq_def]
    dsimp only
    rw [if_neg hs.1]
    cases front with
    | nil =>
      have hstop : last.kind.startsStatement = false := by
        rw [hlast]
        rfl
      simpa [hstop] using hrest
    | cons v front =>
      have hstop : v.kind.startsStatement = false := hw v List.mem_cons_self
      simpa [hstop] using hrest

theorem OnlyLimits.endingErrors {errors : List StaticError} (h : OnlyLimits errors) :
    endingErrors errors = [] := by
  unfold LoxLang.endingErrors
  rw [List.filter_eq_nil_iff]
  intro e he
  simp [h e he]

theorem Lone.next {last : Token} {s t : ReadState} (h : Lone last s t) : ∃ u us, s.pending = u :: us ∧
    (u = last ∧ us = [] ∨ (u.Plain ∧ u.kind ≠ .mark .semicolon) ∧ ∃ inner,
      (∀ v ∈ inner, v.Plain ∧ v.kind ≠ .mark .semicolon) ∧
      (∀ v ∈ inner, v.kind.startsStatement = false) ∧ us = inner ++ [last]) := by
  obtain ⟨front, hplain, hwords, hs⟩ := h.pending
  cases front with
  | nil => exact ⟨last, [], hs, .inl ⟨rfl, rfl⟩⟩
  | cons u front =>
    rw [List.forall_mem_cons] at hplain
    exact ⟨u, front ++ [last], hs, .inr ⟨hplain.1, front, hplain.2, hwords, rfl⟩⟩

theorem Lone.opens_nothing {last u : Token} {us : List Token} {s t : ReadState} (h : Lone last s t)
    (hs : s.pending = u :: us) : u.kind = last.kind ∨ u.Plain := by
  obtain ⟨u', us', hs', hcases⟩ := h.next
  obtain ⟨rfl, -⟩ := List.cons.inj (hs.symm.trans hs')
  rcases hcases with ⟨rfl, -⟩ | ⟨⟨hplain, -⟩, -⟩
  · exact .inl rfl
  · exact .inr hplain

/-- A reading with one semicolon, beside itself. -/
theorem lone_inStep {last : Token} (hlast : last.kind = .mark .semicolon) : InStep (Lone last) Done where
  head h := by rw [h.same]
  here fault h := by rw [h.same]
  nextId h := by rw [h.same]
  numbered h := ⟨by rw [h.same], h.pending, h.errors⟩
  limit {s t fault} hf h := by
    refine ⟨by rw [h.same], h.pending, ?_⟩
    unfold ReadState.report OnlyLimits
    rw [List.forall_mem_append]
    exact ⟨h.errors, fun e he => List.mem_singleton.1 he ▸ hf⟩
  taken {s t u us vs} h hs ht hu := by
    obtain ⟨u', us', hs', hcases⟩ := h.next
    obtain ⟨rfl, rfl⟩ := List.cons.inj (hs.symm.trans hs')
    obtain ⟨-, rfl⟩ : u = u ∧ us = vs := List.cons.inj (by rw [← hs, ← ht, h.same])
    rcases hcases with ⟨rfl, -⟩ | ⟨-, inner, hplain, hwords, rfl⟩
    · exact absurd hlast hu.1
    · refine ⟨by rw [h.same], ⟨inner, hplain, fun v hv => hwords v (List.mem_of_mem_tail hv), rfl⟩, h.errors⟩
  finished {s t u us vs} h hs ht hu := by
    obtain ⟨u', us', hs', hcases⟩ := h.next
    obtain ⟨rfl, rfl⟩ := List.cons.inj (hs.symm.trans hs')
    obtain ⟨-, rfl⟩ : u = u ∧ us = vs := List.cons.inj (by rw [← hs, ← ht, h.same])
    rcases hcases with ⟨-, rfl⟩ | ⟨⟨-, hother⟩, -⟩
    · refine ⟨by rw [h.same], rfl, ?_⟩
      rw [h.errors.endingErrors]
      exact Nat.zero_le 1
    · exact absurd hu hother
  unfinished h := by
    have hends : ∀ ts : List Token, ts = [] → Absent (.keyword .elseWord) ts := by
      rintro ts rfl u hu
      cases hu
    exact .inr ⟨hends _ h.pending, hends _ (h.same ▸ h.pending)⟩
  looped h hs hu := by
    rcases h.opens_nothing hs with hk | hplain
    · rw [hlast, hu] at hk
      cases hk
    · exact absurd hu hplain.2
  nested h hs hu := by
    rcases h.opens_nothing hs with hk | hplain
    · rw [hlast, hu] at hk
      cases hk
    · exact absurd hu hplain.1

/-- The first error that ends a declaration takes the rest with it. -/
theorem lone_recovers {last : Token} (hlast : last.kind = .mark .semicolon) : Recovers (Lone last) Done := by
  intro s t e h _
  obtain ⟨front, hplain, hwords, hs⟩ := h.pending
  refine ⟨by rw [h.same], ?_, ?_⟩
  · rw [hs]
    exact recover_lone hlast (fun u hu => (hplain u hu).2) hwords
  · have hlength : (endingErrors (s.errors ++ [e])).length ≤ 1 := by
      unfold endingErrors
      rw [List.filter_append, ← LoxLang.endingErrors, h.errors.endingErrors]
      exact List.length_filter_le _ _
    exact hlength

theorem readProgram_lone {last : Token} (hlast : last.kind = .mark .semicolon) {n : Nat} {s s' : ReadState}
    {own : List Stmt} (h : Lone last s s) (hs : readProgram n s = .ok own s') :
    (endingErrors s'.errors).length ≤ 1 := by
  obtain ⟨u, us, hpending, -⟩ := h.next
  cases n with
  | zero => cases hs
  | succ n =>
    rw [readProgram_next n (by rw [hpending]; exact List.cons_ne_nil _ _)] at hs
    have hagree := (stmtAgrees (lone_inStep hlast) n n).declaration (fun _ _ => id) (lone_recovers hlast) s s h
    unfold andThen at hs
    generalize readDeclaration n s = r at hagree hs
    cases hagree with
    | @ok s₁ _ first hdone =>
      obtain ⟨rest, hrest, -⟩ := map_eq_ok hs
      cases n with
      | zero => cases hrest
      | succ n =>
        rw [readProgram_end n hdone.pending] at hrest
        cases hrest
        exact hdone.errors
    | fail e _ _ => cases hs
    | first _ => cases hs
    | second _ => cases hs

/-! ## Programs -/

theorem start_eq {ts : List Token} {final : Token} (hts : ∀ t ∈ ts, t.kind ≠ .eof)
    (hfinal : final.kind = .eof) (first : NodeId) :
    ReadState.start (ts ++ [final]) first = ⟨ts, final.line, first, []⟩ := by
  have hwords : ∀ t ∈ ts, (t.kind != .eof) = true := fun t ht => bne_iff_ne.2 (hts t ht)
  have hpending : (ts ++ [final]).takeWhile (fun t => t.kind != .eof) = ts := by
    rw [List.takeWhile_append_of_pos hwords]
    simp [hfinal]
  have hnone : ts.find? (fun t => t.kind == .eof) = none :=
    List.find?_eq_none.2 fun t ht => by simpa using hts t ht
  have hfound : (ts ++ [final]).find? (fun t => t.kind == .eof) = some final := by
    rw [List.find?_append, hnone]
    simp [hfinal]
  unfold ReadState.start
  rw [hpending, hfound]
  rfl

/-- Behind earlier errors a program is read as if it stood alone. -/
theorem readProgram_afresh {ts : List Token} {final : Token} (hts : ∀ t ∈ ts, t.kind ≠ .eof)
    (hfinal : final.kind = .eof) {n : Nat} {first : NodeId} {errors : List StaticError} {program : List Stmt}
    {s : ReadState} (hs : readProgram n ⟨ts, final.line, first, errors⟩ = .ok program s) :
    let more := parse (ts ++ [final]) first
    program = more.statements ∧ s.errors = errors ++ more.errors ∧ s.nextId = more.nextId := by
  obtain ⟨program', s', hs', hparse, -⟩ := parse_eq (ts ++ [final]) first
  rw [start_eq hts hfinal] at hs'
  have hagree := readProgram_agrees (continued_inStep errors) (continued_recovers errors) n
    (enoughFuel (wordsOf (ts ++ [final])).length) ⟨ts, final.line, first, errors⟩ ⟨ts, final.line, first, []⟩
    ⟨rfl, rfl, rfl, (List.append_nil _).symm⟩
  rw [hs, hs'] at hagree
  intro more
  have hmore : more = ⟨program', s'.errors, s'.nextId⟩ := hparse
  rw [hmore]
  cases hagree with
  | ok _ h => exact ⟨rfl, h.errors, h.nextId⟩

/-- Tokens `b` end in a semicolon and open neither a block nor a `for`, and tokens `g` do not begin with `else`.
Read together, they yield the statements of `b` and then those of `g`, and the errors of `b` and then those of
`g`, as if each had been read alone. If the semicolon is the only one of `b` and no word behind its first token
begins a statement, `b` has at most one error besides those about too many arguments or parameters. -/
theorem errors_stay_in_front_of_semicolon {b g : List Token} {last final final' : Token} (first : NodeId)
    (hend : b.getLast? = some last) (hlast : last.kind = .mark .semicolon)
    (hb : ∀ t ∈ b, t.kind ∉ [.eof, .keyword .forWord, .mark .leftBrace, .mark .rightBrace])
    (hg : ∀ t ∈ g, t.kind ≠ .eof) (helse : ∀ t ∈ g.head?, t.kind ≠ .keyword .elseWord)
    (hfinal : final.kind = .eof) (hfinal' : final'.kind = .eof) :
    let own := parse (b ++ [final']) first
    let more := parse (g ++ [final]) own.nextId
    parse (b ++ g ++ [final]) first =
        ⟨own.statements ++ more.statements, own.errors ++ more.errors, more.nextId⟩ ∧
      ((∀ t ∈ b.dropLast, t.kind ≠ .mark .semicolon) →
        (∀ t ∈ b.tail, t.kind ∉ [.keyword .classWord, .keyword .funWord, .keyword .varWord, .keyword .ifWord,
          .keyword .whileWord, .keyword .returnWord]) →
        (endingErrors own.errors).length ≤ 1) := by
  obtain ⟨front, rfl⟩ := List.getLast?_eq_some_iff.1 hend
  intro own more
  have hplain : ∀ t ∈ front, t.Plain := by
    intro t ht
    have hother := hb t (List.mem_append_left _ ht)
    exact ⟨fun hk => hother (by simp [hk]), fun hk => hother (by simp [hk])⟩
  have hb' : ∀ t ∈ front ++ [last], t.kind ≠ .eof := fun t ht hk => hb t ht (by simp [hk])
  have hboth : ∀ t ∈ front ++ [last] ++ g, t.kind ≠ .eof := List.forall_mem_append.2 ⟨hb', hg⟩
  obtain ⟨program, s, hs, hparse, -⟩ := parse_eq (front ++ [last] ++ g ++ [final]) first
  obtain ⟨program₁, s₁, hs₁, hparse₁, -⟩ := parse_eq (front ++ [last] ++ [final']) first
  have hown : own = ⟨program₁, s₁.errors, s₁.nextId⟩ := hparse₁
  have hmore : more = parse (g ++ [final]) s₁.nextId := by
    rw [show s₁.nextId = own.nextId by rw [hown]]
  rw [start_eq hboth hfinal] at hs
  rw [start_eq hb' hfinal'] at hs₁
  constructor
  · have hahead : Ahead Token.Plain last g final.line ⟨front ++ [last] ++ g, final.line, first, []⟩
        ⟨front ++ [last], final'.line, first, []⟩ :=
      ⟨⟨front, hplain, List.append_assoc .., rfl⟩, rfl, rfl, rfl⟩
    obtain ⟨fuel, hall⟩ := readProgram_ahead hlast helse _ _ (.inl hahead) hs₁ (by rw [hs]; simp)
    rw [hs] at hall
    obtain ⟨rest, hrest, rfl⟩ := map_eq_ok hall.symm
    obtain ⟨rfl, herrors, hnext⟩ := readProgram_afresh hg hfinal hrest
    rw [hparse, hown, hmore, herrors, hnext]
  · intro hlone hwords
    rw [List.dropLast_concat] at hlone
    have hnone : ∀ t ∈ front.tail, t.kind.startsStatement = false := by
      intro t ht
      have hmem : t ∈ front := List.mem_of_mem_tail ht
      have htail : t ∈ (front ++ [last]).tail := by
        rw [List.tail_append_of_ne_nil (List.ne_nil_of_mem hmem)]
        exact List.mem_append_left _ ht
      rw [Bool.eq_false_iff]
      intro hstarts
      rcases TokenKind.startsStatement_cases hstarts with hk | hk
      · exact (hplain t hmem).2 hk
      · exact hwords t htail hk
    have hstart : Lone last ⟨front ++ [last], final'.line, first, []⟩
        ⟨front ++ [last], final'.line, first, []⟩ :=
      ⟨rfl, ⟨front, fun t ht => ⟨hplain t ht, hlone t ht⟩, hnone, rfl⟩, fun e he => by cases he⟩
    rw [hown]
    exact readProgram_lone hlast hstart hs₁

/-- The tokens of `1 = f(;`. -/
def brokenCall : List Token :=
  [⟨.int 1, "1", 1⟩, ⟨.mark .equal, "=", 1⟩, ⟨.identifier, "f", 1⟩, ⟨.mark .leftParen, "(", 1⟩,
    ⟨.mark .semicolon, ";", 1⟩]

/-- The tokens of `}` and `x;`. -/
def braceAndName : List Token :=
  [⟨.mark .rightBrace, "\x7d", 2⟩, ⟨.identifier, "x", 2⟩, ⟨.mark .semicolon, ";", 2⟩]

/-- An error in the arguments of a call that is assigned leaves the error of the next line as it is. -/
theorem errors_stay_in_front_of_semicolon_call :
    brokenCall.getLast? = some ⟨.mark .semicolon, ";", 1⟩ ∧
      (∀ t ∈ brokenCall, t.kind ∉ [.eof, .keyword .forWord, .mark .leftBrace, .mark .rightBrace]) ∧
      (∀ t ∈ braceAndName, t.kind ≠ .eof) ∧
      (∀ t ∈ braceAndName.head?, t.kind ≠ .keyword .elseWord) ∧
      parse (brokenCall ++ braceAndName ++ [⟨.eof, "", 2⟩]) 0 =
        ⟨(parse (brokenCall ++ [⟨.eof, "", 1⟩]) 0).statements ++
            (parse (braceAndName ++ [⟨.eof, "", 2⟩]) (parse (brokenCall ++ [⟨.eof, "", 1⟩]) 0).nextId).statements,
          (parse (brokenCall ++ [⟨.eof, "", 1⟩]) 0).errors ++
            (parse (braceAndName ++ [⟨.eof, "", 2⟩]) (parse (brokenCall ++ [⟨.eof, "", 1⟩]) 0).nextId).errors,
          (parse (braceAndName ++ [⟨.eof, "", 2⟩]) (parse (brokenCall ++ [⟨.eof, "", 1⟩]) 0).nextId).nextId⟩ ∧
      (∀ t ∈ brokenCall.dropLast, t.kind ≠ .mark .semicolon) ∧
      (endingErrors (parse (brokenCall ++ [⟨.eof, "", 1⟩]) 0).errors).length ≤ 1 := by
  have hend : brokenCall.getLast? = some ⟨.mark .semicolon, ";", 1⟩ := rfl
  have hb : ∀ t ∈ brokenCall, t.kind ∉ [.eof, .keyword .forWord, .mark .leftBrace, .mark .rightBrace] := by
    decide
  have hg : ∀ t ∈ braceAndName, t.kind ≠ .eof := by decide
  have helse : ∀ t ∈ braceAndName.head?, t.kind ≠ .keyword .elseWord := by decide
  have hlone : ∀ t ∈ brokenCall.dropLast, t.kind ≠ .mark .semicolon := by decide
  have hboth := @errors_stay_in_front_of_semicolon brokenCall braceAndName _ ⟨.eof, "", 2⟩ ⟨.eof, "", 1⟩ 0
    hend rfl hb hg helse rfl rfl
  exact ⟨hend, hb, hg, helse, hboth.1, hlone, hboth.2 hlone (by decide)⟩

end LoxLang
