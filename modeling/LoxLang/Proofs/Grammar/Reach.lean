import LoxLang.Proofs.Grammar.Law

/-!
# Steps that take given tokens

What a step does on tokens that are given: unless its fuel ends, it takes them and leaves the others,
notes no error, and goes over to another step. Loops of the grammar are such other steps, so that the
phrases that lean to the left can be read one operator after the other. A step that goes over to one that
only yields a value has read its phrase.

Nothing is said here about how much fuel is enough.
-/

namespace LoxLang

namespace Reader

/-- On these tokens the step goes over to a loop, with some fuel left, unless its fuel ends before. -/
def Reaches {α : Type} (step : Reader α) (loop : Nat → Reader α) (first : NodeId) (ts : List Token)
    (next : NodeId) (rest : List Token) : Prop :=
  ∀ endLine errors, step ⟨ts ++ rest, endLine, first, errors⟩ = .outOfFuel ∨
    ∃ fuel, step ⟨ts ++ rest, endLine, first, errors⟩ = loop fuel ⟨rest, endLine, next, errors⟩

/-- On these tokens the step yields a value, unless its fuel ends before. -/
abbrev Takes {α : Type} (step : Reader α) (first : NodeId) (ts : List Token) (a : α) (next : NodeId)
    (rest : List Token) : Prop := step.Reaches (fun _ => pure a) first ts next rest

variable {α β : Type} {first middle next : NodeId} {ts rest : List Token} {t : Token}

theorem reaches_exhausted (loop : Nat → Reader α) :
    (exhausted : Reader α).Reaches loop first ts next rest := fun _ _ => .inl rfl

theorem reaches_loop (loop : Nat → Reader α) (fuel : Nat) :
    (loop fuel).Reaches loop first [] first rest := fun _ _ => .inr ⟨fuel, rfl⟩

theorem takes_pure (a : α) : (pure a : Reader α).Takes first [] a first rest :=
  reaches_loop (fun _ => pure a) 0

theorem Reaches.trans {step : Reader α} {loop other : Nat → Reader α} {u : List Token}
    (h : step.Reaches loop first ts middle (u ++ rest))
    (hl : ∀ fuel, (loop fuel).Reaches other middle u next rest) :
    step.Reaches other first (ts ++ u) next rest := by
  intro endLine errors
  rw [List.append_assoc]
  obtain h | ⟨fuel, h⟩ := h endLine errors
  · exact .inl h
  · rw [h]
    exact hl fuel endLine errors

theorem Takes.bind {step : Reader α} {f : α → Reader β} {loop : Nat → Reader β} {a : α} {u : List Token}
    (h : step.Takes first ts a middle (u ++ rest)) (hf : (f a).Reaches loop middle u next rest) :
    (step >>= f).Reaches loop first (ts ++ u) next rest := by
  intro endLine errors
  rw [List.append_assoc]
  change andThen step f _ = _ ∨ ∃ fuel, andThen step f _ = _
  unfold andThen
  obtain h | ⟨_, h⟩ := h endLine errors
  · exact .inl (by rw [h])
  · rw [h]
    exact hf endLine errors

theorem Takes.map {step : Reader α} {a : α} (f : α → β) (h : step.Takes first ts a next rest) :
    (f <$> step).Takes first ts (f a) next rest := by
  have hm := Takes.bind (f := fun a => pure (f a)) (u := []) h (takes_pure (f a))
  rwa [List.append_nil] at hm

theorem takes_takeIf_some {choose : TokenKind → Option α} {f : Option (α × Token) → Reader β}
    {loop : Nat → Reader β} {a : α} (ht : choose t.kind = some a)
    (h : (f (some (a, t))).Reaches loop first ts next rest) :
    (takeIf choose >>= f).Reaches loop first (t :: ts) next rest := by
  intro endLine errors
  have hs : (takeIf choose >>= f) ⟨t :: ts ++ rest, endLine, first, errors⟩ =
      f (some (a, t)) ⟨ts ++ rest, endLine, first, errors⟩ := by
    change andThen (takeIf choose) f _ = _
    simp [andThen, takeIf, ht]
  rw [hs]
  exact h endLine errors

theorem takes_takeIf_none {choose : TokenKind → Option α} {f : Option (α × Token) → Reader β}
    {loop : Nat → Reader β} (hr : Refused choose (ts ++ rest))
    (h : (f none).Reaches loop first ts next rest) :
    (takeIf choose >>= f).Reaches loop first ts next rest := by
  intro endLine errors
  have hs : (takeIf choose >>= f) ⟨ts ++ rest, endLine, first, errors⟩ =
      f none ⟨ts ++ rest, endLine, first, errors⟩ := by
    change andThen (takeIf choose) f _ = _
    cases hts : ts ++ rest with
    | nil => rfl
    | cons t us =>
      rw [hts] at hr
      simp [andThen, takeIf, hr t (by simp)]
  rw [hs]
  exact h endLine errors

theorem takes_accept_some {kind : TokenKind} {f : Option Token → Reader β} {loop : Nat → Reader β}
    (ht : t.kind = kind) (h : (f (some t)).Reaches loop first ts next rest) :
    (accept kind >>= f).Reaches loop first (t :: ts) next rest := by
  rw [accept, bind_assoc]
  exact takes_takeIf_some (a := ()) (by simp [ht]) h

theorem takes_accept_none {kind : TokenKind} {f : Option Token → Reader β} {loop : Nat → Reader β}
    (hr : Absent kind (ts ++ rest)) (h : (f none).Reaches loop first ts next rest) :
    (accept kind >>= f).Reaches loop first ts next rest := by
  rw [accept, bind_assoc]
  exact takes_takeIf_none (fun t ht => by simp [hr t ht]) h

theorem takes_expectMark {mark : Mark} {context : MarkContext} {f : Token → Reader β}
    {loop : Nat → Reader β} (ht : t.kind = .mark mark) (h : (f t).Reaches loop first ts next rest) :
    (expectMark mark context >>= f).Reaches loop first (t :: ts) next rest := by
  rw [expectMark, bind_assoc]
  exact takes_accept_some ht h

theorem takes_expectName {role : NameRole} {f : Name → Reader β} {loop : Nat → Reader β}
    (ht : t.kind = .identifier) (h : (f t.toName).Reaches loop first ts next rest) :
    (expectName role >>= f).Reaches loop first (t :: ts) next rest := by
  rw [expectName, bind_assoc]
  exact takes_accept_some ht h

theorem takes_newReference (name : Name) (f : Reference → α) :
    (newReference name >>= fun r => pure (f r)).Takes first [] (f ⟨first, name⟩) (first + 1) rest :=
  fun _ _ => .inr ⟨0, rfl⟩

theorem takes_at?_true {mark : Mark} {f : Bool → Reader β} {loop : Nat → Reader β}
    (ht : t.kind = .mark mark) (h : (f true).Reaches loop first [] next (t :: rest)) :
    (at? mark >>= f).Reaches loop first [] next (t :: rest) := by
  intro endLine errors
  have hs : (at? mark >>= f) ⟨t :: rest, endLine, first, errors⟩ =
      f true ⟨t :: rest, endLine, first, errors⟩ := by
    change f (some t.kind == some (.mark mark)) _ = _
    rw [ht, beq_self_eq_true]
  rw [List.nil_append, hs]
  exact h endLine errors

theorem takes_at?_false {mark : Mark} {f : Bool → Reader β} {loop : Nat → Reader β}
    (hr : Absent (.mark mark) (ts ++ rest)) (h : (f false).Reaches loop first ts next rest) :
    (at? mark >>= f).Reaches loop first ts next rest := by
  intro endLine errors
  have hs : (at? mark >>= f) ⟨ts ++ rest, endLine, first, errors⟩ =
      f false ⟨ts ++ rest, endLine, first, errors⟩ := by
    change f ((ts ++ rest).head?.map Token.kind == some (.mark mark)) _ = _
    cases hts : ts ++ rest with
    | nil => rfl
    | cons t us =>
      rw [hts] at hr
      have hk : (some t.kind == some (TokenKind.mark mark)) = false := by simpa using hr t (by simp)
      exact congrArg (fun b => f b _) hk
  rw [hs]
  exact h endLine errors

theorem takes_atEnd_true {f : Bool → Reader β} {loop : Nat → Reader β}
    (h : (f true).Reaches loop first [] next []) : (atEnd >>= f).Reaches loop first [] next [] := h

theorem takes_atEnd_false {f : Bool → Reader β} {loop : Nat → Reader β} (hts : ts ++ rest ≠ [])
    (h : (f false).Reaches loop first ts next rest) : (atEnd >>= f).Reaches loop first ts next rest := by
  intro endLine errors
  have hs : (atEnd >>= f) ⟨ts ++ rest, endLine, first, errors⟩ =
      f false ⟨ts ++ rest, endLine, first, errors⟩ := by
    change f ((ts ++ rest).head?.map Token.kind).isNone _ = _
    cases hts' : ts ++ rest with
    | nil => exact absurd hts' hts
    | cons t us => rfl
  rw [hs]
  exact h endLine errors

theorem takes_behind_none {kind : TokenKind} {step : Reader α} (hr : Absent kind rest) :
    (behind? kind step).Takes first [] none first rest :=
  takes_accept_none hr (takes_pure none)

theorem Takes.behind {kind : TokenKind} {step : Reader α} {a : α} (ht : t.kind = kind)
    (h : step.Takes first ts a next rest) : (behind? kind step).Takes first (t :: ts) (some a) next rest :=
  takes_accept_some ht (h.map _)

theorem takes_unlessAt_none {mark : Mark} {step : Reader α} (ht : t.kind = .mark mark) :
    (unlessAt mark step).Takes first [] none first (t :: rest) :=
  takes_at?_true ht (takes_pure none)

theorem Takes.unlessAt {mark : Mark} {step : Reader α} {a : α} (hr : Absent (.mark mark) (ts ++ rest))
    (h : step.Takes first ts a next rest) : (unlessAt mark step).Takes first ts (some a) next rest :=
  takes_at?_false hr (h.map _)

end Reader

end LoxLang
