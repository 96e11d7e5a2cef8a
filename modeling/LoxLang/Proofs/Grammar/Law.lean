import LoxLang.Tree.Reader

/-!
# Laws of steps

A law says which tokens a step takes for its result, which identities it gives away and what it leaves
behind. It is said only of readings without errors: errors are never taken back, so a reading without
errors at its end had none on the way.

The steps from which the rules of the language are built each have a lemma here, by which a rule is taken
apart from its first step on; what remains to be shown of the rule is then shown of the steps behind.
-/

namespace LoxLang

namespace Reader

/-- What a step does when it ends well: the free identity before it, the tokens it takes, its result, the
free identity after it, and the tokens it leaves. -/
abbrev Law (α : Type) : Type := NodeId → List Token → α → NodeId → List Token → Prop

/-- A law that does not look at the tokens that are left. -/
abbrev Law.of {α : Type} (spells : NodeId → List Token → α → NodeId → Prop) : Law α :=
  fun first ts a next _ => spells first ts a next

/-- What is left to do of a law once a part of it is done. -/
abbrev Law.after {α β : Type} (part : Law α) (a : α) (whole : Law β) : Law β :=
  fun middle us b next rest =>
    ∀ first ts, part first ts a middle (us ++ rest) → whole first (ts ++ us) b next rest

/-- What is left to do of a law once a token is taken. -/
abbrev Law.behind {β : Type} (t : Token) (whole : Law β) : Law β :=
  fun first us b next rest => whole first (t :: us) b next rest

/-- The step keeps errors, and keeps to the law if there are none. -/
def Follows {α : Type} (step : Reader α) (law : Law α) : Prop :=
  ∀ s, match step s with
    | .ok a s' => s'.errors = [] → s.errors = [] ∧
        ∃ ts, s.pending = ts ++ s'.pending ∧ law s.nextId ts a s'.nextId s'.pending
    | .fail _ s' => s'.errors = [] → s.errors = []
    | .outOfFuel => True

theorem Follows.mono {α : Type} {step : Reader α} {law other : Law α} (h : step.Follows law)
    (hl : ∀ first ts a next rest, law first ts a next rest → other first ts a next rest) :
    step.Follows other := by
  intro s
  have hs := h s
  cases hr : step s with
  | ok a s' =>
    rw [hr] at hs
    intro he
    obtain ⟨h₁, ts, h₂, h₃⟩ := hs he
    exact ⟨h₁, ts, h₂, hl _ _ _ _ _ h₃⟩
  | fail e s' => rw [hr] at hs; exact hs
  | outOfFuel => trivial

theorem follows_exhausted {α : Type} (law : Law α) : (exhausted : Reader α).Follows law :=
  fun _ => trivial

theorem follows_fail {α : Type} (fault : GrammarFault) (law : Law α) :
    (fail fault : Reader α).Follows law := fun _ h => h

theorem follows_failWith {α : Type} (e : StaticError) (law : Law α) :
    (failWith e : Reader α).Follows law := fun _ h => h

theorem follows_pure {α : Type} {a : α} {law : Law α} (h : ∀ first rest, law first [] a first rest) :
    (pure a : Reader α).Follows law := fun s he => ⟨he, [], rfl, h s.nextId s.pending⟩

theorem Follows.bind {α β : Type} {step : Reader α} {next : α → Reader β} {part : Law α}
    {whole : Law β} (hs : step.Follows part) (hn : ∀ a, (next a).Follows (part.after a whole)) :
    (step >>= next).Follows whole := by
  intro s
  have h₁ := hs s
  change match andThen step next s with
    | .ok _ _ => _
    | .fail _ _ => _
    | .outOfFuel => _
  unfold andThen
  cases hr : step s with
  | ok a s₁ =>
    rw [hr] at h₁
    have h₂ := hn a s₁
    dsimp only at h₁ ⊢
    cases hr' : next a s₁ with
    | ok b s₂ =>
      rw [hr'] at h₂
      intro he
      obtain ⟨he₁, us, hp₁, hw⟩ := h₂ he
      obtain ⟨he₀, ts, hp₀, hl⟩ := h₁ he₁
      exact ⟨he₀, ts ++ us, by rw [hp₀, hp₁, List.append_assoc], hw _ _ (hp₁ ▸ hl)⟩
    | fail e s₂ =>
      rw [hr'] at h₂
      exact fun he => (h₁ (h₂ he)).1
    | outOfFuel => trivial
  | fail e s₁ => rw [hr] at h₁; exact h₁
  | outOfFuel => trivial

/-- No token that `choose` has an answer for comes next. -/
def Refused {α : Type} (choose : TokenKind → Option α) (ts : List Token) : Prop :=
  ∀ t ∈ ts.head?, choose t.kind = none

/-- A step that takes a token only if `choose` has an answer for it. -/
theorem follows_takeIf_refused {α β : Type} {choose : TokenKind → Option α}
    {next : Option (α × Token) → Reader β} {law : Law β}
    (hs : ∀ a t, choose t.kind = some a → (next (some (a, t))).Follows (law.behind t))
    (hn : (next none).Follows fun first us b last rest =>
      Refused choose (us ++ rest) → law first us b last rest) :
    (takeIf choose >>= next).Follows law := by
  intro s
  change match andThen (takeIf choose) next s with
    | .ok _ _ => _
    | .fail _ _ => _
    | .outOfFuel => _
  have hnone (hf : takeIf choose s = .ok none s) (hc : Refused choose s.pending) :
      match andThen (takeIf choose) next s with
      | .ok b s' => s'.errors = [] → s.errors = [] ∧
          ∃ ts, s.pending = ts ++ s'.pending ∧ law s.nextId ts b s'.nextId s'.pending
      | .fail _ s' => s'.errors = [] → s.errors = []
      | .outOfFuel => True := by
    have h := hn s
    simp only [andThen, hf]
    cases hr : next none s with
    | ok b s' =>
      rw [hr] at h
      intro he
      obtain ⟨h₀, us, hu, hl⟩ := h he
      exact ⟨h₀, us, hu, hl (hu ▸ hc)⟩
    | fail e s' => rw [hr] at h; exact h
    | outOfFuel => trivial
  cases hp : s.pending with
  | nil => rw [hp] at hnone; exact hnone (by simp [takeIf, hp]) (by simp [Refused])
  | cons t rest =>
    rw [hp] at hnone
    cases hc : choose t.kind with
    | none => exact hnone (by simp [takeIf, hp, hc]) (by simpa [Refused] using hc)
    | some a =>
      have h := hs a t hc { s with pending := rest }
      simp only [andThen, takeIf, hp, hc]
      cases hr : next (some (a, t)) { s with pending := rest } with
      | ok b s' =>
        rw [hr] at h
        intro he
        obtain ⟨he₀, us, hu, hl⟩ := h he
        exact ⟨he₀, t :: us, by rw [List.cons_append, ← hu], hl⟩
      | fail e s' => rw [hr] at h; exact h
      | outOfFuel => trivial

theorem follows_takeIf {α β : Type} {choose : TokenKind → Option α}
    {next : Option (α × Token) → Reader β} {law : Law β}
    (hs : ∀ a t, choose t.kind = some a → (next (some (a, t))).Follows (law.behind t))
    (hn : (next none).Follows law) : (takeIf choose >>= next).Follows law :=
  follows_takeIf_refused hs (hn.mono fun _ _ _ _ _ h _ => h)

theorem bind_assoc {α β γ : Type} (step : Reader α) (f : α → Reader β) (g : β → Reader γ) :
    step >>= f >>= g = step >>= fun a => f a >>= g := by
  funext s
  change andThen (andThen step f) g s = andThen step (fun a => andThen (f a) g) s
  unfold andThen
  cases step s <;> rfl

/-- No token of this kind comes next. -/
def Absent (kind : TokenKind) (ts : List Token) : Prop := ∀ t ∈ ts.head?, t.kind ≠ kind

theorem follows_accept_absent {β : Type} {kind : TokenKind} {next : Option Token → Reader β}
    {law : Law β} (hs : ∀ t, t.kind = kind → (next (some t)).Follows (law.behind t))
    (hn : (next none).Follows fun first us b last rest =>
      Absent kind (us ++ rest) → law first us b last rest) : (accept kind >>= next).Follows law := by
  rw [accept, bind_assoc]
  refine follows_takeIf_refused (fun a t ht => ?_)
    (hn.mono fun first us b last rest h hr => h fun t ht hk => ?_)
  · split at ht
    · next hk => exact hs t hk
    · cases ht
  · simpa [hk] using hr t ht

theorem follows_accept {β : Type} {kind : TokenKind} {next : Option Token → Reader β} {law : Law β}
    (hs : ∀ t, t.kind = kind → (next (some t)).Follows (law.behind t))
    (hn : (next none).Follows law) : (accept kind >>= next).Follows law :=
  follows_accept_absent hs (hn.mono fun _ _ _ _ _ h _ => h)

theorem follows_expectMark {β : Type} {mark : Mark} {context : MarkContext} {next : Token → Reader β}
    {law : Law β}
    (h : ∀ t, t.kind = .mark mark → (next t).Follows (law.behind t)) :
    (expectMark mark context >>= next).Follows law := by
  rw [expectMark, bind_assoc]
  exact follows_accept h (follows_fail _ _)

theorem follows_expectName {β : Type} {role : NameRole} {next : Name → Reader β} {law : Law β}
    (h : ∀ t, t.kind = .identifier →
      (next t.toName).Follows (law.behind t)) :
    (expectName role >>= next).Follows law := by
  rw [expectName, bind_assoc]
  exact follows_accept h (follows_fail _ _)

theorem follows_newReference {α : Type} {name : Name} {f : Reference → α} {law : Law α}
    (h : ∀ first rest, law first [] (f ⟨first, name⟩) (first + 1) rest) :
    (newReference name >>= fun r => pure (f r)).Follows law :=
  fun s he => ⟨he, [], rfl, h s.nextId s.pending⟩

theorem follows_at? {β : Type} {mark : Mark} {next : Bool → Reader β} {law : Law β}
    (h : ∀ b, (next b).Follows law) : (at? mark >>= next).Follows law := by
  intro s
  exact h _ s

theorem follows_atEnd {β : Type} {next : Bool → Reader β} {law : Law β}
    (h : ∀ b, (next b).Follows law) : (atEnd >>= next).Follows law := by
  intro s
  exact h _ s

theorem follows_atEnd_nil {β : Type} {next : Bool → Reader β} {law : Law β}
    (ht : ∀ s, s.pending = [] → ∃ b, next true s = .ok b s ∧ law s.nextId [] b s.nextId [])
    (hf : (next false).Follows law) : (atEnd >>= next).Follows law := by
  intro s
  change match next (s.pending.head?.map Token.kind).isNone s with
    | .ok _ _ => _
    | .fail _ _ => _
    | .outOfFuel => _
  cases hp : s.pending with
  | nil =>
    obtain ⟨b, hb, hl⟩ := ht s hp
    simpa [hb, hp] using fun he => ⟨he, hl⟩
  | cons t rest => simpa [hp] using hf s

/-- The law of a step that may be left out. -/
inductive Law.Optional {α : Type} (part : Law α) : Law (Option α)
  | none (first : NodeId) (rest : List Token) : part.Optional first [] none first rest
  | some {first next : NodeId} {ts rest : List Token} {a : α} :
      part first ts a next rest → part.Optional first ts (some a) next rest

/-- The law of a step behind a token that may be missing together with the token. -/
inductive Law.Behind {α : Type} (kind : TokenKind) (part : Law α) : Law (Option α)
  | none (first : NodeId) {rest : List Token} :
      Absent kind rest → part.Behind kind first [] none first rest
  | some {first next : NodeId} {t : Token} {ts rest : List Token} {a : α} :
      t.kind = kind → part first ts a next rest →
      part.Behind kind first (t :: ts) (some a) next rest

theorem Follows.some {α : Type} {step : Reader α} {part : Law α} {law : Law (Option α)}
    (h : step.Follows part)
    (hl : ∀ first ts a next rest, part first ts a next rest → law first ts (some a) next rest) :
    (some <$> step).Follows law := by
  refine h.bind fun a => follows_pure fun middle rest first ts hp => ?_
  simpa using hl _ _ _ _ _ hp

theorem Follows.behind {α : Type} {kind : TokenKind} {step : Reader α} {part : Law α}
    (h : step.Follows part) : (behind? kind step).Follows (part.Behind kind) :=
  follows_accept_absent (fun _ ht => h.some fun _ _ _ _ _ hp => .some ht hp)
    (follows_pure fun first _ ha => .none first ha)

theorem Follows.unlessAt {α : Type} {mark : Mark} {step : Reader α} {part : Law α}
    (h : step.Follows part) : (unlessAt mark step).Follows part.Optional := by
  refine follows_at? fun b => ?_
  split
  · exact follows_pure .none
  · exact h.some fun _ _ _ _ _ hp => .some hp

/-- A noted error stays, so behind one any law is kept. -/
theorem follows_reportIf {β : Type} {condition : Bool} {fault : GrammarFault}
    {next : Unit → Reader β} {law : Law β}
    (h : (next ()).Follows fun first ts b last rest =>
      condition = false → law first ts b last rest) :
    (reportIf condition fault >>= next).Follows law := by
  intro s
  cases condition with
  | false =>
    change match next () s with
      | .ok _ _ => _
      | .fail _ _ => _
      | .outOfFuel => _
    have h₁ := h s
    cases hr : next () s with
    | ok b s' =>
      rw [hr] at h₁
      intro he
      obtain ⟨h₀, ts, hp, hl⟩ := h₁ he
      exact ⟨h₀, ts, hp, hl rfl⟩
    | fail e s' => rw [hr] at h₁; exact h₁
    | outOfFuel => trivial
  | true =>
    have h₁ := h (s.report (s.errorHere fault))
    change match next () (s.report (s.errorHere fault)) with
      | .ok _ _ => _
      | .fail _ _ => _
      | .outOfFuel => _
    cases hr : next () (s.report (s.errorHere fault)) with
    | ok b s' =>
      rw [hr] at h₁
      intro he
      simp [ReadState.report] at h₁
      exact absurd he h₁
    | fail e s' =>
      rw [hr] at h₁
      intro he
      simp [ReadState.report] at h₁
      exact absurd he h₁
    | outOfFuel => trivial

theorem Follows.attempt {α : Type} {step : Reader α} {part : Law α} (h : step.Follows part) :
    (attempt step).Follows fun first ts a next rest =>
      ∃ b, a = Option.some b ∧ part first ts b next rest := by
  intro s
  have h₁ := h s
  unfold Reader.attempt
  cases hr : step s with
  | ok a s' =>
    rw [hr] at h₁
    intro he
    obtain ⟨h₀, ts, hp, hl⟩ := h₁ he
    exact ⟨h₀, ts, hp, a, rfl, hl⟩
  | fail e s' =>
    intro he
    simp [ReadState.report] at he
  | outOfFuel => trivial

end Reader

end LoxLang
