import LoxLang.Proofs.Grammar.Law
import LoxLang.Tree.Parse

/-!
# Two readings side by side

Two readings go on in step as long as they see the same next token. Which pairs of states belong to each other
is left open: `inside` relates them in the middle of a statement and `behind` directly behind one, where a
semicolon was taken. What is asked of the two relations (`InStep`) speaks of single tokens only, and it is
enough for the two readings to yield the same trees, the same errors and related states by every rule of the
language, with any fuel on either side.

The text may end differently for the two readings. The rules then have to stop in front of that place, and a
loop over statements would not; so a `for` must not come up unless `behind` is no more than `inside`. An opening
brace asks for more (`Nests`), as the declarations behind it recover from their errors and a closing brace
ends them.
-/

namespace LoxLang

/-- A relation between the states of two readings. -/
abbrev Pairing : Type := ReadState → ReadState → Prop

/-- Whether an error was found behind the last token. -/
def StaticError.atEnd : StaticError → Bool
  | .grammar _ place _ => place == .endOfText
  | _ => false

/-- Two results of which neither shows that the readings went apart. A step fails at the end only if it
stands there. -/
inductive ReadResult.Agree {α : Type} (inside after : Pairing) : ReadResult α → ReadResult α → Prop
  | ok {s t : ReadState} (a : α) : after s t → Agree inside after (.ok a s) (.ok a t)
  | fail {s t : ReadState} (e : StaticError) : inside s t → (e.atEnd = true → s.place = .endOfText) →
      Agree inside after (.fail e s) (.fail e t)
  | first (r : ReadResult α) : Agree inside after .outOfFuel r
  | second (r : ReadResult α) : Agree inside after r .outOfFuel

/-- A fault that is noted while the reading goes on. -/
def GrammarFault.isLimit : GrammarFault → Bool
  | tooManyParameters _ => true
  | tooManyArguments _ => true
  | _ => false

/-- A token of this kind ends neither a statement nor a block. -/
abbrev TokenKind.Within (kind : TokenKind) : Prop := kind ≠ .mark .semicolon ∧ kind ≠ .mark .rightBrace

theorem ReadState.errorHere_atEnd {s : ReadState} {fault : GrammarFault}
    (h : (s.errorHere fault).atEnd = true) : s.place = .endOfText := eq_of_beq h

/-- An error at a token that is not the last one does not lie behind it. -/
theorem Token.place_eq_lexeme {t : Token} (h : t.kind ≠ .eof) : t.place = .lexeme t.lexeme := by
  unfold place
  split
  · next hk => exact absurd hk h
  · rfl

namespace Reader

/-- From states that `before` relates, two steps come to results that agree, and to states that `after`
relates if they end well. -/
def Agrees {α : Type} (inside before after : Pairing) (step step' : Reader α) : Prop :=
  ∀ s t, before s t → (step s).Agree inside after (step' t)

/-- Two readings that recover from the same error get into states that `after` relates. -/
def Recovers (inside after : Pairing) : Prop :=
  ∀ s t e, inside s t → (e.atEnd = true → s.place = .endOfText) →
    after { s.report e with pending := recover s.pending } { t.report e with pending := recover t.pending }

/-- What is asked of the two relations where declarations may follow one another between braces. -/
structure Nests (inside behind : Pairing) : Prop where
  same : behind = inside
  closed {s t : ReadState} {u : Token} {us vs : List Token} : inside s t → s.pending = u :: us →
    t.pending = u :: vs → u.kind = .mark .rightBrace → inside { s with pending := us } { t with pending := vs }
  recovers : Recovers inside inside

/-- The two relations are kept by single tokens. -/
structure InStep (inside behind : Pairing) : Prop where
  head {s t : ReadState} : inside s t → s.pending.head? = t.pending.head?
  here {s t : ReadState} (fault : GrammarFault) : inside s t → s.errorHere fault = t.errorHere fault
  nextId {s t : ReadState} : inside s t → s.nextId = t.nextId
  numbered {s t : ReadState} : inside s t →
    inside { s with nextId := s.nextId + 1 } { t with nextId := t.nextId + 1 }
  limit {s t : ReadState} {fault : GrammarFault} : fault.isLimit = true → inside s t →
    inside (s.report (s.errorHere fault)) (t.report (t.errorHere fault))
  taken {s t : ReadState} {u : Token} {us vs : List Token} : inside s t → s.pending = u :: us →
    t.pending = u :: vs → u.kind.Within → inside { s with pending := us } { t with pending := vs }
  finished {s t : ReadState} {u : Token} {us vs : List Token} : inside s t → s.pending = u :: us →
    t.pending = u :: vs → u.kind = .mark .semicolon → behind { s with pending := us } { t with pending := vs }
  /-- Behind a statement an `else` is seen by both readings or by none. -/
  unfinished {s t : ReadState} : behind s t →
    inside s t ∨ Absent (.keyword .elseWord) s.pending ∧ Absent (.keyword .elseWord) t.pending
  /-- Where a semicolon stands inside of a statement, the readings stay inside of it. -/
  looped {s t : ReadState} {u : Token} {us : List Token} : inside s t → s.pending = u :: us →
    u.kind = .keyword .forWord → behind = inside
  nested {s t : ReadState} {u : Token} {us : List Token} : inside s t → s.pending = u :: us →
    u.kind = .mark .leftBrace → Nests inside behind

/-! ## Single steps -/

section Rules
variable {inside before middle after : Pairing} {α β : Type}

theorem agrees_exhausted_left (step : Reader α) : Agrees inside before after exhausted step :=
  fun _ _ _ => .first _

theorem agrees_exhausted_right (step : Reader α) : Agrees inside before after step exhausted :=
  fun _ _ _ => .second _

theorem agrees_pure (a : α) : Agrees inside before before (pure a) (pure a) := fun _ _ h => .ok a h

theorem agrees_failWith {e : StaticError} (he : e.atEnd = false) :
    Agrees inside inside after (failWith e : Reader α) (failWith e) := fun _ _ h =>
  .fail e h fun hend => by rw [he] at hend; cases hend

theorem Agrees.bind {step step' : Reader α} {next next' : α → Reader β}
    (hs : Agrees inside before middle step step') (hn : ∀ a, Agrees inside middle after (next a) (next' a)) :
    Agrees inside before after (step >>= next) (step' >>= next') := by
  intro s t h
  have hst := hs s t h
  change (andThen step next s).Agree inside after (andThen step' next' t)
  unfold andThen
  generalize step s = r at hst ⊢
  generalize step' t = r' at hst ⊢
  cases hst with
  | ok a h' => exact hn a _ _ h'
  | fail e h' he => exact .fail e h' he
  | first r => exact .first _
  | second r => exact .second _

theorem Agrees.map {step step' : Reader α} (f : α → β) (h : Agrees inside before after step step') :
    Agrees inside before after (f <$> step) (f <$> step') := h.bind fun a => agrees_pure (f a)

theorem bind_ok {step : Reader α} {s s' : ReadState} {a : α} (h : step s = .ok a s') (next : α → Reader β) :
    (step >>= next) s = next a s' := by
  change andThen step next s = _
  unfold andThen
  rw [h]

theorem bind_fail {step : Reader α} {s s' : ReadState} {e : StaticError} (h : step s = .fail e s')
    (next : α → Reader β) : (step >>= next) s = .fail e s' := by
  change andThen step next s = _
  unfold andThen
  rw [h]

theorem bind_outOfFuel {step : Reader α} {s : ReadState} (h : step s = .outOfFuel) (next : α → Reader β) :
    (step >>= next) s = .outOfFuel := by
  change andThen step next s = _
  unfold andThen
  rw [h]

theorem attempt_ok {step : Reader α} {s s' : ReadState} {a : α} (h : step s = .ok a s') :
    attempt step s = .ok (some a) s' := by
  unfold attempt
  rw [h]

theorem attempt_fail {step : Reader α} {s s' : ReadState} {e : StaticError} (h : step s = .fail e s') :
    attempt step s = .ok none { s'.report e with pending := recover s'.pending } := by
  unfold attempt
  rw [h]

theorem attempt_outOfFuel {step : Reader α} {s : ReadState} (h : step s = .outOfFuel) :
    attempt step s = .outOfFuel := by
  unfold attempt
  rw [h]

/-- What a step does that takes a token of a kind if it comes next. -/
theorem accept_eq (kind : TokenKind) (s : ReadState) : accept kind s =
    match s.pending with
    | [] => .ok none s
    | u :: us => if u.kind = kind then .ok (some u) { s with pending := us } else .ok none s := by
  change andThen (takeIf _) (fun found => pure (found.map Prod.snd)) s = _
  unfold andThen takeIf
  cases s.pending with
  | nil => rfl
  | cons u us =>
    dsimp only
    by_cases hu : u.kind = kind
    · rw [if_pos hu, if_pos hu]
      rfl
    · rw [if_neg hu, if_neg hu]
      rfl

theorem accept_absent {kind : TokenKind} {s : ReadState} (h : Absent kind s.pending) :
    accept kind s = .ok none s := by
  rw [accept_eq]
  cases hp : s.pending with
  | nil => rfl
  | cons u us =>
    rw [hp] at h
    exact if_neg (h u rfl)

theorem accept_bind_absent {kind : TokenKind} {s : ReadState} (h : Absent kind s.pending)
    (next : Option Token → Reader α) : (accept kind >>= next) s = next none s := bind_ok (accept_absent h) next

theorem accept_bind_taken {kind : TokenKind} {s : ReadState} {u : Token} {us : List Token}
    (hs : s.pending = u :: us) (hu : u.kind = kind) (next : Option Token → Reader α) :
    (accept kind >>= next) s = next (some u) { s with pending := us } := by
  refine bind_ok ?_ next
  rw [accept_eq, hs]
  exact if_pos hu

end Rules

namespace InStep
variable {inside behind after : Pairing} (h : InStep inside behind) {α β : Type}
include h

/-- Both readings are at their ends, or the same token comes next. -/
theorem pending_cases {s t : ReadState} (hst : inside s t) :
    s.pending = [] ∧ t.pending = [] ∨ ∃ u us vs, s.pending = u :: us ∧ t.pending = u :: vs := by
  have hhead := h.head hst
  cases hs : s.pending with
  | nil =>
    rw [hs] at hhead
    exact .inl ⟨rfl, List.head?_eq_none_iff.1 hhead.symm⟩
  | cons u us =>
    rw [hs] at hhead
    obtain ⟨vs, hvs⟩ := List.head?_eq_some_iff.1 hhead.symm
    exact .inr ⟨u, us, vs, rfl, hvs⟩

theorem fail (fault : GrammarFault) :
    Agrees inside inside after (Reader.fail fault : Reader α) (Reader.fail fault) := by
  intro s t hst
  unfold Reader.fail
  rw [← h.here fault hst]
  exact .fail _ hst ReadState.errorHere_atEnd

theorem peek : Agrees inside inside inside peek peek := by
  intro s t hst
  unfold Reader.peek
  rw [h.head hst]
  exact .ok _ hst

theorem at? (mark : Mark) : Agrees inside inside inside (at? mark) (at? mark) :=
  h.peek.bind fun _ => agrees_pure _

theorem atEnd : Agrees inside inside inside atEnd atEnd := h.peek.bind fun _ => agrees_pure _

theorem newReference (name : Name) :
    Agrees inside inside inside (newReference name) (newReference name) := by
  intro s t hst
  unfold Reader.newReference
  rw [h.nextId hst]
  have hnumbered := h.numbered hst
  rw [h.nextId hst] at hnumbered
  exact .ok _ hnumbered

theorem reportIf (condition : Bool) {fault : GrammarFault} (hf : fault.isLimit = true) :
    Agrees inside inside inside (reportIf condition fault) (reportIf condition fault) := by
  intro s t hst
  unfold Reader.reportIf
  cases condition with
  | false => exact .ok _ hst
  | true => exact .ok _ (h.limit hf hst)

/-- A token that ends nothing is taken by both readings or by none. -/
theorem takeIf {choose : TokenKind → Option α} (hc : ∀ kind, (choose kind).isSome → kind.Within)
    {next next' : Option (α × Token) → Reader β}
    (hs : ∀ a t, choose t.kind = some a → Agrees inside inside after (next (some (a, t))) (next' (some (a, t))))
    (hn : Agrees inside inside after (next none) (next' none)) :
    Agrees inside inside after (takeIf choose >>= next) (takeIf choose >>= next') := by
  intro s t hst
  change (andThen _ next s).Agree inside after (andThen _ next' t)
  unfold andThen Reader.takeIf
  rcases h.pending_cases hst with ⟨hp, hp'⟩ | ⟨u, us, vs, hp, hp'⟩
  · rw [hp, hp']
    exact hn s t hst
  · rw [hp, hp']
    dsimp only
    cases hu : choose u.kind with
    | none => exact hn s t hst
    | some a => exact hs a u hu _ _ (h.taken hst hp hp' (hc u.kind (by rw [hu]; rfl)))

theorem accept {kind : TokenKind} (hk : kind.Within) :
    Agrees inside inside inside (accept kind) (accept kind) := by
  refine h.takeIf (fun kind' hsome => ?_) (fun _ _ _ => agrees_pure _) (agrees_pure _)
  split at hsome
  · next he => exact he ▸ hk
  · cases hsome

theorem expectMark {mark : Mark} (hm : (TokenKind.mark mark).Within) (context : MarkContext) :
    Agrees inside inside inside (expectMark mark context) (expectMark mark context) := by
  refine (h.accept hm).bind fun found => ?_
  cases found with
  | none => exact h.fail _
  | some t => exact agrees_pure t

theorem expectName (role : NameRole) : Agrees inside inside inside (expectName role) (expectName role) := by
  refine (h.accept (by decide)).bind fun found => ?_
  cases found with
  | none => exact h.fail _
  | some t => exact agrees_pure _

theorem acceptSemicolon {next next' : Option Token → Reader α}
    (hs : ∀ t, Agrees inside behind after (next (some t)) (next' (some t)))
    (hn : Agrees inside inside after (next none) (next' none)) :
    Agrees inside inside after (Reader.accept (.mark .semicolon) >>= next)
      (Reader.accept (.mark .semicolon) >>= next') := by
  intro s t hst
  change (andThen _ next s).Agree inside after (andThen _ next' t)
  unfold andThen
  rw [accept_eq, accept_eq]
  rcases h.pending_cases hst with ⟨hp, hp'⟩ | ⟨u, us, vs, hp, hp'⟩
  · rw [hp, hp']
    exact hn s t hst
  · rw [hp, hp']
    dsimp only
    by_cases hu : u.kind = .mark .semicolon
    · rw [if_pos hu, if_pos hu]
      exact hs u _ _ (h.finished hst hp hp' hu)
    · rw [if_neg hu, if_neg hu]
      exact hn s t hst

/-- A semicolon ends a statement. -/
theorem expectSemicolon (context : MarkContext) {f f' : Token → Reader α}
    (hf : ∀ t, Agrees inside behind after (f t) (f' t)) :
    Agrees inside inside after (Reader.expectMark .semicolon context >>= f)
      (Reader.expectMark .semicolon context >>= f') := by
  rw [Reader.expectMark, bind_assoc, bind_assoc]
  exact h.acceptSemicolon hf (h.fail _)

/-- Behind a token of a kind that comes up only where `p` holds. -/
theorem acceptWhere {kind : TokenKind} (hk : kind.Within) {p : Prop}
    (hp : ∀ s t u us, inside s t → s.pending = u :: us → u.kind = kind → p)
    {next next' : Option Token → Reader α} (hs : p → ∀ t, Agrees inside inside after (next (some t)) (next' (some t)))
    (hn : Agrees inside inside after (next none) (next' none)) :
    Agrees inside inside after (Reader.accept kind >>= next) (Reader.accept kind >>= next') := by
  intro s t hst
  change (andThen _ next s).Agree inside after (andThen _ next' t)
  unfold andThen
  rw [accept_eq, accept_eq]
  rcases h.pending_cases hst with ⟨hs', ht'⟩ | ⟨u, us, vs, hs', ht'⟩
  · rw [hs', ht']
    exact hn s t hst
  · rw [hs', ht']
    dsimp only
    by_cases hu : u.kind = kind
    · rw [if_pos hu, if_pos hu]
      exact hs (hp s t u us hst hs' hu) u _ _ (h.taken hst hs' ht' (hu ▸ hk))
    · rw [if_neg hu, if_neg hu]
      exact hn s t hst

/-- Behind a `for` the semicolons stand inside of the statement. -/
theorem acceptFor {next next' : Option Token → Reader α}
    (hs : behind = inside → ∀ t, Agrees inside inside after (next (some t)) (next' (some t)))
    (hn : Agrees inside inside after (next none) (next' none)) :
    Agrees inside inside after (acceptKeyword .forWord >>= next) (acceptKeyword .forWord >>= next') :=
  h.acceptWhere (by decide) (fun _ _ _ _ => h.looped) hs hn

/-- Behind a brace the declarations follow one another inside of the statement. -/
theorem acceptBrace {next next' : Option Token → Reader α}
    (hs : Nests inside behind → ∀ t, Agrees inside inside after (next (some t)) (next' (some t)))
    (hn : Agrees inside inside after (next none) (next' none)) :
    Agrees inside inside after (acceptMark .leftBrace >>= next) (acceptMark .leftBrace >>= next') :=
  h.acceptWhere (by decide) (fun _ _ _ _ => h.nested) hs hn

theorem expectBrace (context : MarkContext) {f f' : Token → Reader α}
    (hf : Nests inside behind → ∀ t, Agrees inside inside after (f t) (f' t)) :
    Agrees inside inside after (Reader.expectMark .leftBrace context >>= f)
      (Reader.expectMark .leftBrace context >>= f') := by
  rw [Reader.expectMark, bind_assoc, bind_assoc]
  exact h.acceptBrace hf (h.fail _)

/-- The brace that ends a block. -/
theorem expectClosing (hb : Nests inside behind) (context : MarkContext) :
    Agrees inside inside inside (Reader.expectMark .rightBrace context) (Reader.expectMark .rightBrace context) := by
  intro s t hst
  change (andThen _ _ s).Agree inside inside (andThen _ _ t)
  unfold andThen acceptMark
  rw [accept_eq, accept_eq]
  rcases h.pending_cases hst with ⟨hp, hp'⟩ | ⟨u, us, vs, hp, hp'⟩
  · rw [hp, hp']
    exact h.fail _ s t hst
  · rw [hp, hp']
    dsimp only
    by_cases hu : u.kind = .mark .rightBrace
    · rw [if_pos hu, if_pos hu]
      exact .ok _ (hb.closed hst hp hp' hu)
    · rw [if_neg hu, if_neg hu]
      exact h.fail _ s t hst

theorem behind? {kind : TokenKind} (hk : kind.Within) {step step' : Reader α}
    (hs : Agrees inside inside inside step step') :
    Agrees inside inside inside (behind? kind step) (behind? kind step') := by
  refine (h.accept hk).bind fun found => ?_
  cases found with
  | none => exact agrees_pure _
  | some t => exact hs.map _

/-- An `else` goes on with a statement that could have ended. -/
theorem behindElse {step step' : Reader α} (hs : Agrees inside inside behind step step') :
    Agrees inside behind behind (Reader.behind? (.keyword .elseWord) step)
      (Reader.behind? (.keyword .elseWord) step') := by
  intro s t hst
  rcases h.unfinished hst with hin | ⟨hl, hr⟩
  · change (andThen _ _ s).Agree inside behind (andThen _ _ t)
    unfold andThen
    rw [accept_eq, accept_eq]
    rcases h.pending_cases hin with ⟨hp, hp'⟩ | ⟨u, us, vs, hp, hp'⟩
    · rw [hp, hp']
      exact .ok _ hst
    · rw [hp, hp']
      dsimp only
      by_cases hu : u.kind = .keyword .elseWord
      · rw [if_pos hu, if_pos hu]
        exact hs.map _ _ _ (h.taken hin hp hp' (by rw [hu]; decide))
      · rw [if_neg hu, if_neg hu]
        exact .ok _ hst
  · change (andThen _ _ s).Agree inside behind (andThen _ _ t)
    unfold andThen
    rw [accept_absent hl, accept_absent hr]
    exact .ok _ hst

theorem unlessAt (mark : Mark) {step step' : Reader α} (hs : Agrees inside inside inside step step') :
    Agrees inside inside inside (unlessAt mark step) (unlessAt mark step') := by
  refine (h.at? mark).bind fun found => ?_
  cases found with
  | true => exact agrees_pure _
  | false => exact hs.map _

omit h in
theorem attempt {step step' : Reader α} (hs : Agrees inside inside behind step step')
    (hb : ∀ s t, behind s t → after s t) (hr : Recovers inside after) :
    Agrees inside inside after (attempt step) (attempt step') := by
  intro s t hst
  have hresult := hs s t hst
  unfold Reader.attempt
  generalize step s = r at hresult ⊢
  generalize step' t = r' at hresult ⊢
  cases hresult with
  | ok a h' => exact .ok _ (hb _ _ h')
  | fail e h' he => exact .ok _ (hr _ _ e h' he)
  | first r => exact .first _
  | second r => exact .second _

end InStep

end Reader

open Reader

/-! ## The rules of expressions -/

/-- No operator ends a statement or a block. -/
theorem within_of_chosen {α : Type} {choose : TokenKind → Option α}
    (hs : choose (.mark .semicolon) = none) (hb : choose (.mark .rightBrace) = none) (kind : TokenKind)
    (h : (choose kind).isSome) : kind.Within := by
  constructor
  · rintro rfl
    rw [hs] at h
    cases h
  · rintro rfl
    rw [hb] at h
    cases h

section Expressions
variable {inside behind : Pairing}

/-- Readings in step agree on expressions, with fuel `n` and `n'`. -/
structure ExprAgrees (inside : Pairing) (n n' : Nat) : Prop where
  expr : Agrees inside inside inside (readExpr n) (readExpr n')
  level (o : Option Level) : Agrees inside inside inside (readLevel n o) (readLevel n' o)
  joined (l : Level) (left : Expr) : Agrees inside inside inside (readJoined n l left) (readJoined n' l left)
  unary : Agrees inside inside inside (readUnary n) (readUnary n')
  power : Agrees inside inside inside (readPower n) (readPower n')
  call : Agrees inside inside inside (readCall n) (readCall n')
  selectors (e : Expr) : Agrees inside inside inside (readSelectors n e) (readSelectors n' e)
  arguments (closing : Mark) (limit : Option Nat) : (TokenKind.mark closing).Within →
    Agrees inside inside inside (readArguments n closing limit) (readArguments n' closing limit)
  items (limit : Option Nat) (count : Nat) :
    Agrees inside inside inside (readItems n limit count) (readItems n' limit count)
  primary : Agrees inside inside inside (readPrimary n) (readPrimary n')

namespace ExprAgrees
variable {n n' : Nat} (h : InStep inside behind) (ih : ExprAgrees inside n n')
include h ih

theorem readExpr_agrees : Agrees inside inside inside (readExpr (n + 1)) (readExpr (n' + 1)) := by
  rw [readExpr, readExpr]
  refine (ih.level _).bind fun target => ?_
  refine h.takeIf (within_of_chosen rfl rfl) (fun operator token hoperator => ?_) (agrees_pure _)
  refine ih.expr.bind fun value => ?_
  cases target.assigned? operator value with
  | none =>
    have hplace := Token.place_eq_lexeme (t := token) fun hk => by rw [hk] at hoperator; cases hoperator
    exact agrees_failWith (by rw [hplace]; rfl)
  | some assignment => exact agrees_pure _

omit h in
theorem readLevel_agrees (o : Option Level) :
    Agrees inside inside inside (readLevel (n + 1) o) (readLevel (n' + 1) o) := by
  cases o with
  | none =>
    rw [readLevel, readLevel]
    exact ih.unary
  | some l =>
    rw [readLevel, readLevel]
    exact (ih.level _).bind fun first => ih.joined l first

theorem readJoined_agrees (l : Level) (left : Expr) :
    Agrees inside inside inside (readJoined (n + 1) l left) (readJoined (n' + 1) l left) := by
  rw [readJoined, readJoined]
  refine h.takeIf (within_of_chosen rfl rfl) (fun operator token _ => ?_) (agrees_pure _)
  exact (ih.level _).bind fun right => ih.joined l _

theorem readUnary_agrees : Agrees inside inside inside (readUnary (n + 1)) (readUnary (n' + 1)) := by
  rw [readUnary, readUnary]
  refine h.takeIf (within_of_chosen rfl rfl) (fun operator token _ => ?_) ih.power
  exact ih.unary.bind fun right => agrees_pure _

theorem readPower_agrees : Agrees inside inside inside (readPower (n + 1)) (readPower (n' + 1)) := by
  rw [readPower, readPower]
  refine ih.call.bind fun base => (h.accept (by decide)).bind fun found => ?_
  cases found with
  | none => exact agrees_pure _
  | some token => exact ih.unary.bind fun exponent => agrees_pure _

omit h in
theorem readCall_agrees : Agrees inside inside inside (readCall (n + 1)) (readCall (n' + 1)) := by
  rw [readCall, readCall]
  exact ih.primary.bind fun first => ih.selectors first

theorem readSelectors_agrees (e : Expr) :
    Agrees inside inside inside (readSelectors (n + 1) e) (readSelectors (n' + 1) e) := by
  rw [readSelectors, readSelectors]
  refine (h.accept (by decide)).bind fun paren => ?_
  cases paren with
  | some _ => exact (ih.arguments _ _ (by decide)).bind fun _ => ih.selectors _
  | none =>
  refine (h.accept (by decide)).bind fun bracket => ?_
  cases bracket with
  | some _ => exact (ih.arguments _ _ (by decide)).bind fun _ => ih.selectors _
  | none =>
  refine (h.accept (by decide)).bind fun dot => ?_
  cases dot with
  | some _ => exact (h.expectName _).bind fun name => ih.selectors _
  | none => exact agrees_pure _

theorem readArguments_agrees {closing : Mark} (hc : (TokenKind.mark closing).Within) (limit : Option Nat) :
    Agrees inside inside inside (readArguments (n + 1) closing limit)
      (readArguments (n' + 1) closing limit) := by
  rw [readArguments, readArguments]
  refine (h.unlessAt closing (ih.items limit 0)).bind fun arguments => ?_
  exact (h.expectMark hc _).bind fun token => agrees_pure _

theorem readItems_agrees (limit : Option Nat) (count : Nat) :
    Agrees inside inside inside (readItems (n + 1) limit count) (readItems (n' + 1) limit count) := by
  rw [readItems, readItems]
  refine (h.reportIf _ rfl).bind fun _ => ih.expr.bind fun first => (h.accept (by decide)).bind fun comma => ?_
  cases comma with
  | none => exact agrees_pure _
  | some _ => exact (ih.items limit _).bind fun rest => agrees_pure _

theorem readPrimary_agrees : Agrees inside inside inside (readPrimary (n + 1)) (readPrimary (n' + 1)) := by
  rw [readPrimary, readPrimary]
  refine h.takeIf (within_of_chosen rfl rfl) (fun value _ _ => agrees_pure _) ?_
  refine (h.accept (by decide)).bind fun name => ?_
  cases name with
  | some token => exact (h.newReference _).bind fun target => agrees_pure _
  | none =>
  refine (h.accept (by decide)).bind fun paren => ?_
  cases paren with
  | some _ => exact ih.expr.bind fun inner => (h.expectMark (by decide) _).bind fun _ => agrees_pure _
  | none =>
  refine (h.accept (by decide)).bind fun bracket => ?_
  cases bracket with
  | some _ => exact (ih.arguments _ _ (by decide)).bind fun _ => agrees_pure _
  | none =>
  refine (h.accept (by decide)).bind fun this => ?_
  cases this with
  | some token => exact (h.newReference _).bind fun target => agrees_pure _
  | none =>
  refine (h.accept (by decide)).bind fun super => ?_
  cases super with
  | none => exact h.fail _
  | some token =>
    refine (h.expectMark (by decide) _).bind fun _ => (h.expectName _).bind fun method => ?_
    exact (h.newReference _).bind fun target => agrees_pure _

end ExprAgrees

theorem exprAgrees (h : InStep inside behind) (n n' : Nat) : ExprAgrees inside n n' := by
  induction n generalizing n' with
  | zero => constructor <;> intros <;> exact agrees_exhausted_left _
  | succ n ih =>
    cases n' with
    | zero => constructor <;> intros <;> exact agrees_exhausted_right _
    | succ n' =>
      have ih := ih n'
      exact ⟨ih.readExpr_agrees h, ih.readLevel_agrees, ih.readJoined_agrees h, ih.readUnary_agrees h,
        ih.readPower_agrees h, ih.readCall_agrees, ih.readSelectors_agrees h,
        fun _ limit hc => ih.readArguments_agrees h hc limit, ih.readItems_agrees h, ih.readPrimary_agrees h⟩

end Expressions

/-! ## The rules of statements -/

section Statements
variable {inside behind : Pairing} (h : InStep inside behind) (n n' : Nat)
include h

theorem readExpr_agrees : Agrees inside inside inside (readExpr n) (readExpr n') := (exprAgrees h n n').expr

theorem readParameters_agrees (count : Nat) :
    Agrees inside inside inside (readParameters n count) (readParameters n' count) := by
  induction n generalizing n' count with
  | zero => exact agrees_exhausted_left _
  | succ n ih =>
    cases n' with
    | zero => exact agrees_exhausted_right _
    | succ n' =>
      rw [readParameters, readParameters]
      refine (h.reportIf _ rfl).bind fun _ => (h.expectName _).bind fun first => ?_
      refine (h.accept (by decide)).bind fun comma => ?_
      cases comma with
      | none => exact agrees_pure _
      | some _ => exact (ih n' _).bind fun rest => agrees_pure _

theorem readVariable_agrees : Agrees inside inside behind (readVariable n) (readVariable n') := by
  refine (h.expectName _).bind fun name => (h.behind? (by decide) (readExpr_agrees h n n')).bind fun value => ?_
  exact h.expectSemicolon _ fun _ => agrees_pure _

theorem readExpressionStatement_agrees :
    Agrees inside inside behind (readExpressionStatement n) (readExpressionStatement n') :=
  (readExpr_agrees h n n').bind fun _ => h.expectSemicolon _ fun _ => agrees_pure _

theorem readReturn_agrees (keyword : Name) :
    Agrees inside inside behind (readReturn n keyword) (readReturn n' keyword) :=
  (h.unlessAt _ (readExpr_agrees h n n')).bind fun _ => h.expectSemicolon _ fun _ => agrees_pure _

theorem readSuperclass_agrees : Agrees inside inside inside readSuperclass readSuperclass :=
  (h.expectName _).bind fun name => h.newReference name

omit h in
theorem readForClauses_agrees (h : InStep inside inside) :
    Agrees inside inside inside (readForClauses n) (readForClauses n') := by
  have hexpr := readExpr_agrees h n n'
  have hinitializer : Agrees inside inside inside (readInitializer n) (readInitializer n') := by
    refine h.acceptSemicolon (fun _ => agrees_pure _) ((h.accept (by decide)).bind fun keyword => ?_)
    cases keyword with
    | some _ => exact (readVariable_agrees h n n').map _
    | none => exact (readExpressionStatement_agrees h n n').map _
  refine (h.expectMark (by decide) _).bind fun _ => hinitializer.bind fun initializer => ?_
  refine (h.unlessAt _ hexpr).bind fun condition => h.expectSemicolon _ fun _ => ?_
  refine (h.unlessAt _ hexpr).bind fun increment => ?_
  exact (h.expectMark (by decide) _).bind fun _ => agrees_pure _

end Statements

/-- Readings in step agree on statements, with fuel `n` and `n'`. -/
structure StmtAgrees (inside behind : Pairing) (n n' : Nat) : Prop where
  declaration {after : Pairing} : (∀ s t, behind s t → after s t) → Recovers inside after →
    Agrees inside inside after (readDeclaration n) (readDeclaration n')
  class_ : Agrees inside inside behind (readClass n) (readClass n')
  function (form : FunctionForm) : Agrees inside inside behind (readFunction n form) (readFunction n' form)
  statement : Agrees inside inside behind (readStatement n) (readStatement n')
  branch : Agrees inside inside behind (readBranch n) (readBranch n')
  methods : Nests inside behind → Agrees inside inside inside (readMethods n) (readMethods n')
  block : Nests inside behind → Agrees inside inside inside (readBlock n) (readBlock n')
  body : Nests inside behind → Agrees inside inside inside (readBody n) (readBody n')

namespace StmtAgrees
variable {inside behind : Pairing} {n n' : Nat} (h : InStep inside behind) (ih : StmtAgrees inside behind n n')
include h ih

theorem readDeclaration_agrees {after : Pairing} (hb : ∀ s t, behind s t → after s t)
    (hr : Recovers inside after) :
    Agrees inside inside after (readDeclaration (n + 1)) (readDeclaration (n' + 1)) := by
  rw [readDeclaration, readDeclaration]
  refine InStep.attempt ((h.accept (by decide)).bind fun keyword => ?_) hb hr
  cases keyword with
  | some _ => exact ih.class_
  | none =>
  refine (h.accept (by decide)).bind fun keyword => ?_
  cases keyword with
  | some _ => exact (ih.function _).map _
  | none =>
  refine (h.accept (by decide)).bind fun keyword => ?_
  cases keyword with
  | some _ => exact readVariable_agrees h n n'
  | none => exact ih.statement

theorem readClass_agrees : Agrees inside inside behind (readClass (n + 1)) (readClass (n' + 1)) := by
  rw [readClass, readClass]
  refine (h.expectName _).bind fun name => ?_
  refine (h.behind? (by decide) (readSuperclass_agrees h)).bind fun superclass => ?_
  refine h.expectBrace _ fun hb _ => ?_
  have hmethods := ih.methods hb
  obtain rfl := hb.same
  exact hmethods.bind fun methods => (h.expectClosing hb _).bind fun _ => agrees_pure _

theorem readFunction_agrees (form : FunctionForm) :
    Agrees inside inside behind (readFunction (n + 1) form) (readFunction (n' + 1) form) := by
  rw [readFunction, readFunction]
  refine (h.expectName _).bind fun name => (h.expectMark (by decide) _).bind fun _ => ?_
  refine (h.unlessAt _ (readParameters_agrees h n n' 0)).bind fun params => ?_
  refine (h.expectMark (by decide) _).bind fun _ => h.expectBrace _ fun hb _ => ?_
  have hblock := ih.block hb
  obtain rfl := hb.same
  exact hblock.bind fun body => agrees_pure _

theorem readStatement_agrees :
    Agrees inside inside behind (readStatement (n + 1)) (readStatement (n' + 1)) := by
  rw [readStatement, readStatement]
  refine h.acceptFor (fun hb _ => ?_) ?_
  · have hstatement := ih.statement
    subst hb
    exact (readForClauses_agrees n n' h).bind fun clauses => hstatement.bind fun body => agrees_pure _
  refine (h.accept (by decide)).bind fun keyword => ?_
  cases keyword with
  | some _ => exact ih.branch
  | none =>
  refine (h.accept (by decide)).bind fun keyword => ?_
  cases keyword with
  | some _ =>
    refine (h.expectMark (by decide) _).bind fun _ => (readExpr_agrees h n n').bind fun condition => ?_
    exact (h.expectMark (by decide) _).bind fun _ => ih.statement.bind fun body => agrees_pure _
  | none =>
  refine (h.accept (by decide)).bind fun keyword => ?_
  cases keyword with
  | some token => exact readReturn_agrees h n n' _
  | none =>
  refine h.acceptBrace (fun hb _ => ?_) (readExpressionStatement_agrees h n n')
  have hblock := ih.block hb
  obtain rfl := hb.same
  exact hblock.map _

theorem readBranch_agrees : Agrees inside inside behind (readBranch (n + 1)) (readBranch (n' + 1)) := by
  rw [readBranch, readBranch]
  refine (h.expectMark (by decide) _).bind fun _ => (readExpr_agrees h n n').bind fun condition => ?_
  refine (h.expectMark (by decide) _).bind fun _ => ih.statement.bind fun thenBranch => ?_
  exact (h.behindElse ih.statement).bind fun elseBranch => agrees_pure _

end StmtAgrees

/-! Where `behind` is no more than `inside`, statements may follow one another. -/

namespace StmtAgrees
variable {inside : Pairing} {n n' : Nat} (h : InStep inside inside) (hb : Nests inside inside)
  (ih : StmtAgrees inside inside n n')
include h hb ih

theorem readMethods_agrees : Agrees inside inside inside (readMethods (n + 1)) (readMethods (n' + 1)) := by
  rw [readMethods, readMethods]
  refine (h.at? _).bind fun brace => h.atEnd.bind fun ended => ?_
  split
  · exact agrees_pure _
  · exact (ih.function _).bind fun first => (ih.methods hb).bind fun rest => agrees_pure _

theorem readBlock_agrees : Agrees inside inside inside (readBlock (n + 1)) (readBlock (n' + 1)) := by
  rw [readBlock, readBlock]
  exact (ih.body hb).bind fun body => (h.expectClosing hb _).bind fun _ => agrees_pure _

theorem readBody_agrees : Agrees inside inside inside (readBody (n + 1)) (readBody (n' + 1)) := by
  rw [readBody, readBody]
  refine (h.at? _).bind fun brace => h.atEnd.bind fun ended => ?_
  split
  · exact agrees_pure _
  · exact (ih.declaration (fun _ _ => id) hb.recovers).bind fun first => (ih.body hb).bind fun rest => agrees_pure _

end StmtAgrees

theorem stmtAgrees {inside behind : Pairing} (h : InStep inside behind) (n n' : Nat) :
    StmtAgrees inside behind n n' := by
  induction n generalizing n' with
  | zero => constructor <;> intros <;> exact agrees_exhausted_left _
  | succ n ih =>
    cases n' with
    | zero => constructor <;> intros <;> exact agrees_exhausted_right _
    | succ n' =>
      have ih := ih n'
      constructor
      case declaration => exact ih.readDeclaration_agrees h
      case class_ => exact ih.readClass_agrees h
      case function => exact ih.readFunction_agrees h
      case statement => exact ih.readStatement_agrees h
      case branch => exact ih.readBranch_agrees h
      case methods =>
        intro hb
        obtain rfl := hb.same
        exact ih.readMethods_agrees h hb
      case block =>
        intro hb
        obtain rfl := hb.same
        exact ih.readBlock_agrees h hb
      case body =>
        intro hb
        obtain rfl := hb.same
        exact ih.readBody_agrees h hb

theorem readProgram_agrees {inside : Pairing} (h : InStep inside inside) (hr : Recovers inside inside) (n n' : Nat) :
    Agrees inside inside inside (readProgram n) (readProgram n') := by
  induction n generalizing n' with
  | zero => exact agrees_exhausted_left _
  | succ n ih =>
    cases n' with
    | zero => exact agrees_exhausted_right _
    | succ n' =>
      rw [readProgram, readProgram]
      refine h.atEnd.bind fun ended => ?_
      split
      · exact agrees_pure _
      · exact ((stmtAgrees h n n').declaration (fun _ _ => id) hr).bind fun first => (ih n').bind fun rest => agrees_pure _

end LoxLang
