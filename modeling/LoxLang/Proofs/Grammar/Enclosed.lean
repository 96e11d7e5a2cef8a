import LoxLang.Proofs.Grammar.Balance
import LoxLang.Proofs.Grammar.Recovery
import LoxLang.Proofs.Isolation.Reading

/-!
# Errors inside a block

A block without inner braces is read without a look at what stands behind it, as long as no recovery takes its
closing brace: a recovery stops at semicolons and at words, and a brace is neither. Then the block is over, and the
tokens behind it are read as if they stood alone. Otherwise the block goes on behind its brace, and the statements
that stand there are lost or become part of it.
-/

namespace LoxLang

open Reader

/-! ## Up to the brace -/

/-- A token that belongs neither to the end nor to a block. -/
def Token.Braceless (t : Token) : Prop := t.kind ∉ [.eof, .mark .leftBrace, .mark .rightBrace]

theorem Token.Braceless.place {t : Token} (h : t.Braceless) : t.place ≠ .endOfText := by
  rw [Token.place_eq_lexeme fun hk => h (by simp [hk])]
  exact Place.noConfusion

/-- Both readings stand inside the block, and no error so far lies at the end. -/
structure Enclosed (last : Token) (more : List Token) (line : Nat) (s t : ReadState) : Prop where
  ahead : Ahead Token.Braceless last more line s t
  errors : ∀ e ∈ t.errors, e.atEnd = false

/-- A recovery has taken the closing brace. Only the first reading has more, from where the recovery ends. -/
structure Crossed (last : Token) (more : List Token) (line : Nat) (s t : ReadState) : Prop where
  first : s = ⟨recover (last :: more), line, t.nextId, t.errors⟩
  second : t.pending = []

section Enclosed
variable {last : Token} {more : List Token} {line : Nat} {s t : ReadState}

/-- Inside the block no error lies at the end. -/
theorem Enclosed.place (hlast : last.kind = .mark .rightBrace) (h : Enclosed last more line s t) :
    s.place ≠ .endOfText := by
  obtain ⟨u, front, hs, -, hcases⟩ := h.ahead.next
  unfold ReadState.place
  rw [hs]
  change u.place ≠ .endOfText
  rcases hcases with ⟨rfl, -⟩ | ⟨hu, -⟩
  · rw [Token.place_eq_lexeme fun hk => by rw [hlast] at hk; cases hk]
    exact Place.noConfusion
  · exact hu.place

theorem Enclosed.report (h : Enclosed last more line s t) {e : StaticError} (he : e.atEnd = false) :
    Enclosed last more line (s.report e) (t.report e) := by
  refine ⟨h.ahead.report e, fun e' he' => ?_⟩
  rcases List.mem_append.1 he' with he' | he'
  · exact h.errors e' he'
  · rw [List.mem_singleton.1 he']
    exact he

theorem enclosed_inStep (hlast : last.kind = .mark .rightBrace) (more : List Token) (line : Nat) :
    InStep (Enclosed last more line) (Enclosed last more line) where
  head h := h.ahead.head
  here fault h := h.ahead.here fault
  nextId h := h.ahead.nextId
  numbered h := ⟨h.ahead.numbered, h.errors⟩
  limit {s t fault} _ h := by
    rw [← h.ahead.here]
    exact h.report (Bool.eq_false_iff.2 fun he => h.place hlast (ReadState.errorHere_atEnd he))
  taken h hs ht hu := ⟨h.ahead.drop hs ht (hlast ▸ hu.2), h.errors⟩
  finished h hs ht hu := ⟨h.ahead.drop hs ht (by rw [hlast, hu]; decide), h.errors⟩
  unfinished h := .inl h
  looped _ _ _ := rfl
  nested {s t u us} h hs hu := by
    have hother : u.Braceless := h.ahead.inner hs (by rw [hlast, hu]; decide)
    exact absurd (by simp [hu]) hother

/-- A recovery stays inside the block or takes the brace. -/
theorem enclosed_recovers (hlast : last.kind = .mark .rightBrace) (more : List Token) (line : Nat) :
    Recovers (Enclosed last more line) fun s t => Enclosed last more line s t ∨ Crossed last more line s t := by
  intro s t e h he
  have hplace : e.atEnd = false := Bool.eq_false_iff.2 fun hend => h.place hlast (he hend)
  rcases h.ahead.recovered e with hahead | ⟨hmore, hnone⟩
  · exact .inl ⟨hahead, (h.report hplace).errors⟩
  · refine .inr ⟨?_, ?_⟩
    · rw [hmore]
      unfold ReadState.report
      rw [h.ahead.endLine, h.ahead.nextId, h.ahead.errors]
    · refine hnone.trans ?_
      rw [recover.eq_def]
      simp [hlast]

end Enclosed

/-! ## Bodies -/

/-- The next token is a closing brace, or there is none. -/
def ReadState.Closing (s : ReadState) : Prop :=
  s.pending = [] ∨ ∃ t ts, s.pending = t :: ts ∧ t.kind = .mark .rightBrace

theorem ReadState.not_closing {s : ReadState} {t : Token} {ts : List Token} (hs : s.pending = t :: ts)
    (ht : t.kind ≠ .mark .rightBrace) : ¬s.Closing := by
  rintro (h | ⟨u, us, h, hu⟩)
  · rw [hs] at h
    cases h
  · obtain ⟨rfl, -⟩ := List.cons.inj (hs.symm.trans h)
    exact ht hu

theorem readBody_closing (n : Nat) {s : ReadState} (h : s.Closing) : readBody (n + 1) s = .ok [] s := by
  rw [readBody]
  change (if (s.pending.head?.map Token.kind == some (.mark .rightBrace)) ||
    (s.pending.head?.map Token.kind).isNone then _ else _ : Reader (List Stmt)) s = _
  rcases h with h | ⟨t, ts, h, ht⟩
  · rw [h]
    rfl
  · rw [h, List.head?_cons, Option.map_some, ht]
    rfl

theorem readBody_next (n : Nat) {s : ReadState} (h : ¬s.Closing) : readBody (n + 1) s =
    andThen (readDeclaration n) (fun first => (first.toList ++ ·) <$> readBody n) s := by
  rw [readBody]
  change (if (s.pending.head?.map Token.kind == some (.mark .rightBrace)) ||
    (s.pending.head?.map Token.kind).isNone then _ else _ : Reader (List Stmt)) s = _
  cases hp : s.pending with
  | nil => exact absurd (.inl hp) h
  | cons t ts =>
    have hother : (some t.kind == some (TokenKind.mark .rightBrace)) = false := by
      simpa using fun ht => h (.inr ⟨t, ts, hp, ht⟩)
    rw [List.head?_cons, Option.map_some, hother]
    rfl

/-- Where the reading of the block alone comes to its closing brace, the other one does too, in front of what it has
more; and where a recovery has taken the brace, the other one goes on from there. -/
theorem readBody_enclosed {last : Token} (hlast : last.kind = .mark .rightBrace) {more : List Token} {line : Nat}
    (n n' : Nat) {s t t' : ReadState} {own : List Stmt} (h : Enclosed last more line s t ∨ Crossed last more line s t)
    (ht : readBody n' t = .ok own t') (hs : readBody n s ≠ .outOfFuel) :
    (t'.pending = [last] ∧ (∀ e ∈ t'.errors, e.atEnd = false) ∧
      readBody n s = .ok own ⟨last :: more, line, t'.nextId, t'.errors⟩) ∨
    (t'.pending = [] ∧ ∃ fuel, readBody n s = ((own ++ ·) <$> readBody fuel : Reader _)
      ⟨recover (last :: more), line, t'.nextId, t'.errors⟩) := by
  induction n' generalizing n s t own with
  | zero => cases ht
  | succ n' ih =>
    cases n with
    | zero => exact absurd rfl hs
    | succ n =>
      rcases h with h | h
      · obtain ⟨u, front, hpending, hpending', hcases⟩ := h.ahead.next
        rcases hcases with ⟨rfl, rfl⟩ | ⟨hu, -⟩
        · rw [readBody_closing n' (.inr ⟨_, _, hpending', hlast⟩)] at ht
          cases ht
          refine .inl ⟨hpending', h.errors, ?_⟩
          have hfirst := h.ahead.first
          rw [hpending] at hfirst
          rw [readBody_closing n (.inr ⟨_, _, hpending, hlast⟩), hfirst]
          rfl
        · have hother : u.kind ≠ .mark .rightBrace := fun hk => hu (by simp [hk])
          rw [readBody_next n (ReadState.not_closing hpending hother)] at hs ⊢
          rw [readBody_next n' (ReadState.not_closing hpending' hother)] at ht
          have hagree := (stmtAgrees (enclosed_inStep hlast more line) n n').declaration (fun _ _ => .inl)
            (enclosed_recovers hlast more line) s t h
          obtain ⟨first, s₁, t₁, hbehind, hstep, ht⟩ := goes_on_of_agree hagree ht hs
          obtain ⟨rest, hrest, rfl⟩ := map_eq_ok ht
          rw [hstep] at hs ⊢
          rcases ih n hbehind hrest (map_ne_outOfFuel hs) with ⟨hpending, herrors, hmore⟩ | ⟨hpending, fuel, hmore⟩
          · exact .inl ⟨hpending, herrors, map_ok hmore _⟩
          · refine .inr ⟨hpending, fuel, ?_⟩
            simp only [List.append_assoc]
            exact map_congr hmore
      · rw [readBody_closing n' (.inl h.second)] at ht
        cases ht
        refine .inr ⟨h.second, n + 1, ?_⟩
        rw [h.first]
        exact (map_nil_append _ _).symm

/-! ## Behind the brace -/

/-- What a declaration leaves stands behind the first token. -/
theorem readDeclaration_advances {n : Nat} {s s' : ReadState} {a : Option Stmt}
    (h : readDeclaration n s = .ok a s') (hs : s.pending ≠ []) : s'.pending <:+ s.pending.tail := by
  obtain ⟨t, ts, hp⟩ := List.exists_cons_of_ne_nil hs
  have hlt := readDeclaration_length_lt h hs
  have hweighed := (stmtWeighs n).declaration s
  rw [h] at hweighed
  have hsuffix := hweighed.1
  rw [hp] at hsuffix hlt ⊢
  rcases List.suffix_cons_iff.1 hsuffix with heq | hsuffix
  · rw [heq] at hlt
    exact absurd hlt (Nat.lt_irrefl _)
  · exact hsuffix

/-- A body ends in front of a closing brace or at the end. -/
theorem readBody_stops {n : Nat} {s s' : ReadState} {body : List Stmt} (h : readBody n s = .ok body s') :
    s'.Closing := by
  induction n generalizing s body with
  | zero => cases h
  | succ n ih =>
    by_cases hs : s.Closing
    · rw [readBody_closing n hs] at h
      cases h
      exact hs
    · rw [readBody_next n hs] at h
      unfold andThen at h
      split at h
      · obtain ⟨rest, hrest, -⟩ := map_eq_ok h
        exact ih hrest
      · cases h
      · cases h

theorem readBody_sure (n : Nat) : (readBody n).Sure := by
  induction n with
  | zero => exact fun _ _ _ h => by cases h
  | succ n ih =>
    intro s e s' h
    by_cases hs : s.Closing
    · rw [readBody_closing n hs] at h
      cases h
    · rw [readBody_next n hs] at h
      exact Sure.bind (readDeclaration_sure n) (fun first => ih.bind fun rest => sure_pure _) s e s' h

/-- A body that begins with a word leaves less than there was. -/
theorem readBody_weight_lt {n : Nat} {s s' : ReadState} {body : List Stmt} (h : readBody n s = .ok body s')
    {word : Token} {rest : List Token} (hs : s.pending = word :: rest) (hword : word.kind.startsStatement = true) :
    tokensWeight s'.pending < tokensWeight s.pending := by
  cases n with
  | zero => cases h
  | succ n =>
    have hother : word.kind ≠ .mark .rightBrace := fun hk => by rw [hk] at hword; cases hword
    have hstops : word.kind ≠ .mark .semicolon := fun hk => by rw [hk] at hword; cases hword
    rw [readBody_next n (ReadState.not_closing hs hother)] at h
    unfold andThen at h
    split at h
    · next first s₁ hr =>
      obtain ⟨others, hrest, -⟩ := map_eq_ok h
      have hfirst := readDeclaration_advances hr (by rw [hs]; exact List.cons_ne_nil _ _)
      have hweighed := (stmtWeighs n).body s₁
      rw [hrest] at hweighed
      have hle := tokensWeight_of_suffix (hweighed.1.trans hfirst)
      rw [hs, List.tail_cons] at hle
      rw [hs, tokensWeight_cons rest hstops, TokenKind.weight_of_startsStatement hword]
      omega
    · cases h
    · cases h

/-- A recovery that does not begin at a semicolon ends behind the next one, in front of a word, or at the end. -/
theorem recover_ends {t : Token} (ht : t.kind ≠ .mark .semicolon) (ts : List Token) :
    recover (t :: ts) = [] ∨
      (∃ word rest, recover (t :: ts) = word :: rest ∧ word.kind.startsStatement = true ∧ word :: rest <:+ ts) ∨
      ∃ front semicolon, ts = front ++ semicolon :: recover (t :: ts) ∧ semicolon.kind = .mark .semicolon ∧
        ∀ u ∈ front, u.kind ≠ .mark .semicolon := by
  induction ts generalizing t with
  | nil =>
    refine .inl ?_
    rw [recover.eq_def]
    exact if_neg ht
  | cons next ts ih =>
    have hstep : recover (t :: next :: ts) =
        if next.kind.startsStatement then next :: ts else recover (next :: ts) := by
      rw [recover.eq_def]
      exact if_neg ht
    rw [hstep]
    split
    · next hword => exact .inr (.inl ⟨next, ts, rfl, hword, List.suffix_refl _⟩)
    · by_cases hnext : next.kind = .mark .semicolon
      · refine .inr (.inr ⟨[], next, ?_, hnext, List.forall_mem_nil _⟩)
        rw [recover_semicolon hnext]
        rfl
      · rcases ih hnext with hnone | ⟨word, rest, hrest, hword, hsuffix⟩ | ⟨front, semicolon, hts, hs, hfront⟩
        · exact .inl hnone
        · exact .inr (.inl ⟨word, rest, hrest, hword, hsuffix.trans (List.suffix_cons next ts)⟩)
        · refine .inr (.inr ⟨next :: front, semicolon, ?_, hs, List.forall_mem_cons.2 ⟨hnext, hfront⟩⟩)
          rw [List.cons_append, ← hts]

/-- What a body leaves that goes on behind its brace weighs less than the program that stands there. -/
theorem weight_lt_of_crossed {last : Token} (hlast : last.kind = .mark .rightBrace) {g : List Token}
    {first next : NodeId} {program : List Stmt} (hg : SpellsBody first g program next) {n : Nat} {s s' : ReadState}
    {body : List Stmt} (hs : s.pending = recover (last :: g)) (h : readBody n s = .ok body s') :
    s'.pending = [] ∨ tokensWeight s'.pending < tokensWeight g := by
  have hweighed := (stmtWeighs n).body s
  rw [h] at hweighed
  have hsuffix := hweighed.1
  rw [hs] at hsuffix
  rcases recover_ends (by rw [hlast]; decide) g with hnone | ⟨word, rest, hrest, hword, hg'⟩ |
    ⟨front, semicolon, hg', hsemicolon, hfront⟩
  · rw [hnone] at hsuffix
    exact .inl (List.suffix_nil.1 hsuffix)
  · rw [hrest] at hs
    have hlt := readBody_weight_lt h hs hword
    have hle := tokensWeight_of_suffix hg'
    rw [hs] at hlt
    exact .inr (Nat.lt_of_lt_of_le hlt hle)
  · rcases hg.opens with hnone | hopens
    · exact absurd hsemicolon (hnone semicolon (by rw [hg']; simp))
    · have hle := tokensWeight_of_suffix hsuffix
      rw [hg'] at hopens
      have hlt := hopens.weight_lt hsemicolon hfront
      rw [← hg'] at hlt
      exact .inr (Nat.lt_of_le_of_lt hle hlt)

/-! ## The block and what stands behind it -/

/-- The error of a block that is not closed. -/
abbrev ReadState.unclosed (s : ReadState) : StaticError := s.errorHere (.missingMark .rightBrace .afterBlock)

theorem ReadState.unclosed_atEnd {s : ReadState} (h : s.pending = []) : s.unclosed.atEnd = true := by
  change (s.place == .endOfText) = true
  unfold ReadState.place
  rw [h]
  rfl

section Block
variable {m : Nat} {s s' : ReadState} {body : List Stmt}

theorem attempt_block_closed (h : readBody m s = .ok body s') {t : Token} {ts : List Token}
    (hs : s'.pending = t :: ts) (ht : t.kind = .mark .rightBrace) :
    attempt (.block <$> readBlock (m + 1) : Reader Stmt) s = .ok (some (.block body)) { s' with pending := ts } := by
  have hblock : readBlock (m + 1) s = .ok body { s' with pending := ts } := by
    rw [readBlock, bind_ok h, expectMark, acceptMark, bind_assoc, accept_bind_taken hs ht]
    rfl
  exact attempt_ok (bind_ok hblock _)

theorem attempt_block_unclosed (h : readBody m s = .ok body s') (hs : s'.pending = []) :
    attempt (.block <$> readBlock (m + 1) : Reader Stmt) s =
      .ok none { s'.report s'.unclosed with pending := [] } := by
  have hblock : readBlock (m + 1) s = .fail s'.unclosed s' := by
    rw [readBlock, bind_ok h, expectMark, acceptMark, bind_assoc, accept_bind_absent (by rw [hs]; exact absent_nil)]
    rfl
  refine (attempt_fail (bind_fail hblock _)).trans ?_
  rw [hs]
  rfl

theorem attempt_block_outOfFuel (h : readBody m s = .outOfFuel) :
    attempt (.block <$> readBlock (m + 1) : Reader Stmt) s = .outOfFuel := by
  have hblock : readBlock (m + 1) s = .outOfFuel := by
    rw [readBlock]
    exact bind_outOfFuel h _
  exact attempt_outOfFuel (bind_outOfFuel hblock _)

end Block

/-- A declaration that begins with a brace is a block. -/
theorem readDeclaration_block (n : Nat) {s : ReadState} {u : Token} {us : List Token} (hs : s.pending = u :: us)
    (hu : u.kind = .mark .leftBrace) : readDeclaration n s = .outOfFuel ∨
      ∃ m, readDeclaration n s = attempt (.block <$> readBlock (m + 1)) { s with pending := us } := by
  have habsent (k : Keyword) : Absent (.keyword k) s.pending := by
    rw [hs, absent_cons, hu]
    exact nofun
  cases n with
  | zero => exact .inl rfl
  | succ n =>
    have hdeclaration : readDeclaration (n + 1) s = attempt (readStatement n) s := by
      rw [readDeclaration]
      unfold attempt acceptKeyword
      rw [accept_bind_absent (habsent _)]
      dsimp only
      rw [accept_bind_absent (habsent _)]
      dsimp only
      rw [accept_bind_absent (habsent _)]
    rw [hdeclaration]
    cases n with
    | zero => exact .inl rfl
    | succ n =>
      have hstatement : readStatement (n + 1) s = (.block <$> readBlock n : Reader Stmt) { s with pending := us } := by
        rw [readStatement]
        unfold acceptKeyword acceptMark
        rw [accept_bind_absent (habsent _)]
        dsimp only
        rw [accept_bind_absent (habsent _)]
        dsimp only
        rw [accept_bind_absent (habsent _)]
        dsimp only
        rw [accept_bind_absent (habsent _)]
        dsimp only
        rw [accept_bind_taken hs hu]
      unfold attempt
      rw [hstatement]
      cases n with
      | zero => exact .inl rfl
      | succ m => exact .inr ⟨m, rfl⟩

/-- A block at the top is closed, and the reading goes on behind its brace; or everything is taken, and the error
lies at the end. -/
theorem readProgram_block {n : Nat} {s s' : ReadState} {program : List Stmt} (h : readProgram n s = .ok program s')
    {u : Token} {us : List Token} (hs : s.pending = u :: us) (hu : u.kind = .mark .leftBrace) :
    ∃ m body s₁, readBody m { s with pending := us } = .ok body s₁ ∧
      ((∃ k t ts rest, s₁.pending = t :: ts ∧ program = .block body :: rest ∧
          readProgram k { s₁ with pending := ts } = .ok rest s') ∨
        (s₁.pending = [] ∧ program = [] ∧ s'.errors = s₁.errors ++ [s₁.unclosed])) := by
  cases n with
  | zero => cases h
  | succ n =>
    rw [readProgram_next n (by rw [hs]; exact List.cons_ne_nil _ _)] at h
    unfold andThen at h
    rcases readDeclaration_block n hs hu with hout | ⟨m, hblock⟩
    · rw [hout] at h
      cases h
    · rw [hblock] at h
      cases hbody : readBody m { s with pending := us } with
      | ok body s₁ =>
        refine ⟨m, body, s₁, hbody, ?_⟩
        rcases readBody_stops hbody with hend | ⟨t, ts, hp, ht⟩
        · rw [attempt_block_unclosed hbody hend] at h
          obtain ⟨rest, hrest, rfl⟩ := map_eq_ok h
          cases n with
          | zero => cases hrest
          | succ n =>
            rw [readProgram_end n rfl] at hrest
            cases hrest
            exact .inr ⟨hend, rfl, rfl⟩
        · rw [attempt_block_closed hbody hp ht] at h
          obtain ⟨rest, hrest, rfl⟩ := map_eq_ok h
          exact .inl ⟨n, t, ts, rest, hp, rfl, hrest⟩
      | fail e s₁ => exact absurd hbody (readBody_sure m _ _ _)
      | outOfFuel =>
        rw [attempt_block_outOfFuel hbody] at h
        cases h

section Programs
variable {m g : List Token} {before after final final' : Token}

/-- How the block is read alone and in front of more: it is closed by its brace in both readings, or a recovery has
taken the brace, and in the other reading nothing is left or less than stood behind it. -/
theorem readProgram_enclosed (hm : ∀ t ∈ m, t.Braceless) (hbefore : before.kind = .mark .leftBrace)
    (hafter : after.kind = .mark .rightBrace) {n n' line line' : Nat} {first : NodeId} {program own : List Stmt}
    {s t : ReadState} (hs : readProgram n ⟨before :: (m ++ after :: g), line, first, []⟩ = .ok program s)
    (ht : readProgram n' ⟨before :: (m ++ [after]), line', first, []⟩ = .ok own t)
    {next last : NodeId} {others : List Stmt} (hg : SpellsBody next g others last) :
    (∃ body rest k, own = [.block body] ∧ (∀ e ∈ t.errors, e.atEnd = false) ∧ program = .block body :: rest ∧
      readProgram k ⟨g, line, t.nextId, t.errors⟩ = .ok rest s) ∨
    ((∃ e ∈ t.errors, e.atEnd = true) ∧
      (program = [] ∨ ∃ body rest, program = .block body :: rest ∧ bodyWeight rest < tokensWeight g)) := by
  obtain ⟨k, body, s₁, hbody, hs₁⟩ := readProgram_block hs rfl hbefore
  obtain ⟨k', body', t₁, hbody', ht₁⟩ := readProgram_block ht rfl hbefore
  have henclosed : Enclosed after g line ⟨m ++ after :: g, line, first, []⟩ ⟨m ++ [after], line', first, []⟩ :=
    ⟨⟨⟨m, hm, rfl, rfl⟩, rfl, rfl, rfl⟩, List.forall_mem_nil _⟩
  rcases readBody_enclosed hafter k k' (.inl henclosed) hbody' (by rw [hbody]; exact nofun) with
    ⟨hp, herrors, hsame⟩ | ⟨hp, fuel, hmore⟩
  · refine .inl ?_
    rw [hbody] at hsame
    cases hsame
    rcases ht₁ with ⟨l', u', us', rest', hu', rfl, hrest'⟩ | ⟨hend', -⟩
    · rw [hp] at hu'
      obtain ⟨rfl, rfl⟩ := List.cons.inj hu'
      cases l' with
      | zero => cases hrest'
      | succ l' =>
        rw [readProgram_end l' rfl] at hrest'
        cases hrest'
        rcases hs₁ with ⟨l, u, us, rest, hu, rfl, hrest⟩ | ⟨hend, -⟩
        · obtain ⟨rfl, rfl⟩ := List.cons.inj hu
          exact ⟨_, rest, l, rfl, herrors, rfl, hrest⟩
        · cases hend
    · rw [hp] at hend'
      cases hend'
  · refine .inr ⟨?_, ?_⟩
    · rcases ht₁ with ⟨l', u', us', rest', hu', -⟩ | ⟨-, -, herrors⟩
      · rw [hp] at hu'
        cases hu'
      · exact ⟨t₁.unclosed, by rw [herrors]; simp, ReadState.unclosed_atEnd hp⟩
    · rcases hs₁ with ⟨l, u, us, rest, hu, rfl, hrest⟩ | ⟨-, hnone, -⟩
      · rw [hbody] at hmore
        obtain ⟨beyond, hbeyond, -⟩ := map_eq_ok hmore.symm
        refine .inr ⟨body, rest, rfl, ?_⟩
        rcases weight_lt_of_crossed hafter hg rfl hbeyond with hend | hlt
        · rw [hu] at hend
          cases hend
        · have hsuffix := tokensWeight_of_suffix (hu ▸ List.suffix_cons u us)
          exact Nat.lt_of_le_of_lt (Nat.le_trans (readProgram_weight_le hrest) hsuffix) hlt
      · exact .inl hnone

/-- Tokens `m` without braces stand in a block, and tokens `g` behind it that are read without an error when they
stand alone. If the block alone has no error at its end, it is one statement, and behind it the statements of `g`
follow without any further error, as if `g` stood alone. If it has one, the statements of `g` do not follow behind a
block. -/
theorem errors_stay_inside_block (first : NodeId)
    (hm : ∀ t ∈ m, t.kind ∉ [.eof, .mark .leftBrace, .mark .rightBrace]) (hg : ∀ t ∈ g, t.kind ≠ .eof)
    (hbefore : before.kind = .mark .leftBrace) (hafter : after.kind = .mark .rightBrace)
    (hfinal : final.kind = .eof) (hfinal' : final'.kind = .eof) (hparse : (parse (g ++ [final]) 0).errors = []) :
    let own := parse (before :: (m ++ [after]) ++ [final']) first
    let more := parse (g ++ [final]) own.nextId
    let whole := parse (before :: (m ++ after :: g) ++ [final]) first
    ((∀ e ∈ own.errors, e.atEnd = false) → ∃ body, own.statements = [.block body] ∧
        whole = ⟨.block body :: more.statements, own.errors, more.nextId⟩) ∧
      ((∃ body k, whole.statements = .block body :: (parse (g ++ [final]) k).statements) →
        ∀ e ∈ own.errors, e.atEnd = false) := by
  intro own more whole
  have hinside : WithoutEnd m := fun t ht hk => hm t ht (by simp [hk])
  have hbefore' : before.kind ≠ .eof := by rw [hbefore]; exact TokenKind.noConfusion
  have hafter' : after.kind ≠ .eof := by rw [hafter]; exact TokenKind.noConfusion
  have hblock : WithoutEnd (before :: (m ++ [after])) := by simp [hinside, hbefore', hafter']
  have hboth : WithoutEnd (before :: (m ++ after :: g)) := by
    have hg' : WithoutEnd g := hg
    simp [hinside, hbefore', hafter', hg']
  have hread : (parse (g ++ [final]) 0).result = .ok (parse (g ++ [final]) 0).statements := by
    unfold Parsing.result
    rw [hparse]
    rfl
  have hspells := spellsBody_of_parse hread
  rw [wordsOf_append_end hg hfinal] at hspells
  obtain ⟨program, s, hs, hwhole, -⟩ := parse_eq (before :: (m ++ after :: g) ++ [final]) first
  obtain ⟨program', t, ht, hown, -⟩ := parse_eq (before :: (m ++ [after]) ++ [final']) first
  rw [start_eq hboth hfinal] at hs
  rw [start_eq hblock hfinal'] at ht
  have hown' : own = ⟨program', t.errors, t.nextId⟩ := hown
  have hwhole' : whole = ⟨program, s.errors, s.nextId⟩ := hwhole
  rcases readProgram_enclosed hm hbefore hafter hs ht hspells with
    ⟨body, rest, k, rfl, herrors, rfl, hrest⟩ | ⟨⟨e, he, hend⟩, hlost⟩
  · obtain ⟨rfl, hmore, hnext⟩ := readProgram_afresh hg hfinal hrest
    rw [parse_errors, hparse, List.append_nil] at hmore
    have hmore' : more = parse (g ++ [final]) t.nextId := by
      change parse (g ++ [final]) own.nextId = _
      rw [hown']
    refine ⟨fun _ => ⟨body, by rw [hown'], ?_⟩, fun _ => by rw [hown']; exact herrors⟩
    rw [hwhole', hmore', hown', hmore, hnext]
  · have hend' : ¬∀ e ∈ own.errors, e.atEnd = false := by
      rw [hown']
      exact fun hall => absurd hend (by rw [hall e he]; exact Bool.false_ne_true)
    refine ⟨fun hall => absurd hall hend', ?_⟩
    rintro ⟨body, k, hfollow⟩
    rw [hwhole'] at hfollow
    rcases hlost with rfl | ⟨body', rest, rfl, hlt⟩
    · cases hfollow
    · obtain ⟨-, rfl⟩ := List.cons.inj hfollow
      have hweight := (parse_weight (g ++ [final]) k).2 ((parse_errors _ k).trans hparse)
      rw [wordsOf_append_end hg hfinal] at hweight
      exact absurd hlt (Nat.not_lt.2 hweight)

end Programs

/-- The opening brace of a block. -/
def openingBrace : Token := ⟨.mark .leftBrace, "\x7b", 1⟩

/-- The closing brace of a block. -/
def closingBrace : Token := ⟨.mark .rightBrace, "\x7d", 1⟩

/-- The tokens of `x;`. -/
def nameAlone : List Token := [⟨.identifier, "x", 2⟩, ⟨.mark .semicolon, ";", 2⟩]

/-- The tokens of `+;`. -/
def signAlone : List Token := [⟨.mark .plus, "+", 1⟩, ⟨.mark .semicolon, ";", 1⟩]

/-- The error in `+;` stays in its block, and `x;` follows behind it. -/
theorem errors_stay_inside_block_sign :
    (∀ t ∈ signAlone, t.kind ∉ [.eof, .mark .leftBrace, .mark .rightBrace]) ∧
      (parse (nameAlone ++ [endWord]) 0).errors = [] ∧
      parse (openingBrace :: (signAlone ++ closingBrace :: nameAlone) ++ [endWord]) 0 =
        ⟨[.block [], .expression (.reference ⟨0, ⟨"x", 2⟩⟩)], [.grammar 1 (.lexeme "+") .missingExpression], 1⟩ := by
  have hm : ∀ t ∈ signAlone, t.kind ∉ [.eof, .mark .leftBrace, .mark .rightBrace] := by decide
  have h := @errors_stay_inside_block _ nameAlone openingBrace closingBrace endWord endWord 0 hm (by decide) rfl rfl
    rfl rfl rfl
  obtain ⟨body, hbody, hwhole⟩ := h.1 (by decide)
  cases hbody
  exact ⟨hm, rfl, hwhole⟩

/-- The recovery from the error at the closing brace takes the brace and the statement behind it, and the block is
not closed any more. -/
theorem statement_behind_block_lost :
    (parse (nameAlone ++ [endWord]) 0).errors = [] ∧
      (parse (nameAlone ++ [endWord]) 0).statements = [.expression (.reference ⟨0, ⟨"x", 2⟩⟩)] ∧
      parse (openingBrace :: ([⟨.int 1, "1", 1⟩] ++ closingBrace :: nameAlone) ++ [endWord]) 0 =
        ⟨[], [.grammar 1 (.lexeme "\x7d") (.missingMark .semicolon .afterStatement),
          .grammar 0 .endOfText (.missingMark .rightBrace .afterBlock)], 0⟩ := ⟨rfl, rfl, rfl⟩

end LoxLang
