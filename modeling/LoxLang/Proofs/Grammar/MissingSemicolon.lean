import LoxLang.Proofs.Grammar.Balance
import LoxLang.Proofs.Grammar.Completeness
import LoxLang.Proofs.Grammar.Recovery
import LoxLang.Proofs.Isolation.Reading

/-!
# A statement without its semicolon

Behind an expression, a declaration of a variable or a return that lacks its semicolon, the error is found at the
next token, and the recovery skips that token in any case, also where it begins a statement. The reading goes on
at the next place behind it. So one error may be all there is, but the statement behind is always lost.
-/

namespace LoxLang

open Reader

namespace Reader
variable {α β : Type} {first next : NodeId} {ts rest : List Token} {fault : GrammarFault}

/-- On these tokens the step fails in front of the others, unless its fuel ends before. -/
abbrev Fails (step : Reader α) (fault : GrammarFault) (first : NodeId) (ts : List Token) (next : NodeId)
    (rest : List Token) : Prop := step.Reaches (fun _ => fail fault) first ts next rest

theorem fails_fail : (fail fault : Reader α).Fails fault first [] first rest := reaches_loop (fun _ => fail fault) 0

theorem Fails.bind {step : Reader α} {f : α → Reader β} (h : step.Fails fault first ts next rest) :
    (step >>= f).Fails fault first ts next rest := by
  intro endLine errors
  change andThen step f _ = _ ∨ ∃ fuel, andThen step f _ = _
  unfold andThen
  obtain h | ⟨fuel, h⟩ := h endLine errors
  · exact .inl (by rw [h])
  · exact .inr ⟨fuel, by rw [h]; rfl⟩

theorem Takes.bind_fails {step : Reader α} {f : α → Reader β} {a : α} (h : step.Takes first ts a next rest)
    (hf : (f a).Fails fault next [] next rest) : (step >>= f).Fails fault first ts next rest := by
  have hboth := Takes.bind (u := []) h hf
  rwa [List.append_nil] at hboth

theorem fails_expectMark {mark : Mark} {context : MarkContext} {f : Token → Reader β}
    (h : Absent (.mark mark) rest) :
    (expectMark mark context >>= f).Fails (.missingMark mark context) first [] first rest := by
  rw [expectMark, bind_assoc]
  exact takes_accept_none h fails_fail.bind

/-- A failed declaration is noted, and the reading goes on behind it. -/
theorem Fails.attempt {step : Reader α} (h : step.Fails fault first ts next rest) (endLine : Nat)
    (errors : List StaticError) :
    attempt step ⟨ts ++ rest, endLine, first, errors⟩ = .outOfFuel ∨
      attempt step ⟨ts ++ rest, endLine, first, errors⟩ =
        .ok none ⟨recover rest, endLine, next,
          errors ++ [ReadState.errorHere ⟨rest, endLine, next, errors⟩ fault]⟩ := by
  unfold Reader.attempt
  obtain h | ⟨_, h⟩ := h endLine errors
  · exact .inl (by rw [h])
  · exact .inr (by rw [h]; rfl)

end Reader

/-! ## In front of a word -/

/-- Whether tokens begin with a word that begins a statement. -/
abbrev BeginsWithWord (ts : List Token) : Prop := BeginsWith TokenKind.startsStatement ts

section Words
variable {first next : NodeId} {ts rest : List Token}

theorem stops_of_word (h : BeginsWithWord rest) : Stops .assignment rest := by
  obtain ⟨t, us, rfl, ht⟩ := h
  rw [stops_cons]
  unfold TokenKind.startsStatement at ht
  split at ht <;> first | (cases ht; done) | (next hk => rw [hk]; rfl)

theorem refused_of_word {α : Type} {choose : TokenKind → Option α} (h : BeginsWithWord rest)
    (hc : ∀ k : Keyword, (TokenKind.keyword k).startsStatement = true → choose (.keyword k) = none) :
    Refused choose rest := by
  refine h.refused fun kind hk => ?_
  cases kind with
  | keyword k => exact hc k hk
  | _ => cases hk

theorem readPrimary_fails (h : BeginsWithWord rest) (n : Nat) :
    (readPrimary n).Fails .missingExpression first [] first rest := by
  cases n with
  | zero => exact reaches_exhausted _
  | succ n =>
    rw [readPrimary]
    refine takes_takeIf_none (refused_of_word h fun k hk => by cases k <;> first | rfl | cases hk) ?_
    refine takes_accept_none (h.absent rfl) (takes_accept_none (h.absent rfl) ?_)
    refine takes_accept_none (h.absent rfl) (takes_accept_none (h.absent rfl) ?_)
    exact takes_accept_none (h.absent rfl) fails_fail

theorem readUnary_fails (h : BeginsWithWord rest) (n : Nat) :
    (readUnary n).Fails .missingExpression first [] first rest := by
  cases n with
  | zero => exact reaches_exhausted _
  | succ n =>
    rw [readUnary]
    refine takes_takeIf_none (refused_of_word h fun k _ => by cases k <;> rfl) ?_
    cases n with
    | zero => exact reaches_exhausted _
    | succ n =>
      rw [readPower]
      refine Fails.bind ?_
      cases n with
      | zero => exact reaches_exhausted _
      | succ n =>
        rw [readCall]
        exact (readPrimary_fails h n).bind

theorem readLevel_fails (h : BeginsWithWord rest) (n : Nat) (o : Option Level) :
    (readLevel n o).Fails .missingExpression first [] first rest := by
  induction n generalizing o with
  | zero =>
    cases o <;> exact reaches_exhausted _
  | succ n ih =>
    cases o with
    | none =>
      rw [readLevel]
      exact readUnary_fails h n
    | some l =>
      rw [readLevel]
      exact (ih l.tighter?).bind

/-- No expression begins with such a word. -/
theorem readExpr_fails (h : BeginsWithWord rest) (n : Nat) :
    (readExpr n).Fails .missingExpression first [] first rest := by
  cases n with
  | zero => exact reaches_exhausted _
  | succ n =>
    rw [readExpr]
    exact (readLevel_fails h n _).bind

/-! ## Statements without an end -/

/-- What is found wrong behind a statement of one of the forms that end in a semicolon, if the semicolon is
missing and a word stands there. -/
def Stmt.unended? : Stmt → Option GrammarFault
  | .expression _ => some (.missingMark .semicolon .afterStatement)
  | .declare _ _ => some (.missingMark .semicolon .afterDeclaration)
  | .giveBack _ (some _) => some (.missingMark .semicolon .afterReturnValue)
  | .giveBack _ none => some .missingExpression
  | _ => none

variable {semicolon : Token} {s : Stmt} {fault : GrammarFault}

theorem SpellsVariable.fails (h : SpellsVariable first (ts ++ [semicolon]) s next) (hs : s.unended? = some fault)
    (hw : BeginsWithWord rest) (n : Nat) : (readVariable n).Fails fault first ts next rest := by
  generalize hts : ts ++ [semicolon] = us at h
  cases h with
  | @bare name semicolon' hn _ =>
    obtain ⟨rfl, -⟩ := List.append_inj' (show ts ++ [semicolon] = [name] ++ [semicolon'] from hts) rfl
    cases hs
    refine takes_expectName hn ?_
    exact (takes_behind_none (hw.absent rfl)).bind_fails (fails_expectMark (hw.absent rfl))
  | @initialized _ name equal semicolon' vs e hn he h _ =>
    have hfront : ts ++ [semicolon] = name :: equal :: vs ++ [semicolon'] := hts
    obtain ⟨rfl, -⟩ := List.append_inj' hfront rfl
    cases hs
    refine takes_expectName hn ?_
    exact ((h.reads n _ (stops_of_word hw)).behind he).bind_fails (fails_expectMark (hw.absent rfl))

theorem SpellsOptional.fails {value : Option Expr} (h : SpellsOptional first ts value next) {keyword : Name}
    (hs : (Stmt.giveBack keyword value).unended? = Option.some fault) (hw : BeginsWithWord rest) (n : Nat) :
    (readReturn n keyword).Fails fault first ts next rest := by
  cases h with
  | none =>
    cases hs
    have hvalue : (unlessAt .semicolon (readExpr n)).Fails .missingExpression first [] first rest :=
      takes_at?_false (hw.absent rfl) ((readExpr_fails hw n).bind (f := fun e => pure (Option.some e)))
    exact hvalue.bind
  | some h =>
    cases hs
    have hvalue : (unlessAt .semicolon (readExpr n)).Takes first ts (Option.some _) next rest :=
      (h.reads n _ (stops_of_word hw)).unlessAt (h.begins_expr.append.absent rfl)
    exact hvalue.bind_fails (fails_expectMark (hw.absent rfl))

theorem SpellsExpr.fails {e : Expr} (h : SpellsExpr .assignment first ts e next)
    (hs : (Stmt.expression e).unended? = some fault) (hw : BeginsWithWord rest) (n : Nat) :
    (readExpressionStatement n).Fails fault first ts next rest := by
  cases hs
  exact (h.reads n _ (stops_of_word hw)).bind_fails (fails_expectMark (hw.absent rfl))

/-- A statement that ends in a semicolon is an expression or a return. -/
theorem SpellsStmt.unended {isOpen : Bool} (h : SpellsStmt isOpen first (ts ++ [semicolon]) s next)
    (hs : s.unended? = some fault) :
    (∃ e, s = .expression e ∧ SpellsExpr .assignment first ts e next) ∨
      ∃ keyword us value, ts = keyword :: us ∧ keyword.kind = .keyword .returnWord ∧
        s = .giveBack keyword.toName value ∧ SpellsOptional first us value next := by
  generalize hts : ts ++ [semicolon] = us at h
  cases h with
  | plain h =>
    obtain ⟨h, -⟩ := h
    obtain ⟨rfl, -⟩ := List.append_inj' hts rfl
    exact .inl ⟨_, rfl, h⟩
  | @giveBack _ _ keyword semicolon' us value hk h _ =>
    have hfront : ts ++ [semicolon] = keyword :: us ++ [semicolon'] := hts
    obtain ⟨rfl, -⟩ := List.append_inj' hfront rfl
    exact .inr ⟨keyword, us, value, rfl, hk, rfl, h⟩
  | block _ _ _ => cases hs
  | loop _ _ _ _ _ => cases hs
  | forLoop _ _ _ =>
    unfold ForClauses.loop at hs
    split at hs <;> cases hs
  | branch _ _ _ _ _ => cases hs
  | branchElse _ _ _ _ _ _ _ => cases hs

theorem SpellsStmt.fails {isOpen : Bool} (h : SpellsStmt isOpen first (ts ++ [semicolon]) s next)
    (hs : s.unended? = some fault) (hw : BeginsWithWord rest) (n : Nat) :
    BeginsWith TokenKind.beginsStatement ts ∧ (readStatement n).Fails fault first ts next rest := by
  rcases h.unended hs with ⟨e, rfl, he⟩ | ⟨keyword, us, value, rfl, hk, rfl, hvalue⟩
  · have hbegins := he.begins_expr
    refine ⟨hbegins.mono fun _ => TokenKind.beginsStatement_of_startsExpr, ?_⟩
    cases n with
    | zero => exact reaches_exhausted _
    | succ n =>
      rw [readStatement]
      refine takes_accept_none (hbegins.append.absent rfl) (takes_accept_none (hbegins.append.absent rfl) ?_)
      refine takes_accept_none (hbegins.append.absent rfl) (takes_accept_none (hbegins.append.absent rfl) ?_)
      exact takes_accept_none (hbegins.append.absent rfl) (he.fails hs hw n)
  · refine ⟨.cons (by rw [hk]; rfl), ?_⟩
    cases n with
    | zero => exact reaches_exhausted _
    | succ n =>
      rw [readStatement]
      refine takes_accept_none (by simp [hk]) (takes_accept_none (by simp [hk]) ?_)
      exact takes_accept_none (by simp [hk]) (takes_accept_some hk (hvalue.fails hs hw n))

/-- The declaration fails in front of the word. -/
theorem SpellsDeclaration.fails {isOpen : Bool} (h : SpellsDeclaration isOpen first (ts ++ [semicolon]) s next)
    (hs : s.unended? = some fault) (hw : BeginsWithWord rest) (n endLine : Nat) (errors : List StaticError) :
    readDeclaration n ⟨ts ++ rest, endLine, first, errors⟩ = .outOfFuel ∨
      readDeclaration n ⟨ts ++ rest, endLine, first, errors⟩ =
        .ok none ⟨recover rest, endLine, next,
          errors ++ [ReadState.errorHere ⟨rest, endLine, next, errors⟩ fault]⟩ := by
  cases n with
  | zero => exact .inl rfl
  | succ n =>
    rw [readDeclaration]
    refine Fails.attempt ?_ endLine errors
    generalize hts : ts ++ [semicolon] = us at h
    cases h with
    | @declare _ _ keyword us _ hk h =>
      cases ts with
      | nil =>
        obtain ⟨-, rfl⟩ := List.cons.inj hts
        cases h
      | cons t ts =>
        obtain ⟨rfl, rfl⟩ := List.cons.inj hts
        refine takes_accept_none (by simp [hk]) (takes_accept_none (by simp [hk]) ?_)
        exact takes_accept_some hk (h.fails hs hw n)
    | function _ _ => cases hs
    | base _ _ _ _ _ => cases hs
    | derived _ _ _ _ _ _ _ => cases hs
    | statement h =>
      obtain ⟨hbegins, hfails⟩ := SpellsStmt.fails (hts ▸ h) hs hw n
      have hbegins' : BeginsWith TokenKind.beginsStatement (ts ++ rest) := hbegins.append
      refine takes_accept_none (hbegins'.absent rfl) (takes_accept_none (hbegins'.absent rfl) ?_)
      exact takes_accept_none (hbegins'.absent rfl) hfails

end Words

/-! ## Programs -/

theorem SpellsBody.single {first next : NodeId} {ts : List Token} {s : Stmt} (h : SpellsBody first ts [s] next) :
    ∃ isOpen, SpellsDeclaration isOpen first ts s next := by
  cases h with
  | @cons isOpen _ _ _ ts _ _ _ h hs =>
    cases hs
    rw [List.append_nil]
    exact ⟨isOpen, h⟩

section Programs
variable {front rest : List Token} {word final : Token}

/-- Where a declaration fails in front of tokens that stand alone otherwise, the recovery takes what it takes, and
the rest is read as if it stood alone. -/
theorem parse_behind_failure {semicolon : Token} {isOpen : Bool} {first next : NodeId} {s : Stmt}
    {fault : GrammarFault} (h : SpellsDeclaration isOpen first (front ++ [semicolon]) s next)
    (hs : s.unended? = some fault) (hfront : WithoutEnd front) (hword : word.kind.startsStatement = true)
    (hrest : WithoutEnd (word :: rest)) (hfinal : final.kind = .eof) :
    let more := parse (recover (word :: rest) ++ [final]) next
    parse (front ++ word :: rest ++ [final]) first =
      ⟨more.statements, .grammar word.line word.place fault :: more.errors, more.nextId⟩ := by
  have hleft : WithoutEnd (recover (word :: rest)) :=
    fun t ht => hrest t (List.mem_of_mem_tail ((recover_suffix _).subset ht))
  obtain ⟨program, s', hread, hparse, -⟩ := parse_eq (front ++ word :: rest ++ [final]) first
  rw [start_eq (List.forall_mem_append.2 ⟨hfront, hrest⟩) hfinal] at hread
  generalize enoughFuel _ = fuel at hread
  cases fuel with
  | zero => cases hread
  | succ n =>
    rw [readProgram_next n (List.append_ne_nil_of_right_ne_nil _ (List.cons_ne_nil _ _))] at hread
    unfold andThen at hread
    rcases h.fails hs (.cons hword) n final.line [] with hout | hnone
    · rw [hout] at hread
      cases hread
    · rw [hnone] at hread
      obtain ⟨others, hmore, rfl⟩ := map_eq_ok hread
      obtain ⟨rfl, herrors, hnext⟩ := readProgram_afresh hleft hfinal hmore
      intro more
      rw [hparse, herrors, hnext]
      rfl

/-- What is left of a program behind its first word does not hold all of its statements. -/
theorem statements_lost (hword : word.kind.startsStatement = true) (hrest : WithoutEnd (word :: rest))
    (hfinal : final.kind = .eof) (h : (parse (word :: rest ++ [final]) 0).errors = []) (k next : NodeId) :
    ¬(parse (word :: rest ++ [final]) k).statements.Sublist
      (parse (recover (word :: rest) ++ [final]) next).statements := by
  intro hsub
  have hleft : WithoutEnd (recover (word :: rest)) :=
    fun t ht => hrest t (List.mem_of_mem_tail ((recover_suffix _).subset ht))
  have hstops : word.kind ≠ .mark .semicolon := fun hk => by rw [hk] at hword; cases hword
  have hall := (parse_weight (word :: rest ++ [final]) k).2 ((parse_errors _ k).trans h)
  rw [wordsOf_append_end hrest hfinal, tokensWeight_cons rest hstops,
    TokenKind.weight_of_startsStatement hword] at hall
  have hmore := (parse_weight (recover (word :: rest) ++ [final]) next).1
  rw [wordsOf_append_end hleft hfinal] at hmore
  have hskipped := tokensWeight_of_suffix (recover_suffix (word :: rest))
  rw [List.tail_cons] at hskipped
  have hle := bodyWeight_of_sublist hsub
  omega

end Programs

/-- A statement `front` and a semicolon are read alone as an expression, a declaration of a variable or a return.
Without the semicolon, in front of tokens that begin with a word, one error is noted at this word, the word is
skipped, and what the recovery leaves is read as if it stood alone. The statements behind the missing semicolon are
never all returned, even though they are read without an error when they stand alone. -/
theorem missing_semicolon_loses_statement {front rest : List Token} {semicolon word final final' : Token}
    {s : Stmt} {fault : GrammarFault} (first : NodeId) (hfront : ∀ t ∈ front, t.kind ≠ .eof)
    (hsemicolon : semicolon.kind = .mark .semicolon) (hword : word.kind.startsStatement = true)
    (hrest : ∀ t ∈ rest, t.kind ≠ .eof) (hfinal : final.kind = .eof) (hfinal' : final'.kind = .eof)
    (hs : s.unended? = some fault) (hown : (parse (front ++ [semicolon] ++ [final']) first).result = .ok [s])
    (hg : (parse (word :: rest ++ [final]) 0).errors = []) :
    let own := parse (front ++ [semicolon] ++ [final']) first
    let more := parse (recover (word :: rest) ++ [final]) own.nextId
    let whole := parse (front ++ word :: rest ++ [final]) first
    whole = ⟨more.statements, .grammar word.line word.place fault :: more.errors, more.nextId⟩ ∧
      ∀ k, ¬(parse (word :: rest ++ [final]) k).statements.Sublist whole.statements := by
  intro own more whole
  have hword' : word.kind ≠ .eof := fun hk => by rw [hk] at hword; cases hword
  have hrest' : WithoutEnd (word :: rest) := List.forall_mem_cons.2 ⟨hword', hrest⟩
  have hstatement : WithoutEnd (front ++ [semicolon]) := by
    refine List.forall_mem_append.2 ⟨hfront, fun t ht => ?_⟩
    rw [List.mem_singleton.1 ht, hsemicolon]
    decide
  have hspells := spellsBody_of_parse hown
  rw [wordsOf_append_end hstatement hfinal'] at hspells
  obtain ⟨isOpen, hdeclaration⟩ := hspells.single
  have hwhole := parse_behind_failure hdeclaration hs hfront hword hrest' hfinal
  refine ⟨hwhole, fun k hsub => statements_lost hword hrest' hfinal hg k own.nextId ?_⟩
  rwa [show whole = _ from hwhole] at hsub

/-- The tokens of `1`, a statement without its semicolon. -/
def unendedOne : List Token := [⟨.int 1, "1", 1⟩]

/-- The tokens of `var b = 2;`. -/
def declarationOfB : List Token :=
  [⟨.keyword .varWord, "var", 1⟩, ⟨.identifier, "b", 1⟩, ⟨.mark .equal, "=", 1⟩, ⟨.int 2, "2", 1⟩,
    ⟨.mark .semicolon, ";", 1⟩]

/-- Behind `1` without its semicolon, `var b = 2;` is skipped up to its end. -/
theorem missing_semicolon_loses_statement_declaration :
    (parse (unendedOne ++ [⟨.mark .semicolon, ";", 1⟩] ++ [endWord]) 0).result = .ok [.expression (.literal (.int 1))] ∧
      (parse (declarationOfB ++ [endWord]) 0).errors = [] ∧
      parse (unendedOne ++ declarationOfB ++ [endWord]) 0 =
        ⟨[], [.grammar 1 (.lexeme "var") (.missingMark .semicolon .afterStatement)], 0⟩ ∧
      ∀ k, ¬(parse (declarationOfB ++ [endWord]) k).statements.Sublist
        (parse (unendedOne ++ declarationOfB ++ [endWord]) 0).statements := by
  have h := @missing_semicolon_loses_statement unendedOne declarationOfB.tail ⟨.mark .semicolon, ";", 1⟩
    ⟨.keyword .varWord, "var", 1⟩ endWord endWord (.expression (.literal (.int 1))) _ 0 (by decide) rfl rfl
    (by decide) rfl rfl rfl rfl rfl
  exact ⟨rfl, rfl, h.1, h.2⟩

/-- A missing semicolon costs the declaration behind it, which is read without an error when it stands alone. -/
theorem declaration_behind_missing_semicolon_lost :
    (parse (unendedOne ++ [⟨.mark .semicolon, ";", 1⟩] ++ [endWord]) 0).errors = [] ∧
      (parse (declarationOfB ++ [endWord]) 0).errors = [] ∧
      (parse (declarationOfB ++ [endWord]) 0).statements = [.declare ⟨"b", 1⟩ (some (.literal (.int 2)))] ∧
      (parse (unendedOne ++ declarationOfB ++ [endWord]) 0).statements = [] := ⟨rfl, rfl, rfl, rfl⟩

end LoxLang
