import LoxLang.Proofs.Grammar.Completeness
import LoxLang.Proofs.Grammar.Recovery
import LoxLang.Proofs.Unparse.RoundTrip

/-!
# Soft limits

A function with too many parameters and a call with too many arguments are read whole, and what stands behind them
is read as if it stood alone. The two limits are not noted alike: of the arguments it is the one that reaches the
limit, and so one error for each call, while every parameter from there on is noted anew.
-/

namespace LoxLang

open Reader

/-! ## Declarations and programs -/

section Programs
variable {first next : NodeId} {ts more : List Token} {final : Token} {noted : List StaticError}

/-- A declaration that notes errors leaves no other trace: what stands behind it is read as if it stood alone. -/
theorem NotesDeclaration.parse_eq {isOpen : Bool} {s : Stmt} (h : NotesDeclaration isOpen first ts s noted next)
    (hts : WithoutEnd ts) (hmore : WithoutEnd more) (ho : Closes isOpen more) (hfinal : final.kind = .eof) :
    let rest := parse (more ++ [final]) next
    parse (ts ++ more ++ [final]) first = ⟨s :: rest.statements, noted ++ rest.errors, rest.nextId⟩ := by
  obtain ⟨program, after, hread, hparse, -⟩ := LoxLang.parse_eq (ts ++ more ++ [final]) first
  rw [start_eq (List.forall_mem_append.2 ⟨hts, hmore⟩) hfinal] at hread
  generalize enoughFuel _ = fuel at hread
  cases fuel with
  | zero => cases hread
  | succ n =>
    rw [readProgram_next n h.begins.append.ne_nil] at hread
    obtain hout | ⟨_, hdone⟩ := h.reads n more ho final.line []
    · have hall := (bind_outOfFuel hout _).symm.trans hread
      cases hall
    · have hall := (bind_ok hdone _).symm.trans hread
      obtain ⟨others, hothers, rfl⟩ := map_eq_ok hall
      obtain ⟨rfl, herrors, hnext⟩ := readProgram_afresh hmore hfinal hothers
      intro rest
      rw [hparse, herrors, hnext]
      rfl

/-- So does a whole program. -/
theorem NotesBody.parse_eq {program : List Stmt} (h : NotesBody first ts program noted next)
    (hts : WithoutEnd ts) (hmore : WithoutEnd more) (helse : Absent (.keyword .elseWord) more)
    (hfinal : final.kind = .eof) :
    let rest := parse (more ++ [final]) next
    parse (ts ++ more ++ [final]) first =
      ⟨program ++ rest.statements, noted ++ rest.errors, rest.nextId⟩ := by
  induction program generalizing first ts noted with
  | nil =>
    cases h
    rfl
  | cons s program ih =>
    cases h with
    | @cons isOpen _ middle _ ts us _ _ noted noted' h hs =>
      obtain ⟨hown, hlater⟩ := withoutEnd_append.1 hts
      have hdeclaration := h.parse_eq hown (withoutEnd_append.2 ⟨hlater, hmore⟩)
        (fun _ => hs.absent_else helse) hfinal
      rw [List.append_assoc ts, hdeclaration, ih hs hlater]
      simp

end Programs

/-! ## Parameters and arguments -/

/-- The tokens spell a function that is well formed, whatever the number of its parameters. -/
inductive SpellsLongFunction : NodeId → List Token → FunctionDecl → NodeId → Prop
  | intro {first next : NodeId} {name before after opening closing : Token} {ts us : List Token}
      {params : List Name} {body : List Stmt} :
      name.kind = .identifier → before.kind = .mark .leftParen → SpellsNames ts params →
      after.kind = .mark .rightParen → opening.kind = .mark .leftBrace →
      SpellsBody first us body next → closing.kind = .mark .rightBrace →
      SpellsLongFunction first (name :: before :: (ts ++ after :: opening :: (us ++ [closing])))
        ⟨name.toName, params, body⟩ next

/-- The tokens spell a call in parentheses that is well formed but for its arguments, which exceed the limit. The
first one that does begins with the token. -/
inductive SpellsLongCall : NodeId → List Token → Expr → Token → NodeId → Prop
  | intro {first second third next : NodeId} {before comma t after : Token} {ts us vs : List Token}
      {callee : Expr} {es es' : List Expr} :
      SpellsExpr .call first ts callee second → before.kind = .mark .leftParen →
      SpellsItems second us es third → es.length = argumentLimit → comma.kind = .mark .comma →
      SpellsItems third (t :: vs) es' next → after.kind = .mark .rightParen →
      SpellsLongCall first (ts ++ before :: (us ++ comma :: t :: vs ++ [after]))
        (.call callee .parens after.line (es ++ es')) t next

section Lists
variable {first middle next : NodeId} {ts us : List Token} {es : List Expr}

/-- Expressions with commas between them, cut in two. -/
theorem SpellsItems.split (h : SpellsItems first ts es next) {k : Nat} (hk : 0 < k) (hlt : k < es.length) :
    ∃ front comma back middle, ts = front ++ comma :: back ∧ comma.kind = .mark .comma ∧
      SpellsItems first front (es.take k) middle ∧ SpellsItems middle back (es.drop k) next := by
  induction es generalizing first ts k with
  | nil => simp at hlt
  | cons e es ih =>
    cases h with
    | last h =>
      rw [List.length_singleton] at hlt
      omega
    | @more _ middle _ comma ts us _ _ h hm hr =>
      obtain ⟨k, rfl⟩ := Nat.exists_eq_add_of_le' hk
      cases k with
      | zero => exact ⟨ts, comma, us, middle, rfl, hm, .last h, hr⟩
      | succ k =>
        obtain ⟨front, comma', back, between, rfl, hm', hfront, hback⟩ :=
          ih hr (Nat.succ_pos k) (by simpa using hlt)
        exact ⟨ts ++ comma :: front, comma', back, between, by simp, hm', .more h hm hfront, hback⟩

/-- Every call in parentheses with more arguments than the limit has one that is the first to exceed it. -/
theorem SpellsItems.longCall {before after : Token} {callee : Expr} (h : SpellsExpr .call first ts callee middle)
    (hb : before.kind = .mark .leftParen) (hs : SpellsItems middle us es next) (hlt : argumentLimit < es.length)
    (ha : after.kind = .mark .rightParen) :
    ∃ t, SpellsLongCall first (ts ++ before :: (us ++ [after])) (.call callee .parens after.line es) t next := by
  obtain ⟨front, comma, back, third, rfl, hm, hfront, hback⟩ := hs.split (by decide) hlt
  obtain ⟨t, back, rfl, -⟩ := hback.begins
  have hlength : (es.take argumentLimit).length = argumentLimit := List.length_take_of_le (Nat.le_of_lt hlt)
  have hcall := SpellsLongCall.intro h hb hfront hlength hm hback ha
  rw [List.take_append_drop] at hcall
  exact ⟨t, hcall⟩

/-- A call stands for a whole expression. -/
theorem NotesExpr.whole {e : Expr} {noted : List StaticError} (h : NotesExpr .call first ts e noted next) :
    NotesExpr .assignment first ts e noted next := by
  have hunary : NotesExpr .unary first ts e noted next := .ofPower (.ofCall h)
  have hsum : NotesExpr (.level .additive) first ts e noted next := .ofOperand (.ofOperand hunary)
  have hbits : NotesExpr (.level .bitOr) first ts e noted next := .ofOperand (.ofOperand (.ofOperand (.ofOperand hsum)))
  exact .ofLevel (.ofOperand (.ofOperand (.ofOperand (.ofOperand hbits))))

/-- Expressions that stay below the limit are followed by others, which note errors. -/
theorem SpellsItems.notes_behind {limit : Option Nat} {count : Nat} {comma : Token} {es' : List Expr}
    {noted : List StaticError} (h : SpellsItems first ts es middle) (hl : Clears limit count es.length)
    (hm : comma.kind = .mark .comma) (hback : NotesItems limit (count + es.length) middle us es' noted next) :
    NotesItems limit count first (ts ++ comma :: us) (es ++ es') noted next := by
  induction es generalizing first ts count with
  | nil => cases h
  | cons e es ih =>
    rw [List.length_cons] at hl hback
    cases h with
    | last h =>
      have hitems : NotesItems limit count _ _ _ _ _ := .more h.notes hm hback
      rwa [hl.notedAt] at hitems
    | @more _ between _ comma' ts us' _ _ h hm' hr =>
      rw [Nat.add_comm es.length, ← Nat.add_assoc] at hback
      have hitems : NotesItems limit count _ _ _ _ _ := .more h.notes hm' (ih hr hl.next hback)
      rw [hl.notedAt] at hitems
      simpa using hitems

/-- Expressions of which the first one reaches the limit. -/
theorem SpellsItems.notes_at (h : SpellsItems first ts es next) (count : Nat) :
    NotesItems (some count) count first ts es (notedAt true (.tooManyArguments count) ts) next := by
  have hreached : (some count == some count) = true := by simp
  have hpast : ∀ items, Clears (some count) (count + 1) items := fun items l hl => by
    cases hl
    exact .inl (Nat.lt_succ_self count)
  cases h with
  | last h =>
    have hitem : NotesItems (some count) count _ _ _ _ _ := .last h.notes
    rwa [hreached, List.append_nil] at hitem
  | @more _ _ _ comma ts us _ _ h hm hr =>
    have hitems : NotesItems (some count) count _ _ _ _ _ := .more h.notes hm (hr.notes (hpast _))
    obtain ⟨t, ts, rfl, -⟩ := h.begins
    rw [hreached, List.append_nil, List.append_nil] at hitems
    exact hitems

/-- Each parameter beyond the limit is noted. -/
theorem SpellsLongFunction.notes {f : FunctionDecl} (h : SpellsLongFunction first ts f next) :
    NotesFunction first ts f ((f.params.drop argumentLimit).map parameterBeyondLimit) next := by
  obtain ⟨hn, hb, hp, ha, ho, h, hc⟩ := h
  have hnotes := NotesFunction.intro hn hb (.names hp) ha ho h.notes hc
  rwa [List.append_nil] at hnotes

/-- Only the first argument beyond the limit is noted. -/
theorem SpellsLongCall.notes {e : Expr} {t : Token} (h : SpellsLongCall first ts e t next) :
    NotesExpr .call first ts e [.grammar t.line t.place (.tooManyArguments argumentLimit)] next := by
  obtain ⟨h, hb, hs, hlength, hm, hr, ha⟩ := h
  refine NotesExpr.call h.notes hb (.items (hs.notes_behind ?_ hm ?_)) ha
  · intro l hl
    cases hl
    simp [hlength, CallStyle.limit]
  · rw [hlength, Nat.zero_add]
    exact hr.notes_at argumentLimit

end Lists

/-! ## Two more than the limit -/

/-- The token, and again so many times behind a comma. -/
def repeated (t : Token) : Nat → List Token
  | 0 => [t]
  | n + 1 => t :: ⟨.mark .comma, ",", 1⟩ :: repeated t n

/-- The tokens of `f(p, p, …) {}` with two parameters more than the limit. -/
def functionBeyondLimit : List Token :=
  ⟨.identifier, "f", 1⟩ :: ⟨.mark .leftParen, "(", 1⟩ :: (repeated ⟨.identifier, "p", 1⟩ (argumentLimit + 1) ++
    ⟨.mark .rightParen, ")", 1⟩ :: ⟨.mark .leftBrace, "\x7b", 1⟩ :: ([] ++ [⟨.mark .rightBrace, "\x7d", 1⟩]))

/-- The tokens of `f(1, 1, …)` with two arguments more than the limit. -/
def callBeyondLimit : List Token :=
  [⟨.identifier, "f", 1⟩] ++ ⟨.mark .leftParen, "(", 1⟩ ::
    (repeated ⟨.int 1, "1", 1⟩ (argumentLimit - 1) ++ ⟨.mark .comma, ",", 1⟩ ::
      repeated ⟨.int 1, "1", 1⟩ 1 ++ [⟨.mark .rightParen, ")", 1⟩])

/-- The tokens of `x;`. -/
def statementOfX : List Token := [⟨.identifier, "x", 1⟩, ⟨.mark .semicolon, ";", 1⟩]

theorem withoutEnd_repeated {t : Token} (ht : t.kind ≠ .eof) (n : Nat) : WithoutEnd (repeated t n) := by
  induction n with
  | zero => simpa [repeated] using ht
  | succ n ih => simpa [repeated, ht] using ih

theorem spellsNames_repeated {t : Token} (ht : t.kind = .identifier) (n : Nat) :
    SpellsNames (repeated t n) (List.replicate (n + 1) t.toName) := by
  induction n with
  | zero => exact .last ht
  | succ n ih => exact .more ht rfl ih

theorem spellsItems_repeated {t : Token} {e : Expr} {first : NodeId} (h : SpellsExpr .assignment first [t] e first)
    (n : Nat) : SpellsItems first (repeated t n) (List.replicate (n + 1) e) first := by
  induction n with
  | zero => exact .last h
  | succ n ih => exact .more h rfl ih

theorem spellsLongFunction_beyondLimit : SpellsLongFunction 0 functionBeyondLimit
    ⟨⟨"f", 1⟩, List.replicate (argumentLimit + 2) ⟨"p", 1⟩, []⟩ 0 :=
  .intro rfl rfl (spellsNames_repeated rfl _) rfl rfl .nil rfl

theorem spellsLongCall_beyondLimit : SpellsLongCall 0 callBeyondLimit (.call (.reference ⟨0, ⟨"f", 1⟩⟩) .parens 1
    (List.replicate argumentLimit (.literal (.int 1)) ++ List.replicate 2 (.literal (.int 1))))
    ⟨.int 1, "1", 1⟩ 1 := by
  have hitem : SpellsExpr .assignment 1 [⟨.int 1, "1", 1⟩] (.literal (.int 1)) 1 :=
    SpellsExpr.lift_assignment (q := .primary) (.literal rfl)
  exact .intro (.ofPrimary (.reference rfl)) rfl (spellsItems_repeated hitem _) (by simp) rfl
    (spellsItems_repeated hitem 1) rfl

theorem withoutEnd_functionBeyondLimit : WithoutEnd functionBeyondLimit := by
  have hparams := withoutEnd_repeated (t := ⟨.identifier, "p", 1⟩) (by decide) (argumentLimit + 1)
  simpa [functionBeyondLimit] using hparams

theorem withoutEnd_callBeyondLimit : WithoutEnd callBeyondLimit := by
  have hfront := withoutEnd_repeated (t := ⟨.int 1, "1", 1⟩) (by decide) (argumentLimit - 1)
  have hback := withoutEnd_repeated (t := ⟨.int 1, "1", 1⟩) (by decide) 1
  simpa [callBeyondLimit] using And.intro hfront hback

/-- Exceeding the limits on parameters and on arguments. A declaration that is well formed but for them is read whole,
the errors are those that its phrases note, and what stands behind it is read as if it stood alone. A function or a
method notes one error at each parameter beyond the limit, so exactly one if there is one such parameter. A call in
parentheses notes one error only, at the first argument beyond the limit. -/
theorem limits_noted_at_parameters_and_calls {first next : NodeId} {ts : List Token} :
    (∀ {isOpen : Bool} {more : List Token} {final : Token} {s : Stmt} {noted : List StaticError},
      NotesDeclaration isOpen first ts s noted next → (∀ t ∈ ts, t.kind ≠ .eof) →
      (∀ t ∈ more, t.kind ≠ .eof) → (isOpen = true → Absent (.keyword .elseWord) more) → final.kind = .eof →
      let rest := parse (more ++ [final]) next
      parse (ts ++ more ++ [final]) first = ⟨s :: rest.statements, noted ++ rest.errors, rest.nextId⟩) ∧
    (∀ {f : FunctionDecl}, SpellsLongFunction first ts f next →
      let noted := (f.params.drop argumentLimit).map parameterBeyondLimit
      NotesFunction first ts f noted next ∧ (noted.length = 1 ↔ f.params.length = argumentLimit + 1)) ∧
    (∀ {e : Expr} {t : Token}, SpellsLongCall first ts e t next →
      NotesExpr .call first ts e [.grammar t.line t.place (.tooManyArguments argumentLimit)] next) ∧
    ∀ {middle : NodeId} {before after : Token} {us : List Token} {callee : Expr} {es : List Expr},
      SpellsExpr .call first ts callee middle → before.kind = .mark .leftParen →
      SpellsItems middle us es next → argumentLimit < es.length → after.kind = .mark .rightParen →
      ∃ t, SpellsLongCall first (ts ++ before :: (us ++ [after])) (.call callee .parens after.line es) t next := by
  refine ⟨fun h hts hmore ho hfinal => h.parse_eq hts hmore ho hfinal, fun {f} h => ⟨h.notes, ?_⟩,
    fun h => h.notes, fun h hb hs hlt ha => hs.longCall h hb hlt ha⟩
  rw [List.length_map, List.length_drop]
  omega

/-- Behind two parameters and two arguments too many, which are noted differently, the rest is read. -/
theorem limits_noted_at_parameters_and_calls_two :
    parse (⟨.keyword .funWord, "fun", 1⟩ :: functionBeyondLimit ++ statementOfX ++ [endWord]) 0 =
      ⟨[.function ⟨⟨"f", 1⟩, List.replicate (argumentLimit + 2) ⟨"p", 1⟩, []⟩, .expression (.reference ⟨0, ⟨"x", 1⟩⟩)],
        [parameterBeyondLimit ⟨"p", 1⟩, parameterBeyondLimit ⟨"p", 1⟩], 1⟩ ∧
    (parse (callBeyondLimit ++ [⟨.mark .semicolon, ";", 1⟩] ++ statementOfX ++ [endWord]) 0).errors =
      [.grammar 1 (.lexeme "1") (.tooManyArguments argumentLimit)] := by
  obtain ⟨hfunction, -⟩ := limits_noted_at_parameters_and_calls.2.1 spellsLongFunction_beyondLimit
  have hcall := limits_noted_at_parameters_and_calls.2.2.1 spellsLongCall_beyondLimit
  have hkeyword : (Token.mk (.keyword .funWord) "fun" 1).kind = .keyword .funWord := rfl
  have hsemicolon : (Token.mk (.mark .semicolon) ";" 1).kind = .mark .semicolon := rfl
  have hdeclaration := NotesDeclaration.function hkeyword hfunction
  have hstatement := NotesDeclaration.statement (.plain (.intro hcall.whole hsemicolon))
  have hopen : false = true → Absent (.keyword .elseWord) statementOfX := fun h => by cases h
  constructor
  · refine (limits_noted_at_parameters_and_calls.1 hdeclaration ?_ (by decide) hopen rfl).trans rfl
    exact List.forall_mem_cons.2 ⟨by decide, withoutEnd_functionBeyondLimit⟩
  · rw [limits_noted_at_parameters_and_calls.1 hstatement
      (List.forall_mem_append.2 ⟨withoutEnd_callBeyondLimit, by decide⟩) (by decide) hopen rfl]
    rfl

/-- Two parameters beyond the limit are noted one by one, where two arguments beyond it are noted once. -/
theorem parameters_beyond_limit_noted_again :
    (parse (⟨.keyword .funWord, "fun", 1⟩ :: functionBeyondLimit ++ [] ++ [endWord]) 0).errors =
      [parameterBeyondLimit ⟨"p", 1⟩, parameterBeyondLimit ⟨"p", 1⟩] ∧
    (parse (callBeyondLimit ++ [⟨.mark .semicolon, ";", 1⟩] ++ [] ++ [endWord]) 0).errors =
      [.grammar 1 (.lexeme "1") (.tooManyArguments argumentLimit)] := by
  have hkeyword : (Token.mk (.keyword .funWord) "fun" 1).kind = .keyword .funWord := rfl
  have hsemicolon : (Token.mk (.mark .semicolon) ";" 1).kind = .mark .semicolon := rfl
  have hdeclaration := NotesDeclaration.function hkeyword spellsLongFunction_beyondLimit.notes
  have hstatement := NotesDeclaration.statement
    (.plain (.intro spellsLongCall_beyondLimit.notes.whole hsemicolon))
  constructor
  · rw [hdeclaration.parse_eq (List.forall_mem_cons.2 ⟨by decide, withoutEnd_functionBeyondLimit⟩) (by simp)
      (fun h => by cases h) rfl]
    rfl
  · rw [hstatement.parse_eq (List.forall_mem_append.2 ⟨withoutEnd_callBeyondLimit, by decide⟩) (by simp)
      (fun h => by cases h) rfl]
    rfl

end LoxLang
