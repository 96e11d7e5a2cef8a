import LoxLang.Proofs.Grammar.Noting
import LoxLang.Proofs.Grammar.Soundness

/-!
# What is spelled is read

Tokens that spell a phrase are read as that phrase, if no token behind them makes it longer. A phrase that keeps
the limits is one on which nothing is noted, so that the readings of the grammar without its limits apply. The fuel
may end at any point; that it does not end is known apart from this, so that a whole program is read in the end.
-/

namespace LoxLang

open Reader

/-! ## Expressions -/

/-- How an expression of a rank is read. A phrase that leans to the left is read up to the loop that looks
for more of it. -/
def ReadsExpr : Rank → NodeId → List Token → Expr → NodeId → Prop
  | .primary, first, ts, e, next => ∀ n rest, (readPrimary n).Takes first ts e next rest
  | .call, first, ts, e, next =>
    ∀ n rest, (readCall n).Reaches (fun m => readSelectors m e) first ts next rest
  | .power, first, ts, e, next => ∀ n rest, Stops .power rest → (readPower n).Takes first ts e next rest
  | .unary, first, ts, e, next => ∀ n rest, Stops .unary rest → (readUnary n).Takes first ts e next rest
  | .level l, first, ts, e, next => ∀ n rest, Stops (.operand l.tighter?) rest →
    (readLevel n (some l)).Reaches (fun m => readJoined m l e) first ts next rest
  | .assignment, first, ts, e, next =>
    ∀ n rest, Stops .assignment rest → (readExpr n).Takes first ts e next rest

theorem ReadsNotingExpr.nothing {r : Rank} {first next : NodeId} {ts : List Token} {e : Expr}
    (h : ReadsNotingExpr r first ts e [] next) : ReadsExpr r first ts e next := by
  cases r
  case primary => exact fun n rest => notes_nil.1 (h n rest)
  case call => exact fun n rest => notes_nil.1 (h n rest)
  all_goals exact fun n rest hs => notes_nil.1 (h n rest hs)

theorem SpellsExpr.reads {r : Rank} {first next : NodeId} {ts : List Token} {e : Expr}
    (h : SpellsExpr r first ts e next) : ReadsExpr r first ts e next := h.notes.reads.nothing

/-! ## Statements -/

variable {first middle next : NodeId} {ts us rest : List Token}

/-- How a declaration is read. -/
def ReadsDeclaration (isOpen : Bool) (first : NodeId) (ts : List Token) (s : Stmt) (next : NodeId) :
    Prop :=
  ∀ n rest, Closes isOpen rest → (readDeclaration n).Takes first ts (some s) next rest

theorem SpellsDeclaration.reads {isOpen : Bool} {s : Stmt} (h : SpellsDeclaration isOpen first ts s next) :
    ReadsDeclaration isOpen first ts s next := fun n rest ho => notes_nil.1 (h.notes.reads n rest ho)

theorem SpellsBody.absent_else {body : List Stmt} (h : SpellsBody first ts body next)
    (hr : Absent (.keyword .elseWord) rest) : Absent (.keyword .elseWord) (ts ++ rest) :=
  h.notes.absent_else hr

/-! ## Programs -/

theorem SpellsBody.takes_program {first next : NodeId} {ts : List Token} {program : List Stmt}
    (h : SpellsBody first ts program next) (n : Nat) : (readProgram n).Takes first ts program next [] := by
  induction program generalizing first ts n with
  | nil =>
    cases h
    cases n with
    | zero => exact reaches_exhausted _
    | succ n =>
      rw [readProgram]
      exact takes_atEnd_true (takes_pure _)
  | cons s rest ih =>
    cases h with
    | @cons _ _ _ _ _ us _ _ h hs =>
      cases n with
      | zero => exact reaches_exhausted _
      | succ n =>
        rw [readProgram]
        refine takes_atEnd_false h.begins.append.append.ne_nil ?_
        refine (h.reads n _ fun _ => hs.absent_else absent_nil).bind ?_
        rw [← List.append_nil us]
        exact (ih hs n).bind (u := []) (takes_pure _)

/-- Tokens that spell a program are read as that program, without an error. -/
theorem SpellsBody.parse_eq {program : List Stmt} (h : SpellsBody first (wordsOf ts) program next) :
    parse ts first = ⟨program, [], next⟩ := by
  obtain ⟨found, s, hs, hp, -⟩ := LoxLang.parse_eq ts first
  obtain hr | ⟨_, hr⟩ := h.takes_program (enoughFuel (wordsOf ts).length) (ReadState.start ts first).endLine []
  · rw [List.append_nil] at hr
    exact absurd (hs.symm.trans hr) (by simp)
  · rw [List.append_nil] at hr
    have := hs.symm.trans hr
    cases this
    exact hp

/-- A program is read without an error just if its tokens spell it. -/
theorem parse_result_iff {program : List Stmt} :
    (parse ts first).result = .ok program ↔ ∃ next, SpellsBody first (wordsOf ts) program next := by
  constructor
  · exact fun h => ⟨_, spellsBody_of_parse h⟩
  · rintro ⟨next, h⟩
    rw [h.parse_eq]
    rfl

end LoxLang
