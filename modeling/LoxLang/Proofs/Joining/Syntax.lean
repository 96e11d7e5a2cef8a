import LoxLang.Proofs.Joining.Reline
import LoxLang.Proofs.Joining.Scan
import LoxLang.Session

/-!
# Reading a joined text

Words on other lines spell the same tree on other lines. A program in front of another one is read as if
it stood alone, since no program begins with `else`, and the identities of the second go on where those of
the first end.
-/

namespace LoxLang

section
variable {move : Nat → Nat}

theorem assigned_reline {target value e : Expr} {operator : AssignOperator}
    (h : target.assigned? operator value = some e) :
    (target.reline move).assigned? operator (value.reline move) = some (e.reline move) := by
  unfold Expr.assigned? at h
  split at h <;> cases h <;> rfl

theorem join_reline (operator : Joiner) (left right : Expr) (line : Nat) :
    (operator.join left line right).reline move =
      operator.join (left.reline move) (move line) (right.reline move) := by
  cases operator <;> rfl

mutual

theorem SpellsExpr.reline {r : Rank} {first next : NodeId} {ts : List Token} {e : Expr} :
    SpellsExpr r first ts e next →
      SpellsExpr r first (ts.map (Token.reline move)) (e.reline move) next
  | .literal h => .literal h
  | .reference h => .reference h
  | .grouping hb h ha => by
    rw [List.map_cons, List.map_append]
    exact .grouping hb h.reline ha
  | .list hb h ha => by
    rw [List.map_cons, List.map_append]
    exact .list hb h.reline ha
  | .receiver h => .receiver h
  | .inherited h hd hn => .inherited h hd hn
  | .ofPrimary h => .ofPrimary h.reline
  | .call h hb hs hl ha => by
    rw [List.map_append, List.map_cons, List.map_append]
    exact .call h.reline hb hs.reline (by rwa [relineItems_length]) ha
  | .get h hd hn => by
    rw [List.map_append]
    exact .get h.reline hd hn
  | .ofCall h => .ofCall h.reline
  | .power h ht hu => by
    rw [List.map_append, List.map_cons]
    exact .power h.reline ht hu.reline
  | .ofPower h => .ofPower h.reline
  | .unary ht h => .unary ht h.reline
  | .ofOperand h => .ofOperand h.reline
  | .join h ht hr => by
    rw [List.map_append, List.map_cons, join_reline]
    exact .join h.reline ht hr.reline
  | .ofLevel h => .ofLevel h.reline
  | .assign h ht hv ha => by
    rw [List.map_append, List.map_cons]
    exact .assign h.reline ht hv.reline (assigned_reline ha)

theorem SpellsArguments.reline {first next : NodeId} {ts : List Token} {es : List Expr} :
    SpellsArguments first ts es next →
      SpellsArguments first (ts.map (Token.reline move)) (relineItems move es) next
  | .nil => .nil
  | .items h => .items h.reline

theorem SpellsItems.reline {first next : NodeId} {ts : List Token} {es : List Expr} :
    SpellsItems first ts es next →
      SpellsItems first (ts.map (Token.reline move)) (relineItems move es) next
  | .last h => .last h.reline
  | .more h hc hr => by
    rw [List.map_append, List.map_cons]
    exact .more h.reline hc hr.reline

end

section Parts
variable {first next : NodeId} {ts : List Token}

theorem SpellsNames.reline {names : List Name} (h : SpellsNames ts names) :
    SpellsNames (ts.map (Token.reline move)) (relineNames move names) := by
  induction h with
  | last hk => exact .last hk
  | more hk hc _ ih => exact .more hk hc ih

theorem SpellsParameters.reline {params : List Name} (h : SpellsParameters ts params) :
    SpellsParameters (ts.map (Token.reline move)) (relineNames move params) := by
  cases h with
  | nil => exact .nil
  | names h hl => exact .names h.reline (by rwa [relineNames_length])

theorem SpellsOptional.reline {value : Option Expr} (h : SpellsOptional first ts value next) :
    SpellsOptional first (ts.map (Token.reline move)) (relineOptional move value) next := by
  cases h with
  | none => exact .none
  | some h => exact .some h.reline

theorem SpellsVariable.reline {s : Stmt} (h : SpellsVariable first ts s next) :
    SpellsVariable first (ts.map (Token.reline move)) (s.reline move) next := by
  cases h with
  | bare hn hs => exact .bare hn hs
  | initialized hn he h hs =>
    rw [List.map_cons, List.map_cons, List.map_append]
    exact .initialized hn he h.reline hs

theorem SpellsPlain.reline {s : Stmt} (h : SpellsPlain first ts s next) :
    SpellsPlain first (ts.map (Token.reline move)) (s.reline move) next := by
  obtain ⟨h, hs⟩ := h
  rw [List.map_append]
  exact .intro h.reline hs

theorem SpellsInitializer.reline {o : Option Stmt} (h : SpellsInitializer first ts o next) :
    SpellsInitializer first (ts.map (Token.reline move)) (relineElse move o) next := by
  cases h with
  | none hs => exact .none hs
  | declare hk h => exact .declare hk h.reline
  | plain h => exact .plain h.reline

end Parts

/-- The clauses of a loop with their tokens on other lines. -/
def ForClauses.reline (move : Nat → Nat) (c : ForClauses) : ForClauses :=
  ⟨relineElse move c.initializer, relineOptional move c.condition, relineOptional move c.increment⟩

theorem ForClauses.loop_reline (c : ForClauses) (body : Stmt) :
    (c.loop body).reline move = (c.reline move).loop (body.reline move) := by
  obtain ⟨initializer, condition, increment⟩ := c
  cases initializer <;> cases condition <;> cases increment <;> rfl

theorem SpellsClauses.reline {first next : NodeId} {ts : List Token} {c : ForClauses}
    (h : SpellsClauses first ts c next) :
    SpellsClauses first (ts.map (Token.reline move)) (c.reline move) next := by
  obtain ⟨hb, hi, hc, hm, hv, ha⟩ := h
  simp only [List.map_cons, List.map_append, List.map_nil]
  exact .intro hb hi.reline hc.reline hm hv.reline ha

mutual

theorem SpellsStmt.reline {isOpen : Bool} {first next : NodeId} {ts : List Token} {s : Stmt} :
    SpellsStmt isOpen first ts s next →
      SpellsStmt isOpen first (ts.map (Token.reline move)) (s.reline move) next
  | .plain h => .plain h.reline
  | .giveBack hk h hs => by
    rw [List.map_cons, List.map_append]
    exact .giveBack hk h.reline hs
  | .block hb h ha => by
    rw [List.map_cons, List.map_append]
    exact .block hb h.reline ha
  | .loop hk hb h ha hs => by
    simp only [List.map_cons, List.map_append]
    exact .loop hk hb h.reline ha hs.reline
  | .forLoop hk h hs => by
    rw [List.map_cons, List.map_append, ForClauses.loop_reline]
    exact .forLoop hk h.reline hs.reline
  | .branch hk hb h ha hs => by
    simp only [List.map_cons, List.map_append]
    exact .branch hk hb h.reline ha hs.reline
  | .branchElse hk hb h ha hs hw he => by
    simp only [List.map_cons, List.map_append]
    exact .branchElse hk hb h.reline ha hs.reline hw he.reline

theorem SpellsDeclaration.reline {isOpen : Bool} {first next : NodeId} {ts : List Token} {s : Stmt} :
    SpellsDeclaration isOpen first ts s next →
      SpellsDeclaration isOpen first (ts.map (Token.reline move)) (s.reline move) next
  | .declare hk h => .declare hk h.reline
  | .function hk h => .function hk h.reline
  | .base hk hn hb h ha => by
    simp only [List.map_cons, List.map_append, List.map_nil]
    exact .base hk hn hb h.reline ha
  | .derived hk hn hl hs hb h ha => by
    simp only [List.map_cons, List.map_append, List.map_nil]
    exact .derived hk hn hl hs hb h.reline ha
  | .statement h => .statement h.reline

theorem SpellsBody.reline {first next : NodeId} {ts : List Token} {body : List Stmt} :
    SpellsBody first ts body next →
      SpellsBody first (ts.map (Token.reline move)) (relineBody move body) next
  | .nil => .nil
  | .cons h hs => by
    rw [List.map_append]
    exact .cons h.reline hs.reline

theorem SpellsFunction.reline {first next : NodeId} {ts : List Token} {f : FunctionDecl} :
    SpellsFunction first ts f next →
      SpellsFunction first (ts.map (Token.reline move)) (f.reline move) next
  | .intro hn hb hp ha ho h hc => by
    simp only [List.map_cons, List.map_append, List.map_nil]
    exact .intro hn hb hp.reline ha ho h.reline hc

theorem SpellsMethods.reline {first next : NodeId} {ts : List Token} {methods : List FunctionDecl} :
    SpellsMethods first ts methods next →
      SpellsMethods first (ts.map (Token.reline move)) (relineMethods move methods) next
  | .nil => .nil
  | .cons h hs => by
    rw [List.map_append]
    exact .cons h.reline hs.reline

end

end

/-- One program behind another is one program. -/
theorem SpellsBody.append {first middle next : NodeId} {ts us : List Token} {body rest : List Stmt}
    (h : SpellsBody first ts body middle) (hr : SpellsBody middle us rest next) :
    SpellsBody first (ts ++ us) (body ++ rest) next := by
  induction body generalizing first ts with
  | nil =>
    cases h
    exact hr
  | cons s body ih =>
    cases h with
    | cons hs hb =>
      rw [List.append_assoc]
      exact .cons hs (ih hb)

/-- A program passes the check just if its text has no lexical errors and its words spell it. -/
theorem checkProgram_eq_ok_iff {source : String} {first next : NodeId} {program : List Stmt} :
    checkProgram source first = (.ok program, next) ↔
      lexicalErrors source = [] ∧ SpellsBody first (sourceWords source) program next := by
  unfold checkProgram
  constructor
  · intro h
    split at h
    · next hl =>
      refine ⟨hl, ?_⟩
      have hs := spellsBody_of_parse (congrArg Prod.fst h)
      have hn : (parse (tokens source) first).nextId = next := congrArg Prod.snd h
      rwa [hn, wordsOf_tokens] at hs
    · cases h
  · rintro ⟨hl, hs⟩
    rw [← wordsOf_tokens] at hs
    simp only [hl, hs.parse_eq]
    rfl

/-- A program with another one behind it passes the check if both do, and consists of both. -/
theorem checkProgram_joinedText {source more : String} {first middle next : NodeId}
    {program rest : List Stmt} (h : checkProgram source first = (.ok program, middle))
    (hr : checkProgram more middle = (.ok rest, next)) :
    checkProgram (joinedText source more) first =
      (.ok (program ++ relineBody (lineAfter source) rest), next) := by
  rw [checkProgram_eq_ok_iff] at h hr ⊢
  constructor
  · exact lexicalErrors_joinedText more h.1 hr.1
  · rw [sourceWords_joinedText more h.1]
    exact h.2.append hr.2.reline

end LoxLang
