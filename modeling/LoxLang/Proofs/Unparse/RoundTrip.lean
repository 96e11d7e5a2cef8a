import LoxLang.Proofs.Grammar.Completeness
import LoxLang.Proofs.Unparse.Derivation
import LoxLang.Proofs.Unparse.Reading

/-!
# Reading and writing

Reading what was written gives the tree back, and writing what was read gives the tokens back. Identities,
lines and the lexemes of literals are left aside, and so are texts with a `for`, which are written as the
loops they stand for.

Declarations are no statements: a tree with a declaration as a branch of an `if` can be written, but what
is written cannot be read.
-/

namespace LoxLang

/-! ## The end token -/

/-- No end token is among the tokens. -/
def WithoutEnd (ts : List Token) : Prop := ∀ t ∈ ts, t.kind ≠ .eof

@[simp] theorem withoutEnd_nil : WithoutEnd [] := by simp [WithoutEnd]

@[simp] theorem withoutEnd_cons {t : Token} {ts : List Token} :
    WithoutEnd (t :: ts) ↔ t.kind ≠ .eof ∧ WithoutEnd ts := List.forall_mem_cons

@[simp] theorem withoutEnd_append {ts us : List Token} :
    WithoutEnd (ts ++ us) ↔ WithoutEnd ts ∧ WithoutEnd us := List.forall_mem_append

theorem wordsOf_append_end {ts : List Token} {t : Token} (h : WithoutEnd ts) (ht : t.kind = .eof) :
    wordsOf (ts ++ [t]) = ts := by
  unfold wordsOf
  have hall : ∀ u ∈ ts, (u.kind != .eof) = true := fun u hu => by simpa using h u hu
  rw [List.takeWhile_append_of_pos hall]
  simp [ht]

theorem wordsOf_tokens (source : String) : wordsOf (tokens source) = sourceWords source := by
  rw [tokens_eq]
  exact wordsOf_append_end (fun t ht => (sourceWords_spelled source t ht).1) rfl

@[simp] theorem AssignOperator.words_withoutEnd (operator : AssignOperator) :
    WithoutEnd operator.words := by
  unfold AssignOperator.words
  cases operator.mark? <;> simp

@[simp] theorem Literal.word_withoutEnd (value : Literal) : value.word.kind ≠ .eof := by
  cases value with
  | bool value => cases value <;> exact TokenKind.noConfusion
  | _ => exact TokenKind.noConfusion

mutual

theorem Expr.words_withoutEnd : (e : Expr) → WithoutEnd e.words
  | .literal _ => by simp [Expr.words]
  | .unary _ _ right => by simp [Expr.words, right.words_withoutEnd]
  | .binary left _ _ right => by simp [Expr.words, left.words_withoutEnd, right.words_withoutEnd]
  | .logical left _ right => by simp [Expr.words, left.words_withoutEnd, right.words_withoutEnd]
  | .grouping inner => by simp [Expr.words, inner.words_withoutEnd]
  | .reference _ => by simp [Expr.words]
  | .assign _ _ value => by simp [Expr.words, value.words_withoutEnd]
  | .call callee _ _ arguments => by
    simp [Expr.words, callee.words_withoutEnd, itemWords_withoutEnd arguments]
  | .list _ elements => by simp [Expr.words, itemWords_withoutEnd elements]
  | .get object _ => by simp [Expr.words, object.words_withoutEnd]
  | .set object _ _ value => by simp [Expr.words, object.words_withoutEnd, value.words_withoutEnd]
  | .setElement object arguments _ _ value => by
    simp [Expr.words, object.words_withoutEnd, itemWords_withoutEnd arguments, value.words_withoutEnd]
  | .receiver _ => by simp [Expr.words]
  | .inherited .. => by simp [Expr.words]

theorem itemWords_withoutEnd : (es : List Expr) → WithoutEnd (itemWords es)
  | [] => by simp [itemWords]
  | [e] => e.words_withoutEnd
  | e :: f :: rest => by simp [itemWords, e.words_withoutEnd, itemWords_withoutEnd (f :: rest)]

end

theorem nameWords_withoutEnd : (names : List Name) → WithoutEnd (nameWords names)
  | [] => by simp [nameWords]
  | [_] => by simp [nameWords]
  | _ :: other :: rest => by simp [nameWords, nameWords_withoutEnd (other :: rest)]

theorem optionalWords_withoutEnd (value : Option Expr) : WithoutEnd (optionalWords value) := by
  cases value with
  | none => exact withoutEnd_nil
  | some e => exact e.words_withoutEnd

mutual

theorem Stmt.words_withoutEnd : (s : Stmt) → WithoutEnd s.words
  | .expression value => by simp [Stmt.words, value.words_withoutEnd]
  | .declare _ (some value) => by simp [Stmt.words, value.words_withoutEnd]
  | .declare _ none => by simp [Stmt.words]
  | .block body => by simp [Stmt.words, bodyWords_withoutEnd body]
  | .branch condition thenBranch (some elseBranch) => by
    simp [Stmt.words, condition.words_withoutEnd, thenBranch.words_withoutEnd,
      elseBranch.words_withoutEnd]
  | .branch condition thenBranch none => by
    simp [Stmt.words, condition.words_withoutEnd, thenBranch.words_withoutEnd]
  | .loop condition body => by simp [Stmt.words, condition.words_withoutEnd, body.words_withoutEnd]
  | .function declaration => by simp [Stmt.words, declaration.words_withoutEnd]
  | .giveBack _ value => by simp [Stmt.words, optionalWords_withoutEnd value]
  | .declareClass _ (some _) methods => by simp [Stmt.words, methodWords_withoutEnd methods]
  | .declareClass _ none methods => by simp [Stmt.words, methodWords_withoutEnd methods]

theorem FunctionDecl.words_withoutEnd : (f : FunctionDecl) → WithoutEnd f.words
  | ⟨_, params, body⟩ => by
    simp [FunctionDecl.words, nameWords_withoutEnd params, bodyWords_withoutEnd body]

theorem bodyWords_withoutEnd : (body : List Stmt) → WithoutEnd (bodyWords body)
  | [] => by simp [bodyWords]
  | s :: rest => by simp [bodyWords, s.words_withoutEnd, bodyWords_withoutEnd rest]

theorem methodWords_withoutEnd : (methods : List FunctionDecl) → WithoutEnd (methodWords methods)
  | [] => by simp [methodWords]
  | f :: rest => by simp [methodWords, f.words_withoutEnd, methodWords_withoutEnd rest]

end

/-! ## The round trip -/

/-- The tokens of a program with the end token behind them. -/
def programWords (program : List Stmt) : List Token := bodyWords program ++ [endWord]

theorem parse_programWords {program : List Stmt} (h : BodyShaped program) (hp : BodyPlaced program)
    (first : NodeId) : ∃ found, (parse (programWords program) first).result = .ok found ∧
      bareBody found = bareBody program := by
  obtain ⟨found, next, hs, hb⟩ := bodySpelledLike program h hp first
  rw [← wordsOf_append_end (bodyWords_withoutEnd program) (t := endWord) rfl] at hs
  exact ⟨found, parse_result_iff.2 ⟨next, hs⟩, hb⟩

/-- What is read from a text can be written. -/
theorem written_of_parse {source : String} {first : NodeId} {program : List Stmt}
    (h : (parse (tokens source) first).result = .ok program) :
    BodyWrittenAs (sourceWords source) program := by
  obtain ⟨next, hs⟩ := parse_result_iff.1 h
  rw [wordsOf_tokens] at hs
  exact hs.written fun t ht => (sourceWords_spelled source t ht).2

/-- Reading inverts writing: a shaped program whose declarations are placed is read again from its words,
and what is read from a text is such a program, written with the words of the text if it has no `for`. -/
theorem reading_inverts_writing :
    (∀ (program : List Stmt) (first : NodeId), BodyShaped program → BodyPlaced program →
      ∃ found, (parse (programWords program) first).result = .ok found ∧
        bareBody found = bareBody program) ∧
    ∀ (source : String) (first : NodeId) (program : List Stmt),
      (parse (tokens source) first).result = .ok program →
        BodyShaped program ∧ BodyPlaced program ∧
          (WithoutFor (tokens source) → (tokens source).map Token.bare = programWords program) := by
  refine ⟨fun program first h hp => parse_programWords h hp first, fun source first program h => ?_⟩
  have hw := written_of_parse h
  refine ⟨hw.shaped, hw.placed, fun hf => ?_⟩
  rw [tokens_eq, WithoutFor, List.forall_mem_append] at hf
  rw [tokens_eq, List.map_append, hw.words hf.1]
  rfl

/-- The program `if (true) var x;` as a tree. -/
def declarationAsBranch : List Stmt :=
  [.branch (.literal (.bool true)) (.declare ⟨"x", 1⟩ none) none]

/-- A tree may be shaped and still not be read again, if a declaration is a branch of an `if`. -/
theorem declarationAsBranch_not_read : BodyShaped declarationAsBranch ∧
    ∀ found, (parse (programWords declarationAsBranch) 0).result ≠ .ok found := by
  refine ⟨⟨⟨trivial, trivial⟩, trivial⟩, fun found h => ?_⟩
  have he : ∃ errors, (parse (programWords declarationAsBranch) 0).result = .error errors := ⟨_, rfl⟩
  obtain ⟨errors, he⟩ := he
  rw [he] at h
  cases h

/-- The round trip at `-x;`. -/
theorem reading_inverts_writing_negation :
    (∃ found, (parse (programWords [.expression (.unary .negate 1 (.reference ⟨0, ⟨"x", 1⟩⟩))]) 0).result =
      .ok found) ∧ (tokens "-x;").map Token.bare =
        programWords [.expression (.unary .negate 1 (.reference ⟨0, ⟨"x", 1⟩⟩))] := by
  constructor
  · obtain ⟨found, h, -⟩ := reading_inverts_writing.1
      [.expression (.unary .negate 1 (.reference ⟨0, ⟨"x", 1⟩⟩))] 0
      ⟨⟨trivial, by decide⟩, trivial⟩ ⟨trivial, trivial⟩
    exact ⟨found, h⟩
  · exact (reading_inverts_writing.2 "-x;" 0 _ rfl).2.2 (by decide)

end LoxLang
