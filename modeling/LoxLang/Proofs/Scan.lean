import LoxLang.Token.Scan

/-!
# What a scan yields

The tokens of a text are spelled as their kinds are: marks and keywords by their spellings, identifiers by
no keyword. The end token comes last and nowhere else.
-/

namespace LoxLang

/-- The spelling of a keyword as a string. -/
def Keyword.text (k : Keyword) : String := String.ofList k.spelling

/-- The lexeme of a mark or a keyword is its spelling; that of an identifier is no keyword. -/
def Token.Spelled (t : Token) : Prop :=
  match t.kind with
  | .mark m => t.lexeme = m.text
  | .keyword k => t.lexeme = k.text
  | .identifier => ∀ k : Keyword, t.lexeme ≠ k.text
  | _ => True

/-- A text that is no keyword, in characters. -/
theorem Keyword.spelling_ne_of_ofSpelling? {text : List Char} (h : Keyword.ofSpelling? text = none)
    (k : Keyword) : text ≠ k.spelling := by
  intro he
  have := List.find?_eq_none.1 h k k.mem_all
  simp [he] at this

namespace Lexeme

/-- A lexeme is no end token, and a token that it is has its text as its spelling. -/
def WellFormed (l : Lexeme) : Prop :=
  ∀ kind, l.kind = .token kind → kind ≠ .eof ∧ (Token.mk kind (String.ofList l.text) 0).Spelled

theorem wellFormed_of_other {l : Lexeme} (h : ∀ kind, l.kind ≠ .token kind) : l.WellFormed :=
  fun kind hk => absurd hk (h kind)

end Lexeme

theorem cutString_wellFormed (rest : List Char) : (cutString rest).WellFormed := by
  intro kind hk
  unfold cutString at hk ⊢
  dsimp only at hk ⊢
  split at hk <;> cases hk
  exact ⟨TokenKind.noConfusion, trivial⟩

theorem cutNumber_wellFormed (text : List Char) : (cutNumber text).WellFormed := by
  intro kind hk
  unfold cutNumber at hk ⊢
  dsimp only at hk
  split at hk
  · dsimp only at hk
    split at hk <;> cases hk
    exact ⟨TokenKind.noConfusion, trivial⟩
  · cases hk
    exact ⟨TokenKind.noConfusion, trivial⟩

theorem cutWord_wellFormed (text : List Char) : (cutWord text).WellFormed := by
  intro kind hk
  unfold cutWord at hk ⊢
  dsimp only at hk ⊢
  split at hk
  · next k hfound =>
    cases hk
    have := List.find?_some hfound
    refine ⟨TokenKind.noConfusion, ?_⟩
    change String.ofList _ = k.text
    rw [Keyword.text, beq_iff_eq.1 this]
  · next hnone =>
    cases hk
    refine ⟨TokenKind.noConfusion, fun k he => ?_⟩
    exact Keyword.spelling_ne_of_ofSpelling? hnone k (String.ofList_injective he)

theorem cut_wellFormed (c : Char) (rest : List Char) : (cut c rest).WellFormed := by
  unfold cut
  split
  · exact Lexeme.wellFormed_of_other fun _ h => by cases h
  split
  · exact Lexeme.wellFormed_of_other fun _ h => by cases h
  split
  · exact cutString_wellFormed rest
  split
  · exact cutNumber_wellFormed _
  split
  · exact cutWord_wellFormed _
  split
  · rintro kind hk
    cases hk
    exact ⟨TokenKind.noConfusion, rfl⟩
  · exact Lexeme.wellFormed_of_other fun _ h => by cases h

theorem lexemesFrom_wellFormed (skip : Nat) (text : List Char) :
    ∀ l ∈ lexemesFrom skip text, l.WellFormed := by
  induction text generalizing skip with
  | nil => cases skip <;> simp [lexemesFrom]
  | cons c rest ih =>
    cases skip with
    | zero =>
      simp only [lexemesFrom, List.forall_mem_cons]
      exact ⟨cut_wellFormed c rest, ih _⟩
    | succ skip => exact ih skip

/-- The tokens of lexemes that begin on `line`, without the end token. -/
def wordsFrom (line : Nat) : List Lexeme → List Token
  | [] => []
  | l :: rest =>
    (l.items line).filterMap ScanItem.token? ++ wordsFrom (line + lineBreaks l.text) rest

/-- The line behind lexemes that begin on `line`. -/
def lineBehind (line : Nat) (ls : List Lexeme) : Nat :=
  ls.foldl (fun line l => line + lineBreaks l.text) line

theorem itemsFrom_tokens (line : Nat) (ls : List Lexeme) :
    (itemsFrom line ls).filterMap ScanItem.token? =
      wordsFrom line ls ++ [⟨.eof, "", lineBehind line ls⟩] := by
  induction ls generalizing line with
  | nil => rfl
  | cons l rest ih =>
    rw [itemsFrom, List.filterMap_append, ih, wordsFrom, List.append_assoc]
    rfl

/-- The only token of a lexeme is the lexeme itself, on the line on which it ends. -/
theorem Lexeme.items_tokens (line : Nat) (l : Lexeme) : (l.items line).filterMap ScanItem.token? =
    match l.kind with
    | .token kind => [⟨kind, String.ofList l.text, line + lineBreaks l.text⟩]
    | _ => [] := by
  have herrors (es : List BadEscape) :
      (es.map fun e => ScanItem.error (e.error line)).filterMap ScanItem.token? = [] := by
    induction es with
    | nil => rfl
    | cons e rest ih => exact ih
  unfold Lexeme.items
  rw [List.filterMap_append, herrors, List.nil_append]
  cases l.kind <;> rfl

theorem wordsFrom_spelled {ls : List Lexeme} (h : ∀ l ∈ ls, l.WellFormed) (line : Nat) :
    ∀ t ∈ wordsFrom line ls, t.kind ≠ .eof ∧ t.Spelled := by
  induction ls generalizing line with
  | nil => simp [wordsFrom]
  | cons l rest ih =>
    simp only [List.forall_mem_cons] at h
    rw [wordsFrom, List.forall_mem_append, Lexeme.items_tokens]
    refine ⟨?_, ih h.2 _⟩
    split
    · next kind hk =>
      simp only [List.forall_mem_cons]
      exact ⟨h.1 kind hk, by simp⟩
    · simp

/-- The tokens of a text in front of the end token. -/
def sourceWords (source : String) : List Token := wordsFrom 1 (lexemes source.toList)

/-- The line of the end token of a text. -/
def lastLine (source : String) : Nat := lineBehind 1 (lexemes source.toList)

/-- The end token of a text comes last. -/
theorem tokens_eq (source : String) :
    tokens source = sourceWords source ++ [⟨.eof, "", lastLine source⟩] :=
  itemsFrom_tokens 1 _

theorem sourceWords_spelled (source : String) :
    ∀ t ∈ sourceWords source, t.kind ≠ .eof ∧ t.Spelled :=
  wordsFrom_spelled (lexemesFrom_wellFormed 0 _) 1

end LoxLang
