import LoxLang.Proofs.Scan.LongestMatch

/-!
# Scanning the tokens of a text again

The lexemes of the tokens of a text are written one after another with single spaces between them. The new
text has the same tokens as the old one, whatever stood between them: what a token is depends on its own
characters only, as long as the next character does not make it longer, and a space never does. Of the
lexical errors only those inside of strings are left.
-/

namespace LoxLang

/-! ## A space behind a token -/

theorem Mark.space_not_mem (m : Mark) : ' ' ∉ m.spelling := by cases m <;> decide

/-- Only strings have spaces in them. -/
theorem IsForm.string_of_space {form : Form} {text : List Char} (h : IsForm form text) (hs : ' ' ∈ text) :
    ∃ value bad, form = .string value bad := by
  have hdigits {digits : List Char} (hd : ∀ c ∈ digits, c.isDigit = true) : ' ' ∉ digits :=
    fun hmem => absurd (hd ' ' hmem) (by decide)
  cases h with
  | mark m => exact absurd hs m.space_not_mem
  | integer _ hd => exact absurd hs (hdigits hd)
  | decimal _ hd _ hd' =>
    rcases List.mem_append.1 hs with hs | hs
    · exact absurd hs (hdigits hd)
    · rcases List.mem_cons.1 hs with hpoint | hs
      · exact absurd hpoint (by decide)
      · exact absurd hs (hdigits hd')
  | word hc hd =>
    rcases List.mem_cons.1 hs with rfl | hs
    · exact absurd hc (by decide)
    · exact absurd (hd ' ' hs) (by decide)
  | string _ => exact ⟨_, _, rfl⟩

/-- A text with a form is the longest one in front of a space. -/
theorem IsForm.isLongest_space {form : Form} {text : List Char} (h : IsForm form text) (more : List Char) :
    IsLongest form text (' ' :: more) := by
  refine ⟨h, fun other part hother hpart => ?_⟩
  by_contra hle
  have hlonger : text ++ [' '] <+: part := by
    have hspace : text ++ [' '] <+: text ++ ' ' :: more := ⟨more, by simp⟩
    refine List.prefix_of_prefix_length_le hspace hpart ?_
    rw [List.length_append, List.length_singleton]
    omega
  have hmem : ' ' ∈ part := hlonger.subset (by simp)
  -- The longer text is a string, so both begin with a quote, and a string has only one end.
  obtain ⟨value, bad, rfl⟩ := hother.string_of_space hmem
  obtain ⟨c, rest, rfl, -⟩ := h.starts
  obtain ⟨behind, hbehind⟩ := hlonger
  have hpart' : part ++ [] = c :: (rest ++ [' '] ++ behind) := by
    rw [List.append_nil, ← hbehind]
    rfl
  obtain rfl : c = '"' := hother.starts_head hpart'
  have htext := string_eq_cutString h (List.prefix_append ('"' :: rest) (' ' :: more))
  have hsame := string_eq_cutString hother hpart
  rw [htext, hsame] at hle
  exact hle (Nat.le_refl _)

/-- A token is the same lexeme in front of a space. -/
theorem IsLexeme.space {text behind bad : List Char} {kind : TokenKind}
    (h : IsLexeme text behind (.token kind) bad) (more : List Char) :
    IsLexeme text (' ' :: more) (.token kind) bad := by
  cases h with
  | token hslashes hlongest hk =>
    refine .token (fun hp => hslashes ?_) (hlongest.form.isLongest_space more) hk
    rw [← List.isPrefixOf_iff_prefix, isPrefixOf_append_stop (by decide)] at hp
    exact (List.isPrefixOf_iff_prefix.1 hp).trans (List.prefix_append text behind)

/-- Only strings have unknown escapes. -/
theorem IsLexeme.string_of_bad {text behind bad : List Char} {kind : TokenKind}
    (h : IsLexeme text behind (.token kind) bad) (hb : bad ≠ []) : ∃ value, kind = .string value := by
  cases h with
  | token _ _ hk =>
    cases hk with
    | string value bad => exact ⟨_, rfl⟩
    | _ => exact absurd rfl hb

/-! ## Lexemes with spaces behind them -/

namespace Lexeme

/-- The characters of the unknown escapes of a lexeme. -/
def escapes (l : Lexeme) : List Char := l.badEscapes.map BadEscape.escaped

/-- Two lexemes of one text, kind and unknown escapes. -/
structure Same (l l' : Lexeme) : Prop where
  text : l'.text = l.text
  kind : l'.kind = l.kind
  escapes : l'.escapes = l.escapes

/-- A token stands at its place in some text. -/
structure Placed (l : Lexeme) : Prop where
  isToken : ∃ kind, l.kind = .token kind
  isLexeme : ∃ behind, IsLexeme l.text behind l.kind l.escapes

/-- The space behind a token. -/
def space : Lexeme := ⟨[' '], .blank, []⟩

end Lexeme

/-- The tokens among the lexemes of a text. -/
def words (text : List Char) : List Lexeme := (lexemes text).filter fun l => l.token?.isSome

theorem placed_of_mem_words {text : List Char} {l : Lexeme} (h : l ∈ words text) : l.Placed := by
  obtain ⟨hmem, htoken⟩ := List.mem_filter.1 h
  obtain ⟨before, after, hsplit⟩ := List.append_of_mem hmem
  obtain ⟨c, rest, -, rfl, -⟩ := lexemes_split hsplit
  obtain ⟨behind, hbehind⟩ := cut_begins c rest
  refine ⟨?_, behind, isLexeme_cut hbehind⟩
  unfold Lexeme.token? at htoken
  split at htoken
  · next kind hk => exact ⟨kind, hk⟩
  · cases htoken

/-- The texts of lexemes with a space behind each. -/
def spacedText (ls : List Lexeme) : List Char := ls.flatMap fun l => l.text ++ [' ']

/-- A token with a space behind it is cut in front of the space. -/
theorem lexemes_space {l : Lexeme} (h : l.Placed) (more : List Char) : ∃ l' : Lexeme, l.Same l' ∧
    lexemes (l.text ++ ' ' :: more) = l' :: Lexeme.space :: lexemes more := by
  obtain ⟨⟨kind, hkind⟩, behind, hlexeme⟩ := h
  rw [hkind] at hlexeme
  have hspace := hlexeme.space more
  obtain ⟨c, rest, hrest⟩ : ∃ c rest, l.text ++ ' ' :: more = c :: rest := by
    cases l.text <;> exact ⟨_, _, rfl⟩
  obtain ⟨htext, hkind', hbad⟩ := hspace.eq_cut hrest
  refine ⟨cut c rest, ⟨htext, hkind'.trans hkind.symm, hbad⟩, ?_⟩
  have hcut : (cut c rest).text ++ ' ' :: more = c :: rest := by rw [htext, hrest]
  have hblank : cut ' ' more = Lexeme.space := cut_separator rfl
  have hbehind : (cut ' ' more).text ++ more = ' ' :: more := by
    rw [hblank]
    rfl
  rw [hrest, lexemes_cons hcut, lexemes_cons hbehind, hblank]

/-- What is read off the lexemes of tokens with spaces behind them is what is read off the tokens. -/
theorem flatMap_lexemes_spacedText {β : Type} {f : Lexeme → List β} (hspace : f .space = [])
    (hsame : ∀ l l' : Lexeme, l.Same l' → f l' = f l) {ls : List Lexeme} (h : ∀ l ∈ ls, l.Placed) :
    (lexemes (spacedText ls)).flatMap f = ls.flatMap f := by
  induction ls with
  | nil => rfl
  | cons l rest ih =>
    rw [List.forall_mem_cons] at h
    have htext : spacedText (l :: rest) = l.text ++ ' ' :: spacedText rest := by
      unfold spacedText
      rw [List.flatMap_cons, List.append_assoc]
      rfl
    obtain ⟨l', hl', hlexemes⟩ := lexemes_space h.1 (spacedText rest)
    rw [htext, hlexemes, List.flatMap_cons, List.flatMap_cons, List.flatMap_cons, hspace, List.nil_append,
      hsame l l' hl', ih h.2]

theorem flatMap_words {β : Type} {f : Lexeme → List β} (hf : ∀ l : Lexeme, l.token? = none → f l = [])
    (text : List Char) : (words text).flatMap f = (lexemes text).flatMap f := by
  unfold words
  induction lexemes text with
  | nil => rfl
  | cons l rest ih =>
    rw [List.filter_cons, List.flatMap_cons]
    split
    · rw [List.flatMap_cons, ih]
    · next hl => rw [ih, hf l (by simpa using hl), List.nil_append]

/-! ## What is read off lexemes -/

/-- What a token is, wherever it stands. -/
def Token.content (t : Token) : TokenKind × String := (t.kind, t.lexeme)

namespace Lexeme

/-- What the token of a lexeme is, if there is one. -/
def contents (l : Lexeme) : List (TokenKind × String) :=
  l.token?.toList.map fun kind => (kind, String.ofList l.text)

/-- The messages of the errors of a lexeme. -/
def messages (l : Lexeme) : List String :=
  (l.escapes.map fun c => (LexicalFault.unknownEscape c).message) ++
    match l.kind with
    | .fault fault => [fault.message]
    | _ => []

/-- The messages of the unknown escapes of a string that is a token. -/
def stringMessages (l : Lexeme) : List String :=
  match l.kind with
  | .token (.string _) => l.escapes.map fun c => (LexicalFault.unknownEscape c).message
  | _ => []

variable {l l' : Lexeme}

theorem Same.token? (h : l.Same l') : l'.token? = l.token? := by
  unfold Lexeme.token?
  rw [h.kind]

theorem Same.contents (h : l.Same l') : l'.contents = l.contents := by
  unfold Lexeme.contents
  rw [h.token?, h.text]

theorem Same.messages (h : l.Same l') : l'.messages = l.messages := by
  unfold Lexeme.messages
  rw [h.kind, h.escapes]

theorem contents_of_other (h : l.token? = none) : l.contents = [] := by
  unfold contents
  rw [h]
  rfl

theorem stringMessages_of_other (h : l.token? = none) : l.stringMessages = [] := by
  unfold stringMessages
  unfold Lexeme.token? at h
  split
  · next hk => rw [hk] at h; cases h
  · rfl

/-- A token has no errors but for the unknown escapes of a string. -/
theorem Placed.messages (h : l.Placed) : l.messages = l.stringMessages := by
  obtain ⟨⟨kind, hkind⟩, behind, hlexeme⟩ := h
  rw [hkind] at hlexeme
  unfold Lexeme.messages stringMessages
  rw [hkind, List.append_nil]
  by_cases hb : l.escapes = []
  · rw [hb]
    split <;> rfl
  · obtain ⟨value, rfl⟩ := hlexeme.string_of_bad hb
    rfl

end Lexeme

theorem wordsFrom_content (line : Nat) (ls : List Lexeme) :
    (wordsFrom line ls).map Token.content = ls.flatMap Lexeme.contents := by
  induction ls generalizing line with
  | nil => rfl
  | cons l rest ih =>
    have hfirst : ((l.items line).filterMap ScanItem.token?).map Token.content = l.contents := by
      rw [Lexeme.items_tokens]
      unfold Lexeme.contents Lexeme.token?
      cases l.kind <;> rfl
    rw [wordsFrom, List.map_append, hfirst, ih, List.flatMap_cons]

theorem tokens_content (source : String) :
    (tokens source).map Token.content = (lexemes source.toList).flatMap Lexeme.contents ++ [(.eof, "")] := by
  rw [tokens_eq, List.map_append, sourceWords, wordsFrom_content]
  rfl

theorem itemsFrom_messages (line : Nat) (ls : List Lexeme) :
    ((itemsFrom line ls).filterMap ScanItem.error?).map StaticError.message = ls.flatMap Lexeme.messages := by
  induction ls generalizing line with
  | nil => rfl
  | cons l rest ih =>
    rw [itemsFrom, List.filterMap_append, List.map_append, ih, Lexeme.items_messages, List.flatMap_cons]
    unfold Lexeme.messages Lexeme.escapes
    rw [List.map_map]
    rfl

/-! ## The text of single spaces -/

/-- The lexemes of the tokens of a text with single spaces between them. -/
def respaced (source : String) : String := " ".intercalate ((tokens source).map Token.lexeme)

theorem intercalate_behind (texts : List (List Char)) :
    [' '].intercalate (texts ++ [[]]) = texts.flatMap fun text => text ++ [' '] := by
  induction texts with
  | nil => rfl
  | cons text rest ih =>
    have hne : rest ++ [[]] ≠ [] := by simp
    obtain ⟨next, more, hmore⟩ := List.exists_cons_of_ne_nil hne
    rw [List.flatMap_cons, ← ih, List.cons_append, hmore, List.intercalate_cons_cons]

theorem tokens_lexeme (source : String) :
    (tokens source).map Token.lexeme = (words source.toList).map (fun l => String.ofList l.text) ++ [""] := by
  have hword (l : Lexeme) (h : l ∈ words source.toList) :
      l.contents.map Prod.snd = [String.ofList l.text] := by
    obtain ⟨⟨kind, hkind⟩, -⟩ := placed_of_mem_words h
    unfold Lexeme.contents Lexeme.token?
    rw [hkind]
    rfl
  have hlexeme : (tokens source).map Token.lexeme = ((tokens source).map Token.content).map Prod.snd := by
    rw [List.map_map]
    rfl
  rw [hlexeme, tokens_content, ← flatMap_words (fun l => Lexeme.contents_of_other), List.map_append,
    List.map_flatMap, List.flatMap_def, List.map_congr_left hword, ← List.flatMap_def, ← List.map_eq_flatMap]
  rfl

theorem respaced_toList (source : String) : (respaced source).toList = spacedText (words source.toList) := by
  unfold respaced spacedText
  rw [tokens_lexeme, String.toList_intercalate, List.map_append, List.map_map]
  have htexts : (words source.toList).map (String.toList ∘ fun l => String.ofList l.text) =
      (words source.toList).map Lexeme.text :=
    List.map_congr_left fun l _ => String.toList_ofList
  rw [htexts]
  exact (intercalate_behind _).trans (List.flatMap_map ..)

/-- Scanning the lexemes of all tokens of a text, written with single spaces between them, yields the same
tokens in the same order, with the same values and the same lexemes. Its only errors are those of the unknown
escapes in the strings among these tokens, in the same order. -/
theorem respaced_scan_unchanged (source : String) :
    (tokens (respaced source)).map Token.content = (tokens source).map Token.content ∧
      (lexicalErrors (respaced source)).map StaticError.message =
        (lexemes source.toList).flatMap Lexeme.stringMessages := by
  have hplaced : ∀ l ∈ words source.toList, l.Placed := fun l => placed_of_mem_words
  constructor
  · have hwords := flatMap_lexemes_spacedText (f := Lexeme.contents) rfl (fun _ _ h => h.contents) hplaced
    rw [tokens_content, tokens_content, respaced_toList, hwords,
      flatMap_words (fun _ => Lexeme.contents_of_other)]
  · have hwords := flatMap_lexemes_spacedText (f := Lexeme.messages) rfl (fun _ _ h => h.messages) hplaced
    have hstrings : (words source.toList).flatMap Lexeme.messages =
        (words source.toList).flatMap Lexeme.stringMessages := by
      rw [List.flatMap_def, List.map_congr_left fun l h => (hplaced l h).messages, ← List.flatMap_def]
    unfold lexicalErrors scan
    rw [itemsFrom_messages, respaced_toList, hwords, hstrings,
      flatMap_words (fun _ => Lexeme.stringMessages_of_other)]

/-- The comment and the unexpected character are gone; the string keeps its unknown escape. -/
example : respaced "a<é\"\\q\"//b" = "a < \"\\q\" " := by decide

end LoxLang
