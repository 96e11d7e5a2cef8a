import LoxLang.Proofs.Scan

/-!
# Scanning a joined text

No token reaches over a line break, but for a string, and a string ends at its quote. So a text without
lexical errors is cut as before when a line break and more text are put behind it, and the tokens of the
text behind it only stand on later lines.
-/

namespace LoxLang

/-! ## Lists up to a stop -/

section Stops
variable {α : Type} {p : α → Bool} {stop : α}

theorem takeWhile_append_stop (h : p stop = false) (text behind : List α) :
    (text ++ stop :: behind).takeWhile p = text.takeWhile p := by
  induction text with
  | nil => simp [h]
  | cons c rest ih => simp only [List.cons_append, List.takeWhile_cons, ih]

theorem dropWhile_append_stop (h : p stop = false) (text behind : List α) :
    (text ++ stop :: behind).dropWhile p = text.dropWhile p ++ stop :: behind := by
  induction text with
  | nil => simp [h]
  | cons c rest ih =>
    simp only [List.cons_append, List.dropWhile_cons, ih]
    split
    · rfl
    · rfl

theorem isPrefixOf_append_stop [BEq α] [LawfulBEq α] {part : List α} (h : stop ∉ part)
    (text behind : List α) : part.isPrefixOf (text ++ stop :: behind) = part.isPrefixOf text := by
  induction part generalizing text with
  | nil => simp
  | cons a part ih =>
    rw [List.mem_cons, not_or] at h
    cases text with
    | nil => simp [List.isPrefixOf, Ne.symm h.1]
    | cons c rest => simp only [List.cons_append, List.isPrefixOf, ih h.2]

theorem takeWhile_stopped {text behind : List α} (hp : ∀ a ∈ text, p a = true) (hb : ∀ a ∈ behind.head?, p a = false) :
    (text ++ behind).takeWhile p = text := by
  have hbehind : behind.takeWhile p = [] := by
    cases behind with
    | nil => rfl
    | cons a rest => rw [List.takeWhile_cons, hb a rfl]; rfl
  rw [List.takeWhile_append_of_pos hp, hbehind, List.append_nil]

theorem dropWhile_stopped {text behind : List α} (hp : ∀ a ∈ text, p a = true) (hb : ∀ a ∈ behind.head?, p a = false) :
    (text ++ behind).dropWhile p = behind := by
  have happend := List.takeWhile_append_dropWhile (p := p) (l := text ++ behind)
  rw [takeWhile_stopped hp hb] at happend
  exact List.append_cancel_left happend

end Stops

/-! ## The next lexeme -/

namespace Lexeme

/-- Nothing is wrong with the lexeme. -/
structure Sound (l : Lexeme) : Prop where
  escapes : l.badEscapes = []
  fault : ∀ fault, l.kind ≠ .fault fault

/-- The line break as a lexeme. -/
def lineBreak : Lexeme := ⟨['\n'], .blank, []⟩

theorem lineBreak_sound : lineBreak.Sound := ⟨rfl, fun _ h => by cases h⟩

end Lexeme

theorem StringBody.read_begins (breaks : Nat) (text : List Char) : (read breaks text).text <+: text := by
  induction breaks, text using StringBody.read.induct with
  | case1 breaks => exact List.prefix_rfl
  | case2 breaks rest => exact ⟨rest, rfl⟩
  | case3 breaks => exact List.prefix_rfl
  | case4 breaks c rest breaks' ih =>
    rw [read]
    unfold escaped
    split
    · exact (List.prefix_cons_inj _).2 ((List.prefix_cons_inj _).2 ih)
    · exact (List.prefix_cons_inj _).2 ((List.prefix_cons_inj _).2 ih)
  | case5 breaks c rest h h' h'' ih =>
    rw [read]
    · exact (List.prefix_cons_inj _).2 ih
    · exact h
    · exact h'
    · exact h''

/-- A character that neither ends nor escapes anything stands for itself. -/
theorem StringBody.read_raw {c : Char} (hq : c ≠ '"') (hb : c ≠ '\\') (breaks : Nat) (more : List Char) :
    read breaks (c :: more) = (read (breaks + lineBreaks [c]) more).raw c := by
  rw [read]
  · exact hq
  · exact fun he => absurd he hb
  · exact fun _ _ he => absurd he hb

/-- A string that is closed ends at its quote, whatever stands behind it. -/
theorem StringBody.read_append (breaks : Nat) (text behind : List Char)
    (h : (read breaks text).ending = .closed) : read breaks (text ++ behind) = read breaks text := by
  induction breaks, text using StringBody.read.induct with
  | case1 breaks => cases h
  | case2 breaks rest => rfl
  | case3 breaks => cases h
  | case4 breaks c rest breaks' ih =>
    rw [List.cons_append, List.cons_append, read, read, ih]
    rw [read] at h
    unfold escaped at h
    split at h
    · exact h
    · exact h
  | case5 breaks c rest hquote hstray hescape ih =>
    have hc : c ≠ '\\' := by
      rintro rfl
      cases rest with
      | nil => exact hstray rfl rfl
      | cons c' rest' => exact hescape c' rest' rfl rfl
    rw [read_raw hquote hc] at h
    rw [List.cons_append, read_raw hquote hc, read_raw hquote hc, ih h]

theorem cutDecimals_point (rest : List Char) : cutDecimals ('.' :: rest) =
    if (rest.takeWhile Char.isDigit).isEmpty then [] else '.' :: rest.takeWhile Char.isDigit := rfl

/-- Without a digit behind a point there are no decimals. -/
theorem cutDecimals_of_no_digit {text : List Char}
    (h : ∀ d rest, text = '.' :: d :: rest → d.isDigit = false) : cutDecimals text = [] := by
  unfold cutDecimals
  split
  · next rest =>
    cases rest with
    | nil => rfl
    | cons d rest =>
      rw [List.takeWhile_cons, h d rest rfl]
      rfl
  · rfl

theorem cutDecimals_append (text behind : List Char) :
    cutDecimals (text ++ '\n' :: behind) = cutDecimals text := by
  have hother (c : Char) (rest : List Char) (hc : c ≠ '.') : cutDecimals (c :: rest) = [] :=
    cutDecimals_of_no_digit fun _ _ he => absurd (List.cons.inj he).1 hc
  cases text with
  | nil => exact hother _ _ (by decide)
  | cons c rest =>
    rw [List.cons_append]
    by_cases hc : c = '.'
    · subst hc
      rw [cutDecimals_point, cutDecimals_point, takeWhile_append_stop rfl]
    · rw [hother c _ hc, hother c _ hc]

theorem cutNumber_append (text behind : List Char) :
    cutNumber (text ++ '\n' :: behind) = cutNumber text := by
  unfold cutNumber
  rw [takeWhile_append_stop rfl, dropWhile_append_stop rfl, cutDecimals_append]

theorem cutWord_append (text behind : List Char) :
    cutWord (text ++ '\n' :: behind) = cutWord text := by
  unfold cutWord
  rw [takeWhile_append_stop rfl]

theorem cutString_append {rest : List Char} (h : ∀ fault, (cutString rest).kind ≠ .fault fault)
    (behind : List Char) : cutString (rest ++ behind) = cutString rest := by
  have hclosed : (StringBody.read 0 rest).ending = .closed := by
    unfold cutString at h
    cases he : (StringBody.read 0 rest).ending with
    | closed => rfl
    | missing => exact absurd (by simp only [he]) (h .unterminatedString)
    | stray => exact absurd (by simp only [he]) (h .strayEscape)
  unfold cutString
  rw [StringBody.read_append 0 rest behind hclosed]

theorem longest?_append (text behind : List Char) :
    Mark.longest? (text ++ '\n' :: behind) = Mark.longest? text := by
  have hm (m : Mark) : '\n' ∉ m.spelling := by cases m <;> decide
  unfold Mark.longest?
  simp only [fun m : Mark => isPrefixOf_append_stop (hm m) text behind]

/-- A lexeme that is no fault is the same in front of a line break. -/
theorem cut_append {c : Char} {rest : List Char} (h : ∀ fault, (cut c rest).kind ≠ .fault fault)
    (behind : List Char) : cut c (rest ++ '\n' :: behind) = cut c rest := by
  have hcomment : ['/', '/'].isPrefixOf (c :: (rest ++ '\n' :: behind)) =
      ['/', '/'].isPrefixOf (c :: rest) :=
    isPrefixOf_append_stop (by decide) (c :: rest) behind
  unfold cut at h ⊢
  rw [hcomment, ← List.cons_append, takeWhile_append_stop rfl, cutNumber_append, cutWord_append,
    longest?_append]
  by_cases hblank : isSeparator c = true
  · rw [if_pos hblank, if_pos hblank]
  by_cases hslashes : ['/', '/'].isPrefixOf (c :: rest) = true
  · rw [if_neg hblank, if_neg hblank, if_pos hslashes, if_pos hslashes]
  by_cases hquote : c = '"'
  · simp only [if_neg hblank, if_neg hslashes, if_pos hquote] at h ⊢
    exact cutString_append h _
  · simp only [if_neg hquote]

theorem cutDecimals_begins (text : List Char) : cutDecimals text <+: text := by
  unfold cutDecimals
  split
  · dsimp only
    split
    · exact List.nil_prefix
    · exact (List.prefix_cons_inj _).2 (List.takeWhile_prefix _)
  · exact List.nil_prefix

theorem cut_begins (c : Char) (rest : List Char) : (cut c rest).text <+: c :: rest := by
  have hsingle : [c] <+: c :: rest := ⟨rest, rfl⟩
  unfold cut
  split
  · exact hsingle
  split
  · exact List.takeWhile_prefix _
  split
  · next hquote =>
    subst hquote
    exact (List.prefix_cons_inj _).2 (StringBody.read_begins 0 rest)
  split
  · unfold cutNumber
    dsimp only
    split
    · exact List.takeWhile_prefix _
    · have hdecimals := (List.prefix_append_right_inj ((c :: rest).takeWhile Char.isDigit)).2
        (cutDecimals_begins ((c :: rest).dropWhile Char.isDigit))
      rwa [List.takeWhile_append_dropWhile] at hdecimals
  split
  · exact List.takeWhile_prefix _
  split
  · next mark hmark =>
    have := List.find?_some hmark
    exact List.isPrefixOf_iff_prefix.1 this
  · exact hsingle

theorem takeWhile_cons_ne_nil {α : Type} {p : α → Bool} {a : α} (h : p a = true) (rest : List α) :
    (a :: rest).takeWhile p ≠ [] := by
  rw [List.takeWhile_cons, if_pos h]
  exact List.cons_ne_nil _ _

theorem cut_nonempty (c : Char) (rest : List Char) : (cut c rest).text ≠ [] := by
  unfold cut
  split
  · exact List.cons_ne_nil _ _
  split
  · next hslashes =>
    obtain ⟨behind, hbehind⟩ := List.isPrefixOf_iff_prefix.1 hslashes
    have hc : (c != '\n') = true := by
      rw [← (List.cons.inj hbehind).1]
      decide
    exact takeWhile_cons_ne_nil (p := (· != '\n')) hc rest
  split
  · exact List.cons_ne_nil _ _
  split
  · next hdigit =>
    have hwhole := takeWhile_cons_ne_nil hdigit rest
    unfold cutNumber
    dsimp only
    split
    · exact hwhole
    · exact List.append_ne_nil_of_left_ne_nil hwhole _
  split
  · next hstart =>
    apply takeWhile_cons_ne_nil
    unfold isWordStart at hstart
    unfold isWordChar Char.isAlphanum
    rw [Bool.or_eq_true] at hstart ⊢
    exact hstart.imp_left fun h => by rw [h, Bool.true_or]
  split
  · next mark _ => cases mark <;> exact List.cons_ne_nil _ _
  · exact List.cons_ne_nil _ _

/-! ## All lexemes -/

/-- The lexemes in order make up the whole text. -/
theorem lexemesFrom_texts (skip : Nat) (text : List Char) (h : skip ≤ text.length) :
    (lexemesFrom skip text).flatMap Lexeme.text = text.drop skip := by
  induction text generalizing skip with
  | nil => cases skip <;> rfl
  | cons c rest ih =>
    cases skip with
    | succ skip => exact ih skip (Nat.le_of_succ_le_succ h)
    | zero =>
      obtain ⟨behind, hbehind⟩ := cut_begins c rest
      obtain ⟨n, hn⟩ := Nat.exists_eq_add_one.2 (List.length_pos_iff.2 (cut_nonempty c rest))
      have hle := congrArg List.length hbehind
      rw [List.length_append, List.length_cons] at hle
      have hdrop : rest.drop n = behind := by
        have := congrArg (List.drop (n + 1)) hbehind
        rwa [← hn, List.drop_left, hn, List.drop_succ_cons, eq_comm] at this
      rw [lexemesFrom, List.flatMap_cons, hn, Nat.add_sub_cancel, ih n (by omega), hdrop, List.drop_zero,
        hbehind]

theorem lexemesFrom_drop (skip : Nat) (text : List Char) :
    lexemesFrom skip text = lexemes (text.drop skip) := by
  induction text generalizing skip with
  | nil => cases skip <;> rfl
  | cons c rest ih =>
    cases skip with
    | zero => rfl
    | succ skip => exact ih skip

/-- Behind the first lexeme the text is cut as if it began there. -/
theorem lexemes_cons {c : Char} {rest behind : List Char} (h : (cut c rest).text ++ behind = c :: rest) :
    lexemes (c :: rest) = cut c rest :: lexemes behind := by
  obtain ⟨first, text, htext⟩ := List.exists_cons_of_ne_nil (cut_nonempty c rest)
  have hdrop : rest.drop text.length = behind := by
    rw [htext] at h
    rw [← (List.cons.inj h).2]
    exact List.drop_left
  have hfirst : lexemes (c :: rest) =
      cut c rest :: lexemesFrom ((cut c rest).text.length - 1) rest := rfl
  rw [hfirst, htext, List.length_cons, Nat.add_sub_cancel, lexemesFrom_drop, hdrop]

/-- A text without faults is cut as before when a line break and more text are put behind it. -/
theorem lexemesFrom_append (skip : Nat) (text behind : List Char) (hskip : skip ≤ text.length)
    (h : ∀ l ∈ lexemesFrom skip text, l.Sound) : lexemesFrom skip (text ++ '\n' :: behind) =
      lexemesFrom skip text ++ Lexeme.lineBreak :: lexemes behind := by
  induction text generalizing skip with
  | nil =>
    rw [Nat.le_zero.1 hskip]
    rfl
  | cons c rest ih =>
    cases skip with
    | succ skip => exact ih skip (Nat.le_of_succ_le_succ hskip) h
    | zero =>
      rw [lexemesFrom, List.forall_mem_cons] at h
      have hle := (cut_begins c rest).length_le
      rw [List.length_cons] at hle
      rw [List.cons_append, lexemesFrom, cut_append h.1.fault, lexemesFrom, List.cons_append,
        ih _ (by omega) h.2]

theorem lexemes_append {text : List Char} (h : ∀ l ∈ lexemes text, l.Sound) (behind : List Char) :
    lexemes (text ++ '\n' :: behind) = lexemes text ++ Lexeme.lineBreak :: lexemes behind :=
  lexemesFrom_append 0 text behind (Nat.zero_le _) h

/-! ## Tokens and errors -/

theorem Lexeme.items_errors_eq_nil_iff (line : Nat) (l : Lexeme) :
    (l.items line).filterMap ScanItem.error? = [] ↔ l.Sound := by
  have hescapes (es : List BadEscape) :
      (es.map fun e => ScanItem.error (e.error line)).filterMap ScanItem.error? = [] ↔ es = [] := by
    cases es <;> simp [ScanItem.error?]
  unfold Lexeme.items
  rw [List.filterMap_append, List.append_eq_nil_iff, hescapes]
  constructor
  · rintro ⟨he, hk⟩
    refine ⟨he, fun fault hf => ?_⟩
    rw [hf] at hk
    cases hk
  · rintro ⟨he, hk⟩
    refine ⟨he, ?_⟩
    cases hl : l.kind with
    | fault fault => exact absurd hl (hk fault)
    | _ => rfl

theorem itemsFrom_errors_eq_nil_iff (line : Nat) (ls : List Lexeme) :
    (itemsFrom line ls).filterMap ScanItem.error? = [] ↔ ∀ l ∈ ls, l.Sound := by
  induction ls generalizing line with
  | nil => simp [itemsFrom, ScanItem.error?]
  | cons l rest ih =>
    rw [itemsFrom, List.filterMap_append, List.append_eq_nil_iff, Lexeme.items_errors_eq_nil_iff, ih,
      List.forall_mem_cons]

theorem lexicalErrors_eq_nil_iff (source : String) :
    lexicalErrors source = [] ↔ ∀ l ∈ lexemes source.toList, l.Sound :=
  itemsFrom_errors_eq_nil_iff 1 _

/-- The token on another line. -/
def Token.reline (move : Nat → Nat) (t : Token) : Token := { t with line := move t.line }

/-- The line of a token behind a text and a line break. -/
def lineAfter (text : String) (line : Nat) : Nat := line + (lineBreaks text.toList + 1)

theorem wordsFrom_append (line : Nat) (ls ls' : List Lexeme) :
    wordsFrom line (ls ++ ls') = wordsFrom line ls ++ wordsFrom (lineBehind line ls) ls' := by
  induction ls generalizing line with
  | nil => rfl
  | cons l rest ih =>
    rw [List.cons_append, wordsFrom, ih, wordsFrom, List.append_assoc]
    rfl

theorem wordsFrom_add (line more : Nat) (ls : List Lexeme) :
    wordsFrom (line + more) ls = (wordsFrom line ls).map (Token.reline (· + more)) := by
  induction ls generalizing line with
  | nil => rfl
  | cons l rest ih =>
    rw [wordsFrom, wordsFrom, List.map_append, Nat.add_right_comm, ih, Lexeme.items_tokens,
      Lexeme.items_tokens]
    congr 1
    cases l.kind with
    | token kind => simp only [List.map_cons, List.map_nil, Token.reline, Nat.add_right_comm]
    | _ => rfl

theorem lineBehind_texts (line : Nat) (ls : List Lexeme) :
    lineBehind line ls = line + lineBreaks (ls.flatMap Lexeme.text) := by
  induction ls generalizing line with
  | nil => rfl
  | cons l rest ih =>
    have hrest : lineBehind line (l :: rest) = line + lineBreaks l.text +
        lineBreaks (rest.flatMap Lexeme.text) := ih (line + lineBreaks l.text)
    rw [hrest, List.flatMap_cons]
    unfold lineBreaks
    rw [List.count_append, Nat.add_assoc]

theorem lineBehind_lexemes (line : Nat) (text : List Char) :
    lineBehind line (lexemes text) = line + lineBreaks text := by
  have htexts : (lexemes text).flatMap Lexeme.text = text := lexemesFrom_texts 0 text (Nat.zero_le _)
  rw [lineBehind_texts, htexts]

/-- A text with another one behind it on a new line. -/
def joinedText (first second : String) : String := first ++ "\n" ++ second

section Joined
variable {first : String} (second : String)

theorem lexemes_joinedText (h : lexicalErrors first = []) : lexemes (joinedText first second).toList =
    lexemes first.toList ++ Lexeme.lineBreak :: lexemes second.toList := by
  have htext : (joinedText first second).toList = first.toList ++ '\n' :: second.toList := by
    simp [joinedText]
  rw [htext, lexemes_append ((lexicalErrors_eq_nil_iff first).1 h)]

/-- Joining two texts without lexical errors makes none. -/
theorem lexicalErrors_joinedText (h : lexicalErrors first = []) (h' : lexicalErrors second = []) :
    lexicalErrors (joinedText first second) = [] := by
  rw [lexicalErrors_eq_nil_iff, lexemes_joinedText second h]
  rw [lexicalErrors_eq_nil_iff] at h h'
  simp only [List.forall_mem_append, List.forall_mem_cons]
  exact ⟨h, Lexeme.lineBreak_sound, h'⟩

/-- The tokens of a joined text are those of the first text and, further down, those of the second. -/
theorem sourceWords_joinedText (h : lexicalErrors first = []) : sourceWords (joinedText first second) =
    sourceWords first ++ (sourceWords second).map (Token.reline (lineAfter first)) := by
  unfold sourceWords
  rw [lexemes_joinedText second h, wordsFrom_append, lineBehind_lexemes]
  have hbreak : wordsFrom (1 + lineBreaks first.toList) (Lexeme.lineBreak :: lexemes second.toList) =
      wordsFrom (1 + (lineBreaks first.toList + 1)) (lexemes second.toList) := rfl
  rw [hbreak, wordsFrom_add]
  rfl

end Joined

end LoxLang
