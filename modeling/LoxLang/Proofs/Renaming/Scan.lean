import LoxLang.Proofs.Renaming.Syntax
import LoxLang.Proofs.Scan.LongestMatch

/-!
# The text of the renamed program

In the text of a program one identifier is put in place of another one here and there. The new text is cut
into the same lexemes but for these: where a lexeme ends depends on whether the next one begins like a word,
not on which word it is. So the tokens stand on the same lines as before.
-/

namespace LoxLang

variable {ρ : Renaming}

/-! ## Texts that begin alike -/

/-- Up to its first word the second text begins like the first one, and where it goes on with a character of
a word, so does the first one. -/
structure BeginsLike (text text' : List Char) : Prop where
  plain (part : List Char) : (∀ c ∈ part, isWordStart c = false) → part <+: text' → part <+: text
  word : ∀ c ∈ text'.head?, isWordChar c = true → ∃ d ∈ text.head?, isWordChar d = true

namespace BeginsLike
variable {text text' behind behind' : List Char}

theorem refl (text : List Char) : BeginsLike text text := ⟨fun _ _ h => h, fun c hc hw => ⟨c, hc, hw⟩⟩

theorem prepend (h : BeginsLike behind behind') (text : List Char) :
    BeginsLike (text ++ behind) (text ++ behind') := by
  constructor
  case plain =>
    rintro part hplain ⟨more, hmore⟩
    rcases List.append_eq_append_iff.1 hmore with ⟨rest, rfl, -⟩ | ⟨rest, rfl, hrest⟩
    · exact ⟨rest ++ behind, by rw [List.append_assoc]⟩
    · have hbehind := h.plain rest (fun c hc => hplain c (List.mem_append_right _ hc)) ⟨more, hrest.symm⟩
      exact (List.prefix_append_right_inj text).2 hbehind
  case word =>
    cases text with
    | nil => exact h.word
    | cons c rest => exact (refl (c :: rest)).word

/-- Two texts that begin with words. -/
theorem words {c c' : Char} (hc : isWordStart c = true) (hc' : isWordStart c' = true) :
    BeginsLike (c :: text) (c' :: text') := by
  constructor
  case plain =>
    intro part hplain hpart
    cases part with
    | nil => exact List.nil_prefix
    | cons d rest =>
      obtain ⟨rfl, -⟩ := List.cons_prefix_cons.1 hpart
      exact absurd ((hplain d List.mem_cons_self).symm.trans hc') Bool.false_ne_true
  case word => exact fun _ _ _ => ⟨c, rfl, isWordStart_isWordChar hc⟩

end BeginsLike

/-! ## Lexemes in front of such texts -/

theorem Mark.spelling_plain (m : Mark) : ∀ c ∈ m.spelling, isWordStart c = false := by
  have hmarks : (Mark.byLength.all fun m => m.spelling.all fun c => !isWordStart c) = true := by decide
  have hm := List.all_eq_true.1 hmarks m m.mem_byLength
  simpa using hm

theorem isDigit_plain {c : Char} (h : c.isDigit = true) : isWordStart c = false := by
  rw [Bool.eq_false_iff]
  exact fun hw => absurd ((isWordStart_not_isDigit hw).symm.trans h) Bool.false_ne_true

theorem word_head {word : List Char} (h : IsForm (.word word) word) :
    ∃ c rest, word = c :: rest ∧ isWordStart c = true := by
  cases h with
  | word hc _ => exact ⟨_, _, rfl, hc⟩

/-- Behind the longest word stands no character of a word. -/
theorem IsLongest.no_word_behind {word behind : List Char} (h : IsLongest (.word word) word behind) :
    ∀ c ∈ behind.head?, isWordChar c = false := by
  obtain ⟨hform, hlongest⟩ := h
  intro c hc
  obtain ⟨more, rfl⟩ := List.head?_eq_some_iff.1 hc
  cases hform with
  | @word first rest hstart hrest =>
    by_contra hword
    rw [Bool.not_eq_false] at hword
    have hall : ∀ d ∈ rest ++ [c], isWordChar d = true :=
      List.forall_mem_append.2 ⟨hrest, by simpa using hword⟩
    have hlonger := hlongest _ _ (.word hstart hall) ⟨more, by simp⟩
    simp at hlonger

/-- A word is the longest one if no character of a word stands behind it. -/
theorem isLongest_word {word behind : List Char} (h : IsForm (.word word) word)
    (hb : ∀ c ∈ behind.head?, isWordChar c = false) : IsLongest (.word word) word behind := by
  refine ⟨h, fun other part hother hpart => ?_⟩
  obtain ⟨c, rest, rfl, hc⟩ := word_head h
  by_contra hlt
  rw [Nat.not_le] at hlt
  obtain ⟨more, rfl⟩ := List.prefix_of_prefix_length_le (List.prefix_append (c :: rest) behind) hpart
    (Nat.le_of_lt hlt)
  obtain ⟨found, rfl⟩ := (hother.starts_head (List.append_nil _)).letter hc
  obtain rfl := hother.word_text
  cases more with
  | nil => simp at hlt
  | cons d more =>
    obtain ⟨tail, rfl⟩ := (List.prefix_append_right_inj (c :: rest)).1 hpart
    cases hother with
    | word _ hrest =>
      have hd : isWordChar d = true := hrest d (by simp)
      exact absurd ((hb d rfl).symm.trans hd) Bool.false_ne_true

theorem BeginsLike.no_word {behind behind' : List Char} (hb : BeginsLike behind behind')
    (h : ∀ c ∈ behind.head?, isWordChar c = false) : ∀ c ∈ behind'.head?, isWordChar c = false := by
  intro c hc
  by_contra hword
  obtain ⟨d, hd, hword⟩ := hb.word c hc (Bool.eq_true_of_not_eq_false hword)
  exact absurd ((h d hd).symm.trans hword) Bool.false_ne_true

/-- What is the longest text with a form stays the longest one. -/
theorem IsLongest.beginsLike {form : Form} {text behind behind' : List Char} (h : IsLongest form text behind)
    (hb : BeginsLike behind behind') : IsLongest form text behind' := by
  refine ⟨h.form, fun other part hother hpart => ?_⟩
  have hplain (hp : ∀ c ∈ part, isWordStart c = false) : part.length ≤ text.length :=
    h.longest other part hother ((hb.prepend text).plain part hp hpart)
  obtain ⟨first, tail, rfl, hstarts⟩ := h.form.starts
  cases hother with
  | mark m => exact hplain m.spelling_plain
  | integer _ hd => exact hplain fun c hc => isDigit_plain (hd c hc)
  | decimal _ hd _ hd' =>
    refine hplain fun c hc => ?_
    rcases List.mem_append.1 hc with hc | hc
    · exact isDigit_plain (hd c hc)
    · rcases List.mem_cons.1 hc with rfl | hc
      · decide
      · exact isDigit_plain (hd' c hc)
  | @word c rest hc hrest =>
    obtain ⟨rfl, -⟩ := List.cons_prefix_cons.1 hpart
    obtain ⟨word, rfl⟩ := hstarts.letter hc
    obtain rfl := h.form.word_text
    exact (isLongest_word h.form (hb.no_word h.no_word_behind)).longest _ _ (.word hc hrest) hpart
  | @string body value bad hbody =>
    obtain ⟨rfl, -⟩ := List.cons_prefix_cons.1 hpart
    have hform := string_eq_cutString h.form (List.prefix_append ('"' :: tail) behind')
    have hother := string_eq_cutString (.string hbody) hpart
    rw [hother, hform]

theorem not_slashes_beginsLike {text behind behind' : List Char} (h : ¬ ['/', '/'] <+: text ++ behind)
    (hb : BeginsLike behind behind') : ¬ ['/', '/'] <+: text ++ behind' := by
  have hplain : ∀ c ∈ ['/', '/'], isWordStart c = false := by
    simp only [List.mem_cons, List.not_mem_nil, or_false]
    rintro c (rfl | rfl) <;> rfl
  exact fun hp => h ((hb.prepend text).plain _ hplain hp)

/-- A lexeme that is no fault stays one. -/
theorem IsLexeme.beginsLike {text bad behind behind' : List Char} {kind : LexemeKind}
    (h : IsLexeme text behind kind bad) (hfault : ∀ fault, kind ≠ .fault fault)
    (hb : BeginsLike behind behind') : IsLexeme text behind' kind bad := by
  cases h with
  | blank hc => exact .blank hc
  | comment hslashes hline hbehind =>
    refine .comment hslashes hline fun c hc => ?_
    cases hw : isWordStart c with
    | true =>
      obtain ⟨d, hd, hword⟩ := hb.word c hc (isWordStart_isWordChar hw)
      rw [hbehind d hd] at hword
      exact absurd hword (by decide)
    | false =>
      obtain ⟨rest, rfl⟩ := List.head?_eq_some_iff.1 hc
      obtain ⟨more, rfl⟩ := hb.plain [c] (by simpa using hw) ⟨rest, rfl⟩
      exact hbehind c rfl
  | token hslashes hlongest hk =>
    exact .token (not_slashes_beginsLike hslashes hb) (hlongest.beginsLike hb) hk
  | unexpected | tooLarge | unterminated | stray => exact absurd rfl (hfault _)

/-! ## Identifiers -/

/-- A word that is no keyword. -/
structure IsIdentifier (name : String) : Prop where
  word : IsForm (.word name.toList) name.toList
  free : ∀ k : Keyword, name ≠ k.text

theorem IsLexeme.identifier {text bad behind : List Char} (h : IsLexeme text behind (.token .identifier) bad) :
    IsLongest (.word text) text behind := by
  cases h with
  | token _ hlongest hk =>
    cases hk
    obtain rfl := hlongest.form.word_text
    exact hlongest

/-- An identifier may stand in place of another one. -/
theorem IsLexeme.renamed {text behind behind' : List Char} {name : String}
    (h : IsLexeme text behind (.token .identifier) []) (hn : IsIdentifier name)
    (hb : BeginsLike behind behind') : IsLexeme name.toList behind' (.token .identifier) [] := by
  have hslashes : ¬ ['/', '/'] <+: name.toList ++ behind' := by
    obtain ⟨c, rest, hname, hc⟩ := word_head hn.word
    rw [hname]
    intro hp
    obtain ⟨rfl, -⟩ := List.cons_prefix_cons.1 hp
    exact absurd hc (by decide)
  have hkeyword : ∀ k : Keyword, name.toList ≠ k.spelling := by
    intro k he
    exact hn.free k (by rw [Keyword.text, ← he, String.ofList_toList])
  have hstop := hb.no_word h.identifier.no_word_behind
  exact .token hslashes (isLongest_word hn.word hstop) (.identifier hkeyword)

/-! ## Renaming in a text -/

/-- The same lexeme, or an identifier with the new name in place of the old one. -/
inductive LexemeRenamed (ρ : Renaming) : Lexeme → Lexeme → Prop
  | same (l : Lexeme) : LexemeRenamed ρ l l
  | identifier : LexemeRenamed ρ ⟨ρ.old.toList, .token .identifier, []⟩ ⟨ρ.new.toList, .token .identifier, []⟩

abbrev LexemesRenamed (ρ : Renaming) : List Lexeme → List Lexeme → Prop := List.Forall₂ (LexemeRenamed ρ)

theorem LexemesRenamed.sound {ls ls' : List Lexeme} (h : LexemesRenamed ρ ls ls') (hs : ∀ l ∈ ls, l.Sound) :
    ∀ l ∈ ls', l.Sound := by
  induction h with
  | nil => exact hs
  | cons hl _ ih =>
    obtain ⟨hfirst, hothers⟩ := List.forall_mem_cons.1 hs
    refine List.forall_mem_cons.2 ⟨?_, ih hothers⟩
    cases hl with
    | same => exact hfirst
    | identifier => exact ⟨rfl, nofun⟩

/-- The texts are the same but for identifiers of the old name that have the new name in the second text. -/
def TextRenamed (ρ : Renaming) (source source' : String) : Prop :=
  LexemesRenamed ρ (lexemes source.toList) (lexemes source'.toList)

/-- A lexeme with no unknown escapes is cut where it stands. -/
theorem lexemes_of_isLexeme {l : Lexeme} {behind : List Char} (h : IsLexeme l.text behind l.kind [])
    (hne : l.text ≠ []) (hescapes : l.badEscapes = []) :
    lexemes (l.text ++ behind) = l :: lexemes behind := by
  obtain ⟨c, rest, hrest⟩ := List.exists_cons_of_ne_nil (List.append_ne_nil_of_left_ne_nil hne behind)
  obtain ⟨htext, hkind, hbad⟩ := h.eq_cut hrest
  have hcut : cut c rest = l := by
    generalize cut c rest = found at *
    obtain ⟨text, kind, badEscapes⟩ := l
    obtain ⟨_, _, badEscapes'⟩ := found
    cases htext
    cases hkind
    cases hescapes
    cases List.map_eq_nil_iff.1 hbad
    rfl
  rw [hrest, lexemes_cons (by rw [hcut, hrest]), hcut]

/-- The lexemes of a text without errors, some identifiers among them renamed, are cut again. -/
theorem lexemes_renamed (hn : IsIdentifier ρ.new) {ls ls' : List Lexeme} (h : LexemesRenamed ρ ls ls') :
    ∀ text, lexemes text = ls → (∀ l ∈ ls, l.Sound) →
      lexemes (ls'.flatMap Lexeme.text) = ls' ∧ BeginsLike text (ls'.flatMap Lexeme.text) := by
  induction h with
  | nil =>
    intro text hls _
    have htext := lexemes_texts text
    rw [hls] at htext
    exact ⟨rfl, htext ▸ .refl []⟩
  | @cons l l' rest rest' hl _ ih =>
    intro text hls hsound
    obtain ⟨hfirst, hothers⟩ := List.forall_mem_cons.1 hsound
    have hsplit : lexemes text = [] ++ l :: rest := hls
    obtain ⟨c, more, rfl, rfl, -⟩ := lexemes_split hsplit
    obtain ⟨behind, hbehind⟩ := cut_begins c more
    have hrest := (List.cons.inj ((lexemes_cons hbehind).symm.trans hls)).2
    -- Behind the first lexeme the text is renamed already, and it begins like the old one there.
    obtain ⟨hlexemes, hlike⟩ := ih behind hrest hothers
    have hlexeme := isLexeme_cut hbehind
    rw [hfirst.escapes] at hlexeme
    rw [List.flatMap_cons, List.flatMap_nil, List.nil_append, ← hbehind]
    have hne := cut_nonempty c more
    generalize cut c more = l at *
    cases hl with
    | same =>
      have hagain := lexemes_of_isLexeme (hlexeme.beginsLike hfirst.fault hlike) hne hfirst.escapes
      exact ⟨by rw [hagain, hlexemes], hlike.prepend _⟩
    | identifier =>
      obtain ⟨d, tail, hword, hd⟩ := word_head hn.word
      obtain ⟨d', tail', hword', hd'⟩ : ∃ c rest, ρ.old.toList = c :: rest ∧ isWordStart c = true :=
        word_head hlexeme.identifier.form
      have hnew : ρ.new.toList ≠ [] := by
        rw [hword]
        exact List.cons_ne_nil _ _
      have hagain := lexemes_of_isLexeme (l := ⟨ρ.new.toList, .token .identifier, []⟩)
        (hlexeme.renamed hn hlike) hnew rfl
      refine ⟨by rw [hagain, hlexemes], ?_⟩
      dsimp only
      rw [hword, hword']
      exact .words hd' hd

/-! ## Renaming among the tokens -/

theorem IsForm.lineBreaks_word {word : List Char} (h : IsForm (.word word) word) : lineBreaks word = 0 := by
  unfold lineBreaks
  rw [List.count_eq_zero]
  intro hm
  cases h with
  | word hc hrest =>
    rcases List.mem_cons.1 hm with rfl | hm
    · exact absurd hc (by decide)
    · exact absurd (hrest _ hm) (by decide)

/-- Where the token of a lexeme is exchanged, the lexeme is renamed. -/
theorem lexeme_exchanged (hn : IsIdentifier ρ.new) {l : Lexeme} (hs : l.Sound)
    (hw : l.kind = .token .identifier → IsForm (.word l.text) l.text) {line : Nat} {us : List Token}
    (h : TokensExchanged ρ ((l.items line).filterMap ScanItem.token?) us)
    (hnew : ∀ t ∈ (l.items line).filterMap ScanItem.token?, t.kind = .identifier → t.lexeme ≠ ρ.new) :
    ∃ l', LexemeRenamed ρ l l' ∧ (l'.items line).filterMap ScanItem.token? = us ∧
      lineBreaks l'.text = lineBreaks l.text := by
  have hsame (hu : us = (l.items line).filterMap ScanItem.token?) : ∃ l', LexemeRenamed ρ l l' ∧
      (l'.items line).filterMap ScanItem.token? = us ∧ lineBreaks l'.text = lineBreaks l.text :=
    ⟨l, .same l, hu.symm, rfl⟩
  rw [Lexeme.items_tokens] at h hnew hsame
  split at h
  · next kind hk =>
    rw [hk] at hnew hsame
    obtain _ | ⟨ht, hnil⟩ := h
    cases hnil
    cases ht with
    | same => exact hsame rfl
    | identifier hkind =>
      cases hkind
      have hne := hnew _ List.mem_cons_self rfl
      by_cases hold : String.ofList l.text = ρ.old
      · obtain ⟨text, _, badEscapes⟩ := l
        cases hk
        cases hs.escapes
        have htext : text = ρ.old.toList := by rw [← hold, String.toList_ofList]
        subst htext
        refine ⟨_, .identifier, ?_, ?_⟩
        · rw [Lexeme.items_tokens]
          simp [hn.word.lineBreaks_word, (hw rfl).lineBreaks_word, exchange_old]
        · exact hn.word.lineBreaks_word.trans (hw rfl).lineBreaks_word.symm
      · refine hsame ?_
        rw [exchange_of_ne hold hne]
  · next hk =>
    cases h
    refine hsame ?_
    split
    · next kind hkind => exact absurd hkind (hk kind)
    · rfl

/-- Where identifiers are exchanged among the tokens, they are renamed among the lexemes. -/
theorem lexemes_exchanged (hn : IsIdentifier ρ.new) {ls : List Lexeme} (hsound : ∀ l ∈ ls, l.Sound)
    (hwords : ∀ l ∈ ls, l.kind = .token .identifier → IsForm (.word l.text) l.text) :
    ∀ line ts', TokensExchanged ρ (wordsFrom line ls) ts' →
      (∀ t ∈ wordsFrom line ls, t.kind = .identifier → t.lexeme ≠ ρ.new) →
      ∃ ls', LexemesRenamed ρ ls ls' ∧ wordsFrom line ls' = ts' := by
  induction ls with
  | nil =>
    intro line ts' h _
    cases h
    exact ⟨[], .nil, rfl⟩
  | cons l rest ih =>
    intro line ts' h hnew
    obtain ⟨hfirst, hothers⟩ := List.forall_mem_cons.1 hsound
    obtain ⟨hword, hwords⟩ := List.forall_mem_cons.1 hwords
    obtain ⟨us, us', rfl, htoken, hrest⟩ := tokensExchanged_split h
    rw [wordsFrom, List.forall_mem_append] at hnew
    obtain ⟨l', hl, rfl, hbreaks⟩ := lexeme_exchanged hn hfirst hword htoken hnew.1
    obtain ⟨rest', hrenamed, rfl⟩ := ih hothers hwords _ us' hrest hnew.2
    exact ⟨l' :: rest', .cons hl hrenamed, by rw [wordsFrom, hbreaks]⟩

/-- The identifiers of a text are words. -/
theorem lexemes_words {text : List Char} : ∀ l ∈ lexemes text, l.kind = .token .identifier →
    IsForm (.word l.text) l.text := by
  intro l hl hk
  obtain ⟨before, after, hsplit⟩ := List.append_of_mem hl
  obtain ⟨c, rest, -, rfl, -⟩ := lexemes_split hsplit
  obtain ⟨behind, hbehind⟩ := cut_begins c rest
  have hlexeme := isLexeme_cut hbehind
  rw [hk] at hlexeme
  exact hlexeme.identifier.form

/-- A renamed program has a text in which identifiers are renamed, and is read from it with the same
identities. -/
theorem checkProgram_renamed {source : String} {first next : NodeId} {program program' : List Stmt}
    {n : Nesting} (hc : checkProgram source first = (.ok program, next)) (hn : IsIdentifier ρ.new)
    (hnew : ρ.new ∉ bodyNames program) (h : BodyRenamed ρ n program program') :
    ∃ source', TextRenamed ρ source source' ∧ checkProgram source' first = (.ok program', next) := by
  obtain ⟨herrors, hspells⟩ := checkProgram_eq_ok_iff.1 hc
  have hsound := (lexicalErrors_eq_nil_iff source).1 herrors
  obtain ⟨ts', htokens, hspells'⟩ := hspells.renamed h
  obtain ⟨ls', hrenamed, hwords⟩ := lexemes_exchanged hn hsound lexemes_words 1 ts' htokens
    fun t ht hk he => hnew (he ▸ hspells.namedIn t ht hk)
  obtain ⟨hlexemes, -⟩ := lexemes_renamed hn hrenamed source.toList rfl hsound
  let source' := String.ofList (ls'.flatMap Lexeme.text)
  have hsource' : lexemes source'.toList = ls' := by rw [String.toList_ofList, hlexemes]
  refine ⟨source', ?_, checkProgram_eq_ok_iff.2 ⟨?_, ?_⟩⟩
  · rwa [TextRenamed, hsource']
  · rw [lexicalErrors_eq_nil_iff, hsource']
    exact LexemesRenamed.sound hrenamed hsound
  · rwa [sourceWords, hsource', hwords]

end LoxLang
