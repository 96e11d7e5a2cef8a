import Mathlib.Data.List.Induction
import Mathlib.Data.List.TakeWhile
import Mathlib.Data.Nat.Digits.Defs
import LoxLang.Proofs.Joining.Scan

/-!
# The forms of tokens

What a token may look like, said without cutting a text: a mark, digits, digits with a point between them, a
word, or a string in quotes. A lexeme is one of seven kinds of text, and a token is the longest beginning of
the remaining text that has a form. The next cut is the only lexeme that a text may begin with.
-/

namespace LoxLang

open Decimal (digitValue digitsValue)

/-- The inside of a string, what it stands for, and the characters that are escaped without need. A quote and
a backslash stand behind a backslash only, and every backslash stands in front of a character. -/
inductive IsStringBody : List Char → List Char → List Char → Prop
  | nil : IsStringBody [] [] []
  | raw {c : Char} {text value bad : List Char} : c ≠ '"' → c ≠ '\\' → IsStringBody text value bad →
      IsStringBody (c :: text) (c :: value) bad
  | known {c decoded : Char} {text value bad : List Char} : unescape c = some decoded →
      IsStringBody text value bad → IsStringBody ('\\' :: c :: text) (decoded :: value) bad
  | unknown {c : Char} {text value bad : List Char} : unescape c = none →
      IsStringBody text value bad → IsStringBody ('\\' :: c :: text) value (c :: bad)

/-- The form of a token. -/
inductive Form where
  | mark (mark : Mark)
  | integer (value : Nat)
  /-- The number that all digits denote, and how many of them stand behind the point. -/
  | decimal (value places : Nat)
  | word (text : List Char)
  /-- What a string stands for, and its unknown escapes. -/
  | string (value bad : List Char)

/-- A text has a form. -/
inductive IsForm : Form → List Char → Prop
  | mark (m : Mark) : IsForm (.mark m) m.spelling
  | integer {digits : List Char} : digits ≠ [] → (∀ c ∈ digits, c.isDigit = true) →
      IsForm (.integer (Nat.ofDigits 10 (digits.reverse.map digitValue))) digits
  | decimal {whole places : List Char} : whole ≠ [] → (∀ c ∈ whole, c.isDigit = true) →
      places ≠ [] → (∀ c ∈ places, c.isDigit = true) →
      IsForm (.decimal (Nat.ofDigits 10 ((whole ++ places).reverse.map digitValue)) places.length)
        (whole ++ '.' :: places)
  | word {c : Char} {rest : List Char} : isWordStart c = true → (∀ d ∈ rest, isWordChar d = true) →
      IsForm (.word (c :: rest)) (c :: rest)
  | string {body value bad : List Char} : IsStringBody body value bad →
      IsForm (.string value bad) ('"' :: (body ++ ['"']))

/-- The token of a form. An integer has one only if it fits in a signed word of 64 bits. -/
inductive Form.IsToken : Form → TokenKind → Prop
  | mark (m : Mark) : IsToken (.mark m) (.mark m)
  | integer {n : Nat} {value : Int64} : value.toInt = n → IsToken (.integer n) (.int value)
  | decimal (n places : Nat) : IsToken (.decimal n places) (.float (Decimal.ofScaled n (-places)))
  | keyword (k : Keyword) : IsToken (.word k.spelling) (.keyword k)
  | identifier {text : List Char} : (∀ k : Keyword, text ≠ k.spelling) → IsToken (.word text) .identifier
  | string (value bad : List Char) : IsToken (.string value bad) (.string (String.ofList value))

/-- The unknown escapes of a form. -/
def Form.bad : Form → List Char
  | .string _ bad => bad
  | _ => []

/-- A text is the longest one with a form at its place, with `behind` behind it. -/
structure IsLongest (form : Form) (text behind : List Char) : Prop where
  form : IsForm form text
  longest (other : Form) (part : List Char) : IsForm other part → part <+: text ++ behind →
    part.length ≤ text.length

/-- A lexeme with what stands behind it: its text, what it is, and its unknown escapes. -/
inductive IsLexeme : List Char → List Char → LexemeKind → List Char → Prop
  | blank {c : Char} {behind : List Char} : c ∈ [' ', '\r', '\t', '\n'] → IsLexeme [c] behind .blank []
  | comment {text behind : List Char} : ['/', '/'] <+: text → '\n' ∉ text →
      (∀ c ∈ behind.head?, c = '\n') → IsLexeme text behind .comment []
  | token {form : Form} {kind : TokenKind} {text behind : List Char} : ¬ ['/', '/'] <+: text ++ behind →
      IsLongest form text behind → form.IsToken kind → IsLexeme text behind (.token kind) form.bad
  | unexpected {c : Char} {behind : List Char} : c ∉ [' ', '\r', '\t', '\n'] →
      (∀ form text, ¬ IsForm form (c :: text)) →
      IsLexeme [c] behind (.fault (.unexpectedCharacter c)) []
  | tooLarge {n : Nat} {digits behind : List Char} : IsLongest (.integer n) digits behind → 2 ^ 63 ≤ n →
      IsLexeme digits behind (.fault (.integerTooLarge (String.ofList digits))) []
  | unterminated {body value bad : List Char} : IsStringBody body value bad →
      IsLexeme ('"' :: body) [] (.fault .unterminatedString) bad
  | stray {body value bad : List Char} : IsStringBody body value bad →
      IsLexeme ('"' :: (body ++ ['\\'])) [] (.fault .strayEscape) bad

/-! ## Beginnings of lists -/

section Lists
variable {α : Type} {p : α → Bool} {part text behind : List α}

theorem prefix_takeWhile (hp : ∀ a ∈ part, p a = true) (h : part <+: text) : part <+: text.takeWhile p := by
  obtain ⟨rest, rfl⟩ := h
  rw [List.takeWhile_append_of_pos hp]
  exact List.prefix_append _ _

theorem eq_dropWhile (h : text.takeWhile p ++ behind = text) : behind = text.dropWhile p := by
  have happend := List.takeWhile_append_dropWhile (p := p) (l := text)
  exact List.append_cancel_left (h.trans happend.symm)

theorem head?_dropWhile {a : α} (h : a ∈ (text.dropWhile p).head?) : p a = false := by
  have hnot := List.head?_dropWhile_not p text
  rw [Option.mem_def.1 h] at hnot
  exact hnot

theorem eq_of_prefixes {whole : List α} (ht : text <+: whole) (hp : part <+: whole)
    (h : text.length ≤ part.length) (h' : part.length ≤ text.length) : text = part :=
  (List.prefix_of_prefix_length_le ht hp h).eq_of_length (Nat.le_antisymm h h')

end Lists

/-! ## How forms begin -/

/-- The number that digits denote, digit by digit and by places. -/
theorem digitsValue_eq_ofDigits (digits : List Char) :
    digitsValue digits = Nat.ofDigits 10 (digits.reverse.map digitValue) := by
  induction digits using List.reverseRecOn with
  | nil => rfl
  | append_singleton digits c ih =>
    have hfold : digitsValue (digits ++ [c]) = 10 * digitsValue digits + digitValue c := by
      unfold digitsValue
      rw [List.foldl_append]
      rfl
    rw [hfold, ih, List.reverse_append, List.reverse_singleton, List.singleton_append, List.map_cons,
      Nat.ofDigits_cons, Nat.add_comm]

/-- The characters with which a form may begin. -/
def Form.Starts (c : Char) : Form → Prop
  | .mark _ => ∃ m : Mark, m.spelling = [c]
  | .integer _ => c.isDigit = true
  | .decimal _ _ => c.isDigit = true
  | .word _ => isWordStart c = true
  | .string _ _ => c = '"'

theorem Mark.head_spelled (m : Mark) : ∃ c rest, m.spelling = c :: rest ∧ ∃ m' : Mark, m'.spelling = [c] := by
  have hheads : ∀ m ∈ byLength, ∃ m' ∈ byLength, m'.spelling = m.spelling.take 1 := by decide
  obtain ⟨m', -, hm'⟩ := hheads m m.mem_byLength
  cases hm : m.spelling with
  | nil => cases m <;> cases hm
  | cons c rest =>
    rw [hm] at hm'
    exact ⟨c, rest, rfl, m', hm'⟩

theorem IsForm.starts {form : Form} {text : List Char} (h : IsForm form text) :
    ∃ c rest, text = c :: rest ∧ form.Starts c := by
  have hdigit {digits : List Char} (hne : digits ≠ []) (hd : ∀ c ∈ digits, c.isDigit = true) :
      ∃ c rest, digits = c :: rest ∧ c.isDigit = true := by
    obtain ⟨c, rest, rfl⟩ := List.exists_cons_of_ne_nil hne
    exact ⟨c, rest, rfl, hd c List.mem_cons_self⟩
  cases h with
  | mark m => exact m.head_spelled
  | integer hne hd => exact hdigit hne hd
  | @decimal whole places hne hd _ _ =>
    obtain ⟨c, rest, rfl, hc⟩ := hdigit hne hd
    exact ⟨c, rest ++ '.' :: places, rfl, hc⟩
  | word hc _ => exact ⟨_, _, rfl, hc⟩
  | string _ => exact ⟨_, _, rfl, rfl⟩

theorem IsForm.word_text {word text : List Char} (h : IsForm (.word word) text) : text = word := by
  cases h
  rfl

theorem IsForm.starts_head {form : Form} {text behind rest : List Char} {c : Char} (h : IsForm form text)
    (hp : text ++ behind = c :: rest) : form.Starts c := by
  obtain ⟨d, more, rfl, hd⟩ := h.starts
  obtain ⟨rfl, -⟩ := List.cons.inj hp
  exact hd

theorem mark_start_cases {c : Char} (h : ∃ m : Mark, m.spelling = [c]) :
    c.isDigit = false ∧ isWordStart c = false ∧ c ≠ '"' ∧ isSeparator c = false := by
  have hmarks : (Mark.byLength.all fun m => m.spelling.all fun c =>
      !c.isDigit && !isWordStart c && c != '"' && !isSeparator c) = true := by decide
  obtain ⟨m, hm⟩ := h
  have hc := List.all_eq_true.1 (List.all_eq_true.1 hmarks m m.mem_byLength) c
    (hm ▸ List.mem_singleton_self c)
  simpa [and_assoc] using hc

theorem ne_of_test {p : Char → Bool} {c d : Char} (hc : p c = true) (hd : p d = false) : c ≠ d := by
  rintro rfl
  exact absurd (hc.symm.trans hd) Bool.true_eq_false.mp

theorem isSeparator_iff (c : Char) : isSeparator c = true ↔ c ∈ [' ', '\r', '\t', '\n'] := by
  simp [isSeparator, or_assoc]

theorem isDigit_not_isSeparator {c : Char} (h : c.isDigit = true) : isSeparator c = false := by
  have hspace : c ≠ ' ' := ne_of_test h rfl
  have hreturn : c ≠ '\r' := ne_of_test h rfl
  have htab : c ≠ '\t' := ne_of_test h rfl
  have hbreak : c ≠ '\n' := ne_of_test h rfl
  simp [isSeparator, hspace, hreturn, htab, hbreak]

theorem isWordStart_not_isSeparator {c : Char} (h : isWordStart c = true) : isSeparator c = false := by
  have hspace : c ≠ ' ' := ne_of_test h (by decide)
  have hreturn : c ≠ '\r' := ne_of_test h (by decide)
  have htab : c ≠ '\t' := ne_of_test h (by decide)
  have hbreak : c ≠ '\n' := ne_of_test h (by decide)
  simp [isSeparator, hspace, hreturn, htab, hbreak]

theorem isWordStart_not_isDigit {c : Char} (h : isWordStart c = true) : c.isDigit = false := by
  rw [Bool.eq_false_iff]
  intro hd
  unfold isWordStart Char.isAlpha Char.isUpper Char.isLower at h
  unfold Char.isDigit at hd
  simp only [Bool.or_eq_true, Bool.and_eq_true, decide_eq_true_eq, beq_iff_eq] at h hd
  rcases h with (h | h) | rfl
  · exact absurd (UInt32.le_trans h.1 hd.2) (by decide)
  · exact absurd (UInt32.le_trans h.1 hd.2) (by decide)
  · exact absurd hd.2 (by decide)

/-! The first character tells the forms apart. -/

namespace Form.Starts
variable {form : Form} {c : Char}

theorem quote (h : form.Starts '"') : ∃ value bad, form = .string value bad := by
  cases form with
  | mark m => exact absurd rfl (mark_start_cases h).2.2.1
  | integer n => exact absurd (show Char.isDigit '"' = true from h) (by decide)
  | decimal n places => exact absurd (show Char.isDigit '"' = true from h) (by decide)
  | word text => exact absurd (show isWordStart '"' = true from h) (by decide)
  | string value bad => exact ⟨value, bad, rfl⟩

theorem digit (h : form.Starts c) (hc : c.isDigit = true) :
    (∃ n, form = .integer n) ∨ ∃ n places, form = .decimal n places := by
  cases form with
  | mark m => exact absurd ((mark_start_cases h).1.symm.trans hc) Bool.false_ne_true
  | integer n => exact .inl ⟨n, rfl⟩
  | decimal n places => exact .inr ⟨n, places, rfl⟩
  | word text => exact absurd ((isWordStart_not_isDigit h).symm.trans hc) Bool.false_ne_true
  | string value bad => exact absurd h (ne_of_test hc (by decide))

theorem letter (h : form.Starts c) (hc : isWordStart c = true) : ∃ text, form = .word text := by
  have hdigit := isWordStart_not_isDigit hc
  cases form with
  | mark m => exact absurd ((mark_start_cases h).2.1.symm.trans hc) Bool.false_ne_true
  | integer n => exact absurd (hdigit.symm.trans h) Bool.false_ne_true
  | decimal n places => exact absurd (hdigit.symm.trans h) Bool.false_ne_true
  | word text => exact ⟨text, rfl⟩
  | string value bad => exact absurd h (ne_of_test hc (by decide))

/-- A form that begins with none of the others is a mark, and its first character is one, too. -/
theorem other (h : form.Starts c) (hquote : c ≠ '"') (hdigit : c.isDigit = false)
    (hword : isWordStart c = false) : (∃ m, form = .mark m) ∧ ∃ m : Mark, m.spelling = [c] := by
  cases form with
  | mark m => exact ⟨⟨m, rfl⟩, h⟩
  | integer n => exact absurd (hdigit.symm.trans h) Bool.false_ne_true
  | decimal n places => exact absurd (hdigit.symm.trans h) Bool.false_ne_true
  | word text => exact absurd (hword.symm.trans h) Bool.false_ne_true
  | string value bad => exact absurd h hquote

end Form.Starts

/-! ## What the next cut is -/

section Cut
variable {c : Char} {rest : List Char}

theorem not_slashes_of_ne (h : c ≠ '/') : ¬ ['/', '/'].isPrefixOf (c :: rest) = true := by
  simp [List.isPrefixOf, Ne.symm h]

theorem cut_separator (h : isSeparator c = true) : cut c rest = ⟨[c], .blank, []⟩ := by
  unfold cut
  rw [if_pos h]

theorem cut_slashes (h : ['/', '/'] <+: c :: rest) :
    cut c rest = ⟨(c :: rest).takeWhile (· != '\n'), .comment, []⟩ := by
  have hc : isSeparator c = false := by
    obtain ⟨behind, hbehind⟩ := h
    rw [← (List.cons.inj hbehind).1]
    rfl
  unfold cut
  rw [if_neg (by rw [hc]; exact Bool.false_ne_true), if_pos (List.isPrefixOf_iff_prefix.2 h)]

theorem cut_quote : cut '"' rest = cutString rest := by
  unfold cut
  rw [if_neg (by decide), if_neg (not_slashes_of_ne (by decide)), if_pos rfl]

theorem cut_digit (h : c.isDigit = true) : cut c rest = cutNumber (c :: rest) := by
  have hsep := isDigit_not_isSeparator h
  have hslash : c ≠ '/' := ne_of_test h rfl
  have hquote : c ≠ '"' := ne_of_test h rfl
  unfold cut
  rw [if_neg (by rw [hsep]; exact Bool.false_ne_true), if_neg (not_slashes_of_ne hslash), if_neg hquote,
    if_pos h]

theorem cut_wordStart (h : isWordStart c = true) : cut c rest = cutWord (c :: rest) := by
  have hsep := isWordStart_not_isSeparator h
  have hdigit := isWordStart_not_isDigit h
  have hslash : c ≠ '/' := ne_of_test h (by decide)
  have hquote : c ≠ '"' := ne_of_test h (by decide)
  unfold cut
  rw [if_neg (by rw [hsep]; exact Bool.false_ne_true), if_neg (not_slashes_of_ne hslash), if_neg hquote,
    if_neg (by rw [hdigit]; exact Bool.false_ne_true), if_pos h]

theorem cut_other (hsep : isSeparator c = false) (hslashes : ¬ ['/', '/'] <+: c :: rest)
    (hquote : c ≠ '"') (hdigit : c.isDigit = false) (hword : isWordStart c = false) :
    cut c rest = match Mark.longest? (c :: rest) with
      | some mark => ⟨mark.spelling, .token (.mark mark), []⟩
      | none => ⟨[c], .fault (.unexpectedCharacter c), []⟩ := by
  have hprefix : ¬ ['/', '/'].isPrefixOf (c :: rest) = true :=
    fun h => hslashes (List.isPrefixOf_iff_prefix.1 h)
  unfold cut
  rw [if_neg (by rw [hsep]; exact Bool.false_ne_true), if_neg hprefix, if_neg hquote,
    if_neg (by rw [hdigit]; exact Bool.false_ne_true)]
  exact if_neg (by rw [hword]; exact Bool.false_ne_true)

end Cut

/-! ## Marks -/

namespace Mark

theorem spelling_injective {m m' : Mark} (h : m.spelling = m'.spelling) : m = m' := by
  have hall : ∀ m ∈ byLength, ∀ m' ∈ byLength, m.spelling = m'.spelling → m = m' := by decide
  exact hall m m.mem_byLength m' m'.mem_byLength h

theorem byLength_sorted : byLength.Pairwise fun m m' => m'.spelling.length ≤ m.spelling.length := by
  decide

theorem longest?_begins {text : List Char} {m : Mark} (h : longest? text = some m) : m.spelling <+: text :=
  List.isPrefixOf_iff_prefix.1 (List.find?_some (p := fun m : Mark => m.spelling.isPrefixOf text) h)

theorem longest?_longest {text : List Char} {m m' : Mark} (h : longest? text = some m)
    (h' : m'.spelling <+: text) : m'.spelling.length ≤ m.spelling.length := by
  obtain ⟨-, before, after, hlist, hbefore⟩ := List.find?_eq_some_iff_append.1 h
  have hmem := m'.mem_byLength
  have hsorted := byLength_sorted
  rw [hlist] at hmem hsorted
  rcases List.mem_append.1 hmem with hm | hm
  · have hnot := hbefore m' hm
    rw [List.isPrefixOf_iff_prefix.2 h'] at hnot
    cases hnot
  · rcases List.mem_cons.1 hm with rfl | hm
    · exact Nat.le_refl _
    · exact (List.pairwise_cons.1 (List.pairwise_append.1 hsorted).2.1).1 m' hm

theorem exists_longest? {text : List Char} {m : Mark} (h : m.spelling <+: text) :
    ∃ m', longest? text = some m' := by
  cases hl : longest? text with
  | some m' => exact ⟨m', rfl⟩
  | none =>
    have hnot := List.find?_eq_none.1 hl m m.mem_byLength
    exact absurd (List.isPrefixOf_iff_prefix.2 h) hnot

theorem longest?_of_isLongest {m : Mark} {behind : List Char}
    (h : IsLongest (.mark m) m.spelling behind) : longest? (m.spelling ++ behind) = some m := by
  have hm : m.spelling <+: m.spelling ++ behind := List.prefix_append _ _
  obtain ⟨m', hm'⟩ := exists_longest? hm
  have hle := longest?_longest hm' hm
  have hge := h.longest (.mark m') _ (.mark m') (longest?_begins hm')
  rw [hm', spelling_injective (eq_of_prefixes hm (longest?_begins hm') hle hge)]

end Mark

/-! ## Numbers -/

section Numbers
variable {digits whole places text behind : List Char}

/-- The decimals behind some digits are all there are. -/
theorem prefix_cutDecimals (hne : places ≠ []) (hp : ∀ c ∈ places, c.isDigit = true)
    (h : '.' :: places <+: text) : '.' :: places <+: cutDecimals text := by
  obtain ⟨more, rfl⟩ := h
  have hplaces : places <+: (places ++ more).takeWhile Char.isDigit :=
    prefix_takeWhile hp (List.prefix_append _ _)
  rw [List.cons_append, cutDecimals_point, if_neg]
  · exact (List.prefix_cons_inj _).2 hplaces
  · intro hempty
    rw [List.isEmpty_iff.1 hempty] at hplaces
    exact hne (List.prefix_nil.1 hplaces)

/-- A number at the beginning of a text is no longer than what is cut. -/
theorem number_le_cutNumber {form : Form} (h : IsForm form text) {c : Char} {rest : List Char}
    (hc : c.isDigit = true) (hp : text <+: c :: rest) :
    text.length ≤ (cutNumber (c :: rest)).text.length := by
  have hcut : (cutNumber (c :: rest)).text =
      (c :: rest).takeWhile Char.isDigit ++ cutDecimals ((c :: rest).dropWhile Char.isDigit) := by
    unfold cutNumber
    dsimp only
    split
    · next hempty => rw [List.isEmpty_iff.1 hempty, List.append_nil]
    · rfl
  rw [hcut, List.length_append]
  obtain ⟨more, hmore⟩ := hp
  rcases (h.starts_head hmore).digit hc with ⟨n, rfl⟩ | ⟨n, k, rfl⟩
  · cases h with
    | integer _ hd => exact Nat.le_add_right_of_le (prefix_takeWhile hd ⟨more, hmore⟩).length_le
  cases h with
  | @decimal whole places _ hwhole hne hplaces =>
    have hstop : ∀ d ∈ ('.' :: places ++ more).head?, Char.isDigit d = false := by
      intro d hd
      cases hd
      rfl
    rw [List.append_assoc] at hmore
    rw [← hmore, takeWhile_stopped hwhole hstop, dropWhile_stopped hwhole hstop, List.length_append]
    exact Nat.add_le_add_left
      (prefix_cutDecimals hne hplaces (List.prefix_append ('.' :: places) more)).length_le _

/-- Behind the longest number stands no digit. -/
theorem no_digit_behind_integer {n : Nat} (h : IsLongest (.integer n) digits behind) :
    ∀ c ∈ behind.head?, c.isDigit = false := by
  intro c hc
  obtain ⟨rest, rfl⟩ := List.head?_eq_some_iff.1 hc
  obtain ⟨hform, hlongest⟩ := h
  cases hform with
  | integer _ hd =>
    by_contra hdigit
    have hall : ∀ d ∈ digits ++ [c], d.isDigit = true := by
      simpa [or_imp, forall_and] using ⟨hd, Bool.eq_true_of_not_eq_false hdigit⟩
    have hlonger := hlongest _ _ (.integer (by simp) hall) (by simp)
    simp at hlonger

theorem cutDecimals_behind_integer {n : Nat} (h : IsLongest (.integer n) digits behind) :
    cutDecimals behind = [] := by
  obtain ⟨hform, hlongest⟩ := h
  cases hform with
  | integer hne hd =>
    unfold cutDecimals
    split
    · next rest =>
      dsimp only
      split
      · rfl
      · next hplaces =>
        have hlonger := hlongest _ _ (.decimal hne hd (fun h => hplaces (List.isEmpty_iff.2 h))
          fun _ => List.mem_takeWhile_imp) (by
            rw [List.prefix_append_right_inj, List.prefix_cons_inj]
            exact List.takeWhile_prefix _)
        simp at hlonger
    · rfl

theorem no_digit_behind_decimal {n k : Nat} (h : IsLongest (.decimal n k) text behind) :
    ∀ c ∈ behind.head?, c.isDigit = false := by
  intro c hc
  obtain ⟨rest, rfl⟩ := List.head?_eq_some_iff.1 hc
  obtain ⟨hform, hlongest⟩ := h
  cases hform with
  | @decimal whole places hne hd hne' hd' =>
    by_contra hdigit
    have hall : ∀ d ∈ places ++ [c], d.isDigit = true := by
      simpa [or_imp, forall_and] using ⟨hd', Bool.eq_true_of_not_eq_false hdigit⟩
    have hlonger := hlongest _ _ (.decimal hne hd (by simp) hall) (by simp)
    simp at hlonger

/-- The longest digits are cut as an integer, or as a fault if they are too large. -/
theorem cutNumber_integer {n : Nat} (h : IsLongest (.integer n) digits behind) :
    cutNumber (digits ++ behind) =
      ⟨digits, if n < 2 ^ 63 then .token (.int (Int64.ofNat n))
        else .fault (.integerTooLarge (String.ofList digits)), []⟩ := by
  have hstop := no_digit_behind_integer h
  have hnone := cutDecimals_behind_integer h
  obtain ⟨hform, -⟩ := h
  cases hform with
  | integer _ hd =>
    unfold cutNumber
    rw [takeWhile_stopped hd hstop, dropWhile_stopped hd hstop, hnone]
    simp only [List.isEmpty_nil, if_true, digitsValue_eq_ofDigits]

theorem cutNumber_decimal {n k : Nat} (h : IsLongest (.decimal n k) text behind) :
    cutNumber (text ++ behind) = ⟨text, .token (.float (Decimal.ofScaled n (-k))), []⟩ := by
  have hstop := no_digit_behind_decimal h
  obtain ⟨hform, -⟩ := h
  cases hform with
  | @decimal whole places _ hd hne hd' =>
    have hpoint : ∀ d ∈ ('.' :: (places ++ behind)).head?, Char.isDigit d = false := by
      intro d hd
      cases hd
      rfl
    have hplaces : cutDecimals ('.' :: (places ++ behind)) = '.' :: places := by
      rw [cutDecimals_point, takeWhile_stopped hd' hstop, if_neg]
      exact fun hempty => hne (List.isEmpty_iff.1 hempty)
    unfold cutNumber
    rw [List.append_assoc, List.cons_append, takeWhile_stopped hd hpoint, dropWhile_stopped hd hpoint,
      hplaces]
    simp [digitsValue_eq_ofDigits]

end Numbers

/-! ## Words -/

section Words
variable {word behind : List Char}

theorem isWordStart_isWordChar {c : Char} (h : isWordStart c = true) : isWordChar c = true := by
  unfold isWordStart at h
  unfold isWordChar Char.isAlphanum
  rw [Bool.or_eq_true] at h ⊢
  exact h.imp_left fun h => by rw [h, Bool.true_or]

theorem cutWord_of_isLongest (h : IsLongest (.word word) word behind) : cutWord (word ++ behind) =
    ⟨word, match Keyword.ofSpelling? word with
      | some keyword => .token (.keyword keyword)
      | none => .token .identifier, []⟩ := by
  obtain ⟨hform, hlongest⟩ := h
  cases hform with
  | @word c rest hc hrest =>
    have hall : ∀ d ∈ c :: rest, isWordChar d = true :=
      List.forall_mem_cons.2 ⟨isWordStart_isWordChar hc, hrest⟩
    have hstop : ∀ d ∈ behind.head?, isWordChar d = false := by
      intro d hd
      obtain ⟨more, rfl⟩ := List.head?_eq_some_iff.1 hd
      by_contra hword
      have hmore : ∀ e ∈ rest ++ [d], isWordChar e = true := by
        simpa [or_imp, forall_and] using ⟨hrest, Bool.eq_true_of_not_eq_false hword⟩
      have hlonger := hlongest _ _ (.word hc hmore) (by simp)
      simp at hlonger
    have hword : (c :: rest ++ behind).takeWhile isWordChar = c :: rest := takeWhile_stopped hall hstop
    exact congrArg (fun word => Lexeme.mk word
      (match Keyword.ofSpelling? word with
        | some keyword => .token (.keyword keyword)
        | none => .token .identifier) []) hword

theorem Keyword.ofSpelling?_spelling (k : Keyword) : ofSpelling? k.spelling = some k := by
  cases k <;> rfl

theorem Keyword.ofSpelling?_none {text : List Char} (h : ∀ k : Keyword, text ≠ k.spelling) :
    ofSpelling? text = none := by
  apply List.find?_eq_none.2
  intro k _ hk
  exact h k (beq_iff_eq.1 hk).symm

end Words

/-! ## Strings -/

/-- The characters with which the inside of a string ends. -/
def StringEnd.text : StringEnd → List Char
  | closed => ['"']
  | missing => []
  | stray => ['\\']

/-- What a string is that ends so. -/
def StringEnd.kind (value : List Char) : StringEnd → LexemeKind
  | closed => .token (.string (String.ofList value))
  | missing => .fault .unterminatedString
  | stray => .fault .strayEscape

namespace StringBody

/-- The unknown escapes of a body. -/
def bad (body : StringBody) : List Char := body.badEscapes.map BadEscape.escaped

/-- What is read is the inside of a string with its end, and only a quote leaves something behind it. -/
theorem read_isStringBody (breaks : Nat) (text : List Char) : ∃ inner,
    IsStringBody inner (read breaks text).value (read breaks text).bad ∧
      (read breaks text).text = inner ++ (read breaks text).ending.text ∧
      ((read breaks text).ending ≠ .closed → (read breaks text).text = text) := by
  induction breaks, text using StringBody.read.induct with
  | case1 breaks => exact ⟨[], .nil, rfl, fun _ => rfl⟩
  | case2 breaks rest => exact ⟨[], .nil, rfl, fun h => absurd rfl h⟩
  | case3 breaks => exact ⟨[], .nil, rfl, fun _ => rfl⟩
  | case4 breaks c rest breaks' ih =>
    obtain ⟨inner, hinner, htext, hall⟩ := ih
    have hread : read breaks ('\\' :: c :: rest) = (read breaks' rest).escaped c breaks' := by rw [read]
    refine ⟨'\\' :: c :: inner, ?_⟩
    rw [hread]
    unfold escaped
    cases hc : unescape c with
    | some decoded =>
      exact ⟨.known hc hinner, congrArg (fun t => '\\' :: c :: t) htext,
        fun h => congrArg (fun t => '\\' :: c :: t) (hall h)⟩
    | none =>
      exact ⟨.unknown hc hinner, congrArg (fun t => '\\' :: c :: t) htext,
        fun h => congrArg (fun t => '\\' :: c :: t) (hall h)⟩
  | case5 breaks c rest hquote hstray hescape ih =>
    have hc : c ≠ '\\' := by
      rintro rfl
      cases rest with
      | nil => exact hstray rfl rfl
      | cons c' rest' => exact hescape c' rest' rfl rfl
    obtain ⟨inner, hinner, htext, hall⟩ := ih
    rw [read_raw hquote hc]
    exact ⟨c :: inner, .raw hquote hc hinner, congrArg (List.cons c) htext,
      fun h => congrArg (List.cons c) (hall h)⟩

/-- The inside of a string is read up to what stands behind it. -/
theorem read_of_isStringBody {body value bad : List Char} (h : IsStringBody body value bad) (breaks : Nat)
    (more : List Char) : ∃ breaks',
      (read breaks (body ++ more)).text = body ++ (read breaks' more).text ∧
      (read breaks (body ++ more)).value = value ++ (read breaks' more).value ∧
      (read breaks (body ++ more)).bad = bad ++ (read breaks' more).bad ∧
      (read breaks (body ++ more)).ending = (read breaks' more).ending := by
  induction h generalizing breaks with
  | nil => exact ⟨breaks, rfl, rfl, rfl, rfl⟩
  | @raw c text value bad hquote hback _ ih =>
    obtain ⟨breaks', htext, hvalue, hbad, hend⟩ := ih (breaks + lineBreaks [c])
    rw [List.cons_append, read_raw hquote hback]
    exact ⟨breaks', congrArg (List.cons c) htext, congrArg (List.cons c) hvalue, hbad, hend⟩
  | @known c decoded text value bad hc _ ih =>
    obtain ⟨breaks', htext, hvalue, hbad, hend⟩ := ih (breaks + lineBreaks [c])
    rw [List.cons_append, List.cons_append, read]
    unfold escaped
    rw [hc]
    exact ⟨breaks', congrArg (fun t => '\\' :: c :: t) htext, congrArg (List.cons decoded) hvalue, hbad, hend⟩
  | @unknown c text value bad hc _ ih =>
    obtain ⟨breaks', htext, hvalue, hbad, hend⟩ := ih (breaks + lineBreaks [c])
    rw [List.cons_append, List.cons_append, read]
    unfold escaped
    rw [hc]
    exact ⟨breaks', congrArg (fun t => '\\' :: c :: t) htext, hvalue, congrArg (List.cons c) hbad, hend⟩

/-- How the end of a string is read. -/
theorem read_ending (breaks : Nat) (ending : StringEnd) {behind : List Char}
    (hb : ending ≠ .closed → behind = []) :
    read breaks (ending.text ++ behind) = ⟨ending.text, [], [], ending⟩ := by
  cases ending with
  | closed => rfl
  | missing => rw [hb (by decide)]; rfl
  | stray => rw [hb (by decide)]; rfl

end StringBody

theorem cutString_of_isStringBody {body value bad behind : List Char} (h : IsStringBody body value bad)
    (ending : StringEnd) (hb : ending ≠ .closed → behind = []) :
    (cutString (body ++ (ending.text ++ behind))).text = '"' :: (body ++ ending.text) ∧
      (cutString (body ++ (ending.text ++ behind))).kind = ending.kind value ∧
      (cutString (body ++ (ending.text ++ behind))).badEscapes.map BadEscape.escaped = bad := by
  obtain ⟨breaks, htext, hvalue, hbad, hend⟩ :=
    StringBody.read_of_isStringBody h 0 (ending.text ++ behind)
  rw [StringBody.read_ending breaks ending hb] at htext hvalue hbad hend
  rw [List.append_nil] at hvalue
  have hkind : (cutString (body ++ (ending.text ++ behind))).kind =
      (StringBody.read 0 (body ++ (ending.text ++ behind))).ending.kind
        (StringBody.read 0 (body ++ (ending.text ++ behind))).value := by
    unfold cutString
    dsimp only
    cases (StringBody.read 0 (body ++ (ending.text ++ behind))).ending <;> rfl
  refine ⟨congrArg (List.cons '"') htext, ?_, hbad.trans (List.append_nil bad)⟩
  rw [hkind, hend, hvalue]

/-! ## The next lexeme -/

section Next
variable {c : Char} {rest behind : List Char}

/-- The only string at the beginning of a text is the one that is cut. -/
theorem string_eq_cutString {form : Form} {part : List Char} (h : IsForm form part)
    (hp : part <+: '"' :: rest) : part = (cutString rest).text := by
  obtain ⟨behind, hbehind⟩ := hp
  obtain ⟨value, bad, rfl⟩ := (h.starts_head hbehind).quote
  cases h with
  | @string body _ _ hbody =>
    have hrest : rest = body ++ (StringEnd.closed.text ++ behind) :=
      (List.cons.inj hbehind).2.symm.trans (List.append_assoc body ['"'] behind)
    rw [hrest, (cutString_of_isStringBody hbody .closed fun hne => absurd rfl hne).1]
    rfl

theorem isLexeme_cutString (h : (cutString rest).text ++ behind = '"' :: rest) :
    IsLexeme (cutString rest).text behind (cutString rest).kind
      ((cutString rest).badEscapes.map BadEscape.escaped) := by
  obtain ⟨inner, hinner, htext, hall⟩ := StringBody.read_isStringBody 0 rest
  have hcut : (cutString rest).text = '"' :: (inner ++ (StringBody.read 0 rest).ending.text) :=
    congrArg (List.cons '"') htext
  have hkind : (cutString rest).kind =
      (StringBody.read 0 rest).ending.kind (StringBody.read 0 rest).value := by
    unfold cutString
    dsimp only
    cases (StringBody.read 0 rest).ending <;> rfl
  have hbehind : (StringBody.read 0 rest).ending ≠ .closed → behind = [] := by
    intro hne
    have hwhole := congrArg (List.cons '"') (hall hne)
    exact List.append_right_eq_self.1 (h.trans hwhole.symm)
  have hlongest : ∀ other part, IsForm other part → part <+: (cutString rest).text ++ behind →
      part.length ≤ (cutString rest).text.length := by
    intro other part hother hpart
    rw [h] at hpart
    exact Nat.le_of_eq (congrArg List.length (string_eq_cutString hother hpart))
  rw [hcut] at hlongest ⊢
  rw [hkind]
  cases hend : (StringBody.read 0 rest).ending with
  | closed =>
    rw [hend] at hlongest
    have hslashes : ¬ ['/', '/'] <+: '"' :: (inner ++ ['"']) ++ behind := by simp
    have hform : IsLongest (.string _ _) ('"' :: (inner ++ ['"'])) behind := ⟨.string hinner, hlongest⟩
    exact .token hslashes hform (.string _ _)
  | missing =>
    rw [hbehind (by rw [hend]; decide), show StringEnd.missing.text = [] from rfl, List.append_nil]
    exact .unterminated hinner
  | stray =>
    rw [hbehind (by rw [hend]; decide)]
    exact .stray hinner

/-- A form at the beginning of a text that starts with a digit is no longer than the number there. -/
theorem longest_cutNumber (hc : c.isDigit = true) (h : (cutNumber (c :: rest)).text ++ behind = c :: rest) :
    ∀ other part, IsForm other part → part <+: (cutNumber (c :: rest)).text ++ behind →
      part.length ≤ (cutNumber (c :: rest)).text.length := by
  intro other part hother hpart
  rw [h] at hpart
  exact number_le_cutNumber hother hc hpart

theorem isLexeme_cutNumber (hc : c.isDigit = true)
    (h : (cutNumber (c :: rest)).text ++ behind = c :: rest) :
    IsLexeme (cutNumber (c :: rest)).text behind (cutNumber (c :: rest)).kind
      ((cutNumber (c :: rest)).badEscapes.map BadEscape.escaped) := by
  have hslashes : ¬ ['/', '/'] <+: (cutNumber (c :: rest)).text ++ behind := by
    rw [h]
    exact fun hp => not_slashes_of_ne (ne_of_test hc rfl) (List.isPrefixOf_iff_prefix.2 hp)
  have hlongest := longest_cutNumber hc h
  have hwhole : (c :: rest).takeWhile Char.isDigit ≠ [] := takeWhile_cons_ne_nil hc rest
  have hdigits : ∀ d ∈ (c :: rest).takeWhile Char.isDigit, d.isDigit = true :=
    fun _ => List.mem_takeWhile_imp
  unfold cutNumber at hslashes hlongest ⊢
  dsimp only at hslashes hlongest ⊢
  split at hslashes
  · next hempty =>
    rw [if_pos hempty] at hlongest ⊢
    have hform := IsForm.integer hwhole hdigits
    rw [← digitsValue_eq_ofDigits] at hform
    dsimp only at hform hlongest ⊢
    split
    · next hsmall =>
      exact .token hslashes ⟨hform, hlongest⟩ (.integer (Int64.toInt_ofNat_of_lt hsmall))
    · next hlarge => exact .tooLarge ⟨hform, hlongest⟩ (Nat.le_of_not_lt hlarge)
  · next hdecimals =>
    rw [if_neg hdecimals] at hlongest ⊢
    dsimp only at hlongest ⊢
    obtain ⟨places, hne, hplaces, heq⟩ : ∃ places, places ≠ [] ∧ (∀ d ∈ places, d.isDigit = true) ∧
        cutDecimals ((c :: rest).dropWhile Char.isDigit) = '.' :: places := by
      unfold cutDecimals at hdecimals ⊢
      split at hdecimals
      · dsimp only at hdecimals ⊢
        split at hdecimals
        · exact absurd rfl hdecimals
        · next hempty =>
          rw [if_neg hempty]
          exact ⟨_, fun he => hempty (List.isEmpty_iff.2 he), fun _ => List.mem_takeWhile_imp, rfl⟩
      · exact absurd rfl hdecimals
    rw [heq] at hslashes hlongest ⊢
    have hform := IsForm.decimal hwhole hdigits hne hplaces
    rw [← digitsValue_eq_ofDigits] at hform
    exact .token hslashes ⟨hform, hlongest⟩ (.decimal _ _)

theorem isLexeme_cutWord (hc : isWordStart c = true)
    (h : (cutWord (c :: rest)).text ++ behind = c :: rest) :
    IsLexeme (cutWord (c :: rest)).text behind (cutWord (c :: rest)).kind
      ((cutWord (c :: rest)).badEscapes.map BadEscape.escaped) := by
  have hslash : c ≠ '/' := ne_of_test hc (by decide)
  have hslashes : ¬ ['/', '/'] <+: (cutWord (c :: rest)).text ++ behind := by
    rw [h]
    exact fun hp => not_slashes_of_ne hslash (List.isPrefixOf_iff_prefix.2 hp)
  have hword : (c :: rest).takeWhile isWordChar = c :: rest.takeWhile isWordChar := by
    rw [List.takeWhile_cons, if_pos (isWordStart_isWordChar hc)]
  have htext : (cutWord (c :: rest)).text = c :: rest.takeWhile isWordChar := hword
  have hform : IsForm (.word (cutWord (c :: rest)).text) (cutWord (c :: rest)).text := by
    rw [htext]
    exact .word hc fun _ => List.mem_takeWhile_imp
  have hlongest : ∀ other part, IsForm other part → part <+: (cutWord (c :: rest)).text ++ behind →
      part.length ≤ (cutWord (c :: rest)).text.length := by
    intro other part hother hpart
    rw [h] at hpart
    obtain ⟨more, hmore⟩ := hpart
    obtain ⟨text, rfl⟩ := (hother.starts_head hmore).letter hc
    cases hother with
    | @word d more' hd hall =>
      have hchars : ∀ e ∈ d :: more', isWordChar e = true :=
        List.forall_mem_cons.2 ⟨isWordStart_isWordChar hd, hall⟩
      exact (prefix_takeWhile hchars ⟨more, hmore⟩).length_le
  have htoken : Form.IsToken (.word (cutWord (c :: rest)).text)
      (match Keyword.ofSpelling? (cutWord (c :: rest)).text with
        | some keyword => .keyword keyword
        | none => .identifier) := by
    split
    · next k hk =>
      rw [← beq_iff_eq.1 (List.find?_some (p := fun k : Keyword => k.spelling == _) hk)]
      exact .keyword k
    · next hnone => exact .identifier (Keyword.spelling_ne_of_ofSpelling? hnone)
  have hkind : (cutWord (c :: rest)).kind = .token
      (match Keyword.ofSpelling? (cutWord (c :: rest)).text with
        | some keyword => .keyword keyword
        | none => .identifier) := by
    unfold cutWord
    dsimp only
    cases Keyword.ofSpelling? ((c :: rest).takeWhile isWordChar) <;> rfl
  rw [hkind]
  exact .token hslashes ⟨hform, hlongest⟩ htoken

theorem isLexeme_mark {m : Mark} (hslashes : ¬ ['/', '/'] <+: c :: rest)
    (hm : Mark.longest? (c :: rest) = some m) (h : m.spelling ++ behind = c :: rest) :
    IsLexeme m.spelling behind (.token (.mark m)) [] := by
  suffices hlongest : IsLongest (.mark m) m.spelling behind from
    .token (h ▸ hslashes) hlongest (.mark m)
  refine ⟨.mark m, ?_⟩
  intro other part hother hpart
  rw [h] at hpart
  obtain ⟨more, hmore⟩ := hpart
  obtain ⟨hdigit, hword, hquote, -⟩ := mark_start_cases ((IsForm.mark m).starts_head h)
  obtain ⟨⟨m', rfl⟩, -⟩ := (hother.starts_head hmore).other hquote hdigit hword
  cases hother with
  | mark => exact Mark.longest?_longest hm ⟨more, hmore⟩

/-- What is cut is a lexeme. -/
theorem isLexeme_cut (h : (cut c rest).text ++ behind = c :: rest) :
    IsLexeme (cut c rest).text behind (cut c rest).kind
      ((cut c rest).badEscapes.map BadEscape.escaped) := by
  by_cases hsep : isSeparator c = true
  · rw [cut_separator hsep]
    exact .blank ((isSeparator_iff c).1 hsep)
  by_cases hslashes : ['/', '/'] <+: c :: rest
  · rw [cut_slashes hslashes] at h ⊢
    refine .comment (prefix_takeWhile (by simp) hslashes) ?_ ?_
    · intro hmem
      exact absurd (List.mem_takeWhile_imp hmem) (by decide)
    · intro d hd
      rw [eq_dropWhile h] at hd
      simpa using head?_dropWhile hd
  by_cases hquote : c = '"'
  · subst hquote
    rw [cut_quote] at h ⊢
    exact isLexeme_cutString h
  by_cases hdigit : c.isDigit = true
  · rw [cut_digit hdigit] at h ⊢
    exact isLexeme_cutNumber hdigit h
  by_cases hword : isWordStart c = true
  · rw [cut_wordStart hword] at h ⊢
    exact isLexeme_cutWord hword h
  rw [Bool.not_eq_true] at hsep hdigit hword
  rw [cut_other hsep hslashes hquote hdigit hword] at h ⊢
  cases hm : Mark.longest? (c :: rest) with
  | some m =>
    rw [hm] at h
    exact isLexeme_mark hslashes hm h
  | none =>
    have hblank : c ∉ [' ', '\r', '\t', '\n'] := by
      rw [← isSeparator_iff, hsep]
      exact Bool.false_ne_true
    refine .unexpected hblank ?_
    intro form text hform
    have hstart := hform.starts_head (List.append_nil _)
    obtain ⟨-, m', hm'⟩ := hstart.other hquote hdigit hword
    have hprefix : m'.spelling <+: c :: rest := hm' ▸ ⟨rest, rfl⟩
    obtain ⟨m'', hsome⟩ := Mark.exists_longest? hprefix
    rw [hm] at hsome
    cases hsome

theorem cut_of_token {form : Form} {kind : TokenKind} {text : List Char}
    (hslashes : ¬ ['/', '/'] <+: c :: rest) (h : IsLongest form text behind) (hk : form.IsToken kind)
    (hr : text ++ behind = c :: rest) : (cut c rest).text = text ∧ (cut c rest).kind = .token kind ∧
      (cut c rest).badEscapes.map BadEscape.escaped = form.bad := by
  have hstart := h.form.starts_head hr
  cases hk with
  | mark m =>
    obtain ⟨hdigit, hword, hquote, hsep⟩ := mark_start_cases hstart
    cases h.form with
    | mark =>
      have hm : Mark.longest? (c :: rest) = some m := hr ▸ Mark.longest?_of_isLongest h
      rw [cut_other hsep hslashes hquote hdigit hword, hm]
      exact ⟨rfl, rfl, rfl⟩
  | @integer n value hn =>
    have hlt : n < 2 ^ 63 := by
      have := value.toInt_lt
      omega
    have hvalue : Int64.ofNat n = value := by
      rw [← Int64.toInt_inj, Int64.toInt_ofNat_of_lt hlt, hn]
    rw [cut_digit hstart, ← hr, cutNumber_integer h, if_pos hlt, hvalue]
    exact ⟨rfl, rfl, rfl⟩
  | decimal n places =>
    rw [cut_digit hstart, ← hr, cutNumber_decimal h]
    exact ⟨rfl, rfl, rfl⟩
  | keyword k =>
    obtain rfl := h.form.word_text
    rw [cut_wordStart hstart, ← hr, cutWord_of_isLongest h, k.ofSpelling?_spelling]
    exact ⟨rfl, rfl, rfl⟩
  | @identifier word hw =>
    obtain rfl := h.form.word_text
    rw [cut_wordStart hstart, ← hr, cutWord_of_isLongest h, Keyword.ofSpelling?_none hw]
    exact ⟨rfl, rfl, rfl⟩
  | string value bad =>
    cases h.form with
    | @string body _ _ hbody =>
      obtain ⟨rfl, rfl⟩ := List.cons.inj hr
      rw [cut_quote]
      have hcut := @cutString_of_isStringBody body value bad behind hbody .closed fun hne => absurd rfl hne
      rw [← List.append_assoc] at hcut
      exact hcut

/-- A text begins with no other lexeme than the one that is cut. -/
theorem IsLexeme.eq_cut {text bad : List Char} {kind : LexemeKind} (h : IsLexeme text behind kind bad)
    (hr : text ++ behind = c :: rest) : (cut c rest).text = text ∧ (cut c rest).kind = kind ∧
      (cut c rest).badEscapes.map BadEscape.escaped = bad := by
  cases h with
  | @blank d _ hd =>
    obtain ⟨rfl, -⟩ := List.cons.inj hr
    rw [cut_separator ((isSeparator_iff d).2 hd)]
    exact ⟨rfl, rfl, rfl⟩
  | comment hslashes hline hbehind =>
    have hall : ∀ d ∈ text, (d != '\n') = true := by
      intro d hd
      rw [bne_iff_ne]
      rintro rfl
      exact hline hd
    have hstop : ∀ d ∈ behind.head?, (d != '\n') = false := by
      intro d hd
      rw [hbehind d hd]
      rfl
    have hprefix : ['/', '/'] <+: c :: rest := hr ▸ hslashes.trans (List.prefix_append text behind)
    rw [cut_slashes hprefix, ← hr, takeWhile_stopped hall hstop]
    exact ⟨rfl, rfl, rfl⟩
  | token hslashes hlongest hk => exact cut_of_token (hr ▸ hslashes) hlongest hk hr
  | @unexpected d _ hd hforms =>
    obtain ⟨rfl, hrest⟩ := List.cons.inj hr
    obtain rfl : behind = rest := hrest
    have hsep : isSeparator d = false := by
      rw [← Bool.not_eq_true, isSeparator_iff]
      exact hd
    have hslash : d ≠ '/' := by
      rintro rfl
      exact hforms _ _ (.mark .slash)
    have hquote : d ≠ '"' := by
      rintro rfl
      exact hforms _ _ (.string .nil)
    have hdigit : d.isDigit = false := by
      rw [← Bool.not_eq_true]
      exact fun h => hforms _ [] (.integer (by simp) (by simpa using h))
    have hword : isWordStart d = false := by
      rw [← Bool.not_eq_true]
      exact fun h => hforms _ [] (.word h (by simp))
    have hslashes : ¬ ['/', '/'] <+: d :: behind :=
      fun hp => not_slashes_of_ne hslash (List.isPrefixOf_iff_prefix.2 hp)
    have hnone : Mark.longest? (d :: behind) = none := by
      cases hm : Mark.longest? (d :: behind) with
      | none => rfl
      | some m =>
        obtain ⟨more, hmore⟩ := Mark.longest?_begins hm
        obtain ⟨e, tail, he, -⟩ := m.head_spelled
        rw [he] at hmore
        obtain ⟨rfl, -⟩ := List.cons.inj hmore
        exact absurd (he ▸ IsForm.mark m) (hforms _ tail)
    have hcut := cut_other hsep hslashes hquote hdigit hword
    rw [hcut, hnone]
    exact ⟨rfl, rfl, rfl⟩
  | tooLarge hlongest hn =>
    have hstart := hlongest.form.starts_head hr
    rw [cut_digit hstart, ← hr, cutNumber_integer hlongest, if_neg (Nat.not_lt.2 hn)]
    exact ⟨rfl, rfl, rfl⟩
  | @unterminated body value _ hbody =>
    obtain ⟨rfl, rfl⟩ := List.cons.inj hr
    have hcut := @cutString_of_isStringBody body value bad [] hbody .missing fun _ => rfl
    rw [cut_quote]
    simpa [StringEnd.text, StringEnd.kind] using hcut
  | @stray body value _ hbody =>
    obtain ⟨rfl, rfl⟩ := List.cons.inj hr
    have hcut := @cutString_of_isStringBody body value bad [] hbody .stray fun _ => rfl
    rw [cut_quote]
    simpa [StringEnd.text, StringEnd.kind] using hcut

end Next

end LoxLang
