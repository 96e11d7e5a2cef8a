import LoxLang.Proofs.Scan.LongestMatch

/-!
# Quoting

A text can be put between quotes in many ways: quotes and backslashes have to be escaped, line breaks, carriage
returns and tabs may be, and all other characters stand for themselves. However it is written, it is read back,
and the only strings that stand for a text are the ways of writing it.
-/

namespace LoxLang

/-- The characters that can be escaped, each with the letter behind the backslash. -/
def escapes : List (Char × Char) := [('\\', '\\'), ('"', '"'), ('\n', 'n'), ('\r', 'r'), ('\t', 't')]

/-- A way of writing a text between quotes, character by character. -/
inductive Quotes : List Char → List Char → Prop
  | nil : Quotes [] []
  | plain {c : Char} {value text : List Char} : c ≠ '"' → c ≠ '\\' → Quotes value text →
      Quotes (c :: value) (c :: text)
  | escaped {c letter : Char} {value text : List Char} : (c, letter) ∈ escapes → Quotes value text →
      Quotes (c :: value) ('\\' :: letter :: text)

/-- The characters behind backslashes that no escape has, from left to right. -/
def unknownEscapes : List Char → List Char
  | '\\' :: c :: rest => (if c ∈ escapes.map Prod.snd then [] else [c]) ++ unknownEscapes rest
  | _ :: rest => unknownEscapes rest
  | [] => []

/-- A text between quotes. -/
def inQuotes (text : List Char) : String := String.ofList ('"' :: (text ++ ['"']))

section
variable {c letter : Char} {value value' text bad : List Char}

theorem unescape_eq_some_iff : unescape letter = some c ↔ (c, letter) ∈ escapes := by
  unfold unescape
  split <;> simp_all [escapes, eq_comm]

theorem unescape_eq_none_iff : unescape c = none ↔ c ∉ escapes.map Prod.snd := by
  unfold unescape
  split <;> simp_all [escapes]

/-! ## Strings without unknown escapes -/

theorem Quotes.isStringBody (h : Quotes value text) : IsStringBody text value [] := by
  induction h with
  | nil => exact .nil
  | plain hquote hback _ ih => exact .raw hquote hback ih
  | escaped hc _ ih => exact .known (unescape_eq_some_iff.2 hc) ih

theorem IsStringBody.quotes (h : IsStringBody text value bad) (hb : bad = []) : Quotes value text := by
  induction h with
  | nil => exact .nil
  | raw hquote hback _ ih => exact .plain hquote hback (ih hb)
  | known hc _ ih => exact .escaped (unescape_eq_some_iff.1 hc) (ih hb)
  | unknown => simp at hb

/-- What is escaped without need in a string is what is escaped without need in its text. -/
theorem IsStringBody.unknownEscapes_eq (h : IsStringBody text value bad) :
    unknownEscapes (text ++ ['"']) = bad := by
  induction h with
  | nil => rfl
  | raw hquote hback _ ih =>
    rw [List.cons_append, unknownEscapes]
    · exact ih
    · simp [hback]
  | known hc _ ih =>
    have hmem := List.mem_map_of_mem (f := Prod.snd) (unescape_eq_some_iff.1 hc)
    simp only [List.cons_append, unknownEscapes, ih, if_pos hmem, List.nil_append]
  | unknown hc _ ih =>
    simp only [List.cons_append, unknownEscapes, ih, if_neg (unescape_eq_none_iff.1 hc), List.nil_append]

theorem unknownEscapes_inQuotes (text : List Char) :
    unknownEscapes (inQuotes text).toList = unknownEscapes (text ++ ['"']) := by
  simp only [inQuotes, String.toList_ofList]
  rw [unknownEscapes]
  simp

/-- No text stands for two. -/
theorem Quotes.unique (h : Quotes value text) (h' : Quotes value' text) : value' = value := by
  induction h generalizing value' with
  | nil =>
    cases h'
    rfl
  | plain _ hback _ ih =>
    cases h' with
    | plain _ _ h' => rw [ih h']
    | escaped => exact absurd rfl hback
  | escaped hc _ ih =>
    cases h' with
    | plain _ hback => exact absurd rfl hback
    | escaped hc' h' =>
      have hsame := (unescape_eq_some_iff.2 hc').symm.trans (unescape_eq_some_iff.2 hc)
      cases hsame
      rw [ih h']

theorem exists_quotes (value : List Char) : ∃ text, Quotes value text := by
  induction value with
  | nil => exact ⟨[], .nil⟩
  | cons c value ih =>
    obtain ⟨text, htext⟩ := ih
    by_cases hquote : c = '"'
    · exact ⟨'\\' :: '"' :: text, .escaped (by simp [escapes, hquote]) htext⟩
    by_cases hback : c = '\\'
    · exact ⟨'\\' :: '\\' :: text, .escaped (by simp [escapes, hback]) htext⟩
    exact ⟨c :: text, .plain hquote hback htext⟩

/-! ## Scanning a string -/

theorem lexemes_inQuotes (h : Quotes value text) :
    lexemes (inQuotes text).toList = [⟨'"' :: (text ++ ['"']), .token (.string (String.ofList value)), []⟩] := by
  have hcut := @cutString_of_isStringBody _ _ _ [] h.isStringBody .closed (by simp)
  have hwhole : cut '"' (text ++ ['"']) =
      ⟨'"' :: (text ++ ['"']), .token (.string (String.ofList value)), []⟩ := by
    rw [cut_quote]
    cases hc : cutString (text ++ ['"'])
    simp_all [StringEnd.text, StringEnd.kind]
  have hnext : (cut '"' (text ++ ['"'])).text ++ [] = '"' :: (text ++ ['"']) := by simp [hwhole]
  rw [inQuotes, String.toList_ofList, lexemes_cons hnext, hwhole]
  rfl

theorem scan_inQuotes (h : Quotes value text) : scan (inQuotes text) =
    [.token ⟨.string (String.ofList value), inQuotes text, 1 + lineBreaks text⟩,
      .token ⟨.eof, "", 1 + lineBreaks text⟩] := by
  have hbreaks : lineBreaks ('"' :: (text ++ ['"'])) = lineBreaks text := by simp [lineBreaks]
  simp only [scan, lexemes_inQuotes h, itemsFrom, Lexeme.items, hbreaks]
  rfl

/-- Every item of a scan is the end token or belongs to a lexeme. -/
theorem mem_itemsFrom {item : ScanItem} {line : Nat} {ls : List Lexeme} (h : item ∈ itemsFrom line ls) :
    item = .token ⟨.eof, "", lineBehind line ls⟩ ∨
      ∃ before l after, ls = before ++ l :: after ∧ item ∈ l.items (lineBehind line before) := by
  induction ls generalizing line with
  | nil => simpa [itemsFrom, lineBehind] using h
  | cons l ls ih =>
    rw [itemsFrom, List.mem_append] at h
    rcases h with h | h
    · exact .inr ⟨[], l, ls, rfl, h⟩
    · rcases ih h with hend | ⟨before, l', after, hsplit, hitem⟩
      · exact .inl hend
      · exact .inr ⟨l :: before, l', after, by rw [hsplit]; rfl, hitem⟩

end

/-- A lexeme that is a string has its body between quotes. -/
theorem IsLexeme.isStringBody {text behind bad : List Char} {value : String}
    (h : IsLexeme text behind (.token (.string value)) bad) :
    ∃ body, text = '"' :: (body ++ ['"']) ∧ IsStringBody body value.toList bad := by
  cases h with
  | @token form _ _ _ _ hlongest hform =>
    have hshape := hlongest.form
    generalize hk : TokenKind.string value = kind at hform
    cases hform with
    | string value' bad =>
      cases hk
      cases hshape with
      | string hbody => exact ⟨_, rfl, by rwa [String.toList_ofList]⟩
    | _ => cases hk

theorem isStringBody_of_token {source : String} {t : Token} {value : String} (h : .token t ∈ scan source)
    (hk : t.kind = .string value) :
    ∃ body bad, t.lexeme = inQuotes body ∧ IsStringBody body value.toList bad := by
  rcases mem_itemsFrom h with hend | ⟨before, l, after, hsplit, hitem⟩
  · cases hend
    cases hk
  have htoken : t ∈ (l.items (lineBehind 1 before)).filterMap ScanItem.token? :=
    List.mem_filterMap.2 ⟨_, hitem, rfl⟩
  rw [(cutExactly hsplit).tokens] at htoken
  have hlexeme := (cutExactly hsplit).isLexeme
  cases hkind : l.kind with
  | token kind =>
    rw [hkind] at htoken hlexeme
    obtain rfl := List.mem_singleton.1 htoken
    obtain rfl : kind = .string value := hk
    obtain ⟨body, htext, hbody⟩ := hlexeme.isStringBody
    exact ⟨body, _, congrArg String.ofList htext, hbody⟩
  | blank | comment | fault => simp [hkind] at htoken

/-- Every text can be put between quotes, and however it is written there, it is what the scan yields: one
string token and the end token, both on the line reached with the raw line breaks. The other way round, a string
token without unknown escapes is a way of writing its own value and of no other one. -/
theorem string_literals_decode_exactly :
    (∀ value, ∃ text, Quotes value text) ∧
    (∀ value text, Quotes value text →
      scan (inQuotes text) = [.token ⟨.string (String.ofList value), inQuotes text, 1 + lineBreaks text⟩,
        .token ⟨.eof, "", 1 + lineBreaks text⟩] ∧
      Cursor.answers (inQuotes text) 3 {} =
        some [some (.token ⟨.string (String.ofList value), inQuotes text, 1 + lineBreaks text⟩),
          some (.token ⟨.eof, "", 1 + lineBreaks text⟩), none]) ∧
    ∀ (source : String) (n : Nat) (items : List (Option ScanItem)) (t : Token) (value : String),
      Cursor.answers source n {} = some items → some (.token t) ∈ items → t.kind = .string value →
      unknownEscapes t.lexeme.toList = [] →
      ∃ text, t.lexeme = inQuotes text ∧ Quotes value.toList text ∧
        ∀ value', Quotes value' text → value' = value.toList := by
  refine ⟨exists_quotes, fun value text h => ⟨scan_inQuotes h, ?_⟩, ?_⟩
  · rw [Cursor.answers_eq 3 (Cursor.due_start _), scan_inQuotes h]
    rfl
  · intro source n items t value hanswers hmem hk hknown
    rw [Cursor.answers_eq n (Cursor.due_start source)] at hanswers
    obtain rfl := Option.some.inj hanswers
    obtain ⟨k, -, hitem⟩ := List.mem_map.1 hmem
    obtain ⟨text, bad, hlexeme, hbody⟩ := isStringBody_of_token (List.mem_of_getElem? hitem) hk
    rw [hlexeme, unknownEscapes_inQuotes, hbody.unknownEscapes_eq] at hknown
    have hquotes := hbody.quotes hknown
    exact ⟨text, hlexeme, hquotes, fun _ h => hquotes.unique h⟩

/-- A character beyond ASCII, an escaped backslash, and two line breaks, one escaped and one raw. -/
theorem string_literals_decode_exactly_line_breaks :
    Quotes ['é', '\\', '\n', '\n'] ['é', '\\', '\\', '\\', 'n', '\n'] ∧
      scan "\"é\\\\\\n\n\"" = [.token ⟨.string "é\\\n\n", "\"é\\\\\\n\n\"", 2⟩, .token ⟨.eof, "", 2⟩] ∧
      ∃ text, "\"é\\\\\\n\n\"" = inQuotes text ∧ Quotes "é\\\n\n".toList text := by
  have hquotes : Quotes ['é', '\\', '\n', '\n'] ['é', '\\', '\\', '\\', 'n', '\n'] :=
    .plain (by decide) (by decide) (.escaped (by decide) (.escaped (by decide)
      (.plain (by decide) (by decide) .nil)))
  obtain ⟨-, hforth, hback⟩ := string_literals_decode_exactly
  have hscan := hforth _ _ hquotes
  obtain ⟨text, htext, hvalue, -⟩ := hback _ 3 _ _ _ hscan.2 (List.mem_cons_self ..) rfl rfl
  exact ⟨hquotes, hscan.1, text, htext, hvalue⟩

end LoxLang
