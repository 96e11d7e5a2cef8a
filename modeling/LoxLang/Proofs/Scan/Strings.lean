import Mathlib.Data.List.TakeDrop
import LoxLang.Proofs.Scan.Cursor

/-!
# Strings from bytes

A string is read from its bytes as it is cut from its characters: up to the same place, with the same value
and the same errors.
-/

namespace LoxLang

/-- The token that a lexeme is. -/
def Lexeme.token? (l : Lexeme) : Option TokenKind :=
  match l.kind with
  | .token kind => some kind
  | _ => none

/-- The errors of a lexeme that begins on `line`. -/
def Lexeme.errors (line : Nat) (l : Lexeme) : List StaticError :=
  l.badEscapes.map (BadEscape.error line) ++
    match l.kind with
    | .fault fault => [.lexical (line + lineBreaks l.text) fault]
    | _ => []

/-- What the bytes of a lexeme come to that begins at a place on `line`. -/
def Lexeme.bytes (i line : Nat) (l : Lexeme) : ByteLexeme :=
  ⟨i + (encode l.text).length, line + lineBreaks l.text, l.token?, l.errors line⟩

theorem lineBreaks_eq_zero {text : List Char} (h : ∀ c ∈ text, c ≠ '\n') : lineBreaks text = 0 :=
  List.count_eq_zero.2 fun hmem => h _ hmem rfl

/-- What holds of all characters of a text without line breaks and faults. -/
theorem Lexeme.bytes_plain {i line : Nat} {text : List Char} {kind : TokenKind}
    (h : ∀ c ∈ text, c ≠ '\n') : Lexeme.bytes i line ⟨text, .token kind, []⟩ =
      ⟨i + (encode text).length, line, some kind, []⟩ := by
  unfold bytes
  rw [lineBreaks_eq_zero h]
  rfl

/-! ## Strings -/

section Strings
variable {source : String} {segment i line : Nat} {value : String} {errors : List StaticError}

/-- A byte that neither ends nor escapes anything stands for itself. -/
theorem readString_byte {b : UInt8} (h : byte? source i = some b) (hquote : b ≠ '"'.toUInt8)
    (hback : b ≠ '\\'.toUInt8) : readString source segment i line value errors =
      readString source segment (i + 1) (if b = '\n'.toUInt8 then line + 1 else line) value errors := by
  rw [readString]
  split
  · next h' => cases h.symm.trans h'
  · next b' h' =>
    cases h.symm.trans h'
    rw [if_neg hquote, if_neg hback]

theorem readString_run {n : Nat} (h : ∀ k < n, ∃ b, byte? source (i + k) = some b ∧ 128 ≤ b.toNat) :
    readString source segment i line value errors = readString source segment (i + n) line value errors := by
  induction n generalizing i with
  | zero => rfl
  | succ n ih =>
    obtain ⟨b, hb, hge⟩ : ∃ b, byte? source i = some b ∧ 128 ≤ b.toNat := h 0 (Nat.succ_pos n)
    have hrest : ∀ k < n, ∃ b, byte? source (i + 1 + k) = some b ∧ 128 ≤ b.toNat := by
      intro k hk
      have hnext := h (k + 1) (Nat.succ_lt_succ hk)
      rwa [Nat.add_assoc, Nat.add_comm 1 k]
    rw [readString_byte hb (toUInt8_ne hge (by decide)) (toUInt8_ne hge (by decide)),
      if_neg (toUInt8_ne hge (by decide)), ih hrest, Nat.add_assoc, Nat.add_comm 1 n]

/-- A character that stands for itself is passed. -/
theorem readString_raw {c : Char} {rest : List Char} (h : At source i (c :: rest)) (hquote : c ≠ '"')
    (hback : c ≠ '\\') : readString source segment i line value errors =
      readString source segment (i + (encode [c]).length) (line + lineBreaks [c]) value errors := by
  rcases utf8EncodeChar_cases c with ⟨hlt, heq⟩ | ⟨hge, b, tail, heq, hb, htail⟩
  · have hencode : encode [c] = [c.toUInt8] := (List.flatMap_singleton ..).trans heq
    have hquote' : c.toUInt8 ≠ '"'.toUInt8 := by rwa [Ne, toUInt8_inj hlt (by decide)]
    have hback' : c.toUInt8 ≠ '\\'.toUInt8 := by rwa [Ne, toUInt8_inj hlt (by decide)]
    rw [readString_byte (h.byte?_ascii hlt).1 hquote' hback', hencode]
    by_cases hc : c = '\n'
    · subst hc
      rfl
    · have hc' : c.toUInt8 ≠ '\n'.toUInt8 := by rwa [Ne, toUInt8_inj hlt (by decide)]
      rw [if_neg hc', lineBreaks_eq_zero (by simpa using hc)]
      rfl
  · have hne : c ≠ '\n' := by
      rintro rfl
      exact absurd hge (by decide)
    have hrun : ∀ k < (encode [c]).length, ∃ b, byte? source (i + k) = some b ∧ 128 ≤ b.toNat := by
      intro k hk
      obtain ⟨b', hmem, hbyte⟩ := h.byte?_inside hk
      rw [heq, List.mem_cons] at hmem
      rcases hmem with rfl | hmem
      · exact ⟨_, hbyte, by omega⟩
      · exact ⟨_, hbyte, (htail b' hmem).1⟩
    rw [readString_run hrun, lineBreaks_eq_zero (by simpa using hne)]
    rfl

/-- The first byte of an escaped character tells what it stands for. -/
theorem unescape_byte {c : Char} {rest : List Char} (h : At source i (c :: rest)) :
    ∃ b, byte? source i = some b ∧ unescape (Char.ofUInt8 b) = unescape c ∧
      (b = '\n'.toUInt8 ↔ c = '\n') := by
  by_cases hc : c.toNat < 128
  · refine ⟨_, (h.byte?_ascii hc).1, ?_, toUInt8_inj hc (by decide)⟩
    rw [ofUInt8_toUInt8 hc]
  · obtain ⟨b, hb, hge⟩ := h.byte?_wide (Nat.le_of_not_lt hc)
    have hnone {d : Char} (hd : 128 ≤ d.toNat) : unescape d = none := by
      unfold unescape
      split
      all_goals first | rfl | exact absurd hd (by decide)
    refine ⟨b, hb, ?_, ?_⟩
    · rw [hnone (Nat.le_of_not_lt hc), hnone (by rw [toNat_ofUInt8]; omega)]
    · constructor
      · exact fun he => absurd he (toUInt8_ne (by omega) (by decide))
      · rintro rfl
        exact absurd (by decide) hc

theorem readString_missing (h : byte? source i = none) : readString source segment i line value errors =
    some ⟨i, line, none, errors ++ [.lexical line .unterminatedString]⟩ := by
  rw [readString]
  split
  · rfl
  · next b h' => cases h.symm.trans h'

theorem readString_quote {part : String} (h : byte? source i = some '"'.toUInt8)
    (hpart : slice? source segment i = some part) : readString source segment i line value errors =
      some ⟨i + 1, line, some (.string (value ++ part)), errors⟩ := by
  rw [readString]
  split
  · next h' => cases h.symm.trans h'
  · next b h' =>
    cases h.symm.trans h'
    rw [if_pos rfl, hpart]
    rfl

theorem readString_stray {part : String} (h : byte? source i = some '\\'.toUInt8)
    (hpart : slice? source segment i = some part) (hnone : byte? source (i + 1) = none) :
    readString source segment i line value errors =
      some ⟨i + 1, line, none, errors ++ [.lexical line .strayEscape]⟩ := by
  rw [readString]
  split
  · next h' => cases h.symm.trans h'
  · next b h' =>
    cases h.symm.trans h'
    rw [if_neg (by decide), if_pos rfl, hpart, hnone]
    rfl

theorem readString_known {part : String} {b : UInt8} {c : Char} (h : byte? source i = some '\\'.toUInt8)
    (hpart : slice? source segment i = some part) (hb : byte? source (i + 1) = some b)
    (hc : unescape (Char.ofUInt8 b) = some c) : readString source segment i line value errors =
      readString source (i + 2) (i + 2) line ((value ++ part).push c) errors := by
  rw [readString]
  split
  · next h' => cases h.symm.trans h'
  · next b' h' =>
    cases h.symm.trans h'
    rw [if_neg (by decide), if_pos rfl, hpart, hb]
    simp only [Option.bind_eq_bind, Option.bind_some, hc]

theorem readString_unknown {part : String} {b : UInt8} {c : Char} {stop : Nat}
    (h : byte? source i = some '\\'.toUInt8) (hpart : slice? source segment i = some part)
    (hb : byte? source (i + 1) = some b) (hc : unescape (Char.ofUInt8 b) = none)
    (hstop : skipBytes source continues (i + 2) = stop) (hchar : character? source (i + 1) stop = some c) :
    readString source segment i line value errors =
      readString source stop stop (if b = '\n'.toUInt8 then line + 1 else line) (value ++ part)
        (errors ++ [.lexical (if b = '\n'.toUInt8 then line + 1 else line) (.unknownEscape c)]) := by
  rw [readString]
  split
  · next h' => cases h.symm.trans h'
  · next b' h' =>
    cases h.symm.trans h'
    rw [if_neg (by decide), if_pos rfl, hpart, hb]
    simp only [Option.bind_eq_bind, Option.bind_some, hc, hstop, hchar]

end Strings

/-- What the bytes of the inside of a string come to, `breaks` line breaks after its beginning on `line`. -/
def StringBody.bytes (i line breaks : Nat) (value : String) (errors : List StaticError)
    (body : StringBody) : ByteLexeme :=
  let last := line + breaks + lineBreaks body.text
  { stop := i + (encode body.text).length
    line := last
    kind :=
      match body.ending with
      | .closed => some (.string (value ++ String.ofList body.value))
      | _ => none
    errors := errors ++ (body.badEscapes.map (BadEscape.error line) ++
      match body.ending with
      | .closed => []
      | .missing => [.lexical last .unterminatedString]
      | .stray => [.lexical last .strayEscape]) }

theorem lineBreaks_append (text more : List Char) :
    lineBreaks (text ++ more) = lineBreaks text + lineBreaks more := List.count_append

theorem width_append (text more : List Char) :
    (encode (text ++ more)).length = (encode text).length + (encode more).length := by
  rw [encode_append, List.length_append]

theorem width_escape (c : Char) (text : List Char) :
    (encode ('\\' :: c :: text)).length = 1 + (encode [c]).length + (encode text).length := by
  rw [show '\\' :: c :: text = ['\\'] ++ [c] ++ text from rfl, width_append, width_append]
  rfl

theorem lineBreaks_escape (c : Char) (text : List Char) :
    lineBreaks ('\\' :: c :: text) = lineBreaks [c] + lineBreaks text := by
  rw [show '\\' :: c :: text = ['\\'] ++ [c] ++ text from rfl, lineBreaks_append, lineBreaks_append,
    show lineBreaks ['\\'] = 0 from rfl, Nat.zero_add]

/-- A character that an escape stands for needs one byte to name it and breaks no line. -/
theorem unescape_plain {c decoded : Char} (h : unescape c = some decoded) :
    (encode [c]).length = 1 ∧ lineBreaks [c] = 0 ∧ c ≠ '\n' := by
  unfold unescape at h
  split at h
  all_goals first | exact ⟨rfl, rfl, by decide⟩ | cases h

namespace StringBody
variable {i line breaks : Nat} {value : String} {errors : List StaticError} {body : StringBody} {c : Char}

theorem bytes_raw : (body.raw c).bytes i line breaks value errors =
    body.bytes (i + (encode [c]).length) line (breaks + lineBreaks [c]) (value.push c) errors := by
  have hvalue : value.push c ++ String.ofList body.value = value ++ String.ofList (c :: body.value) := by
    apply String.toList_inj.1
    simp
  have hwidth := width_append [c] body.text
  have hbreaks := lineBreaks_append [c] body.text
  rw [List.singleton_append] at hwidth hbreaks
  unfold bytes raw
  dsimp only
  rw [hwidth, hbreaks, hvalue]
  simp only [Nat.add_assoc]

theorem bytes_known {decoded : Char} (hc : unescape c = some decoded) :
    (body.escaped c (breaks + lineBreaks [c])).bytes i line breaks value errors =
      body.bytes (i + 2) line (breaks + lineBreaks [c]) (value.push decoded) errors := by
  have hvalue : value.push decoded ++ String.ofList body.value =
      value ++ String.ofList (decoded :: body.value) := by
    apply String.toList_inj.1
    simp
  obtain ⟨hwidth, -⟩ := unescape_plain hc
  have hstop : i + (1 + 1 + (encode body.text).length) = i + 2 + (encode body.text).length :=
    (Nat.add_assoc i 2 _).symm
  unfold bytes escaped
  rw [hc]
  dsimp only
  rw [width_escape, lineBreaks_escape, hvalue, hwidth, hstop]
  simp only [Nat.add_assoc]

theorem bytes_unknown (hc : unescape c = none) :
    (body.escaped c (breaks + lineBreaks [c])).bytes i line breaks value errors =
      body.bytes (i + 1 + (encode [c]).length) line (breaks + lineBreaks [c]) value
        (errors ++ [.lexical (line + (breaks + lineBreaks [c])) (.unknownEscape c)]) := by
  unfold bytes escaped
  rw [hc]
  dsimp only
  rw [width_escape, lineBreaks_escape, List.map_cons, List.cons_append, List.append_assoc]
  simp only [Nat.add_assoc]
  rfl

end StringBody

/-- The inside of a string is read from its bytes as from its characters. -/
theorem readString_eq {source : String} (line breaks : Nat) (text : List Char) {segment : Nat}
    {part : List Char} (value : String) (errors : List StaticError) (h : At source segment (part ++ text)) :
    readString source segment (segment + (encode part).length) (line + breaks) value errors =
      some ((StringBody.read breaks text).bytes (segment + (encode part).length) line breaks
        (value ++ String.ofList part) errors) := by
  have hat : At source (segment + (encode part).length) text := h.skip
  have hpart := h.slice?_eq
  induction breaks, text using StringBody.read.induct generalizing segment part value errors with
  | case1 breaks =>
    rw [readString_missing hat.byte?_nil]
    rfl
  | case2 breaks rest =>
    rw [readString_quote (hat.byte?_ascii (by decide)).1 hpart]
    have hread : StringBody.read breaks ('"' :: rest) = ⟨['"'], [], [], .closed⟩ := rfl
    rw [hread]
    unfold StringBody.bytes
    simp [lineBreaks]
    rfl
  | case3 breaks =>
    have hback := hat.byte?_ascii (by decide)
    rw [readString_stray hback.1 hpart hback.2.byte?_nil]
    rfl
  | case4 breaks c rest breaks' =>
    rename_i ih
    have hback := hat.byte?_ascii (by decide)
    have hread : StringBody.read breaks ('\\' :: c :: rest) =
        (StringBody.read (breaks + lineBreaks [c]) rest).escaped c (breaks + lineBreaks [c]) := by
      rw [StringBody.read]
    obtain ⟨b, hb, hunescape, hbreak⟩ := unescape_byte hback.2
    have hrest : At source (segment + (encode part).length + 1 + (encode [c]).length) rest :=
      hback.2.skip_character
    rw [hread]
    cases hc : unescape c with
    | some decoded =>
      obtain ⟨hwidth, hline, -⟩ := unescape_plain hc
      rw [hwidth] at hrest
      have hmore := @ih _ [] ((value ++ String.ofList part).push decoded) errors hrest hrest
        hrest.slice?_eq
      rw [readString_known hback.1 hpart hb (hunescape.trans hc), StringBody.bytes_known hc]
      have hbreaks : breaks' = breaks + lineBreaks [c] := rfl
      rw [hbreaks, hline] at hmore
      rw [hline]
      simpa [encode] using hmore
    | none =>
      have hline : (if b = '\n'.toUInt8 then line + breaks + 1 else line + breaks) =
          line + (breaks + lineBreaks [c]) := by
        by_cases hbr : c = '\n'
        · rw [if_pos (hbreak.2 hbr), hbr]
          rfl
        · rw [if_neg fun h => hbr (hbreak.1 h), lineBreaks_eq_zero (by simpa using hbr)]
          rfl
      have hmore := @ih _ [] (value ++ String.ofList part)
        (errors ++ [.lexical (line + (breaks + lineBreaks [c])) (.unknownEscape c)]) hrest hrest hrest.slice?_eq
      rw [readString_unknown hback.1 hpart hb (hunescape.trans hc) hback.2.skip_continues
        hback.2.character?_eq, hline, StringBody.bytes_unknown hc]
      simpa [encode] using hmore
  | case5 breaks c rest hquote hstray hescape ih =>
    have hc : c ≠ '\\' := by
      rintro rfl
      cases rest with
      | nil => exact hstray rfl rfl
      | cons c' rest' => exact hescape c' rest' rfl rfl
    have hpart' : At source segment (part ++ [c] ++ rest) := by
      rw [List.append_assoc]
      exact h
    have hmore := @ih _ (part ++ [c]) value errors hpart' hpart'.skip hpart'.slice?_eq
    have hvalue : value ++ String.ofList (part ++ [c]) = (value ++ String.ofList part).push c := by
      apply String.toList_inj.1
      simp
    rw [width_append, hvalue, ← Nat.add_assoc, ← Nat.add_assoc] at hmore
    rw [readString_raw hat hquote hc, StringBody.read_raw hquote hc, StringBody.bytes_raw, hmore]

/-- A string is read from its bytes as it is cut. -/
theorem readString_cutString {source : String} {i : Nat} {rest : List Char} (line : Nat)
    (h : At source i ('"' :: rest)) :
    readString source (i + 1) (i + 1) line "" [] = some ((cutString rest).bytes i line) := by
  have hrest : At source (i + 1) ([] ++ rest) := (h.byte?_ascii (by decide)).2
  have hread := readString_eq line 0 rest "" [] hrest
  have hwidth := width_append ['"'] (StringBody.read 0 rest).text
  have hbreaks := lineBreaks_append ['"'] (StringBody.read 0 rest).text
  rw [show (encode ['"']).length = 1 from rfl] at hwidth
  rw [show lineBreaks ['"'] = 0 from rfl, Nat.zero_add] at hbreaks
  rw [List.singleton_append] at hwidth hbreaks
  refine hread.trans (congrArg some ?_)
  unfold StringBody.bytes Lexeme.bytes Lexeme.token? Lexeme.errors cutString
  dsimp only
  rw [hwidth, hbreaks]
  cases (StringBody.read 0 rest).ending <;> simp [encode, Nat.add_assoc]

end LoxLang
