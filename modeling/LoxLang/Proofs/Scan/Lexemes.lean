import LoxLang.Proofs.Scan.Strings

/-!
# Lexemes from bytes

Every lexeme is read from its bytes as it is cut from its characters. So the scan over bytes always answers:
with the items of the scan over characters, and then with nothing.
-/

namespace LoxLang

/-! ## Numbers -/

theorem tests_digit : Tests (fun b => (Char.ofUInt8 b).isDigit) Char.isDigit :=
  tests_ascii fun _ => isDigit_ascii

theorem readInteger_digits {digits : List Char} (hne : digits ≠ [])
    (hd : ∀ c ∈ digits, c.isDigit = true) :
    Decimal.readInteger digits = some (Decimal.digitsValue digits : Int) := by
  have hsign : Decimal.readSign digits = (false, digits) := by
    unfold Decimal.readSign
    split
    · exact absurd (hd '-' List.mem_cons_self) (by decide)
    · exact absurd (hd '+' List.mem_cons_self) (by decide)
    · rfl
  unfold Decimal.readInteger
  rw [hsign]
  have hall : digits.all Char.isDigit = true := List.all_eq_true.2 hd
  simp [hne, hall]

theorem word?_natCast (n : Nat) :
    word? n = if n < 2 ^ 63 then some (Int64.ofNat n) else none := by
  have hrange : (leastInt ≤ (n : Int) ∧ (n : Int) ≤ greatestInt) ↔ n < 2 ^ 63 := by
    unfold leastInt greatestInt
    omega
  unfold word?
  simp only [hrange, Int64.ofInt_eq_ofNat]

theorem toLower_digit {c : Char} (h : c.isDigit = true) : c.toLower = c := by
  unfold Char.isDigit at h
  simp only [Bool.and_eq_true, decide_eq_true_eq] at h
  unfold Char.toLower
  rw [dif_neg]
  rintro ⟨hge, -⟩
  exact absurd (UInt32.le_trans hge h.2) (by decide)

theorem readNumber_decimal {whole places : List Char} (hne : whole ≠ [])
    (hd : ∀ c ∈ whole, c.isDigit = true) (hd' : ∀ c ∈ places, c.isDigit = true) :
    Decimal.readNumber (whole ++ '.' :: places) =
      some (Decimal.ofScaled (Decimal.digitsValue (whole ++ places)) (-places.length)) := by
  obtain ⟨c, rest, rfl⟩ := List.exists_cons_of_ne_nil hne
  have hc : c.isDigit = true := hd c List.mem_cons_self
  have hsign : Decimal.readSign (c :: rest ++ '.' :: places) = (false, c :: rest ++ '.' :: places) := by
    unfold Decimal.readSign
    split
    · next h => exact absurd ((List.cons.inj h).1 ▸ hc) (by decide)
    · next h => exact absurd ((List.cons.inj h).1 ▸ hc) (by decide)
    · rfl
  have hword : ∀ more d, d.isDigit = false →
      (c :: rest ++ '.' :: places).map Char.toLower ≠ d :: more := by
    intro more d hd h
    rw [List.cons_append, List.map_cons, toLower_digit hc] at h
    rw [(List.cons.inj h).1, hd] at hc
    cases hc
  have hwhole : (c :: rest ++ '.' :: places).span Char.isDigit = (c :: rest, '.' :: places) := by
    have hstop : ∀ d ∈ ('.' :: places).head?, d.isDigit = false := by
      intro d hd
      cases hd
      rfl
    rw [List.span_eq_takeWhile_dropWhile, takeWhile_stopped hd hstop, dropWhile_stopped hd hstop]
  have htake : places.takeWhile Char.isDigit = places := List.takeWhile_eq_self_iff.2 hd'
  have hdrop : places.dropWhile Char.isDigit = [] := List.dropWhile_eq_nil_iff.2 hd'
  have hunsigned : Decimal.readUnsigned (c :: rest ++ '.' :: places) =
      some (Decimal.ofScaled (Decimal.digitsValue (c :: rest ++ places)) (-places.length)) := by
    unfold Decimal.readUnsigned
    rw [hwhole]
    simp [htake, hdrop, Decimal.readExponent]
  have hinfinity : ¬ ((c :: rest ++ '.' :: places).map Char.toLower = ['i', 'n', 'f'] ∨
      (c :: rest ++ '.' :: places).map Char.toLower = ['i', 'n', 'f', 'i', 'n', 'i', 't', 'y']) :=
    not_or.2 ⟨hword _ 'i' (by decide), hword _ 'i' (by decide)⟩
  unfold Decimal.readNumber
  rw [hsign]
  dsimp only
  rw [if_neg hinfinity, if_neg (hword _ 'n' (by decide)), hunsigned]
  rfl

theorem At.any_eq {p : UInt8 → Bool} {q : Char → Bool} (ht : Tests p q) {source : String} {i : Nat}
    {text : List Char} (h : At source i text) : (byte? source i).any p = text.head?.any q := by
  rw [h.head_eq]
  cases text with
  | nil => rfl
  | cons c rest =>
    obtain ⟨b, tail, heq⟩ : ∃ b tail, String.utf8EncodeChar c = b :: tail :=
      List.exists_cons_of_ne_nil String.utf8EncodeChar_ne_nil
    have hhead : (encode (c :: rest)).head? = some b := by
      unfold encode
      rw [List.flatMap_cons, heq]
      rfl
    rw [hhead, List.head?_cons, Option.any_some, Option.any_some]
    cases hc : q c with
    | true => exact ht.pass c hc b (by rw [heq]; exact List.mem_cons_self)
    | false => exact ht.stop c hc b (by rw [heq]; rfl)

/-- The number whose digits have been read goes on where a point with a digit behind it stands. -/
theorem fraction_iff {source : String} {i : Nat} {behind : List Char} (h : At source i behind) :
    (byteIs source i '.' && (byte? source (i + 1)).any fun b => (Char.ofUInt8 b).isDigit) = true ↔
      ∃ d more, behind = '.' :: d :: more ∧ d.isDigit = true := by
  rw [Bool.and_eq_true, h.byteIs_iff (by decide)]
  constructor
  · rintro ⟨hhead, hdigit⟩
    obtain ⟨more, rfl⟩ := List.head?_eq_some_iff.1 hhead
    rw [(h.byte?_ascii (by decide)).2.any_eq tests_digit] at hdigit
    cases more with
    | nil => cases hdigit
    | cons d more => exact ⟨d, more, rfl, hdigit⟩
  · rintro ⟨d, more, rfl, hd⟩
    rw [(h.byte?_ascii (by decide)).2.any_eq tests_digit]
    exact ⟨rfl, hd⟩

theorem digits_ne_break {digits : List Char} (h : ∀ d ∈ digits, d.isDigit = true) :
    ∀ d ∈ digits, d ≠ '\n' :=
  fun d hd => ne_of_test (h d hd) rfl

section Numbers
variable {source : String} {start : Nat} {whole behind : List Char}

/-- Digits that no fraction follows are an integer, unless it is too large. -/
theorem readNumber_integer (line : Nat) (hat : At source start (whole ++ behind)) (hne : whole ≠ [])
    (hdigits : ∀ d ∈ whole, d.isDigit = true)
    (hstop : skipBytes source (fun b => (Char.ofUInt8 b).isDigit) (start + 1) =
      start + (encode whole).length)
    (hnone : ¬ ∃ d more, behind = '.' :: d :: more ∧ d.isDigit = true) :
    readNumber source start line = some (Lexeme.bytes start line
      ⟨whole, if Decimal.digitsValue whole < 2 ^ 63 then .token (.int (Int64.ofNat (Decimal.digitsValue whole)))
        else .fault (.integerTooLarge (String.ofList whole)), []⟩) := by
  have hbreaks := digits_ne_break hdigits
  unfold readNumber
  dsimp only
  rw [hstop, if_neg (mt (fraction_iff hat.skip).1 hnone), hat.slice?_eq]
  simp only [Option.bind_eq_bind, Option.bind_some, String.toList_ofList, readInteger_digits hne hdigits,
    word?_natCast]
  by_cases hlt : Decimal.digitsValue whole < 2 ^ 63
  · rw [if_pos hlt, if_pos hlt, Lexeme.bytes_plain hbreaks]
  · rw [if_neg hlt, if_neg hlt]
    unfold Lexeme.bytes Lexeme.errors
    rw [lineBreaks_eq_zero hbreaks]
    rfl

/-- Digits with a point and digits behind them are a float. -/
theorem readNumber_float {places : List Char} (line : Nat)
    (hat : At source start (whole ++ '.' :: places ++ behind)) (hne : whole ≠ [])
    (hdigits : ∀ d ∈ whole, d.isDigit = true) (hplaces : ∀ d ∈ places, d.isDigit = true)
    (hsome : places ≠ []) (hend : (places ++ behind).takeWhile Char.isDigit = places)
    (hstop : skipBytes source (fun b => (Char.ofUInt8 b).isDigit) (start + 1) =
      start + (encode whole).length) :
    readNumber source start line = some (Lexeme.bytes start line
      ⟨whole ++ '.' :: places,
        .token (.float (Decimal.ofScaled (Decimal.digitsValue (whole ++ places)) (-places.length))), []⟩) := by
  obtain ⟨d, more, rfl⟩ := List.exists_cons_of_ne_nil hsome
  have hpoint : At source (start + (encode whole).length) ('.' :: (d :: more ++ behind)) := by
    rw [List.append_assoc] at hat
    exact hat.skip
  have hwidth : start + (encode whole).length + 1 + (encode (d :: more)).length =
      start + (encode (whole ++ '.' :: d :: more)).length := by
    have hpoint := width_append ['.'] (d :: more)
    rw [List.singleton_append] at hpoint
    rw [width_append, hpoint, Nat.add_assoc, Nat.add_assoc]
    rfl
  have hbreaks : ∀ e ∈ whole ++ '.' :: d :: more, e ≠ '\n' := by
    intro e he
    rcases List.mem_append.1 he with he | he
    · exact digits_ne_break hdigits e he
    · rcases List.mem_cons.1 he with rfl | he
      · decide
      · exact digits_ne_break hplaces e he
  unfold readNumber
  dsimp only
  rw [hstop, if_pos ((fraction_iff hpoint).2 ⟨d, _, rfl, hplaces d List.mem_cons_self⟩),
    (hpoint.byte?_ascii (by decide)).2.skipBytes_eq tests_digit, hend, hwidth, hat.slice?_eq,
    Lexeme.bytes_plain hbreaks]
  simp only [Option.bind_eq_bind, Option.bind_some, String.toList_ofList,
    readNumber_decimal hne hdigits hplaces]

end Numbers

/-- A number is read from its bytes as it is cut. -/
theorem readNumber_eq {source : String} {start : Nat} {c : Char} {rest : List Char} (line : Nat)
    (h : At source start (c :: rest)) (hc : c.isDigit = true) :
    readNumber source start line = some ((cutNumber (c :: rest)).bytes start line) := by
  obtain ⟨whole, hwhole⟩ : ∃ whole, (c :: rest).takeWhile Char.isDigit = whole := ⟨_, rfl⟩
  obtain ⟨behind, hbehind⟩ : ∃ behind, (c :: rest).dropWhile Char.isDigit = behind := ⟨_, rfl⟩
  have hat : At source start (whole ++ behind) := by
    rw [← hwhole, ← hbehind, List.takeWhile_append_dropWhile]
    exact h
  have hdigits : ∀ d ∈ whole, d.isDigit = true := by
    rw [← hwhole]
    exact fun _ => List.mem_takeWhile_imp
  have hne : whole ≠ [] := by
    rw [← hwhole]
    exact takeWhile_cons_ne_nil hc rest
  have hstop : skipBytes source (fun b => (Char.ofUInt8 b).isDigit) (start + 1) =
      start + (encode whole).length := by
    have hbyte := h.byte?_ascii (isDigit_ascii hc)
    have hfirst : (Char.ofUInt8 c.toUInt8).isDigit = true := by rw [ofUInt8_toUInt8 (isDigit_ascii hc), hc]
    rw [← skipBytes_next hbyte.1 hfirst, h.skipBytes_eq tests_digit, hwhole]
  unfold cutNumber
  rw [hwhole, hbehind]
  by_cases hpoint : ∃ d more, behind = '.' :: d :: more ∧ d.isDigit = true
  · obtain ⟨d, more, rfl, hd⟩ := hpoint
    obtain ⟨places, hplaces⟩ : ∃ places, (d :: more).takeWhile Char.isDigit = places := ⟨_, rfl⟩
    have hmore := List.takeWhile_append_dropWhile (p := Char.isDigit) (l := d :: more)
    rw [hplaces] at hmore
    have hplacesDigits : ∀ e ∈ places, e.isDigit = true := by
      rw [← hplaces]
      exact fun _ => List.mem_takeWhile_imp
    have hsome : places ≠ [] := by
      rw [← hplaces]
      exact takeWhile_cons_ne_nil hd more
    have hdecimals : cutDecimals ('.' :: d :: more) = '.' :: places := by
      rw [cutDecimals_point, hplaces, if_neg fun he => hsome (List.isEmpty_iff.1 he)]
    have htext : At source start (whole ++ '.' :: places ++ (d :: more).dropWhile Char.isDigit) := by
      rwa [List.append_assoc, List.cons_append, hmore]
    rw [readNumber_float line htext hne hdigits hplacesDigits hsome (by rw [hmore, hplaces]) hstop,
      hdecimals]
    simp
  · have hnone : ∀ d more, behind = '.' :: d :: more → d.isDigit = false := by
      intro d more he
      rw [← Bool.not_eq_true]
      exact fun hd => hpoint ⟨d, more, he, hd⟩
    rw [readNumber_integer line hat hne hdigits hstop hpoint, cutDecimals_of_no_digit hnone]
    rfl

/-! ## Words and marks -/

/-- A word is read from its bytes as it is cut. -/
theorem readWord_eq {source : String} {start : Nat} {c : Char} {rest : List Char} (line : Nat)
    (h : At source start (c :: rest)) (hc : isWordStart c = true) :
    readWord source start line = some ((cutWord (c :: rest)).bytes start line) := by
  have htests : Tests (fun b => isWordChar (Char.ofUInt8 b)) isWordChar :=
    tests_ascii fun _ => isWordChar_ascii
  obtain ⟨word, hword⟩ : ∃ word, (c :: rest).takeWhile isWordChar = word := ⟨_, rfl⟩
  have hchar : isWordChar c = true := isWordStart_isWordChar hc
  have hascii : c.toNat < 128 := isWordChar_ascii hchar
  have hall : ∀ d ∈ word, isWordChar d = true := by
    rw [← hword]
    exact fun _ => List.mem_takeWhile_imp
  have hbreaks : ∀ d ∈ word, d ≠ '\n' := fun d hd => ne_of_test (hall d hd) (by decide)
  have hstop : skipBytes source (fun b => isWordChar (Char.ofUInt8 b)) (start + 1) =
      start + (encode word).length := by
    have hfirst : isWordChar (Char.ofUInt8 c.toUInt8) = true := by rw [ofUInt8_toUInt8 hascii, hchar]
    rw [← skipBytes_next (h.byte?_ascii hascii).1 hfirst, h.skipBytes_eq htests, hword]
  have hat : At source start (word ++ (c :: rest).dropWhile isWordChar) := by
    rw [← hword, List.takeWhile_append_dropWhile]
    exact h
  unfold readWord cutWord
  rw [hstop, hword]
  dsimp only
  rw [hat.slice?_eq, Option.bind_eq_bind, Option.bind_some, String.toList_ofList]
  cases Keyword.ofSpelling? word with
  | none => exact congrArg some (Lexeme.bytes_plain hbreaks).symm
  | some keyword => exact congrArg some (Lexeme.bytes_plain hbreaks).symm

namespace Mark

/-- The marks that begin with a character, longer ones first. -/
def beginning (c : Char) : List Mark := byLength.filter fun m => m.spelling.head? == some c

/-- Behind its first character a mark is the first of these that the text goes on with. -/
theorem longest?_cons (c : Char) (rest : List Char) :
    longest? (c :: rest) = (beginning c).find? fun m => m.spelling.tail.isPrefixOf rest := by
  unfold longest? beginning
  rw [List.find?_filter]
  congr 1
  funext m
  cases hm : m.spelling with
  | nil => cases m <;> cases hm
  | cons d tail =>
    rw [List.head?_cons, List.tail_cons, List.isPrefixOf, Bool.eq_iff_iff]
    simp [List.isPrefixOf_iff_prefix]

theorem spelling_ascii (m : Mark) : ∀ c ∈ m.spelling, c.toNat < 128 ∧ c ≠ '\n' := by
  have hall : (byLength.all fun m => m.spelling.all fun c => decide (c.toNat < 128) && c != '\n') = true := by
    decide
  intro c hc
  simpa using List.all_eq_true.1 (List.all_eq_true.1 hall m m.mem_byLength) c hc

theorem longest?_wide {c : Char} (h : 128 ≤ c.toNat) (rest : List Char) : longest? (c :: rest) = none := by
  cases hm : longest? (c :: rest) with
  | none => rfl
  | some m =>
    obtain ⟨more, hmore⟩ := longest?_begins hm
    obtain ⟨d, tail, hd, -⟩ := m.head_spelled
    have hascii := (m.spelling_ascii d (by rw [hd]; exact List.mem_cons_self)).1
    rw [hd] at hmore
    rw [(List.cons.inj hmore).1] at hascii
    omega

end Mark

theorem encode_ascii {text : List Char} (h : ∀ c ∈ text, c.toNat < 128) :
    (encode text).length = text.length := by
  induction text with
  | nil => rfl
  | cons c rest ih =>
    rw [List.forall_mem_cons] at h
    have hsingle : (encode [c]).length = 1 := by
      rcases utf8EncodeChar_cases c with ⟨-, heq⟩ | ⟨hge, -⟩
      · unfold encode
        rw [List.flatMap_singleton, heq]
        rfl
      · omega
    have happend := width_append [c] rest
    rw [List.singleton_append, hsingle, ih h.2] at happend
    rw [happend, List.length_cons, Nat.add_comm]

section Marks
variable {source : String} {i : Nat} {rest : List Char}

/-- Where a mark ends that begins one character before a place. -/
def markAt (i : Nat) (m : Mark) : Mark × Nat := (m, i + m.spelling.tail.length)

/-- What a text goes on with is seen by its next byte. -/
theorem At.isPrefixOf_eq (h : At source i rest) {d : Char} (hd : d.toNat < 128) (more : List Char) :
    (d :: more).isPrefixOf rest = (byteIs source i d && more.isPrefixOf rest.tail) := by
  have hbyte := h.byteIs_iff hd
  cases rest with
  | nil =>
    have hnone : byteIs source i d = false := by simpa using hbyte
    rw [hnone]
    rfl
  | cons e rest =>
    have heq : byteIs source i d = (d == e) := by
      rw [Bool.eq_iff_iff, hbyte, List.head?_cons, Option.some_inj, beq_iff_eq, eq_comm]
    rw [List.isPrefixOf, heq, List.tail_cons]

theorem withEqual_eq (h : At source i rest) {long short : Mark} (hl : long.spelling.tail = ['='])
    (hs : short.spelling.tail = []) : some (withEqual source long short i) =
      ([long, short].find? fun m => m.spelling.tail.isPrefixOf rest).map (markAt i) := by
  have hequal := h.isPrefixOf_eq (d := '=') (by decide) []
  rw [List.isPrefixOf_nil_left, Bool.and_true] at hequal
  unfold withEqual
  cases hb : byteIs source i '=' <;> simp [hl, hs, hequal, hb, markAt]

theorem doubled_eq {second : Char} (h : At source i rest) (hsecond : second.toNat < 128)
    {long wide double single : Mark} (h₁ : long.spelling.tail = [second, '='])
    (h₂ : wide.spelling.tail = ['=']) (h₃ : double.spelling.tail = [second])
    (h₄ : single.spelling.tail = []) (hne : second ≠ '=') :
    some (if byteIs source i second then withEqual source long double (i + 1)
      else withEqual source wide single i) =
      ([long, wide, double, single].find? fun m => m.spelling.tail.isPrefixOf rest).map (markAt i) := by
  have hdouble := h.isPrefixOf_eq hsecond []
  have hlong := h.isPrefixOf_eq hsecond ['=']
  rw [List.isPrefixOf_nil_left, Bool.and_true] at hdouble
  by_cases hb : byteIs source i second = true
  · obtain ⟨more, rfl⟩ := List.head?_eq_some_iff.1 ((h.byteIs_iff hsecond).1 hb)
    have hwide : ['='].isPrefixOf (second :: more) = false := by
      simpa [List.isPrefixOf] using Ne.symm hne
    have hnext : At source (i + 1) more := (h.byte?_ascii hsecond).2
    have hequal := hnext.isPrefixOf_eq (d := '=') (by decide) []
    rw [List.isPrefixOf_nil_left, Bool.and_true] at hequal
    rw [List.tail_cons, hequal] at hlong
    unfold withEqual
    cases hb' : byteIs source (i + 1) '=' <;>
      simp [h₁, h₂, h₃, hb, hb', hdouble, hlong, hwide, markAt, Nat.add_assoc]
  · have hwide := withEqual_eq h h₂ h₄
    rw [Bool.not_eq_true] at hb
    rw [hb, Bool.false_and] at hlong
    rw [hb] at hdouble
    simp only [List.find?_cons, h₁, h₃, hlong, hdouble] at hwide ⊢
    rw [if_neg (by rw [hb]; exact Bool.false_ne_true), hwide]

/-- A mark is read from its bytes as the longest one. -/
theorem readMark_eq (c : Char) (h : At source i rest) :
    readMark source c i = (Mark.longest? (c :: rest)).map (markAt i) := by
  have hequal {c : Char} {long short : Mark} (hl : long.spelling.tail = ['='])
      (hs : short.spelling.tail = []) (hc : Mark.beginning c = [long, short]) :
      some (withEqual source long short i) = (Mark.longest? (c :: rest)).map (markAt i) := by
    rw [Mark.longest?_cons, hc, withEqual_eq h hl hs]
  have hsingle {c : Char} {m : Mark} (hm : m.spelling.tail = []) (hc : Mark.beginning c = [m]) :
      some (m, i) = (Mark.longest? (c :: rest)).map (markAt i) := by
    rw [Mark.longest?_cons, hc]
    simp [hm, markAt]
  unfold readMark
  split
  case h_23 =>
    cases hm : Mark.longest? (c :: rest) with
    | none => rfl
    | some m =>
      obtain ⟨more, hmore⟩ := Mark.longest?_begins hm
      cases m <;> cases hmore <;> contradiction
  case h_20 =>
    rw [Mark.longest?_cons, show Mark.beginning '*' = [.starStarEqual, .starEqual, .starStar, .star] from rfl]
    exact doubled_eq h (by decide) rfl rfl rfl rfl (by decide)
  case h_21 =>
    rw [Mark.longest?_cons,
      show Mark.beginning '<' = [.shiftLeftEqual, .lessEqual, .shiftLeft, .less] from rfl]
    exact doubled_eq h (by decide) rfl rfl rfl rfl (by decide)
  case h_22 =>
    rw [Mark.longest?_cons,
      show Mark.beginning '>' = [.shiftRightEqual, .greaterEqual, .shiftRight, .greater] from rfl]
    exact doubled_eq h (by decide) rfl rfl rfl rfl (by decide)
  all_goals first | exact hsingle rfl rfl | exact hequal rfl rfl rfl

end Marks

/-! ## The next lexeme -/

theorem readMark_wide {source : String} {c : Char} (h : 128 ≤ c.toNat) (i : Nat) :
    readMark source c i = none := by
  unfold readMark
  split
  all_goals first | rfl | exact absurd h (by decide)

theorem not_isSeparator_iff {c : Char} : isSeparator c = false ↔
    ¬ (c = ' ' ∨ c = '\r' ∨ c = '\t') ∧ c ≠ '\n' := by
  rw [← Bool.not_eq_true, isSeparator_iff]
  simp [not_or, and_assoc]

/-- What cannot begin a token is one character, however many bytes it has. -/
theorem readLexeme_unexpected {source : String} {start line : Nat} {c : Char} {rest : List Char}
    (h : At source start (c :: rest)) (hbreak : c ≠ '\n') :
    (do
      let stop := skipBytes source continues (start + 1)
      let c ← character? source start stop
      some (⟨stop, line, none, [.lexical line (.unexpectedCharacter c)]⟩ : ByteLexeme)) =
    some (Lexeme.bytes start line ⟨[c], .fault (.unexpectedCharacter c), []⟩) := by
  have hline : lineBreaks [c] = 0 := lineBreaks_eq_zero (by simpa using hbreak)
  dsimp only
  rw [h.skip_continues, h.character?_eq]
  unfold Lexeme.bytes Lexeme.errors
  rw [hline]
  rfl

theorem readLexeme_mark (start line : Nat) (m : Mark) :
    (⟨(markAt (start + 1) m).2, line, some (.mark m), []⟩ : ByteLexeme) =
      Lexeme.bytes start line ⟨m.spelling, .token (.mark m), []⟩ := by
  obtain ⟨d, tail, hd, -⟩ := m.head_spelled
  rw [Lexeme.bytes_plain fun e he => (m.spelling_ascii e he).2, encode_ascii fun e he => (m.spelling_ascii e he).1]
  unfold markAt
  rw [hd, List.tail_cons, List.length_cons]
  dsimp only
  rw [Nat.add_assoc, Nat.add_comm 1]

/-- The bytes of a comment. -/
theorem readLexeme_comment {source : String} {start : Nat} {rest : List Char} (line : Nat)
    (h : At source start ('/' :: '/' :: rest)) :
    (⟨skipBytes source (· != '\n'.toUInt8) (start + 1 + 1), line, none, []⟩ : ByteLexeme) =
      Lexeme.bytes start line ⟨('/' :: '/' :: rest).takeWhile (· != '\n'), .comment, []⟩ := by
  have hfirst := h.byte?_ascii (by decide)
  have hsecond := hfirst.2.byte?_ascii (by decide)
  have hskip := h.skipBytes_eq tests_not_lineBreak
  rw [skipBytes_next hfirst.1 rfl, skipBytes_next hsecond.1 rfl] at hskip
  have hline : lineBreaks (('/' :: '/' :: rest).takeWhile (· != '\n')) = 0 := by
    apply lineBreaks_eq_zero
    intro d hd
    simpa using List.mem_takeWhile_imp hd
  unfold Lexeme.bytes
  rw [hskip, hline]
  rfl

/-- A lexeme that begins with an ASCII character is read from its bytes as it is cut: both look for the same
forms in the same order. -/
theorem readLexeme_ascii {source : String} {start : Nat} {c : Char} {rest : List Char} (line : Nat)
    (h : At source start (c :: rest)) (hascii : c.toNat < 128) :
    readLexeme source start line = some ((cut c rest).bytes start line) := by
  obtain ⟨hbyte, hnext⟩ := h.byte?_ascii hascii
  have hslash := hnext.byteIs_iff (d := '/') (by decide)
  have hwidth : (encode [c]).length = 1 := encode_ascii (by simpa using hascii)
  unfold readLexeme
  simp only [hbyte, Option.bind_eq_bind, Option.bind_some, ofUInt8_toUInt8 hascii]
  by_cases hblank : c = ' ' ∨ c = '\r' ∨ c = '\t'
  · have hsep : isSeparator c = true := by
      rw [isSeparator_iff]
      rcases hblank with rfl | rfl | rfl <;> simp
    have hline : lineBreaks [c] = 0 := by rcases hblank with rfl | rfl | rfl <;> rfl
    rw [if_pos hblank, cut_separator hsep]
    unfold Lexeme.bytes
    rw [hline, hwidth]
    rfl
  by_cases hbreak : c = '\n'
  · subst hbreak
    rfl
  have hsep : isSeparator c = false := not_isSeparator_iff.2 ⟨hblank, hbreak⟩
  rw [if_neg hblank, if_neg hbreak]
  by_cases hcomment : c = '/' ∧ byteIs source (start + 1) '/' = true
  · rw [if_pos hcomment]
    obtain ⟨more, rfl⟩ := List.head?_eq_some_iff.1 (hslash.1 hcomment.2)
    obtain ⟨rfl, -⟩ := hcomment
    have hprefix : ['/', '/'] <+: '/' :: '/' :: more := ⟨more, rfl⟩
    rw [readLexeme_comment line h, cut_slashes hprefix]
  have hslashes : ¬ ['/', '/'] <+: c :: rest := by
    rintro ⟨more, hmore⟩
    obtain ⟨rfl, rfl⟩ := List.cons.inj hmore
    exact hcomment ⟨rfl, hslash.2 rfl⟩
  rw [if_neg hcomment]
  by_cases hquote : c = '"'
  · subst hquote
    rw [if_pos rfl, readString_cutString line h, cut_quote]
  rw [if_neg hquote]
  cases hdigit : c.isDigit with
  | true => rw [if_pos rfl, readNumber_eq line h hdigit, cut_digit hdigit]
  | false =>
    cases hword : isWordStart c with
    | true => rw [if_neg Bool.false_ne_true, if_pos rfl, readWord_eq line h hword, cut_wordStart hword]
    | false =>
      rw [if_neg Bool.false_ne_true, if_neg Bool.false_ne_true, readMark_eq c hnext,
        cut_other hsep hslashes hquote hdigit hword]
      cases hm : Mark.longest? (c :: rest) with
      | some m => exact congrArg some (readLexeme_mark start line m)
      | none => exact readLexeme_unexpected h hbreak

/-- No lexeme begins with a character beyond ASCII, and its first byte begins none. -/
theorem readLexeme_wide {source : String} {start : Nat} {c : Char} {rest : List Char} (line : Nat)
    (h : At source start (c :: rest)) (hge : 128 ≤ c.toNat) :
    readLexeme source start line = some ((cut c rest).bytes start line) := by
  obtain ⟨b, hb, hbge⟩ := h.byte?_wide hge
  have hbyte {d : Char} (hd : d.toNat < 128) : Char.ofUInt8 b ≠ d := ofUInt8_ne (by omega) hd
  have hchar {d : Char} (hd : d.toNat < 128) : c ≠ d := by
    rintro rfl
    exact absurd hd (Nat.not_lt.2 hge)
  have hfalse {p : Char → Bool} (hp : ∀ d, p d = true → d.toNat < 128) {d : Char}
      (hd : 128 ≤ d.toNat) : p d = false := by
    rw [← Bool.not_eq_true]
    exact fun h => absurd (hp d h) (Nat.not_lt.2 hd)
  have hbge' : 128 ≤ (Char.ofUInt8 b).toNat := by
    rw [toNat_ofUInt8]
    omega
  have hstart {d : Char} (hd : isWordStart d = true) : d.toNat < 128 :=
    isWordChar_ascii (isWordStart_isWordChar hd)
  have hblank : ¬ (Char.ofUInt8 b = ' ' ∨ Char.ofUInt8 b = '\r' ∨ Char.ofUInt8 b = '\t') := by
    simp [hbyte]
  have hsep : isSeparator c = false := not_isSeparator_iff.2 ⟨by simp [hchar], hchar (by decide)⟩
  have hslashes : ¬ ['/', '/'] <+: c :: rest :=
    fun hp => not_slashes_of_ne (hchar (by decide)) (List.isPrefixOf_iff_prefix.2 hp)
  have hcut := cut_other hsep hslashes (hchar (by decide))
    (hfalse (fun _ => isDigit_ascii) hge) (hfalse (fun _ => hstart) hge)
  rw [Mark.longest?_wide hge] at hcut
  unfold readLexeme
  simp only [hb, Option.bind_eq_bind, Option.bind_some]
  rw [if_neg hblank, if_neg (hbyte (by decide)), if_neg fun hc => hbyte (by decide) hc.1,
    if_neg (hbyte (by decide)), hfalse (fun _ => isDigit_ascii) hbge', if_neg Bool.false_ne_true,
    hfalse (fun _ => hstart) hbge', if_neg Bool.false_ne_true, readMark_wide hbge', hcut]
  exact readLexeme_unexpected h (hchar (by decide))

/-- The lexeme at a place is read from its bytes as it is cut. -/
theorem readLexeme_eq {source : String} {start : Nat} {c : Char} {rest : List Char} (line : Nat)
    (h : At source start (c :: rest)) :
    readLexeme source start line = some ((cut c rest).bytes start line) :=
  (Nat.lt_or_ge c.toNat 128).elim (readLexeme_ascii line h) (readLexeme_wide line h)

/-! ## The items one by one -/

theorem Lexeme.items_eq (line : Nat) (l : Lexeme) : l.items line =
    (l.errors line).map .error ++
      (l.token?.map fun kind => ScanItem.token ⟨kind, String.ofList l.text, line + lineBreaks l.text⟩).toList := by
  unfold items errors token?
  cases l.kind <;> simp

/-- The items that a cursor still has to yield. -/
inductive Cursor.Due (source : String) : Cursor → List ScanItem → Prop
  | inside {cursor : Cursor} {text : List Char} : At source cursor.place text → Due source cursor
      (cursor.errors.map .error ++ (cursor.ready.map .token).toList ++ itemsFrom cursor.line (lexemes text))
  | behind {place line : Nat} : source.toByteArray.size < place → Due source ⟨place, line, none, []⟩ []

namespace Cursor
variable {source : String}

/-- What is due in front of a lexeme is due when the cursor has read it. -/
theorem due_lexeme {line : Nat} {c : Char} {rest behind : List Char}
    (hb : (cut c rest).text ++ behind = c :: rest) :
    (((cut c rest).errors line).map ScanItem.error ++ (((cut c rest).token?.map fun kind =>
      (⟨kind, String.ofList (cut c rest).text, line + lineBreaks (cut c rest).text⟩ : Token)).map
        .token).toList ++ itemsFrom (line + lineBreaks (cut c rest).text) (lexemes behind)) =
      itemsFrom line (lexemes (c :: rest)) := by
  rw [lexemes_cons hb, itemsFrom, Lexeme.items_eq, Option.map_map]
  rfl

theorem next?_lexeme {place line : Nat} {lexeme : ByteLexeme} {text : String}
    (hplace : place < source.toByteArray.size) (hread : readLexeme source place line = some lexeme)
    (htext : slice? source place lexeme.stop = some text) :
    next? source ⟨place, line, none, []⟩ = next? source
      ⟨lexeme.stop, lexeme.line, lexeme.kind.map fun kind => ⟨kind, text, lexeme.line⟩, lexeme.errors⟩ := by
  rw [next?]
  dsimp only
  rw [if_neg (Nat.not_lt.2 (Nat.le_of_lt hplace)), if_neg (Nat.ne_of_lt hplace)]
  split
  · next h => cases h.symm.trans hread
  · next lexeme' h =>
    cases h.symm.trans hread
    cases lexeme.kind with
    | none => rfl
    | some kind =>
      dsimp only
      rw [htext]
      rfl

/-- Asked for an item, a cursor yields the next one that is due. -/
theorem next?_eq {cursor : Cursor} {items : List ScanItem} (h : Due source cursor items) :
    ∃ cursor', cursor.next? source = some (items.head?, cursor') ∧ Due source cursor' items.tail := by
  cases h with
  | @behind place line hlt =>
    refine ⟨⟨place, line, none, []⟩, ?_, .behind hlt⟩
    rw [next?]
    exact if_pos hlt
  | @inside _ text hat =>
    obtain ⟨place, line, ready, errors⟩ := cursor
    -- a lexeme without items is skipped, and what is left of the text becomes shorter
    induction hn : text.length using Nat.strong_induction_on generalizing place line ready errors text with
    | _ n ih =>
    cases errors with
    | cons e errors =>
      refine ⟨⟨place, line, ready, errors⟩, ?_, .inside hat⟩
      rw [next?]
      rfl
    | nil =>
      cases ready with
      | some token =>
        refine ⟨⟨place, line, none, []⟩, ?_, .inside hat⟩
        rw [next?]
        rfl
      | none =>
        have hsize : place + (encode text).length = source.toByteArray.size := hat.place_le
        cases text with
        | nil =>
          have hend : place = source.toByteArray.size := hsize
          refine ⟨⟨place + 1, line, none, []⟩, ?_, .behind (by omega)⟩
          rw [next?]
          dsimp only
          rw [if_neg (by omega), if_pos hend]
          rfl
        | cons c rest =>
          obtain ⟨behind, hb⟩ := cut_begins c rest
          have hplace : place < source.toByteArray.size := by
            have hpos : 0 < (encode (c :: rest)).length := by
              obtain ⟨b, tail, heq⟩ := List.exists_cons_of_ne_nil (@String.utf8EncodeChar_ne_nil c)
              unfold encode
              rw [List.flatMap_cons, heq]
              exact Nat.succ_pos _
            omega
          have htext : At source place ((cut c rest).text ++ behind) := hb.symm ▸ hat
          have hnext := next?_lexeme hplace (readLexeme_eq line hat) htext.slice?_eq
          have hshort : behind.length < n := by
            have hlength := congrArg List.length hb
            have hpos := List.length_pos_iff.2 (cut_nonempty c rest)
            rw [List.length_append] at hlength
            omega
          have hmore := ih behind.length hshort (place + (encode (cut c rest).text).length)
            (line + lineBreaks (cut c rest).text) ((cut c rest).token?.map fun kind =>
              ⟨kind, String.ofList (cut c rest).text, line + lineBreaks (cut c rest).text⟩)
            ((cut c rest).errors line) htext.skip rfl
          dsimp only at hmore
          rw [due_lexeme hb] at hmore
          rw [hnext]
          exact hmore

/-- Asked so many times, a cursor yields what is due, and then nothing. -/
theorem answers_eq (n : Nat) {cursor : Cursor} {items : List ScanItem} (h : Due source cursor items) :
    answers source n cursor = some ((List.range n).map fun k => items[k]?) := by
  induction n generalizing cursor items with
  | zero => rfl
  | succ n ih =>
    obtain ⟨cursor', hnext, hdue⟩ := next?_eq h
    have hmore := ih hdue
    rw [answers, hnext]
    simp only [Option.bind_eq_bind, Option.bind_some, hmore]
    rw [List.range_succ_eq_map, List.map_cons, List.map_map]
    cases items <;> rfl

theorem due_start (source : String) : Due source {} (scan source) := .inside (At.start source)

end Cursor

end LoxLang
