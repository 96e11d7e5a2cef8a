import LoxLang.Token.Lexeme

/-!
# Texts as bytes

What can be seen of a text from its bytes. A place is a number of bytes; a text is cut out between two places
only if both lie between characters. Characters of ASCII are told by single bytes, so a loop over bytes that
tests for them stops where a loop over characters does.
-/

namespace LoxLang

/-! ## Bytes and texts -/

/-- The byte at a place. -/
def byte? (source : String) (i : Nat) : Option UInt8 := source.toByteArray.data[i]?

/-- Whether a character of one byte stands at a place. -/
def byteIs (source : String) (i : Nat) (c : Char) : Bool := byte? source i == some c.toUInt8

/-- The text between two places, if both lie between characters. -/
def slice? (source : String) (start stop : Nat) : Option String :=
  if h : start ≤ stop ∧ String.Pos.Raw.IsValid source ⟨start⟩ ∧ String.Pos.Raw.IsValid source ⟨stop⟩ then
    some (source.extract ⟨⟨start⟩, h.2.1⟩ ⟨⟨stop⟩, h.2.2⟩)
  else none

/-- The only character between two places. -/
def character? (source : String) (start stop : Nat) : Option Char := do
  match (← slice? source start stop).toList with
  | [c] => some c
  | _ => none

theorem lt_of_byte? {source : String} {i : Nat} {b : UInt8} (h : byte? source i = some b) :
    i < source.toByteArray.size := by
  obtain ⟨hlt, -⟩ := Array.getElem?_eq_some_iff.1 h
  exact hlt

/-- The place behind the bytes from a place on that pass a test. -/
def skipBytes (source : String) (p : UInt8 → Bool) (i : Nat) : Nat :=
  match h : byte? source i with
  | some b => if p b then skipBytes source p (i + 1) else i
  | none => i
termination_by source.toByteArray.size - i
decreasing_by
  have := lt_of_byte? h
  omega

section
variable {source : String} {p : UInt8 → Bool} {i : Nat}

theorem skipBytes_next {b : UInt8} (h : byte? source i = some b) (hp : p b = true) :
    skipBytes source p i = skipBytes source p (i + 1) := by
  rw [skipBytes]
  split
  · next b' h' =>
    cases h.symm.trans h'
    rw [if_pos hp]
  · next h' => cases h.symm.trans h'

theorem skipBytes_stop (h : ∀ b ∈ byte? source i, p b = false) : skipBytes source p i = i := by
  rw [skipBytes]
  split
  · next b h' =>
    rw [if_neg]
    rw [h b h']
    exact Bool.false_ne_true
  · rfl

theorem le_skipBytes (source : String) (p : UInt8 → Bool) (i : Nat) : i ≤ skipBytes source p i := by
  induction i using skipBytes.induct source p with
  | case1 i b h hp ih =>
    rw [skipBytes_next h hp]
    exact Nat.le_of_succ_le ih
  | case2 i b h hp =>
    refine Nat.le_of_eq (skipBytes_stop ?_).symm
    intro b' hb'
    cases h.symm.trans hb'
    exact Bool.eq_false_iff.2 hp
  | case3 i h =>
    refine Nat.le_of_eq (skipBytes_stop ?_).symm
    intro b' hb'
    cases h.symm.trans hb'

end

/-- Whether a byte goes on with a character. -/
def continues (b : UInt8) : Bool := b &&& 0xC0 == 0x80

/-! ## Characters in bytes -/

/-- The bytes of a text. -/
def encode (text : List Char) : List UInt8 := text.flatMap String.utf8EncodeChar

theorem encode_append (text more : List Char) : encode (text ++ more) = encode text ++ encode more :=
  List.flatMap_append

/-- A character is one byte below 128, or a byte from 192 on and further ones between. -/
theorem utf8EncodeChar_cases (c : Char) :
    (c.toNat < 128 ∧ String.utf8EncodeChar c = [c.toUInt8]) ∨
      (128 ≤ c.toNat ∧ ∃ b tail, String.utf8EncodeChar c = b :: tail ∧ 192 ≤ b.toNat ∧
        ∀ t ∈ tail, 128 ≤ t.toNat ∧ t.toNat < 192) := by
  have hval : c.val.toNat = c.toNat := rfl
  unfold String.utf8EncodeChar
  dsimp only
  rw [hval]
  split
  · next h =>
    refine .inl ⟨Nat.lt_succ_of_le h, ?_⟩
    rfl
  split
  · next h h' =>
    refine .inr ⟨Nat.lt_of_not_le h, _, _, rfl, ?_, ?_⟩
    · rw [UInt8.toNat_ofNat']
      omega
    · simp only [List.forall_mem_cons, UInt8.toNat_ofNat']
      simp
      omega
  split
  · next h h' h'' =>
    refine .inr ⟨Nat.lt_of_not_le h, _, _, rfl, ?_, ?_⟩
    · rw [UInt8.toNat_ofNat']
      omega
    · simp only [List.forall_mem_cons, UInt8.toNat_ofNat']
      simp
      omega
  · next h h' h'' =>
    refine .inr ⟨Nat.lt_of_not_le h, _, _, rfl, ?_, ?_⟩
    · rw [UInt8.toNat_ofNat']
      omega
    · simp only [List.forall_mem_cons, UInt8.toNat_ofNat']
      simp
      omega

theorem continues_iff (b : UInt8) : continues b = true ↔ 128 ≤ b.toNat ∧ b.toNat < 192 := by
  have hall : ∀ n < 256, (UInt8.ofNat n &&& 0xC0 == 0x80) = (decide (128 ≤ n) && decide (n < 192)) := by
    decide +kernel
  have hb := hall b.toNat b.toNat_lt
  rw [UInt8.ofNat_toNat] at hb
  unfold continues
  rw [hb, Bool.and_eq_true, decide_eq_true_iff, decide_eq_true_iff]

/-! ## Places in a text -/

/-- A place has a text behind it. -/
def At (source : String) (i : Nat) (text : List Char) : Prop :=
  ∃ before, source.toList = before ++ text ∧ (encode before).length = i

namespace At
variable {source : String} {i : Nat} {part text : List Char}

theorem start (source : String) : At source 0 source.toList := ⟨[], rfl, rfl⟩

theorem bytes_eq (source : String) : source.toByteArray.data.toList = encode source.toList := by
  rw [← String.utf8Encode_toList]
  unfold List.utf8Encode
  rw [List.data_toByteArray]
  rfl

theorem size_eq (source : String) : source.toByteArray.size = (encode source.toList).length := by
  rw [← bytes_eq]
  rfl

theorem skip (h : At source i (part ++ text)) : At source (i + (encode part).length) text := by
  obtain ⟨before, hsource, rfl⟩ := h
  refine ⟨before ++ part, ?_, ?_⟩
  · rw [hsource, List.append_assoc]
  · rw [encode_append, List.length_append]

theorem skip_character {c : Char} (h : At source i (c :: text)) :
    At source (i + (encode [c]).length) text := skip h

/-- The bytes from a place on are those of the text there. -/
theorem byte?_eq (h : At source i text) (k : Nat) : byte? source (i + k) = (encode text)[k]? := by
  obtain ⟨before, hsource, rfl⟩ := h
  unfold byte?
  rw [← Array.getElem?_toList, bytes_eq, hsource, encode_append, List.getElem?_append_right (by omega),
    Nat.add_sub_cancel_left]

theorem place_le (h : At source i text) : i + (encode text).length = source.toByteArray.size := by
  obtain ⟨before, hsource, rfl⟩ := h
  rw [size_eq, hsource, encode_append, List.length_append]

/-- A place with a text behind it lies between characters. -/
theorem isValid (h : At source i text) : String.Pos.Raw.IsValid source ⟨i⟩ := by
  obtain ⟨before, hsource, rfl⟩ := h
  rw [String.Pos.Raw.isValid_iff_exists_append]
  refine ⟨String.ofList before, String.ofList text, ?_, ?_⟩
  · rw [← String.ofList_append, ← hsource, String.ofList_toList]
  · have hsize : (String.ofList before).utf8ByteSize = (encode before).length := by
      rw [← String.size_toByteArray, size_eq, String.toList_ofList]
    exact congrArg String.Pos.Raw.mk hsize.symm

/-- What is cut out in front of a text is the text before it. -/
theorem slice?_eq (h : At source i (part ++ text)) :
    slice? source i (i + (encode part).length) = some (String.ofList part) := by
  have hvalid := And.intro (Nat.le_add_right i (encode part).length) (And.intro h.isValid h.skip.isValid)
  unfold slice?
  rw [dif_pos hvalid]
  obtain ⟨before, hsource, rfl⟩ := h
  congr 1
  apply String.toByteArray_inj.1
  apply ByteArray.ext
  apply Array.toList_inj.1
  unfold String.extract
  dsimp only
  rw [ByteArray.data_extract, Array.toList_extract, bytes_eq, bytes_eq, hsource, String.toList_ofList]
  simp [encode_append, List.extract_eq_take_drop]

theorem character?_eq {c : Char} (h : At source i (c :: text)) :
    character? source i (i + (encode [c]).length) = some c := by
  have hslice : slice? source i (i + (encode [c]).length) = some (String.ofList [c]) := slice?_eq h
  unfold character?
  rw [hslice]
  simp

end At

/-! ## What single bytes tell -/

theorem toNat_toUInt8 {c : Char} (h : c.toNat < 128) : c.toUInt8.toNat = c.toNat := by
  have hval : c.toUInt8.toNat = c.toNat % 256 := by
    unfold Char.toUInt8
    exact UInt32.toNat_toUInt8 c.val
  omega

theorem toNat_ofUInt8 (b : UInt8) : (Char.ofUInt8 b).toNat = b.toNat := by
  unfold Char.ofUInt8 Char.toNat
  exact UInt8.toNat_toUInt32 b

theorem ofUInt8_toUInt8 {c : Char} (h : c.toNat < 128) : Char.ofUInt8 c.toUInt8 = c := by
  apply Char.toNat_inj.1
  rw [toNat_ofUInt8, toNat_toUInt8 h]

/-- A byte from 128 on is no character of ASCII. -/
theorem ofUInt8_ne {b : UInt8} {c : Char} (hb : 128 ≤ b.toNat) (hc : c.toNat < 128) : Char.ofUInt8 b ≠ c := by
  intro h
  have := toNat_ofUInt8 b
  rw [h] at this
  omega

theorem toUInt8_ne {b : UInt8} {c : Char} (hb : 128 ≤ b.toNat) (hc : c.toNat < 128) : b ≠ c.toUInt8 := by
  rintro rfl
  have := toNat_toUInt8 hc
  omega

theorem toUInt8_inj {c d : Char} (hc : c.toNat < 128) (hd : d.toNat < 128) :
    c.toUInt8 = d.toUInt8 ↔ c = d := by
  constructor
  · intro h
    rw [← ofUInt8_toUInt8 hc, h, ofUInt8_toUInt8 hd]
  · exact congrArg Char.toUInt8

/-- A test of bytes that tells how far a test of characters goes. -/
structure Tests (p : UInt8 → Bool) (q : Char → Bool) : Prop where
  pass (c : Char) : q c = true → ∀ b ∈ String.utf8EncodeChar c, p b = true
  stop (c : Char) : q c = false → ∀ b ∈ (String.utf8EncodeChar c).head?, p b = false

/-- Characters of ASCII are told by their only bytes. -/
theorem tests_ascii {q : Char → Bool} (hq : ∀ c, q c = true → c.toNat < 128) :
    Tests (fun b => q (Char.ofUInt8 b)) q := by
  constructor
  · intro c hc b hb
    rcases utf8EncodeChar_cases c with ⟨hlt, heq⟩ | ⟨hge, -⟩
    · rw [heq, List.mem_singleton] at hb
      rw [hb, ofUInt8_toUInt8 hlt, hc]
    · exact absurd (hq c hc) (Nat.not_lt.2 hge)
  · intro c hc b hb
    rcases utf8EncodeChar_cases c with ⟨hlt, heq⟩ | ⟨-, b', tail, heq, hb', -⟩
    · rw [heq] at hb
      cases hb
      rw [ofUInt8_toUInt8 hlt, hc]
    · rw [heq] at hb
      cases hb
      rw [← Bool.not_eq_true]
      intro h
      have := hq _ h
      rw [toNat_ofUInt8] at this
      omega

theorem tests_not_lineBreak : Tests (· != '\n'.toUInt8) (· != '\n') := by
  constructor
  · intro c hc b hb
    rw [bne_iff_ne] at hc ⊢
    rcases utf8EncodeChar_cases c with ⟨hlt, heq⟩ | ⟨hge, b', tail, heq, hb', htail⟩
    · rw [heq, List.mem_singleton] at hb
      rw [hb, Ne, toUInt8_inj hlt (by decide)]
      exact hc
    · rw [heq, List.mem_cons] at hb
      rcases hb with rfl | hb
      · exact toUInt8_ne (by omega) (by decide)
      · exact toUInt8_ne (htail b hb).1 (by decide)
  · intro c hc b hb
    have hc' : c = '\n' := by simpa using hc
    subst hc'
    rw [show String.utf8EncodeChar '\n' = ['\n'.toUInt8] from rfl] at hb
    cases hb
    rfl

theorem isDigit_ascii {c : Char} (h : c.isDigit = true) : c.toNat < 128 := by
  unfold Char.isDigit at h
  simp only [Bool.and_eq_true, decide_eq_true_eq, UInt32.le_iff_toNat_le] at h
  have h9 : '9'.val.toNat = 57 := rfl
  have hval : c.toNat = c.val.toNat := rfl
  omega

theorem isWordChar_ascii {c : Char} (h : isWordChar c = true) : c.toNat < 128 := by
  unfold isWordChar Char.isAlphanum Char.isAlpha Char.isUpper Char.isLower at h
  simp only [Bool.or_eq_true, Bool.and_eq_true, decide_eq_true_eq, beq_iff_eq, UInt32.le_iff_toNat_le,
    ge_iff_le] at h
  have hupper : 'Z'.val.toNat = 90 := rfl
  have hlower : 'z'.val.toNat = 122 := rfl
  have hval : c.toNat = c.val.toNat := rfl
  rcases h with ((h | h) | h) | rfl
  · omega
  · omega
  · exact isDigit_ascii h
  · decide

/-- No character begins with a byte that goes on with one. -/
theorem not_continues_head (text : List Char) : ∀ b ∈ (encode text).head?, continues b = false := by
  intro b hb
  cases text with
  | nil => cases hb
  | cons c rest =>
    have hencode : encode (c :: rest) = String.utf8EncodeChar c ++ encode rest := rfl
    rw [hencode] at hb
    rw [← Bool.not_eq_true, continues_iff]
    rcases utf8EncodeChar_cases c with ⟨hlt, heq⟩ | ⟨-, b', tail, heq, hb', -⟩
    · rw [heq] at hb
      cases hb
      have := toNat_toUInt8 hlt
      omega
    · rw [heq] at hb
      cases hb
      omega

namespace At
variable {source : String} {i : Nat} {c : Char} {text rest : List Char}

theorem head_eq (h : At source i text) : byte? source i = (encode text).head? := by
  have hbyte := h.byte?_eq 0
  rwa [Nat.add_zero, ← List.head?_eq_getElem?] at hbyte

theorem byte?_nil (h : At source i []) : byte? source i = none := h.head_eq

theorem byte?_ascii (h : At source i (c :: rest)) (hc : c.toNat < 128) :
    byte? source i = some c.toUInt8 ∧ At source (i + 1) rest := by
  rcases utf8EncodeChar_cases c with ⟨-, heq⟩ | ⟨hge, -⟩
  · have hencode : encode [c] = [c.toUInt8] := by
      unfold encode
      rw [List.flatMap_singleton, heq]
    have hskip := h.skip_character
    rw [hencode] at hskip
    refine ⟨?_, hskip⟩
    rw [h.head_eq]
    unfold encode
    rw [List.flatMap_cons, heq]
    rfl
  · omega

theorem byte?_wide (h : At source i (c :: rest)) (hc : 128 ≤ c.toNat) :
    ∃ b, byte? source i = some b ∧ 192 ≤ b.toNat := by
  rcases utf8EncodeChar_cases c with ⟨hlt, -⟩ | ⟨-, b, tail, heq, hb, -⟩
  · omega
  · refine ⟨b, ?_, hb⟩
    rw [h.head_eq]
    unfold encode
    rw [List.flatMap_cons, heq]
    rfl

/-- A character of ASCII is seen by its byte. -/
theorem byteIs_iff {d : Char} (h : At source i text) (hd : d.toNat < 128) :
    byteIs source i d = true ↔ text.head? = some d := by
  unfold byteIs
  rw [beq_iff_eq]
  cases text with
  | nil =>
    rw [h.byte?_nil]
    simp
  | cons c rest =>
    rw [List.head?_cons, Option.some_inj]
    by_cases hc : c.toNat < 128
    · rw [(h.byte?_ascii hc).1, Option.some_inj, toUInt8_inj hc hd]
    · obtain ⟨b, hb, hge⟩ := h.byte?_wide (Nat.le_of_not_lt hc)
      rw [hb, Option.some_inj]
      constructor
      · exact fun he => absurd he (toUInt8_ne (by omega) hd)
      · rintro rfl
        exact absurd hd hc

end At

/-! ## Loops over bytes -/

theorem skipBytes_run {source : String} {p : UInt8 → Bool} {i n : Nat}
    (h : ∀ k < n, ∃ b, byte? source (i + k) = some b ∧ p b = true) :
    skipBytes source p i = skipBytes source p (i + n) := by
  induction n generalizing i with
  | zero => rfl
  | succ n ih =>
    obtain ⟨b, hb, hp⟩ : ∃ b, byte? source i = some b ∧ p b = true := h 0 (Nat.succ_pos n)
    have hrest : ∀ k < n, ∃ b, byte? source (i + 1 + k) = some b ∧ p b = true := by
      intro k hk
      have hnext := h (k + 1) (Nat.succ_lt_succ hk)
      rwa [Nat.add_assoc, Nat.add_comm 1 k]
    rw [skipBytes_next hb hp, ih hrest, Nat.add_assoc, Nat.add_comm 1 n]

namespace At
variable {source : String} {i : Nat} {c : Char} {text rest : List Char}

/-- A place inside of a character has a byte of it. -/
theorem byte?_inside (h : At source i (c :: rest)) {k : Nat} (hk : k < (encode [c]).length) :
    ∃ b ∈ String.utf8EncodeChar c, byte? source (i + k) = some b := by
  have hencode : encode [c] = String.utf8EncodeChar c := List.flatMap_singleton ..
  rw [hencode] at hk
  refine ⟨_, List.getElem_mem hk, ?_⟩
  have hcons : encode (c :: rest) = String.utf8EncodeChar c ++ encode rest := rfl
  rw [h.byte?_eq, hcons, List.getElem?_append_left hk, List.getElem?_eq_getElem hk]

theorem skipBytes_eq {p : UInt8 → Bool} {q : Char → Bool} (ht : Tests p q) (h : At source i text) :
    skipBytes source p i = i + (encode (text.takeWhile q)).length := by
  induction text generalizing i with
  | nil =>
    apply skipBytes_stop
    intro b hb
    rw [h.byte?_nil] at hb
    cases hb
  | cons c rest ih =>
    cases hc : q c with
    | true =>
      have hrun : ∀ k < (encode [c]).length, ∃ b, byte? source (i + k) = some b ∧ p b = true := by
        intro k hk
        obtain ⟨b, hmem, hb⟩ := h.byte?_inside hk
        exact ⟨b, hb, ht.pass c hc b hmem⟩
      have hcons : encode (c :: rest.takeWhile q) = encode [c] ++ encode (rest.takeWhile q) :=
        encode_append [c] _
      rw [skipBytes_run hrun, ih h.skip, List.takeWhile_cons, if_pos hc, hcons, List.length_append,
        Nat.add_assoc]
    | false =>
      rw [List.takeWhile_cons, if_neg (by rw [hc]; exact Bool.false_ne_true)]
      apply skipBytes_stop
      intro b hb
      rw [h.head_eq] at hb
      apply ht.stop c hc b
      rcases utf8EncodeChar_cases c with ⟨-, heq⟩ | ⟨-, b', tail, heq, -⟩
      · unfold encode at hb
        rw [List.flatMap_cons, heq] at hb
        rw [heq]
        exact hb
      · unfold encode at hb
        rw [List.flatMap_cons, heq] at hb
        rw [heq]
        exact hb

/-- From behind the first byte of a character the bytes that go on with it lead behind the character. -/
theorem skip_continues (h : At source i (c :: rest)) :
    skipBytes source continues (i + 1) = i + (encode [c]).length := by
  have hencode : encode [c] = String.utf8EncodeChar c := List.flatMap_singleton ..
  have hstop : skipBytes source continues (i + (encode [c]).length) = i + (encode [c]).length := by
    apply skipBytes_stop
    intro b hb
    rw [h.skip_character.head_eq] at hb
    exact not_continues_head rest b hb
  obtain ⟨b, tail, heq, htail⟩ : ∃ b tail, encode [c] = b :: tail ∧ ∀ t ∈ tail, continues t = true := by
    rw [hencode]
    rcases utf8EncodeChar_cases c with ⟨-, heq⟩ | ⟨-, b, tail, heq, -, htail⟩
    · exact ⟨_, [], heq, by simp⟩
    · exact ⟨b, tail, heq, fun t ht => (continues_iff t).2 (htail t ht)⟩
  have hrun : ∀ k < tail.length, ∃ b, byte? source (i + 1 + k) = some b ∧ continues b = true := by
    intro k hk
    refine ⟨tail[k], ?_, htail _ (List.getElem_mem hk)⟩
    have hcons : encode (c :: rest) = b :: tail ++ encode rest := by
      rw [← heq]
      exact encode_append [c] rest
    rw [Nat.add_assoc, Nat.add_comm 1 k, h.byte?_eq, hcons, List.cons_append, List.getElem?_cons_succ,
      List.getElem?_append_left hk, List.getElem?_eq_getElem hk]
  have hlength : i + (encode [c]).length = i + 1 + tail.length := by
    rw [heq, List.length_cons]
    omega
  rw [skipBytes_run hrun, ← hlength, hstop]

end At

end LoxLang
