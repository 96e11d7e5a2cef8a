import Mathlib.Data.Nat.Digits.Defs
import LoxLang.Proofs.Scan.Forms
import LoxLang.Tree.Prefix

/-!
# What a prefix text is made of

Words, numbers, and groups of such parts between parentheses. A text of this kind tells its parts: a word or a
number goes on up to a blank or a parenthesis, a group up to the parenthesis that closes it, and a word does not
look like a number. So a text, with whatever stands behind it, can be taken apart in one way only.
-/

namespace LoxLang

/-- A word, a number, or several parts between parentheses. -/
inductive PrefixTree where
  | number (value : Int64)
  | word (text : String)
  | group (parts : List PrefixTree)

/-- A character that ends a word or a number in front of it. -/
def isDelimiter (c : Char) : Bool := c == ' ' || c == '(' || c == ')'

/-- A word that is not empty, has no delimiters and is no number: it begins with a letter, or there is no digit
in it. -/
def isPlainWord (text : String) : Bool :=
  !text.toList.isEmpty && text.toList.all (!isDelimiter ·) &&
    (text.toList.head?.any isWordStart || text.toList.all (!·.isDigit))

namespace PrefixTree

mutual

/-- The text, part by part. -/
def text : PrefixTree → String
  | number value => toString value.toInt
  | word text => text
  | group parts => parenthesized (texts parts)

def texts : List PrefixTree → List String
  | [] => []
  | t :: rest => t.text :: texts rest

end

mutual

/-- The characters of the text. -/
def chars : PrefixTree → List Char
  | number value => (toString value.toInt).toList
  | word text => text.toList
  | group [] => ['(', ')']
  | group (t :: rest) => '(' :: (t.chars ++ charsBehind rest)

/-- The characters behind the first part of a group. -/
def charsBehind : List PrefixTree → List Char
  | [] => [')']
  | t :: rest => ' ' :: (t.chars ++ charsBehind rest)

end

mutual

/-- Every word is plain. -/
def Plain : PrefixTree → Prop
  | number _ => True
  | word text => isPlainWord text = true
  | group parts => PartsPlain parts

def PartsPlain : List PrefixTree → Prop
  | [] => True
  | t :: rest => t.Plain ∧ PartsPlain rest

end

/-! ## Characters -/

theorem toList_parenthesized (part : String) (parts : List String) :
    (parenthesized (part :: parts)).toList =
      '(' :: (part.toList ++ parts.flatMap fun part => ' ' :: part.toList) ++ [')'] := by
  have hparts : (String.intercalate " " (part :: parts)).toList =
      part.toList ++ parts.flatMap fun part => ' ' :: part.toList := by
    induction parts generalizing part with
    | nil => simp
    | cons next parts ih =>
      rw [String.intercalate_cons_cons, String.toList_append, String.toList_append, ih]
      simp
  simp [parenthesized, hparts]

mutual

theorem toList_text : (t : PrefixTree) → t.text.toList = t.chars
  | number _ => rfl
  | word _ => rfl
  | group [] => by simp [text, texts, chars, parenthesized]
  | group (t :: rest) => by
    have hbehind := toList_texts rest
    rw [text, texts, toList_parenthesized, toList_text t, chars, ← hbehind]
    simp

theorem toList_texts : (ts : List PrefixTree) →
    ((texts ts).flatMap fun part => ' ' :: part.toList) ++ [')'] = charsBehind ts
  | [] => rfl
  | t :: rest => by
    have hbehind := toList_texts rest
    rw [texts, List.flatMap_cons, toList_text t, charsBehind, ← hbehind]
    simp

end

/-! ## Words and numbers -/

/-- Characters that are neither missing nor delimiters. -/
def Unbroken (cs : List Char) : Prop := cs ≠ [] ∧ ∀ c ∈ cs, isDelimiter c = false

theorem isWordChar_not_isDelimiter {c : Char} (h : isWordChar c = true) : isDelimiter c = false := by
  by_contra hd
  simp only [isDelimiter, Bool.not_eq_false, Bool.or_eq_true, beq_iff_eq] at hd
  rcases hd with (rfl | rfl) | rfl <;> cases h

theorem isDigit_not_isDelimiter {c : Char} (h : c.isDigit = true) : isDelimiter c = false :=
  isWordChar_not_isDelimiter (by simp [isWordChar, Char.isAlphanum, h])

theorem isDigit_of_mem_toDigits {n : Nat} {c : Char} (h : c ∈ Nat.toDigits 10 n) : c.isDigit = true :=
  Nat.isDigit_of_mem_toDigits (by decide) (by decide) h

/-- The text of a number consists of digits, behind a sign or not. -/
theorem number_chars (n : Int) : (0 ≤ n ∧ (toString n).toList = Nat.toDigits 10 n.natAbs) ∨
    (n < 0 ∧ (toString n).toList = '-' :: Nat.toDigits 10 n.natAbs) := by
  rw [show toString n = n.repr from rfl, Int.repr_eq_if]
  split
  next h =>
    rw [show n.toNat = n.natAbs by omega]
    exact .inl ⟨h, by simp [Nat.repr_eq_ofList_toDigits]⟩
  next h =>
    rw [show (-n).toNat = n.natAbs by omega]
    exact .inr ⟨by omega, by simp [Nat.repr_eq_ofList_toDigits]⟩

theorem toDigits_ne_sign {n : Nat} {cs : List Char} : Nat.toDigits 10 n ≠ '-' :: cs := fun h =>
  absurd (isDigit_of_mem_toDigits (h ▸ List.mem_cons_self)) (by decide)

theorem toDigits_injective {m n : Nat} (h : Nat.toDigits 10 m = Nat.toDigits 10 n) : m = n := by
  rw [← Nat.ofDigitChars_ten_toDigits (n := m), h, Nat.ofDigitChars_ten_toDigits]

/-- The text tells the number. -/
theorem number_chars_injective {m n : Int} (h : (toString m).toList = (toString n).toList) : m = n := by
  rcases number_chars m with ⟨hm, hchars⟩ | ⟨hm, hchars⟩ <;>
    rcases number_chars n with ⟨hn, hchars'⟩ | ⟨hn, hchars'⟩ <;> rw [hchars, hchars'] at h
  · have := toDigits_injective h
    omega
  · exact absurd h toDigits_ne_sign
  · exact absurd h.symm toDigits_ne_sign
  · have := toDigits_injective (List.cons.inj h).2
    omega

theorem unbroken_number (n : Int) : Unbroken (toString n).toList := by
  have hdigits : Unbroken (Nat.toDigits 10 n.natAbs) :=
    ⟨Nat.toDigits_ne_nil, fun c hc => isDigit_not_isDelimiter (isDigit_of_mem_toDigits hc)⟩
  rcases number_chars n with ⟨-, h⟩ | ⟨-, h⟩
  · rw [h]
    exact hdigits
  · rw [h]
    exact ⟨by simp, List.forall_mem_cons.2 ⟨rfl, hdigits.2⟩⟩

theorem unbroken_word {text : String} (h : isPlainWord text = true) : Unbroken text.toList := by
  simp only [isPlainWord, Bool.and_eq_true, Bool.not_eq_true', List.all_eq_true] at h
  exact ⟨by simpa using h.1.1, h.1.2⟩

/-- A number holds a digit and begins with no letter. -/
theorem number_not_isPlainWord (n : Int) : isPlainWord (toString n) = false := by
  obtain ⟨c, rest, hcs⟩ := List.exists_cons_of_ne_nil (Nat.toDigits_ne_nil (b := 10) (n := n.natAbs))
  have hc : c.isDigit = true := isDigit_of_mem_toDigits (hcs ▸ List.mem_cons_self)
  have hstart : isWordStart c = false :=
    Bool.eq_false_iff.2 fun hw => absurd ((isWordStart_not_isDigit hw).symm.trans hc) Bool.false_ne_true
  have hsign : isWordStart '-' = false := by decide
  rcases number_chars n with ⟨-, h⟩ | ⟨-, h⟩
  · rw [isPlainWord, h, hcs]
    simp [hc, hstart]
  · rw [isPlainWord, h, hcs]
    simp [hc, hsign]

/-! ## One text, one tree -/

/-- Nothing, or a text that begins with a delimiter. -/
def Ends (behind : List Char) : Prop := ∀ c ∈ behind.head?, isDelimiter c = true

theorem ends_charsBehind (ts : List PrefixTree) (behind : List Char) : Ends (charsBehind ts ++ behind) := by
  cases ts <;> simp [Ends, charsBehind, isDelimiter]

theorem takeWhile_unbroken {cs behind : List Char} (h : Unbroken cs) (hb : Ends behind) :
    (cs ++ behind).takeWhile (!isDelimiter ·) = cs := by
  rw [List.takeWhile_append_of_pos (by simpa using h.2)]
  cases behind with
  | nil => simp
  | cons c behind => simp [hb c rfl]

/-- Characters up to a delimiter are told by the text. -/
theorem unbroken_append_injective {cs ds behind behind' : List Char} (hc : Unbroken cs) (hd : Unbroken ds)
    (hb : Ends behind) (hb' : Ends behind') (h : cs ++ behind = ds ++ behind') :
    cs = ds ∧ behind = behind' := by
  have hcs : cs = ds := by rw [← takeWhile_unbroken hc hb, h, takeWhile_unbroken hd hb']
  subst hcs
  exact ⟨rfl, List.append_cancel_left h⟩

/-- What is no delimiter does not begin with one. -/
theorem unbroken_append_ne {cs ds behind : List Char} {c : Char} (h : Unbroken cs)
    (hc : isDelimiter c = true) : cs ++ behind ≠ c :: ds := by
  obtain ⟨d, cs, rfl⟩ := List.exists_cons_of_ne_nil h.1
  intro heq
  cases heq
  exact absurd ((h.2 c List.mem_cons_self).symm.trans hc) Bool.false_ne_true

theorem group_chars (parts : List PrefixTree) : ∃ cs, (group parts).chars = '(' :: cs := by
  cases parts <;> exact ⟨_, rfl⟩

/-- A word or a number. -/
def IsAtom : PrefixTree → Prop
  | number _ => True
  | word _ => True
  | group _ => False

section Atoms
variable {t u : PrefixTree} {behind behind' : List Char}

theorem unbroken_chars (ht : t.Plain) (hat : t.IsAtom) : Unbroken t.chars := by
  cases t with
  | number value => exact unbroken_number _
  | word text => exact unbroken_word ht
  | group parts => exact hat.elim

theorem atom_chars_injective (ht : t.Plain) (hu : u.Plain) (hat : t.IsAtom) (hau : u.IsAtom)
    (h : t.chars = u.chars) : t = u := by
  have hne {value : Int64} {text : String} (hw : isPlainWord text = true) :
      (toString value.toInt).toList ≠ text.toList := by
    intro heq
    rw [← String.toList_injective heq, number_not_isPlainWord] at hw
    exact Bool.false_ne_true hw
  cases t with
  | group parts => exact hat.elim
  | number value =>
    cases u with
    | number value' => exact congrArg number (Int64.toInt_inj.1 (number_chars_injective h))
    | word text => exact absurd h (hne hu)
    | group parts => exact hau.elim
  | word text =>
    cases u with
    | number value => exact absurd h.symm (hne ht)
    | word text' => exact congrArg word (String.toList_injective h)
    | group parts => exact hau.elim

theorem atom_append_injective (ht : t.Plain) (hu : u.Plain) (hat : t.IsAtom) (hau : u.IsAtom)
    (hb : Ends behind) (hb' : Ends behind') (h : t.chars ++ behind = u.chars ++ behind') :
    t = u ∧ behind = behind' := by
  obtain ⟨hchars, hbehind⟩ :=
    unbroken_append_injective (unbroken_chars ht hat) (unbroken_chars hu hau) hb hb' h
  exact ⟨atom_chars_injective ht hu hat hau hchars, hbehind⟩

theorem atom_append_ne (ht : t.Plain) (hat : t.IsAtom) (parts : List PrefixTree) :
    t.chars ++ behind ≠ (group parts).chars ++ behind' := by
  obtain ⟨cs, hcs⟩ := group_chars parts
  rw [hcs]
  exact unbroken_append_ne (unbroken_chars ht hat) rfl

/-- No part begins with a closing parenthesis. -/
theorem chars_append_ne (ht : t.Plain) (behind ds : List Char) : t.chars ++ behind ≠ ')' :: ds := by
  cases t with
  | number value => exact unbroken_append_ne (unbroken_number _) rfl
  | word text => exact unbroken_append_ne (unbroken_word ht) rfl
  | group parts =>
    obtain ⟨cs, hcs⟩ := group_chars parts
    simp [hcs]

end Atoms

mutual

/-- In front of a delimiter, the text tells the part and where it ends. -/
theorem chars_append_injective : (t u : PrefixTree) → t.Plain → u.Plain → {behind behind' : List Char} →
    Ends behind → Ends behind' → t.chars ++ behind = u.chars ++ behind' → t = u ∧ behind = behind'
  | number _, number _, ht, hu, _, _, hb, hb', h => atom_append_injective ht hu trivial trivial hb hb' h
  | number _, word _, ht, hu, _, _, hb, hb', h => atom_append_injective ht hu trivial trivial hb hb' h
  | word _, number _, ht, hu, _, _, hb, hb', h => atom_append_injective ht hu trivial trivial hb hb' h
  | word _, word _, ht, hu, _, _, hb, hb', h => atom_append_injective ht hu trivial trivial hb hb' h
  | number _, group parts, ht, _, _, _, _, _, h => absurd h (atom_append_ne ht trivial parts)
  | word _, group parts, ht, _, _, _, _, _, h => absurd h (atom_append_ne ht trivial parts)
  | group parts, number _, _, hu, _, _, _, _, h => absurd h.symm (atom_append_ne hu trivial parts)
  | group parts, word _, _, hu, _, _, _, _, h => absurd h.symm (atom_append_ne hu trivial parts)
  | group [], group [], _, _, _, _, _, _, h => ⟨rfl, by simpa [chars] using h⟩
  | group [], group (u :: us), _, hu, _, _, _, _, h =>
    absurd (by simpa [chars] using h.symm) (chars_append_ne hu.1 _ _)
  | group (t :: ts), group [], ht, _, _, _, _, _, h =>
    absurd (by simpa [chars] using h) (chars_append_ne ht.1 _ _)
  | group (t :: ts), group (u :: us), ht, hu, _, _, _, _, h => by
    simp only [chars, List.cons_append, List.append_assoc, List.cons.injEq, true_and] at h
    obtain ⟨rfl, hrest⟩ :=
      chars_append_injective t u ht.1 hu.1 (ends_charsBehind _ _) (ends_charsBehind _ _) h
    obtain ⟨rfl, hbehind⟩ := charsBehind_append_injective ts us ht.2 hu.2 hrest
    exact ⟨rfl, hbehind⟩

theorem charsBehind_append_injective : (ts us : List PrefixTree) → PartsPlain ts → PartsPlain us →
    {behind behind' : List Char} → charsBehind ts ++ behind = charsBehind us ++ behind' →
    ts = us ∧ behind = behind'
  | [], [], _, _, _, _, h => ⟨rfl, by simpa [charsBehind] using h⟩
  | [], u :: us, _, _, _, _, h => by simp [charsBehind] at h
  | t :: ts, [], _, _, _, _, h => by simp [charsBehind] at h
  | t :: ts, u :: us, ht, hu, _, _, h => by
    simp only [charsBehind, List.cons_append, List.append_assoc, List.cons.injEq, true_and] at h
    obtain ⟨rfl, hrest⟩ :=
      chars_append_injective t u ht.1 hu.1 (ends_charsBehind _ _) (ends_charsBehind _ _) h
    obtain ⟨rfl, hbehind⟩ := charsBehind_append_injective ts us ht.2 hu.2 hrest
    exact ⟨rfl, hbehind⟩

end

/-- A text stands for one tree only. -/
theorem text_injective {t u : PrefixTree} (ht : t.Plain) (hu : u.Plain) (h : t.text = u.text) : t = u := by
  have hchars : t.chars ++ [] = u.chars ++ [] := by rw [← toList_text t, ← toList_text u, h]
  exact (chars_append_injective t u ht hu (by simp [Ends]) (by simp [Ends]) hchars).1

end PrefixTree

end LoxLang
