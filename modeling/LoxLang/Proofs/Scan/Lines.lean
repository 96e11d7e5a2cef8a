import LoxLang.Proofs.Scan.LongestMatch

/-!
# Lines

What a scan yields, each item with the place up to which the text has been consumed by then. An error inside a
string is raised behind the escape that it is about, and any other error and every token at the end of its
lexeme. The line of an item is the number of line breaks in front of its place, counted from one.
-/

namespace LoxLang

/-- The line of an item. -/
def ScanItem.line : ScanItem → Nat
  | token t => t.line
  | error e => e.line

/-- An item with the number of bytes that are consumed when it is raised. -/
structure Yield where
  item : ScanItem
  place : Nat

/-- The errors of a string, from a place in its inside on. -/
def stringErrors (source : String) (i line : Nat) : Option (List Yield) :=
  match h : byte? source i with
  | none => some [⟨.error (.lexical line .unterminatedString), i⟩]
  | some b =>
    if b = '"'.toUInt8 then some []
    else if b = '\\'.toUInt8 then
      match byte? source (i + 1) with
      | none => some [⟨.error (.lexical line .strayEscape), i + 1⟩]
      | some e =>
        match unescape (Char.ofUInt8 e) with
        | some _ => stringErrors source (i + 2) line
        | none => do
          let line := if e = '\n'.toUInt8 then line + 1 else line
          let stop := skipBytes source continues (i + 2)
          let c ← character? source (i + 1) stop
          let later ← stringErrors source stop line
          some (⟨.error (.lexical line (.unknownEscape c)), stop⟩ :: later)
    else stringErrors source (i + 1) (if b = '\n'.toUInt8 then line + 1 else line)
termination_by source.toByteArray.size - i
decreasing_by
  all_goals
    have hlt := lt_of_byte? h
    have hskip := le_skipBytes source continues (i + 2)
    omega

/-- The errors of a lexeme that begins at a place. -/
def lexemeErrors (source : String) (start line : Nat) (lexeme : ByteLexeme) : Option (List Yield) :=
  if byteIs source start '"' then stringErrors source (start + 1) line
  else some (lexeme.errors.map fun e => ⟨.error e, lexeme.stop⟩)

/-- What a lexeme yields: its errors, and its token behind them. -/
def lexemeYields (source : String) (start line : Nat) (lexeme : ByteLexeme) : Option (List Yield) := do
  let errors ← lexemeErrors source start line lexeme
  match lexeme.kind with
  | some kind => do
    let text ← slice? source start lexeme.stop
    some (errors ++ [⟨.token ⟨kind, text, lexeme.line⟩, lexeme.stop⟩])
  | none => some errors

/-- All that is yielded from a place on. -/
def yieldsFrom (source : String) (place line : Nat) : Option (List Yield) :=
  if source.toByteArray.size ≤ place then some [⟨.token ⟨.eof, "", line⟩, place⟩]
  else
    match h : readLexeme source place line with
    | none => none
    | some lexeme =>
      have := lt_readLexeme h
      do
        let yields ← lexemeYields source place line lexeme
        let later ← yieldsFrom source lexeme.stop lexeme.line
        some (yields ++ later)
termination_by source.toByteArray.size - place
decreasing_by omega

/-! ## Line breaks in front of a place -/

/-- The line breaks among the first bytes of a text. -/
def breaksBefore (source : String) (place : Nat) : Nat :=
  (source.toByteArray.data.toList.take place).count '\n'.toUInt8

section
variable {source : String} {i : Nat}

theorem breaksBefore_succ {b : UInt8} (h : byte? source i = some b) :
    breaksBefore source (i + 1) = breaksBefore source i + if b = '\n'.toUInt8 then 1 else 0 := by
  have hlist : source.toByteArray.data.toList[i]? = some b := by rwa [Array.getElem?_toList]
  simp [breaksBefore, List.take_add_one, hlist, List.count_singleton]

theorem breaksBefore_mono {j : Nat} (h : i ≤ j) : breaksBefore source i ≤ breaksBefore source j :=
  (List.take_sublist_take_left h).count_le _

/-- Bytes among which there are no line breaks are skipped. -/
theorem breaksBefore_skipBytes {p : UInt8 → Bool} (hp : p '\n'.toUInt8 = false) :
    breaksBefore source (skipBytes source p i) = breaksBefore source i := by
  fun_induction skipBytes source p i with
  | case1 i b hb hpass ih =>
    have hne : b ≠ '\n'.toUInt8 := by
      rintro rfl
      simp [hp] at hpass
    rw [ih, breaksBefore_succ hb, if_neg hne, Nat.add_zero]
  | case2 | case3 => rfl

theorem count_encode (text : List Char) : (encode text).count '\n'.toUInt8 = lineBreaks text := by
  induction text with
  | nil => rfl
  | cons c rest ih =>
    have hcount : (String.utf8EncodeChar c).count '\n'.toUInt8 = lineBreaks [c] := by
      rcases utf8EncodeChar_cases c with ⟨hlt, heq⟩ | ⟨hge, b, tail, heq, hb, htail⟩
      · have hinj := toUInt8_inj hlt (show Char.toNat '\n' < 128 by decide)
        by_cases hc : c = '\n' <;> simp_all [lineBreaks]
      · have hc : c ≠ '\n' := by
          rintro rfl
          exact absurd hge (by decide)
        rw [heq, lineBreaks_eq_zero (by simpa using hc), List.count_eq_zero]
        intro hmem
        rcases List.mem_cons.1 hmem with rfl | hmem
        · exact absurd hb (by decide)
        · exact absurd (htail _ hmem).1 (by decide)
    have hcons : encode (c :: rest) = String.utf8EncodeChar c ++ encode rest := rfl
    rw [hcons, List.count_append, hcount, ih]
    exact (lineBreaks_append [c] rest).symm

theorem breaksBefore_eq {before text : List Char} (h : source.toList = before ++ text) :
    breaksBefore source (encode before).length = lineBreaks before := by
  rw [breaksBefore, At.bytes_eq, h, encode_append, List.take_left, count_encode]

theorem At.breaksBefore_skip {part text : List Char} (h : At source i (part ++ text)) :
    breaksBefore source (i + (encode part).length) = breaksBefore source i + lineBreaks part := by
  obtain ⟨before, hsource, rfl⟩ := h
  have hpart : source.toList = (before ++ part) ++ text := by rw [hsource, List.append_assoc]
  rw [← width_append, breaksBefore_eq hpart, breaksBefore_eq hsource, lineBreaks_append]

/-! ## Errors inside of strings -/

/-- The item stands on the line reached at its place, which is between characters. -/
def Yield.Exact (source : String) (y : Yield) : Prop :=
  (∃ text, At source y.place text) ∧ y.item.line = 1 + breaksBefore source y.place

/-- These are the errors that a lexeme has behind others, in order of their places, which lie between `i` and the
end of the lexeme. -/
structure Raises (source : String) (i : Nat) (errors : List StaticError) (lexeme : ByteLexeme)
    (yields : List Yield) : Prop where
  erased : lexeme.errors.map ScanItem.error = errors.map ScanItem.error ++ yields.map Yield.item
  exact : ∀ y ∈ yields, y.Exact source
  inside : ∀ y ∈ yields, i ≤ y.place ∧ y.place ≤ lexeme.stop
  ordered : yields.Pairwise fun y y' => y.place ≤ y'.place

theorem At.all (source : String) : At source source.toByteArray.size [] :=
  ⟨source.toList, by simp, (At.size_eq source).symm⟩

theorem size_le_of_byte? (h : byte? source i = none) : source.toByteArray.size ≤ i :=
  Array.getElem?_eq_none_iff.1 h

theorem at_of_isValid (h : String.Pos.Raw.IsValid source ⟨i⟩) : ∃ text, At source i text := by
  obtain ⟨before, behind, hsource, hplace⟩ := String.Pos.Raw.isValid_iff_exists_append.1 h
  refine ⟨behind.toList, before.toList, by simp [hsource], ?_⟩
  rw [← At.size_eq, String.size_toByteArray]
  exact (congrArg String.Pos.Raw.byteIdx hplace).symm

theorem at_of_character? {start : Nat} {c : Char} (h : character? source start i = some c) :
    ∃ text, At source i text := by
  obtain ⟨part, hpart, -⟩ := Option.bind_eq_some_iff.1 h
  unfold slice? at hpart
  split at hpart
  · next hvalid => exact at_of_isValid hvalid.2.2
  · cases hpart

section Strings
variable {line : Nat}

theorem stringErrors_missing (h : byte? source i = none) :
    stringErrors source i line = some [⟨.error (.lexical line .unterminatedString), i⟩] := by
  rw [stringErrors]
  split
  · rfl
  · next h' => simp [h] at h'

theorem stringErrors_quote (h : byte? source i = some '"'.toUInt8) : stringErrors source i line = some [] := by
  rw [stringErrors]
  split
  · next h' => simp [h] at h'
  · next h' =>
    cases h.symm.trans h'
    rfl

theorem stringErrors_plain {b : UInt8} (h : byte? source i = some b) (hquote : b ≠ '"'.toUInt8)
    (hback : b ≠ '\\'.toUInt8) : stringErrors source i line =
      stringErrors source (i + 1) (if b = '\n'.toUInt8 then line + 1 else line) := by
  rw [stringErrors]
  split
  · next h' => simp [h] at h'
  · next h' =>
    cases h.symm.trans h'
    rw [if_neg hquote, if_neg hback]

section Backslash
variable (h : byte? source i = some '\\'.toUInt8)
include h

theorem stringErrors_stray (hnone : byte? source (i + 1) = none) :
    stringErrors source i line = some [⟨.error (.lexical line .strayEscape), i + 1⟩] := by
  rw [stringErrors]
  split
  · next h' => simp [h] at h'
  · next h' =>
    cases h.symm.trans h'
    rw [if_neg (by decide), if_pos rfl, hnone]

variable {e : UInt8} {c : Char} (he : byte? source (i + 1) = some e)
include he

theorem stringErrors_known (hc : unescape (Char.ofUInt8 e) = some c) :
    stringErrors source i line = stringErrors source (i + 2) line := by
  rw [stringErrors]
  split
  · next h' => simp [h] at h'
  · next h' =>
    cases h.symm.trans h'
    rw [if_neg (by decide), if_pos rfl, he]
    simp only [hc]

theorem stringErrors_unknown {stop : Nat} {later : List Yield} (hc : unescape (Char.ofUInt8 e) = none)
    (hstop : skipBytes source continues (i + 2) = stop) (hchar : character? source (i + 1) stop = some c)
    (hlater : stringErrors source stop (if e = '\n'.toUInt8 then line + 1 else line) = some later) :
    stringErrors source i line = some (⟨.error (.lexical (if e = '\n'.toUInt8 then line + 1 else line)
      (.unknownEscape c)), stop⟩ :: later) := by
  rw [stringErrors]
  split
  · next h' => simp [h] at h'
  · next h' =>
    cases h.symm.trans h'
    rw [if_neg (by decide), if_pos rfl, he]
    simp only [hc, hstop, hchar, hlater, Option.bind_eq_bind, Option.bind_some]

end Backslash

/-- No error behind those that are there already. -/
theorem Raises.nothing {errors : List StaticError} {lexeme : ByteLexeme} (h : lexeme.errors = errors) :
    Raises source i errors lexeme [] := ⟨by simp [h], by simp, by simp, .nil⟩

/-- One error, and then those that come behind it. -/
theorem Raises.cons {errors : List StaticError} {e : StaticError} {lexeme : ByteLexeme} {yields : List Yield}
    {place : Nat} (h : Raises source place (errors ++ [e]) lexeme yields) (hi : i ≤ place)
    (hstop : place ≤ lexeme.stop) (he : Yield.Exact source ⟨.error e, place⟩) :
    Raises source i errors lexeme (⟨.error e, place⟩ :: yields) where
  erased := by simp [h.erased]
  exact := List.forall_mem_cons.2 ⟨he, h.exact⟩
  inside := by
    refine List.forall_mem_cons.2 ⟨⟨hi, hstop⟩, fun y hy => ?_⟩
    have := h.inside y hy
    omega
  ordered := List.pairwise_cons.2 ⟨fun y hy => (h.inside y hy).1, h.ordered⟩

theorem Raises.from {j : Nat} {errors : List StaticError} {lexeme : ByteLexeme} {yields : List Yield}
    (h : Raises source j errors lexeme yields) (hi : i ≤ j) : Raises source i errors lexeme yields :=
  { h with inside := fun y hy => ⟨Nat.le_trans hi (h.inside y hy).1, (h.inside y hy).2⟩ }

/-- Every step of the loop over a string keeps the line in step with the place. -/
theorem raises_of_readString {segment : Nat} {value : String} {errors : List StaticError} {lexeme : ByteLexeme}
    (h : readString source segment i line value errors = some lexeme) (hi : i ≤ source.toByteArray.size)
    (hline : line = 1 + breaksBefore source i) :
    ∃ yields, stringErrors source i line = some yields ∧ Raises source i errors lexeme yields := by
  fun_induction readString source segment i line value errors with
  | case1 segment i line value errors hb =>
    cases h
    have hend : At source i [] := (Nat.le_antisymm hi (size_le_of_byte? hb)) ▸ At.all source
    exact ⟨_, stringErrors_missing hb, .cons (.nothing rfl) (Nat.le_refl i) (Nat.le_refl i) ⟨⟨_, hend⟩, hline⟩⟩
  | case2 segment i line value errors hb =>
    obtain ⟨part, -, h⟩ := Option.bind_eq_some_iff.1 h
    cases h
    exact ⟨[], stringErrors_quote hb, .nothing rfl⟩
  | case3 segment i line value errors hb hne known unknown =>
    obtain ⟨part, -, h⟩ := Option.bind_eq_some_iff.1 h
    have hlt := lt_of_byte? hb
    have hback : breaksBefore source (i + 1) = breaksBefore source i := by
      rw [breaksBefore_succ hb, if_neg (by decide), Nat.add_zero]
    split at h
    · next hnone =>
      cases h
      have hsize : i + 1 = source.toByteArray.size := Nat.le_antisymm hlt (size_le_of_byte? hnone)
      have hend : At source (i + 1) [] := hsize ▸ At.all source
      have hexact : line = 1 + breaksBefore source (i + 1) := by rw [hback, hline]
      exact ⟨_, stringErrors_stray hb hnone,
        .cons (.nothing rfl) (Nat.le_succ i) (Nat.le_refl _) ⟨⟨_, hend⟩, hexact⟩⟩
    · next e he =>
      have hlt' := lt_of_byte? he
      have hletter : breaksBefore source (i + 2) = _ := breaksBefore_succ he
      split at h
      · next c hc =>
        have hplain : e ≠ '\n'.toUInt8 := by
          rintro rfl
          have hnone : unescape (Char.ofUInt8 '\n'.toUInt8) = none := by decide
          simp [hnone] at hc
        rw [if_neg hplain] at hletter
        obtain ⟨yields, hyields, hraises⟩ := known part c h (by omega) (by omega)
        exact ⟨yields, (stringErrors_known hb he hc).trans hyields, hraises.from (by omega)⟩
      · next hc =>
        simp only [dite_eq_ite] at unknown
        obtain ⟨c, hchar, h⟩ := Option.bind_eq_some_iff.1 h
        have hskip := le_skipBytes source continues (i + 2)
        have hstop : breaksBefore source (skipBytes source continues (i + 2)) = breaksBefore source (i + 2) :=
          breaksBefore_skipBytes (by decide)
        obtain ⟨text, hat⟩ := at_of_character? hchar
        have hsize := hat.place_le
        have hline' : (if e = '\n'.toUInt8 then line + 1 else line) =
            1 + breaksBefore source (skipBytes source continues (i + 2)) := by
          rw [hstop, hletter, hback]
          split <;> omega
        obtain ⟨yields, hyields, hraises⟩ := unknown part e c h (by omega) hline'
        exact ⟨_, stringErrors_unknown hb he hc rfl hchar hyields,
          hraises.cons (by omega) (le_readString h) ⟨⟨text, hat⟩, hline'⟩⟩
  | case4 segment i line value errors b hb hne hne' ih =>
    have hlt := lt_of_byte? hb
    obtain ⟨yields, hyields, hraises⟩ := ih h hlt (by rw [breaksBefore_succ hb]; split <;> omega)
    exact ⟨yields, (stringErrors_plain hb hne hne').trans hyields, hraises.from (Nat.le_succ i)⟩

end Strings

/-! ## Items in order -/

/-- One item may come before another: its place is not behind that of the other, and in front of it if an error
comes behind a token. -/
def Yield.Before (y y' : Yield) : Prop :=
  y.place ≤ y'.place ∧ ∀ t e, y.item = .token t → y'.item = .error e → y.place < y'.place

/-- A token ends at its place, and the end token at the end of the text. -/
structure Yield.Ends (source : String) (y : Yield) : Prop where
  lexeme (t : Token) : y.item = .token t → ∃ start, slice? source start y.place = some t.lexeme
  whole (t : Token) : y.item = .token t → t.kind = .eof → y.place = source.toByteArray.size

/-- These are the items from a place on, each on its line, and in order. -/
structure YieldsInOrder (source : String) (place : Nat) (items : List ScanItem) (yields : List Yield) : Prop where
  erased : yields.map Yield.item = items
  exact : ∀ y ∈ yields, y.Exact source
  ends : ∀ y ∈ yields, y.Ends source
  behind : ∀ y ∈ yields, place ≤ y.place ∧ ∀ e, y.item = .error e → place < y.place
  ordered : yields.Pairwise Yield.Before

theorem YieldsInOrder.append {place stop : Nat} {items items' : List ScanItem} {yields yields' : List Yield}
    (h : YieldsInOrder source place items yields) (hstop : ∀ y ∈ yields, y.place ≤ stop)
    (hle : place ≤ stop) (h' : YieldsInOrder source stop items' yields') :
    YieldsInOrder source place (items ++ items') (yields ++ yields') where
  erased := by simp [h.erased, h'.erased]
  exact := List.forall_mem_append.2 ⟨h.exact, h'.exact⟩
  ends := List.forall_mem_append.2 ⟨h.ends, h'.ends⟩
  behind := by
    refine List.forall_mem_append.2 ⟨h.behind, fun y hy => ?_⟩
    obtain ⟨hy, herror⟩ := h'.behind y hy
    exact ⟨Nat.le_trans hle hy, fun e he => Nat.lt_of_le_of_lt hle (herror e he)⟩
  ordered := by
    refine List.pairwise_append.2 ⟨h.ordered, h'.ordered, fun y hy y' hy' => ?_⟩
    obtain ⟨hbehind, herror⟩ := h'.behind y' hy'
    have := hstop y hy
    exact ⟨by omega, fun t e _ he => Nat.lt_of_le_of_lt this (herror e he)⟩

theorem Raises.yields {place : Nat} {lexeme : ByteLexeme} {yields : List Yield}
    (h : Raises source i [] lexeme yields) (hi : place < i) :
    YieldsInOrder source place (lexeme.errors.map .error) yields := by
  have herror : ∀ y ∈ yields, ∀ t, y.item ≠ .token t := by
    intro y hy t ht
    have hmem : y.item ∈ lexeme.errors.map ScanItem.error := by
      rw [h.erased]
      exact List.mem_map_of_mem hy
    simp [ht] at hmem
  constructor
  case erased => simpa using h.erased.symm
  case exact => exact h.exact
  case ends => exact fun y hy => ⟨fun t ht => absurd ht (herror y hy t), fun t ht => absurd ht (herror y hy t)⟩
  case behind =>
    intro y hy
    have := (h.inside y hy).1
    exact ⟨by omega, fun _ _ => by omega⟩
  case ordered =>
    refine h.ordered.imp_of_mem fun hy _ hle => ⟨hle, fun t _ ht => absurd ht (herror _ hy t)⟩

theorem YieldsInOrder.token {t : Token} {place : Nat} (hexact : Yield.Exact source ⟨.token t, place⟩)
    (hends : Yield.Ends source ⟨.token t, place⟩) : YieldsInOrder source place [.token t] [⟨.token t, place⟩] :=
  ⟨rfl, by simpa, by simpa, by simp, List.pairwise_singleton _ _⟩

/-! ## Lexemes -/

theorem Lexeme.kind_of_token? {l : Lexeme} {kind : TokenKind} (h : l.token? = some kind) :
    l.kind = .token kind := by
  unfold Lexeme.token? at h
  split at h <;> simp_all

theorem cutNumber_badEscapes (text : List Char) : (cutNumber text).badEscapes = [] := by
  unfold cutNumber
  dsimp only
  split <;> rfl

theorem cut_badEscapes {c : Char} (h : c ≠ '"') (rest : List Char) : (cut c rest).badEscapes = [] := by
  unfold cut
  rw [if_neg h]
  split_ifs
  case pos | pos => rfl
  case pos => exact cutNumber_badEscapes _
  case pos => rfl
  case neg => split <;> rfl

section Lexemes
variable {start line : Nat} {c : Char} {rest behind : List Char}

/-- The errors of a lexeme, each at the place where it is raised. -/
theorem exists_errors (hat : At source start (c :: rest)) (hb : (cut c rest).text ++ behind = c :: rest)
    (hline : line = 1 + breaksBefore source start) :
    ∃ errors, lexemeErrors source start line ((cut c rest).bytes start line) = some errors ∧
      Raises source (start + 1) [] ((cut c rest).bytes start line) errors := by
  unfold lexemeErrors
  by_cases hc : c = '"'
  · subst hc
    have hquote := hat.byte?_ascii (by decide)
    have hread := readString_cutString line hat
    have hbreaks : breaksBefore source (start + 1) = breaksBefore source start := by
      rw [breaksBefore_succ hquote.1, if_neg (by decide), Nat.add_zero]
    rw [if_pos ((hat.byteIs_iff (by decide)).2 rfl), cut_quote]
    exact raises_of_readString hread (lt_of_byte? hquote.1) (by rw [hbreaks, hline])
  · have hascii : Char.toNat '"' < 128 := by decide
    have hother : ¬ byteIs source start '"' = true := by simp [hat.byteIs_iff hascii, hc]
    have hstop : At source start ((cut c rest).text ++ behind) := hb.symm ▸ hat
    have hlast : ∀ e ∈ ((cut c rest).bytes start line).errors, e.line = ((cut c rest).bytes start line).line := by
      simp only [Lexeme.bytes, Lexeme.errors, cut_badEscapes hc]
      cases (cut c rest).kind <;> simp [StaticError.line]
    have hlt := lt_readLexeme (readLexeme_eq line hat)
    rw [if_neg hother]
    refine ⟨_, rfl, by simp [Function.comp_def], ?_, ?_, ?_⟩
    · intro y hy
      obtain ⟨e, he, rfl⟩ := List.mem_map.1 hy
      refine ⟨⟨behind, hstop.skip⟩, (hlast e he).trans ?_⟩
      rw [Lexeme.bytes, hstop.breaksBefore_skip, hline, Nat.add_assoc]
    · intro y hy
      obtain ⟨e, he, rfl⟩ := List.mem_map.1 hy
      exact ⟨hlt, Nat.le_refl _⟩
    · exact List.pairwise_map.2 (List.pairwise_of_forall fun _ _ => Nat.le_refl _)

/-- What a lexeme yields: its items, each on its line, and all of them up to its end. -/
theorem exists_lexemeYields (hat : At source start (c :: rest)) (hb : (cut c rest).text ++ behind = c :: rest)
    (hline : line = 1 + breaksBefore source start) :
    ∃ yields, lexemeYields source start line ((cut c rest).bytes start line) = some yields ∧
      YieldsInOrder source start ((cut c rest).items line) yields ∧
      ∀ y ∈ yields, y.place ≤ ((cut c rest).bytes start line).stop := by
  obtain ⟨errors, herrors, hraises⟩ := exists_errors hat hb hline
  have hyields := hraises.yields (Nat.lt_succ_self start)
  have hplaces : ∀ y ∈ errors, y.place ≤ ((cut c rest).bytes start line).stop :=
    fun y hy => (hraises.inside y hy).2
  have hstop : At source start ((cut c rest).text ++ behind) := hb.symm ▸ hat
  have hline' : ((cut c rest).bytes start line).line =
      1 + breaksBefore source ((cut c rest).bytes start line).stop := by
    rw [Lexeme.bytes, hstop.breaksBefore_skip, hline, Nat.add_assoc]
  unfold lexemeYields
  rw [herrors, Lexeme.items_eq]
  cases hk : (cut c rest).token? with
  | none =>
    refine ⟨errors, by simp [Lexeme.bytes, hk], ?_, hplaces⟩
    rw [Option.map_none, Option.toList_none, List.append_nil]
    exact hyields
  | some kind =>
    have htoken : YieldsInOrder source ((cut c rest).bytes start line).stop
        [.token ⟨kind, String.ofList (cut c rest).text, ((cut c rest).bytes start line).line⟩]
        [⟨.token ⟨kind, String.ofList (cut c rest).text, ((cut c rest).bytes start line).line⟩,
          ((cut c rest).bytes start line).stop⟩] := by
      refine .token ⟨⟨behind, hstop.skip⟩, hline'⟩ ⟨?_, ?_⟩
      · rintro t ht
        cases ht
        exact ⟨start, hstop.slice?_eq⟩
      · rintro t ht hend
        cases ht
        exact absurd hend (cut_wellFormed c rest kind (Lexeme.kind_of_token? hk)).1
    have hle : start ≤ ((cut c rest).bytes start line).stop := Nat.le_add_right ..
    refine ⟨_, ?_, hyields.append hplaces hle htoken, ?_⟩
    · have hslice := hstop.slice?_eq
      simp only [Lexeme.bytes] at hslice ⊢
      simp [hk, hslice]
    · exact List.forall_mem_append.2 ⟨hplaces, by simp⟩

end Lexemes

/-- Every lexeme keeps the line in step with the place, so that all items are on their lines. -/
theorem exists_yieldsFrom {place line : Nat} {text : List Char} (hat : At source place text)
    (hline : line = 1 + breaksBefore source place) :
    ∃ yields, yieldsFrom source place line = some yields ∧
      YieldsInOrder source place (itemsFrom line (lexemes text)) yields := by
  induction hn : text.length using Nat.strong_induction_on generalizing place line text with
  | _ n ih =>
    have hsize := hat.place_le
    rw [yieldsFrom]
    cases text with
    | nil =>
      have hend : source.toByteArray.size = place := hsize.symm
      have hempty : At source place ([] ++ []) := hat
      have hslice : slice? source place place = some "" := hempty.slice?_eq
      refine ⟨_, if_pos (Nat.le_of_eq hend), .token ⟨⟨[], hat⟩, hline⟩ ⟨?_, fun _ _ _ => hend.symm⟩⟩
      rintro t ht
      cases ht
      exact ⟨place, hslice⟩
    | cons c rest =>
      obtain ⟨behind, hb⟩ := cut_begins c rest
      have htext : At source place ((cut c rest).text ++ behind) := hb.symm ▸ hat
      have hread := readLexeme_eq line hat
      have hlt : place < place + (encode (cut c rest).text).length := lt_readLexeme hread
      have hle := htext.skip.place_le
      obtain ⟨yields, hyields, hitems, hplaces⟩ := exists_lexemeYields hat hb hline
      have hshort : behind.length < n := by
        have hlength := congrArg List.length hb
        have hpos := List.length_pos_iff.2 (cut_nonempty c rest)
        rw [List.length_append] at hlength
        omega
      have hline' : line + lineBreaks (cut c rest).text =
          1 + breaksBefore source (place + (encode (cut c rest).text).length) := by
        rw [htext.breaksBefore_skip]
        omega
      obtain ⟨later, hlater, hmore⟩ := ih behind.length hshort htext.skip hline' rfl
      rw [if_neg (by omega), lexemes_cons hb, itemsFrom]
      refine ⟨yields ++ later, ?_, hitems.append hplaces (Nat.le_of_lt hlt) hmore⟩
      split
      · next h => cases hread.symm.trans h
      · next lexeme h =>
        cases hread.symm.trans h
        have hlater' : yieldsFrom source ((cut c rest).bytes place line).stop
            ((cut c rest).bytes place line).line = some later := hlater
        simp [hyields, hlater']

end

/-- Every item of a scan is on the line that is reached when it is raised: one more than there are line breaks in
the text consumed by then. A token is raised at the end of its lexeme, which is the end of the text for the end
token. So the lines never decrease, and no error comes behind the token of its lexeme. -/
theorem line_numbers_are_exact (source : String) : ∃ yields, yieldsFrom source 0 1 = some yields ∧
    yields.map Yield.item = scan source ∧
    (∀ n, Cursor.answers source n {} = some ((List.range n).map fun k => (yields.map Yield.item)[k]?)) ∧
    (∀ y ∈ yields, ∃ before text, source.toList = before ++ text ∧ (encode before).length = y.place ∧
      y.item.line = 1 + lineBreaks before) ∧
    (∀ y ∈ yields, ∀ t, y.item = .token t → (∃ start, slice? source start y.place = some t.lexeme) ∧
      (t.kind = .eof → y.place = source.toByteArray.size)) ∧
    yields.Pairwise (fun y y' => y.item.line ≤ y'.item.line) ∧
    yields.Pairwise (fun y y' => y.place ≤ y'.place ∧
      ∀ t e, y.item = .token t → y'.item = .error e → y.place < y'.place) := by
  have hstart : (1 : Nat) = 1 + breaksBefore source 0 := by simp [breaksBefore]
  obtain ⟨yields, hyields, h⟩ := exists_yieldsFrom (At.start source) hstart
  refine ⟨yields, hyields, h.erased, fun n => ?_, fun y hy => ?_, fun y hy t ht => ?_, ?_, h.ordered⟩
  · rw [h.erased]
    exact Cursor.answers_eq n (Cursor.due_start source)
  · obtain ⟨⟨text, before, hsource, hplace⟩, hline⟩ := h.exact y hy
    refine ⟨before, text, hsource, hplace, ?_⟩
    rw [hline, ← hplace, breaksBefore_eq hsource]
  · exact ⟨(h.ends y hy).lexeme t ht, (h.ends y hy).whole t ht⟩
  · refine h.ordered.imp_of_mem fun hy hy' hle => ?_
    rw [(h.exact _ hy).2, (h.exact _ hy').2]
    exact Nat.add_le_add_left (breaksBefore_mono hle.1) 1

end LoxLang
