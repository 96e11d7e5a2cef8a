import LoxLang.Proofs.Scan.Bytes
import LoxLang.Proofs.Scan.Forms
import LoxLang.Value.Conversion

/-!
# Scanning bytes

The scan over the bytes of a text, with a cursor that moves from byte to byte and looks at most two bytes
ahead. Its items are asked for one by one. All texts are cut out by `slice?`, which has no answer at a place
inside a character, and then the scan has none.
-/

namespace LoxLang

/-! ## Lexemes -/

/-- What the bytes of a lexeme come to: where it ends, the line there, its token and its errors. -/
structure ByteLexeme where
  stop : Nat
  line : Nat
  kind : Option TokenKind := none
  errors : List StaticError := []

/-- One of two marks, depending on an equals sign. -/
def withEqual (source : String) (mark plain : Mark) (i : Nat) : Mark × Nat :=
  if byteIs source i '=' then (mark, i + 1) else (plain, i)

/-- The mark that begins with `c`, which stands in front of a place. -/
def readMark (source : String) (c : Char) (i : Nat) : Option (Mark × Nat) :=
  match c with
  | '(' => some (.leftParen, i)
  | ')' => some (.rightParen, i)
  | '\x7b' => some (.leftBrace, i)
  | '\x7d' => some (.rightBrace, i)
  | '[' => some (.leftBracket, i)
  | ']' => some (.rightBracket, i)
  | ',' => some (.comma, i)
  | '.' => some (.dot, i)
  | ';' => some (.semicolon, i)
  | '~' => some (.bitNot, i)
  | '-' => some (withEqual source .minusEqual .minus i)
  | '+' => some (withEqual source .plusEqual .plus i)
  | '%' => some (withEqual source .percentEqual .percent i)
  | '!' => some (withEqual source .bangEqual .bang i)
  | '=' => some (withEqual source .equalEqual .equal i)
  | '&' => some (withEqual source .bitAndEqual .bitAnd i)
  | '|' => some (withEqual source .bitOrEqual .bitOr i)
  | '^' => some (withEqual source .bitXorEqual .bitXor i)
  | '/' => some (withEqual source .slashEqual .slash i)
  | '*' => some (if byteIs source i '*' then withEqual source .starStarEqual .starStar (i + 1)
      else withEqual source .starEqual .star i)
  | '<' => some (if byteIs source i '<' then withEqual source .shiftLeftEqual .shiftLeft (i + 1)
      else withEqual source .lessEqual .less i)
  | '>' => some (if byteIs source i '>' then withEqual source .shiftRightEqual .shiftRight (i + 1)
      else withEqual source .greaterEqual .greater i)
  | _ => none

/-- Reads the inside of a string from a place on. What stands for itself since `segment` is not yet part of
the value. -/
def readString (source : String) (segment i line : Nat) (value : String) (errors : List StaticError) :
    Option ByteLexeme :=
  match h : byte? source i with
  | none => some ⟨i, line, none, errors ++ [.lexical line .unterminatedString]⟩
  | some b =>
    if b = '"'.toUInt8 then do
      let part ← slice? source segment i
      some ⟨i + 1, line, some (.string (value ++ part)), errors⟩
    else if b = '\\'.toUInt8 then do
      let part ← slice? source segment i
      match byte? source (i + 1) with
      | none => some ⟨i + 1, line, none, errors ++ [.lexical line .strayEscape]⟩
      | some e =>
        match unescape (Char.ofUInt8 e) with
        | some c => readString source (i + 2) (i + 2) line ((value ++ part).push c) errors
        | none => do
          let line := if e = '\n'.toUInt8 then line + 1 else line
          let stop := skipBytes source continues (i + 2)
          let c ← character? source (i + 1) stop
          readString source stop stop line (value ++ part) (errors ++ [.lexical line (.unknownEscape c)])
    else readString source segment (i + 1) (if b = '\n'.toUInt8 then line + 1 else line) value errors
termination_by source.toByteArray.size - i
decreasing_by
  all_goals
    have hlt := lt_of_byte? h
    have hskip := le_skipBytes source continues (i + 2)
    omega

/-- Reads the number that begins at a place. -/
def readNumber (source : String) (start line : Nat) : Option ByteLexeme := do
  let isDigit (b : UInt8) : Bool := (Char.ofUInt8 b).isDigit
  let stop := skipBytes source isDigit (start + 1)
  if byteIs source stop '.' && (byte? source (stop + 1)).any isDigit then do
    let stop := skipBytes source isDigit (stop + 1)
    let text ← slice? source start stop
    let value ← Decimal.readNumber text.toList
    some ⟨stop, line, some (.float value), []⟩
  else do
    let text ← slice? source start stop
    let value ← Decimal.readInteger text.toList
    match word? value with
    | some value => some ⟨stop, line, some (.int value), []⟩
    | none => some ⟨stop, line, none, [.lexical line (.integerTooLarge text)]⟩

/-- Reads the word that begins at a place. -/
def readWord (source : String) (start line : Nat) : Option ByteLexeme := do
  let stop := skipBytes source (fun b => isWordChar (Char.ofUInt8 b)) (start + 1)
  let text ← slice? source start stop
  let kind :=
    match Keyword.ofSpelling? text.toList with
    | some keyword => .keyword keyword
    | none => .identifier
  some ⟨stop, line, some kind, []⟩

/-- Reads the lexeme that begins at a place. -/
def readLexeme (source : String) (start line : Nat) : Option ByteLexeme := do
  let b ← byte? source start
  let c := Char.ofUInt8 b
  let i := start + 1
  if c = ' ' ∨ c = '\r' ∨ c = '\t' then some ⟨i, line, none, []⟩
  else if c = '\n' then some ⟨i, line + 1, none, []⟩
  else if c = '/' ∧ byteIs source i '/' then
    some ⟨skipBytes source (· != '\n'.toUInt8) (i + 1), line, none, []⟩
  else if c = '"' then readString source i i line "" []
  else if c.isDigit then readNumber source start line
  else if isWordStart c then readWord source start line
  else
    match readMark source c i with
    | some (mark, stop) => some ⟨stop, line, some (.mark mark), []⟩
    | none => do
      let stop := skipBytes source continues i
      let c ← character? source start stop
      some ⟨stop, line, none, [.lexical line (.unexpectedCharacter c)]⟩

/-! Every lexeme takes at least one byte. -/

section Advances
variable {source : String} {line : Nat} {lexeme : ByteLexeme}

theorem le_readString {segment i : Nat} {value : String} {errors : List StaticError}
    (h : readString source segment i line value errors = some lexeme) : i ≤ lexeme.stop := by
  fun_induction readString source segment i line value errors with
  | case1 segment i =>
    cases h
    exact Nat.le_refl i
  | case2 segment i =>
    obtain ⟨part, -, h⟩ := Option.bind_eq_some_iff.1 h
    cases h
    exact Nat.le_succ i
  | case3 segment i line value errors hb hne known unknown =>
    obtain ⟨part, -, h⟩ := Option.bind_eq_some_iff.1 h
    split at h
    · cases h
      exact Nat.le_succ i
    · next e _ =>
      split at h
      · next c _ => exact Nat.le_trans (Nat.le_add_right i 2) (known part c h)
      · obtain ⟨c, -, h⟩ := Option.bind_eq_some_iff.1 h
        have hskip := le_skipBytes source continues (i + 2)
        have hmore := unknown part e c h
        omega
  | case4 segment i line value errors b hb hne hne' ih => exact Nat.le_of_succ_le (ih h)

theorem lt_readNumber {start : Nat} (h : readNumber source start line = some lexeme) :
    start < lexeme.stop := by
  unfold readNumber at h
  dsimp only at h
  generalize (fun b : UInt8 => (Char.ofUInt8 b).isDigit) = isDigit at h
  have hskip := le_skipBytes source isDigit (start + 1)
  split at h
  · obtain ⟨text, -, h⟩ := Option.bind_eq_some_iff.1 h
    obtain ⟨value, -, h⟩ := Option.bind_eq_some_iff.1 h
    have hskip' := le_skipBytes source isDigit (skipBytes source isDigit (start + 1) + 1)
    cases h
    dsimp only
    omega
  · obtain ⟨text, -, h⟩ := Option.bind_eq_some_iff.1 h
    obtain ⟨value, -, h⟩ := Option.bind_eq_some_iff.1 h
    split at h
    · cases h
      exact hskip
    · cases h
      exact hskip

theorem lt_readWord {start : Nat} (h : readWord source start line = some lexeme) :
    start < lexeme.stop := by
  obtain ⟨text, -, h⟩ := Option.bind_eq_some_iff.1 h
  cases h
  exact le_skipBytes source _ (start + 1)

theorem le_readMark {c : Char} {i stop : Nat} {mark : Mark} (h : readMark source c i = some (mark, stop)) :
    i ≤ stop := by
  have hequal (m m' : Mark) (i : Nat) : i ≤ (withEqual source m m' i).2 := by
    unfold withEqual
    split
    · exact Nat.le_succ i
    · exact Nat.le_refl i
  have htwice {second : Char} (m m' n n' : Mark) : i ≤ (if byteIs source i second then
      withEqual source m m' (i + 1) else withEqual source n n' i).2 := by
    split
    · exact Nat.le_of_succ_le (hequal m m' (i + 1))
    · exact hequal n n' i
  have hstop := congrArg (Option.map Prod.snd) h
  unfold readMark at hstop
  split at hstop
  all_goals cases hstop
  all_goals first | exact Nat.le_refl i | exact hequal _ _ i | exact htwice _ _ _ _

theorem lt_readLexeme {start : Nat} (h : readLexeme source start line = some lexeme) :
    start < lexeme.stop := by
  obtain ⟨b, -, h⟩ := Option.bind_eq_some_iff.1 h
  dsimp only at h
  split at h
  · cases h
    exact Nat.lt_succ_self start
  split at h
  · cases h
    exact Nat.lt_succ_self start
  split at h
  · cases h
    exact Nat.le_of_succ_le (le_skipBytes source _ (start + 1 + 1))
  split at h
  · exact le_readString h
  split at h
  · exact lt_readNumber h
  split at h
  · exact lt_readWord h
  split at h
  · next mark stop hmark =>
    cases h
    exact le_readMark hmark
  · obtain ⟨c, -, h⟩ := Option.bind_eq_some_iff.1 h
    cases h
    exact le_skipBytes source continues (start + 1)

end Advances

/-! ## Items -/

/-- Where a scan stands: the place behind the last lexeme, the line there, the token of that lexeme if it was
not asked for yet, and the errors to come before it. -/
structure Cursor where
  place : Nat := 0
  line : Nat := 1
  ready : Option Token := none
  errors : List StaticError := []

/-- The next item, if there is one. -/
def Cursor.next? (source : String) (cursor : Cursor) : Option (Option ScanItem × Cursor) :=
  match cursor.errors, cursor.ready with
  | error :: errors, _ => some (some (.error error), { cursor with errors })
  | [], some token => some (some (.token token), { cursor with ready := none })
  | [], none =>
    if source.toByteArray.size < cursor.place then some (none, cursor)
    else if cursor.place = source.toByteArray.size then
      some (some (.token ⟨.eof, "", cursor.line⟩), { cursor with place := cursor.place + 1 })
    else
      match h : readLexeme source cursor.place cursor.line with
      | none => none
      | some lexeme =>
        have := lt_readLexeme h
        match lexeme.kind with
        | some kind => do
          let text ← slice? source cursor.place lexeme.stop
          Cursor.next? source ⟨lexeme.stop, lexeme.line, some ⟨kind, text, lexeme.line⟩, lexeme.errors⟩
        | none => Cursor.next? source ⟨lexeme.stop, lexeme.line, none, lexeme.errors⟩
termination_by source.toByteArray.size - cursor.place
decreasing_by all_goals omega

/-- The answers to so many questions for the next item. -/
def Cursor.answers (source : String) : Nat → Cursor → Option (List (Option ScanItem))
  | 0, _ => some []
  | n + 1, cursor => do
    let (item, cursor) ← cursor.next? source
    let items ← Cursor.answers source n cursor
    some (item :: items)

end LoxLang
