import LoxLang.Decimal.Reading
import LoxLang.Token

/-!
# Cutting a text into lexemes

A text is cut from the left. Each lexeme takes at least one character: a blank character, a comment, a
token, or the text of a fault. The lexemes in order make up the whole text again.

`cut` decides the next lexeme from the remaining text alone. Marks, numbers, words and comments take as
many characters as they can; a string ends at its first unescaped quote. Only the letters, digits and
underscores of ASCII form words and numbers.

A fault inside a string does not stop the string: the unknown escape is left out of its value and noted
with the number of line breaks up to it.
-/

namespace LoxLang

/-- Why some text is no token. -/
inductive LexicalFault where
  | unexpectedCharacter (c : Char)
  | unknownEscape (c : Char)
  | strayEscape
  | unterminatedString
  | integerTooLarge (digits : String)
deriving DecidableEq, Repr

/-- The fault in words. -/
def LexicalFault.message : LexicalFault → String
  | unexpectedCharacter c => "Unexpected character: " ++ c.toString
  | unknownEscape c => "Unknown escape sequence: '\\" ++ c.toString ++ "'"
  | strayEscape => "String has a stray escape character: '\\'"
  | unterminatedString => "Unterminated string."
  | integerTooLarge digits => "Could not convert literal number to int: " ++ digits

/-- The number of line breaks in a text. -/
def lineBreaks (text : List Char) : Nat := text.count '\n'

/-- An unknown escape inside a string, after so many line breaks of the string. -/
structure BadEscape where
  breaks : Nat
  escaped : Char
deriving DecidableEq, Repr

/-- What a lexeme is. -/
inductive LexemeKind where
  | blank
  | comment
  | token (kind : TokenKind)
  /-- No token begins here, or a string stays open. -/
  | fault (fault : LexicalFault)
deriving DecidableEq, Repr

/-- A piece of the text. -/
structure Lexeme where
  text : List Char
  kind : LexemeKind
  /-- The unknown escapes of a string, in order. -/
  badEscapes : List BadEscape := []
deriving DecidableEq, Repr

/-- Whether a character may be part of a word. -/
def isWordChar (c : Char) : Bool := c.isAlphanum || c == '_'

/-- Whether a character may begin a word. -/
def isWordStart (c : Char) : Bool := c.isAlpha || c == '_'

/-- Whether a character separates tokens and is otherwise ignored. -/
def isSeparator (c : Char) : Bool := c == ' ' || c == '\r' || c == '\t' || c == '\n'

/-- The character that an escape stands for. -/
def unescape : Char → Option Char
  | '\\' => some '\\'
  | '"' => some '"'
  | 'n' => some '\n'
  | 'r' => some '\r'
  | 't' => some '\t'
  | _ => none

/-- How the inside of a string ends. -/
inductive StringEnd where
  | closed
  /-- The text ends without a quote. -/
  | missing
  /-- The text ends directly after a backslash. -/
  | stray
deriving DecidableEq, Repr

/-- The inside of a string up to and with its closing quote. -/
structure StringBody where
  text : List Char
  value : List Char
  badEscapes : List BadEscape
  ending : StringEnd
deriving DecidableEq, Repr

namespace StringBody

/-- The body with a character in front that stands for itself. -/
def raw (c : Char) (body : StringBody) : StringBody :=
  { body with text := c :: body.text, value := c :: body.value }

/-- The body with an escape in front; `breaks` line breaks come before the end of the escape. -/
def escaped (c : Char) (breaks : Nat) (body : StringBody) : StringBody :=
  match unescape c with
  | some decoded =>
    { body with text := '\\' :: c :: body.text, value := decoded :: body.value }
  | none =>
    { body with text := '\\' :: c :: body.text, badEscapes := ⟨breaks, c⟩ :: body.badEscapes }

/-- Reads the inside of a string, `breaks` line breaks after its beginning. -/
def read (breaks : Nat) : List Char → StringBody
  | [] => ⟨[], [], [], .missing⟩
  | '"' :: _ => ⟨['"'], [], [], .closed⟩
  | ['\\'] => ⟨['\\'], [], [], .stray⟩
  | '\\' :: c :: rest =>
    let breaks := breaks + lineBreaks [c]
    (read breaks rest).escaped c breaks
  | c :: rest => (read (breaks + lineBreaks [c]) rest).raw c

end StringBody

/-- The string that begins behind an opening quote. -/
def cutString (rest : List Char) : Lexeme :=
  let body := StringBody.read 0 rest
  { text := '"' :: body.text
    kind :=
      match body.ending with
      | .closed => .token (.string (String.ofList body.value))
      | .missing => .fault .unterminatedString
      | .stray => .fault .strayEscape
    badEscapes := body.badEscapes }

/-- The decimals behind the digits of a number: a point and at least one digit. -/
def cutDecimals : List Char → List Char
  | '.' :: rest =>
    let digits := rest.takeWhile Char.isDigit
    if digits.isEmpty then [] else '.' :: digits
  | _ => []

/-- The number at the beginning of a text that starts with a digit. An integer that a signed 64-bit
word cannot hold is a fault. -/
def cutNumber (text : List Char) : Lexeme :=
  let whole := text.takeWhile Char.isDigit
  let decimals := cutDecimals (text.dropWhile Char.isDigit)
  if decimals.isEmpty then
    let n := Decimal.digitsValue whole
    { text := whole
      kind :=
        if n < 2 ^ 63 then .token (.int (Int64.ofNat n))
        else .fault (.integerTooLarge (String.ofList whole)) }
  else
    let places := decimals.length - 1
    { text := whole ++ decimals
      kind :=
        .token (.float (Decimal.ofScaled (Decimal.digitsValue (whole ++ decimals.drop 1)) (-places))) }

/-- The word at the beginning of a text that starts with one: a keyword or an identifier. -/
def cutWord (text : List Char) : Lexeme :=
  let word := text.takeWhile isWordChar
  { text := word
    kind :=
      match Keyword.ofSpelling? word with
      | some keyword => .token (.keyword keyword)
      | none => .token .identifier }

/-- The next lexeme of a text that begins with `c`. -/
def cut (c : Char) (rest : List Char) : Lexeme :=
  if isSeparator c then ⟨[c], .blank, []⟩
  else if ['/', '/'].isPrefixOf (c :: rest) then ⟨(c :: rest).takeWhile (· != '\n'), .comment, []⟩
  else if c = '"' then cutString rest
  else if c.isDigit then cutNumber (c :: rest)
  else if isWordStart c then cutWord (c :: rest)
  else
    match Mark.longest? (c :: rest) with
    | some mark => ⟨mark.spelling, .token (.mark mark), []⟩
    | none => ⟨[c], .fault (.unexpectedCharacter c), []⟩

/-- The lexemes of a text after its first `skip` characters. -/
def lexemesFrom : Nat → List Char → List Lexeme
  | _, [] => []
  | skip + 1, _ :: rest => lexemesFrom skip rest
  | 0, c :: rest =>
    let lexeme := cut c rest
    lexeme :: lexemesFrom (lexeme.text.length - 1) rest

/-- The lexemes of a text. -/
def lexemes (text : List Char) : List Lexeme := lexemesFrom 0 text

end LoxLang
