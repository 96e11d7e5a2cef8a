import LoxLang.Text.Extender
import LoxLang.Text.Ignorable
import LoxLang.Text.Printable

/-!
# Quoted names

A name between double quotes, written so that every character of it can be told from the text around it.
A quote and a backslash have a backslash in front; tab, line feed, carriage return and NUL have a letter
or digit of their own; a character that cannot be seen by itself, because it is unprintable, is ignorable
or extends the one before, is written as its code point in hexadecimal digits.
-/

namespace LoxLang.Text

/-- Whether a character inside quotes stands for itself. -/
def isPlain (c : Char) : Bool :=
  c != '"' && c != '\\' && isPrintable c && !isIgnorable c && !isExtender c

/-- A character as its code point. -/
def codePointEscape (c : Char) : List Char :=
  ['\\', 'u', '\x7b'] ++ Nat.toDigits 16 c.toNat ++ ['\x7d']

/-- A character inside quotes. -/
def quotedChar (c : Char) : List Char :=
  match c with
  | '"' => ['\\', '"']
  | '\\' => ['\\', '\\']
  | '\n' => ['\\', 'n']
  | '\r' => ['\\', 'r']
  | '\t' => ['\\', 't']
  | '\x00' => ['\\', '0']
  | c => if isPlain c then [c] else codePointEscape c

/-- A name between quotes. -/
def quoted (name : String) : String :=
  "\"" ++ String.ofList (name.toList.flatMap quotedChar) ++ "\""

end LoxLang.Text
