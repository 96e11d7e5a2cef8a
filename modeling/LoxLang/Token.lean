import LoxLang.Json

/-!
# Tokens

The words of the language: marks (operators and punctuation), keywords, identifiers, literals, and the
end of the text. Each mark and keyword has a spelling, and every token a name under which it is shown.

The spellings are pairwise different. `Mark.byLength` lists the marks so that none stands behind one of
its own beginnings; the first entry that a text starts with is therefore the longest such mark.
-/

namespace LoxLang

/-- An operator or a punctuation mark. -/
inductive Mark where
  | leftParen
  | rightParen
  | leftBrace
  | rightBrace
  | leftBracket
  | rightBracket
  | comma
  | dot
  | semicolon
  | minus
  | minusEqual
  | plus
  | plusEqual
  | slash
  | slashEqual
  | star
  | starEqual
  | starStar
  | starStarEqual
  | percent
  | percentEqual
  | bang
  | bangEqual
  | equal
  | equalEqual
  | greater
  | greaterEqual
  | less
  | lessEqual
  | bitNot
  | bitAnd
  | bitAndEqual
  | bitOr
  | bitOrEqual
  | bitXor
  | bitXorEqual
  | shiftLeft
  | shiftLeftEqual
  | shiftRight
  | shiftRightEqual
deriving DecidableEq, Repr

namespace Mark

/-- How the mark is written. -/
def spelling : Mark → List Char
  | leftParen => ['(']
  | rightParen => [')']
  | leftBrace => ['\x7b']
  | rightBrace => ['\x7d']
  | leftBracket => ['[']
  | rightBracket => [']']
  | comma => [',']
  | dot => ['.']
  | semicolon => [';']
  | minus => ['-']
  | minusEqual => ['-', '=']
  | plus => ['+']
  | plusEqual => ['+', '=']
  | slash => ['/']
  | slashEqual => ['/', '=']
  | star => ['*']
  | starEqual => ['*', '=']
  | starStar => ['*', '*']
  | starStarEqual => ['*', '*', '=']
  | percent => ['%']
  | percentEqual => ['%', '=']
  | bang => ['!']
  | bangEqual => ['!', '=']
  | equal => ['=']
  | equalEqual => ['=', '=']
  | greater => ['>']
  | greaterEqual => ['>', '=']
  | less => ['<']
  | lessEqual => ['<', '=']
  | bitNot => ['~']
  | bitAnd => ['&']
  | bitAndEqual => ['&', '=']
  | bitOr => ['|']
  | bitOrEqual => ['|', '=']
  | bitXor => ['^']
  | bitXorEqual => ['^', '=']
  | shiftLeft => ['<', '<']
  | shiftLeftEqual => ['<', '<', '=']
  | shiftRight => ['>', '>']
  | shiftRightEqual => ['>', '>', '=']

/-- The spelling as a string. -/
def text (m : Mark) : String := String.ofList m.spelling

/-- The name under which the mark is shown. -/
def name : Mark → String
  | leftParen => "LEFT_PAREN"
  | rightParen => "RIGHT_PAREN"
  | leftBrace => "LEFT_BRACE"
  | rightBrace => "RIGHT_BRACE"
  | leftBracket => "LEFT_BRACKET"
  | rightBracket => "RIGHT_BRACKET"
  | comma => "COMMA"
  | dot => "DOT"
  | semicolon => "SEMICOLON"
  | minus => "MINUS"
  | minusEqual => "MINUS_EQUAL"
  | plus => "PLUS"
  | plusEqual => "PLUS_EQUAL"
  | slash => "SLASH"
  | slashEqual => "SLASH_EQUAL"
  | star => "STAR"
  | starEqual => "STAR_EQUAL"
  | starStar => "STAR_STAR"
  | starStarEqual => "STAR_STAR_EQUAL"
  | percent => "PERCENT"
  | percentEqual => "PERCENT_EQUAL"
  | bang => "BANG"
  | bangEqual => "BANG_EQUAL"
  | equal => "EQUAL"
  | equalEqual => "EQUAL_EQUAL"
  | greater => "GREATER"
  | greaterEqual => "GREATER_EQUAL"
  | less => "LESS"
  | lessEqual => "LESS_EQUAL"
  | bitNot => "BIT_NOT"
  | bitAnd => "BIT_AND"
  | bitAndEqual => "BIT_AND_EQUAL"
  | bitOr => "BIT_OR"
  | bitOrEqual => "BIT_OR_EQUAL"
  | bitXor => "BIT_XOR"
  | bitXorEqual => "BIT_XOR_EQUAL"
  | shiftLeft => "SHIFT_LEFT"
  | shiftLeftEqual => "SHIFT_LEFT_EQUAL"
  | shiftRight => "SHIFT_RIGHT"
  | shiftRightEqual => "SHIFT_RIGHT_EQUAL"

/-- All marks, longer ones first. -/
def byLength : List Mark :=
  [starStarEqual, shiftLeftEqual, shiftRightEqual,
   minusEqual, plusEqual, slashEqual, starEqual, starStar, percentEqual, bangEqual, equalEqual,
   greaterEqual, lessEqual, bitAndEqual, bitOrEqual, bitXorEqual, shiftLeft, shiftRight,
   leftParen, rightParen, leftBrace, rightBrace, leftBracket, rightBracket, comma, dot, semicolon,
   minus, plus, slash, star, percent, bang, equal, greater, less, bitNot, bitAnd, bitOr, bitXor]

theorem mem_byLength (m : Mark) : m ∈ byLength := by cases m <;> decide

/-- The longest mark that a text starts with. -/
def longest? (text : List Char) : Option Mark :=
  byLength.find? fun m => m.spelling.isPrefixOf text

end Mark

/-- A reserved word. -/
inductive Keyword where
  | andWord
  | classWord
  | elseWord
  | falseWord
  | funWord
  | forWord
  | ifWord
  | nilWord
  | orWord
  | returnWord
  | superWord
  | thisWord
  | trueWord
  | varWord
  | whileWord
deriving DecidableEq, Repr

namespace Keyword

/-- How the keyword is written. -/
def spelling : Keyword → List Char
  | andWord => ['a', 'n', 'd']
  | classWord => ['c', 'l', 'a', 's', 's']
  | elseWord => ['e', 'l', 's', 'e']
  | falseWord => ['f', 'a', 'l', 's', 'e']
  | funWord => ['f', 'u', 'n']
  | forWord => ['f', 'o', 'r']
  | ifWord => ['i', 'f']
  | nilWord => ['n', 'i', 'l']
  | orWord => ['o', 'r']
  | returnWord => ['r', 'e', 't', 'u', 'r', 'n']
  | superWord => ['s', 'u', 'p', 'e', 'r']
  | thisWord => ['t', 'h', 'i', 's']
  | trueWord => ['t', 'r', 'u', 'e']
  | varWord => ['v', 'a', 'r']
  | whileWord => ['w', 'h', 'i', 'l', 'e']

/-- The name under which the keyword is shown. -/
def name : Keyword → String
  | andWord => "AND"
  | classWord => "CLASS"
  | elseWord => "ELSE"
  | falseWord => "FALSE"
  | funWord => "FUN"
  | forWord => "FOR"
  | ifWord => "IF"
  | nilWord => "NIL"
  | orWord => "OR"
  | returnWord => "RETURN"
  | superWord => "SUPER"
  | thisWord => "THIS"
  | trueWord => "TRUE"
  | varWord => "VAR"
  | whileWord => "WHILE"

/-- All keywords. -/
def all : List Keyword :=
  [andWord, classWord, elseWord, falseWord, funWord, forWord, ifWord, nilWord, orWord, returnWord,
   superWord, thisWord, trueWord, varWord, whileWord]

theorem mem_all (k : Keyword) : k ∈ all := by cases k <;> decide

/-- The keyword with this spelling. -/
def ofSpelling? (text : List Char) : Option Keyword := all.find? fun k => k.spelling == text

end Keyword

/-- What a token is. Literals carry their values. -/
inductive TokenKind where
  | mark (mark : Mark)
  | keyword (keyword : Keyword)
  | identifier
  | string (value : String)
  | int (value : Int64)
  | float (value : Float)
  | eof
deriving DecidableEq, Repr

namespace TokenKind

/-- The name under which a kind is shown, without the value of a literal. -/
def name : TokenKind → String
  | mark m => m.name
  | keyword k => k.name
  | identifier => "IDENTIFIER"
  | string _ => "STRING"
  | int _ => "INT"
  | float _ => "FLOAT"
  | eof => "EOF"

/-- The value of a literal as it is shown. -/
def literalText : TokenKind → String
  | string value => value
  | int value => toString value.toInt
  | float value => Decimal.plain ".0" value
  | _ => "null"

/-- The kind as JSON: its name, for a literal together with the value. -/
def toJson (kind : TokenKind) : Json :=
  match kind with
  | string value => .object [(kind.name, .string value)]
  | int value => .object [(kind.name, .int value.toInt)]
  | float value => .object [(kind.name, .float value)]
  | _ => .string kind.name

end TokenKind

/-- A token with the text it was cut from and the line on which that text ends. -/
structure Token where
  kind : TokenKind
  lexeme : String
  line : Nat
deriving DecidableEq, Repr

namespace Token

/-- The token on one line: its name, its lexeme and the value of a literal. -/
def render (t : Token) : String :=
  t.kind.name ++ " " ++ t.lexeme ++ " " ++ t.kind.literalText

/-- The token as JSON. -/
def toJson (t : Token) : Json :=
  .object [("token_type", t.kind.toJson), ("lexeme", .string t.lexeme), ("line", .int t.line)]

end Token

end LoxLang
