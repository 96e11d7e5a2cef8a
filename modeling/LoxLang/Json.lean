import LoxLang.Decimal.Notation

/-!
# JSON values and their text

A JSON value with the fields of an object in a fixed order, and its two texts: the compact one without
any white space, and the indented one with two spaces for each level.

Integers and floats are told apart. A float is written in interchange notation; one that is not finite
has no such text and is written as `null`.
-/

namespace LoxLang

/-- A JSON value. -/
inductive Json where
  | null
  | bool (value : Bool)
  | int (value : Int)
  | float (value : Float)
  | string (value : String)
  | array (items : List Json)
  | object (fields : List (String × Json))

namespace Json

/-- The lowercase hexadecimal digit for a number below sixteen. -/
def hexDigit (n : Nat) : Char := Nat.digitChar n

/-- A character inside a quoted string. Quotes, backslashes and the control characters below the space
are escaped, everything else stands for itself. -/
def escape (c : Char) : List Char :=
  match c with
  | '"' => ['\\', '"']
  | '\\' => ['\\', '\\']
  | '\x08' => ['\\', 'b']
  | '\x0c' => ['\\', 'f']
  | '\n' => ['\\', 'n']
  | '\r' => ['\\', 'r']
  | '\t' => ['\\', 't']
  | c =>
    if c.toNat < 0x20 then ['\\', 'u', '0', '0', hexDigit (c.toNat / 16), hexDigit (c.toNat % 16)]
    else [c]

/-- A string between quotes. -/
def quote (s : String) : String :=
  "\"" ++ String.ofList (s.toList.flatMap escape) ++ "\""

/-- The text of a float. -/
def floatText (x : Float) : String := (Decimal.interchange x).getD "null"

mutual

/-- The text without white space. -/
def compact : Json → String
  | .null => "null"
  | .bool b => toString b
  | .int n => toString n
  | .float x => floatText x
  | .string s => quote s
  | .array items => "[" ++ String.intercalate "," (compactItems items) ++ "]"
  | .object fields => "\x7b" ++ String.intercalate "," (compactFields fields) ++ "\x7d"

/-- The compact texts of the items of an array. -/
def compactItems : List Json → List String
  | [] => []
  | item :: rest => compact item :: compactItems rest

/-- The compact texts of the fields of an object. -/
def compactFields : List (String × Json) → List String
  | [] => []
  | (name, value) :: rest => (quote name ++ ":" ++ compact value) :: compactFields rest

end

/-- The beginning of a line at a depth. -/
def newLine (depth : Nat) : String :=
  "\n" ++ String.ofList (List.replicate (2 * depth) ' ')

/-- Parts on lines of their own between two brackets; nothing stands between the brackets of none. -/
def bracketed (opening closing : String) (depth : Nat) (parts : List String) : String :=
  if parts.isEmpty then opening ++ closing
  else
    opening ++ newLine (depth + 1) ++ String.intercalate ("," ++ newLine (depth + 1)) parts ++
      newLine depth ++ closing

mutual

/-- The text over several lines, of a value that begins at `depth`. -/
def indentedAt (depth : Nat) : Json → String
  | .null => "null"
  | .bool b => toString b
  | .int n => toString n
  | .float x => floatText x
  | .string s => quote s
  | .array items => bracketed "[" "]" depth (indentedItems (depth + 1) items)
  | .object fields => bracketed "\x7b" "\x7d" depth (indentedFields (depth + 1) fields)

/-- The indented texts of the items of an array. -/
def indentedItems (depth : Nat) : List Json → List String
  | [] => []
  | item :: rest => indentedAt depth item :: indentedItems depth rest

/-- The indented texts of the fields of an object. -/
def indentedFields (depth : Nat) : List (String × Json) → List String
  | [] => []
  | (name, value) :: rest =>
    (quote name ++ ": " ++ indentedAt depth value) :: indentedFields depth rest

end

/-- The text over several lines. -/
def indented (json : Json) : String := indentedAt 0 json

end Json

end LoxLang
