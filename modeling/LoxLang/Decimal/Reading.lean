import LoxLang.Decimal.Dyadic

/-!
# Reading numbers

The two grammars of numbers in text, over the whole of a list of characters.

* An integer is an optional sign and at least one decimal digit.
* A number is an optional sign and either one of the words `inf`, `infinity` and `nan`, in any case,
  or decimal digits with at most one point, at least one digit in all, and an optional exponent.

Only the digits `0` to `9` count. The value of a number is the nearest float; `ofScaled` bounds the
exponent first, so that its cost depends on the length of the text only.
-/

namespace LoxLang.Decimal

/-- The value of a decimal digit, `0` for any other character. -/
def digitValue (c : Char) : Nat := c.toNat - '0'.toNat

/-- The number that a list of digits denotes. -/
def digitsValue (digits : List Char) : Nat :=
  digits.foldl (fun n c => 10 * n + digitValue c) 0

/-- An optional sign in front of a text: whether it is a minus, and the rest. -/
def readSign : List Char → Bool × List Char
  | '-' :: rest => (true, rest)
  | '+' :: rest => (false, rest)
  | text => (false, text)

/-- Reads an integer. -/
def readInteger (text : List Char) : Option Int :=
  let (negative, digits) := readSign text
  if digits.isEmpty || !digits.all Char.isDigit then none
  else if negative then some (-(digitsValue digits : Int))
  else some (digitsValue digits)

/-- The float nearest to `digits * 10^exponent`. Beyond the powers of ten in which a nonzero binary64
value can lie the answer is zero or infinity, without computing the power. -/
def ofScaled (digits : Nat) (exponent : Int) : Float :=
  let magnitude := (Nat.toDigits 10 digits).length + exponent
  if digits = 0 ∨ magnitude < -400 then 0.0
  else if 400 < magnitude then infinity
  else Float.ofScientific digits (decide (exponent < 0)) exponent.natAbs

/-- Reads the exponent part, which may be missing. -/
def readExponent : List Char → Option Int
  | [] => some 0
  | mark :: rest => if mark = 'e' ∨ mark = 'E' then readInteger rest else none

/-- Reads digits, point and exponent. -/
def readUnsigned (text : List Char) : Option Float := do
  let (whole, rest) := text.span Char.isDigit
  let (decimals, rest) :=
    match rest with
    | '.' :: rest => rest.span Char.isDigit
    | rest => ([], rest)
  if whole.isEmpty && decimals.isEmpty then none
  else
    let exponent ← readExponent rest
    some (ofScaled (digitsValue (whole ++ decimals)) (exponent - decimals.length))

/-- Reads a number. -/
def readNumber (text : List Char) : Option Float := do
  let (negative, body) := readSign text
  let word := body.map Char.toLower
  let magnitude ←
    if word = ['i', 'n', 'f'] ∨ word = ['i', 'n', 'f', 'i', 'n', 'i', 't', 'y'] then some infinity
    else if word = ['n', 'a', 'n'] then some nan
    else readUnsigned body
  some (if negative then -magnitude else magnitude)

end LoxLang.Decimal
