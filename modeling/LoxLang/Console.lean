import LoxLang.Fault

/-!
# The console

What a program has printed and what it may still read. Printing can be limited to a number of bytes: a
write that does not fit is refused as a whole, and a later, shorter one may fit again. Input is read by
lines; the bytes of a line that is no UTF-8 text are used up all the same.
-/

namespace LoxLang

/-- Printed text, the bytes that may still be printed if there is a limit, and unread input. -/
structure Console where
  written : String := ""
  budget : Option Nat := none
  input : List UInt8 := []

namespace Console

/-- Whether a text may still be printed. -/
def fits (c : Console) (text : String) : Bool :=
  match c.budget with
  | none => true
  | some left => text.utf8ByteSize ≤ left

/-- Prints a text, and uses up its bytes, or refuses it. -/
def write (c : Console) (text : String) : Except Fault Unit × Console :=
  if c.fits text then
    (.ok (), { c with
      written := c.written ++ text
      budget := c.budget.map (· - text.utf8ByteSize) })
  else (.error .outputFull, c)

/-- The bytes of the first line with its line break, and the bytes behind it. -/
def splitLine : List UInt8 → List UInt8 × List UInt8
  | [] => ([], [])
  | b :: rest =>
    if b = 10 then ([b], rest)
    else
      let (line, behind) := splitLine rest
      (b :: line, behind)

/-- Whether a byte is a line feed or a carriage return. -/
def isLineEnd (b : UInt8) : Bool := b == 10 || b == 13

/-- The bytes without the line ends behind them. -/
def dropLineEnds (bytes : List UInt8) : List UInt8 := (bytes.reverse.dropWhile isLineEnd).reverse

/-- The next line without its end, or nothing when the input is used up; and the console after it. -/
def readLine (c : Console) : Except Fault (Option String) × Console :=
  match c.input with
  | [] => (.ok none, c)
  | input =>
    let (line, rest) := splitLine input
    let text := String.fromUTF8? (ByteArray.mk (dropLineEnds line).toArray)
    match text with
    | some text => (.ok (some text), { c with input := rest })
    | none => (.error .inputNotText, { c with input := rest })

end Console

end LoxLang
