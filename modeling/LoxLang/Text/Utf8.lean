/-!
# UTF-8 texts and their first fault

Bytes are decoded as a whole. Bytes that are no UTF-8 text are described by their first fault: where
the longest valid beginning ends, and whether the bytes there can never become a character or merely
stop too early.
-/

namespace LoxLang.Text

/-- Why bytes are no UTF-8 text; `offset` bytes before the fault are valid. -/
inductive Utf8Fault where
  /-- The next `length` bytes begin no character, whatever follows. -/
  | invalid (length offset : Nat)
  /-- The bytes end inside a character. -/
  | incomplete (offset : Nat)
deriving DecidableEq, Repr

namespace Utf8Fault

/-- The fault in words. -/
def message : Utf8Fault → String
  | .invalid length offset =>
    "invalid utf-8 sequence of " ++ toString length ++ " bytes from index " ++ toString offset
  | .incomplete offset => "incomplete utf-8 byte sequence from index " ++ toString offset

end Utf8Fault

/-- Whether a byte continues a character. -/
def isTail (b : UInt8) : Bool := decide (0x80 ≤ b) && decide (b ≤ 0xBF)

/-- Whether `b` may follow the first byte `a` of a character of three or four bytes. The bounds leave
out overlong forms, surrogates and code points beyond the last. -/
def isSecond (a b : UInt8) : Bool :=
  if a = 0xE0 then decide (0xA0 ≤ b) && decide (b ≤ 0xBF)
  else if a = 0xED then decide (0x80 ≤ b) && decide (b ≤ 0x9F)
  else if a = 0xF0 then decide (0x90 ≤ b) && decide (b ≤ 0xBF)
  else if a = 0xF4 then decide (0x80 ≤ b) && decide (b ≤ 0x8F)
  else isTail b

/-- The number of bytes in a character with this first byte, `0` if there is none. -/
def characterLength (a : UInt8) : Nat :=
  if a < 0x80 then 1
  else if 0xC2 ≤ a ∧ a ≤ 0xDF then 2
  else if 0xE0 ≤ a ∧ a ≤ 0xEF then 3
  else if 0xF0 ≤ a ∧ a ≤ 0xF4 then 4
  else 0

/-- How a list of bytes begins. -/
inductive Utf8Start where
  | character (length : Nat)
  | invalid (length : Nat)
  | incomplete
deriving DecidableEq, Repr

/-- How the bytes from a first byte on begin. -/
def utf8Start (a : UInt8) (rest : List UInt8) : Utf8Start :=
  match characterLength a, rest with
  | 0, _ => .invalid 1
  | 1, _ => .character 1
  | _, [] => .incomplete
  | 2, b :: _ => if isTail b then .character 2 else .invalid 1
  | length, b :: rest =>
    if !isSecond a b then .invalid 1
    else
      match rest with
      | [] => .incomplete
      | c :: rest =>
        if !isTail c then .invalid 2
        else if length = 3 then .character 3
        else
          match rest with
          | [] => .incomplete
          | d :: _ => if isTail d then .character 4 else .invalid 3

/-- The first fault at or after `offset`. `skip` bytes still belong to the character before. -/
def firstFault (offset skip : Nat) : List UInt8 → Option Utf8Fault
  | [] => none
  | a :: rest =>
    match skip with
    | skip + 1 => firstFault (offset + 1) skip rest
    | 0 =>
      match utf8Start a rest with
      | .character length => firstFault (offset + 1) (length - 1) rest
      | .invalid length => some (.invalid length offset)
      | .incomplete => some (.incomplete offset)

/-- The text that bytes encode, or their first fault. -/
def decodeUtf8 (bytes : ByteArray) : Except Utf8Fault String :=
  match String.fromUTF8? bytes with
  | some text => .ok text
  | none => .error ((firstFault 0 0 bytes.toList).getD (.invalid 1 0))

end LoxLang.Text
