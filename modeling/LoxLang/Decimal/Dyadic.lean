/-!
# Binary64 values as exact dyadic numbers

A finite binary64 value is a signed natural number times a power of two. This module takes a `Float`
apart into that form and puts it together again, and does the operations that are exact on it: the
integer part, truncation to an integer, and the remainder of a truncated division.

All arithmetic is on `Nat` and `Int`. No rounding takes place in this module; a `Dyadic` whose value
no binary64 number has is outside the domain of `toFloat`.
-/

-- Powers of numbers are those of the core library, whatever other instances are in scope.
attribute [instance (10001), default_instance 10001] instPowNat

namespace LoxLang.Decimal

/-- The number `(-1)^negative * significand * 2^exponent`; zero keeps its sign. -/
structure Dyadic where
  negative : Bool := false
  significand : Nat
  exponent : Int
deriving DecidableEq, Repr

/-- A binary64 value by kind. -/
inductive Binary64 where
  | nan
  | infinite (negative : Bool)
  | finite (value : Dyadic)
deriving DecidableEq, Repr

/-- Reads the three fields of the bit pattern: sign, eleven exponent bits, fifty-two fraction bits. -/
def Binary64.ofFloat (x : Float) : Binary64 :=
  let bits : Nat := x.toBits.toNat
  let negative := decide (2 ^ 63 ≤ bits)
  let scale : Nat := bits / 2 ^ 52 % 2 ^ 11
  let fraction : Nat := bits % 2 ^ 52
  if scale = 2047 then
    if fraction = 0 then .infinite negative else .nan
  else if scale = 0 then .finite ⟨negative, fraction, -1074⟩
  else .finite ⟨negative, 2 ^ 52 + fraction, (scale : Int) - 1075⟩

namespace Dyadic

/-- Whether the number is an integer. -/
def isWhole (d : Dyadic) : Bool :=
  d.significand % 2 ^ (-d.exponent).toNat == 0

/-- The integer part of the magnitude. -/
def wholePart (d : Dyadic) : Nat :=
  d.significand * 2 ^ d.exponent.toNat / 2 ^ (-d.exponent).toNat

/-- The nearest integer toward zero. -/
def truncate (d : Dyadic) : Int :=
  if d.negative then -(d.wholePart : Int) else d.wholePart

/-- The float with this value, for a significand below `2^53` and an exponent of at least `-1074`
within the binary64 range. The significand is shifted up as far as the exponent allows. -/
def toFloat (d : Dyadic) : Float :=
  let sign := if d.negative then 2 ^ 63 else 0
  if d.significand = 0 then Float.ofBits (UInt64.ofNat sign)
  else
    let room := min (52 - d.significand.log2) (d.exponent + 1074).toNat
    let significand := d.significand * 2 ^ room
    let scale := if 2 ^ 52 ≤ significand then (d.exponent - room + 1075).toNat else 0
    Float.ofBits (UInt64.ofNat (sign + scale * 2 ^ 52 + significand % 2 ^ 52))

/-- What is left of `a` after taking away `b` as often as it fits, with the sign of `a`.
Both significands are brought to the lower of the two exponents first. -/
def remainder (a b : Dyadic) : Dyadic :=
  let exponent := min a.exponent b.exponent
  { negative := a.negative
    significand :=
      (a.significand * 2 ^ (a.exponent - exponent).toNat) %
        (b.significand * 2 ^ (b.exponent - exponent).toNat)
    exponent }

end Dyadic

/-- Not a number. -/
def nan : Float := 0.0 / 0.0

/-- Positive infinity. -/
def infinity : Float := 1.0 / 0.0

/-- The exact remainder of a truncated division. A finite number is its own remainder by an
infinity; every other case without an answer gives `nan`. -/
def remainder (x y : Float) : Float :=
  match Binary64.ofFloat x, Binary64.ofFloat y with
  | .finite a, .finite b => if b.significand = 0 then nan else (a.remainder b).toFloat
  | .finite _, .infinite _ => x
  | _, _ => nan

end LoxLang.Decimal
