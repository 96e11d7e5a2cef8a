import LoxLang.Decimal.Dyadic

/-!
# Shortest decimals

The decimals that read back as a given binary64 value form an interval around it. `shortest` picks
one with the fewest digits, and of those the one closest to the value. All comparisons are exact, on
natural numbers; a tie between two equally close decimals goes by a stated rule.

The search tries one to seventeen digits in turn. Should none of them read back, the exact decimal
expansion is returned, which always does.
-/

namespace LoxLang.Decimal

/-- The number `digits * 10^exponent`. -/
structure Scaled where
  digits : Nat
  exponent : Int
deriving DecidableEq, Repr

/-- Which of two equally close decimals is taken. -/
inductive Tie where
  | even
  | up
deriving DecidableEq, Repr

/-- The order of `a * 10^i` and `b * 2^j`. -/
def compareScaled (a : Nat) (i : Int) (b : Nat) (j : Int) : Ordering :=
  compare (a * 10 ^ i.toNat * 2 ^ (-j).toNat) (b * 2 ^ j.toNat * 10 ^ (-i).toNat)

namespace Dyadic

/-- Whether the gap to the value below is half the gap to the value above, as it is at the powers of
two above the smallest exponent. -/
def narrowBelow (d : Dyadic) : Bool :=
  d.significand == 2 ^ 52 && decide (-1074 < d.exponent)

/-- Whether a positive decimal is rounded to this magnitude: it lies between the midpoints to the two
neighbours, and a midpoint counts when the significand is even. -/
def readsBack (d : Dyadic) (s : Scaled) : Bool :=
  let lower := if d.narrowBelow then 4 * d.significand - 1 else 4 * d.significand - 2
  let upper := 4 * d.significand + 2
  let closed := d.significand % 2 == 0
  let above := compareScaled s.digits s.exponent lower (d.exponent - 2)
  let below := compareScaled s.digits s.exponent upper (d.exponent - 2)
  (above == .gt || (closed && above == .eq)) && (below == .lt || (closed && below == .eq))

/-- The least `k` with a magnitude below `10^k`, for a value other than zero. The binary logarithm
gives it up to two steps. -/
def decimalScale (d : Dyadic) : Int :=
  let guess := (((d.significand.log2 : Int) + d.exponent) * 30103).fdiv 100000
  let fits (k : Int) : Bool := compareScaled 1 k d.significand d.exponent == .gt
  if fits guess then guess
  else if fits (guess + 1) then guess + 1
  else if fits (guess + 2) then guess + 2
  else guess + 3

/-- The magnitude divided by `10^position`, rounded down. -/
def quotient (d : Dyadic) (position : Int) : Nat :=
  (d.significand * 2 ^ d.exponent.toNat * 10 ^ (-position).toNat) /
    (2 ^ (-d.exponent).toNat * 10 ^ position.toNat)

/-- The better of the two neighbours on the grid of `10^position`, if one reads back. -/
def nearestOn (d : Dyadic) (tie : Tie) (position : Int) : Option Scaled :=
  let low := d.quotient position
  let down : Scaled := ⟨low, position⟩
  let up : Scaled := ⟨low + 1, position⟩
  match d.readsBack down, d.readsBack up with
  | true, true =>
    match compareScaled (2 * low + 1) position (2 * d.significand) d.exponent with
    | .gt => some down
    | .lt => some up
    | .eq => if tie = .even ∧ low % 2 = 0 then some down else some up
  | true, false => some down
  | false, true => some up
  | false, false => none

/-- The exact decimal expansion of the magnitude. -/
def expansion (d : Dyadic) : Scaled :=
  ⟨d.significand * 2 ^ d.exponent.toNat * 5 ^ (-d.exponent).toNat, min d.exponent 0⟩

end Dyadic

namespace Scaled

/-- Moves up to `count` trailing zeros from the digits into the exponent. -/
def strip : Nat → Scaled → Scaled
  | 0, s => s
  | count + 1, s =>
    if s.digits % 10 = 0 then strip count ⟨s.digits / 10, s.exponent + 1⟩ else s

end Scaled

/-- The shortest decimal that reads back as the magnitude of a value other than zero. -/
def Dyadic.shortest (d : Dyadic) (tie : Tie) : Scaled :=
  let scale := d.decimalScale
  let tries := (List.range 17).map fun (n : Nat) => scale - (n + 1)
  match tries.findSome? (d.nearestOn tie) with
  | some s => s.strip 18
  | none => d.expansion

end LoxLang.Decimal
