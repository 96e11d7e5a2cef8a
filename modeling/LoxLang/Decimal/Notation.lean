import LoxLang.Decimal.Shortest

/-!
# How numbers are laid out

Two notations share the digits of `Decimal.Shortest`.

* Plain notation never uses an exponent. A whole number is written out in full, exactly, and followed
  by a fixed suffix; any other number gets its shortest digits with a point. Ties go up.
* Interchange notation uses the shortest digits throughout, positionally while the leading digit
  stands between the sixteenth place before the point and the fifth after it, and with a signed
  exponent otherwise. Ties go to the even digit. It has no text for a number that is not finite.
-/

namespace LoxLang.Decimal

/-- A run of zeros. -/
def zeros (count : Nat) : String := String.ofList (List.replicate count '0')

/-- The digits with the point where the exponent puts it; a number without decimals gets none. -/
def Scaled.positional (s : Scaled) : String :=
  let digits := (toString s.digits).toList
  let places := (-s.exponent).toNat
  if places = 0 then String.ofList digits ++ zeros s.exponent.toNat
  else if places < digits.length then
    String.ofList (digits.take (digits.length - places)) ++ "." ++
      String.ofList (digits.drop (digits.length - places))
  else "0." ++ zeros (places - digits.length) ++ String.ofList digits

/-- The power of ten of the leading digit. -/
def Scaled.magnitude (s : Scaled) : Int :=
  (toString s.digits).length + s.exponent - 1

/-- One digit before the point, the rest behind it, and a signed exponent. -/
def Scaled.scientific (s : Scaled) : String :=
  let power := s.magnitude
  let mark := if power < 0 then "e-" else "e+"
  match (toString s.digits).toList with
  | [] => mark ++ toString power.natAbs
  | [digit] => digit.toString ++ mark ++ toString power.natAbs
  | digit :: rest =>
    digit.toString ++ "." ++ String.ofList rest ++ mark ++ toString power.natAbs

/-- The sign of a number, also of a zero. -/
def signText (negative : Bool) : String := if negative then "-" else ""

/-- Plain notation, with `wholeSuffix` behind a whole number. -/
def plain (wholeSuffix : String) (x : Float) : String :=
  match Binary64.ofFloat x with
  | .nan => "NaN"
  | .infinite negative => signText negative ++ "inf"
  | .finite d =>
    signText d.negative ++
      if d.isWhole then toString d.wholePart ++ wholeSuffix else (d.shortest .up).positional

/-- Interchange notation; nothing for a number that is not finite. -/
def interchange (x : Float) : Option String :=
  match Binary64.ofFloat x with
  | .nan => none
  | .infinite _ => none
  | .finite d =>
    some <| signText d.negative ++
      if d.significand = 0 then "0.0"
      else
        let s := d.shortest .even
        if s.magnitude < -5 ∨ 16 ≤ s.magnitude then s.scientific
        else if s.exponent < 0 then s.positional
        else s.positional ++ ".0"

end LoxLang.Decimal
