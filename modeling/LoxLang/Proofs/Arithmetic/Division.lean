import Mathlib.Logic.Basic
import LoxLang.Value.Arithmetic

/-!
# Quotients and remainders of integers

Two words have a quotient and a remainder unless the divisor is zero. The quotient is the one of the integers, cut
off towards zero, but for one pair: the least integer divided by minus one is greater than every word, and wraps
around to the least integer. The remainder is nearer to zero than the divisor, on the side of the dividend.
Whatever wraps around, the operators of the language put the dividend together again.
-/

namespace LoxLang

namespace Arithmetic

/-! ## Words -/

section
variable {a b : Int64}

/-- Only one quotient is no word. -/
theorem toInt_quotient (h : ¬ (a = Int64.minValue ∧ b = -1)) : (a / b).toInt = a.toInt.tdiv b.toInt := by
  by_cases ha : a = Int64.minValue
  · exact Int64.toInt_div_of_ne_right a b fun hb => h ⟨ha, hb⟩
  · exact Int64.toInt_div_of_ne_left a b ha

theorem remainder_smaller (a : Int64) (hb : b ≠ 0) : (a % b).toInt.natAbs < b.toInt.natAbs := by
  have hpos : 0 < b.toInt.natAbs := Int.natAbs_pos.2 fun hz => hb (Int64.toInt_inj.1 hz)
  rw [Int64.toInt_mod, Int.natAbs_tmod]
  exact Nat.mod_lt _ hpos

theorem remainder_sign (a b : Int64) : a % b = 0 ∨ (a % b).toInt.sign = a.toInt.sign := by
  have hsign : (a % b).toInt.sign = if b.toInt ∣ a.toInt then 0 else a.toInt.sign := by
    rw [Int64.toInt_mod, Int.sign_tmod]
  by_cases hd : b.toInt ∣ a.toInt
  · rw [if_pos hd, Int.sign_eq_zero_iff_zero] at hsign
    exact .inl (Int64.toInt_inj.1 hsign)
  · rw [if_neg hd] at hsign
    exact .inr hsign

/-- A quotient that wraps around is off by a multiple of the number of words, and so is its product. -/
theorem quotient_mul_add_remainder (a b : Int64) : a / b * b + a % b = a := by
  have hq : a / b = Int64.ofInt (a.toInt.tdiv b.toInt) := by
    rw [← Int64.toInt_inj, Int64.toInt_div, Int64.toInt_ofInt]
  have hr : a % b = Int64.ofInt (a.toInt.tmod b.toInt) := by
    rw [← Int64.toInt_mod, Int64.ofInt_toInt]
  calc a / b * b + a % b
      = Int64.ofInt (a.toInt.tdiv b.toInt) * Int64.ofInt b.toInt + Int64.ofInt (a.toInt.tmod b.toInt) := by
        rw [hq, hr, Int64.ofInt_toInt]
    _ = Int64.ofInt (a.toInt.tdiv b.toInt * b.toInt + a.toInt.tmod b.toInt) := by
        rw [Int64.ofInt_add, Int64.ofInt_mul]
    _ = a := by rw [Int.tdiv_mul_add_tmod, Int64.ofInt_toInt]

end

/-! ## Operators that take no zero -/

section
variable (ints : Int64 → Int64 → Int64) (floats : Float → Float → Float) (a b : Int64)

theorem quotient_ints : quotient ints floats (.int a) (.int b) =
    if b = 0 then .error .divisionByZero else .ok (.int (ints a b)) := rfl

theorem quotient_fails_iff :
    quotient ints floats (.int a) (.int b) = .error .divisionByZero ↔ b = 0 := by
  rw [quotient_ints]
  by_cases hb : b = 0
  · simp [hb]
  · simp [hb]

end

/-- What a quotient and a remainder of two words are to each other and to the words. -/
structure Divided (a b q r : Int64) : Prop where
  truncated : ¬ (a = Int64.minValue ∧ b = -1) → q.toInt = a.toInt.tdiv b.toInt
  wrapped : a = Int64.minValue ∧ b = -1 → q = Int64.minValue
  smaller : r.toInt.natAbs < b.toInt.natAbs
  sign : r = 0 ∨ r.toInt.sign = a.toInt.sign
  /-- The operators of the language lead back to the dividend. -/
  whole : ∃ product, BinaryOperator.multiply.apply (.int q) (.int b) = .ok (.int product) ∧
    BinaryOperator.add.apply (.int product) (.int r) = .ok (.int a)

theorem divided (a : Int64) {b : Int64} (hb : b ≠ 0) : Divided a b (a / b) (a % b) where
  truncated := toInt_quotient
  wrapped := by
    rintro ⟨rfl, rfl⟩
    exact Int64.minValue_div_neg_one
  smaller := remainder_smaller a hb
  sign := remainder_sign a b
  whole := by
    have hsum : BinaryOperator.add.apply (.int (a / b * b)) (.int (a % b)) = .ok (.int (a / b * b + a % b)) := rfl
    rw [quotient_mul_add_remainder] at hsum
    exact ⟨a / b * b, rfl, hsum⟩

end Arithmetic

open Arithmetic

/-- Two integers have a quotient and a remainder unless the divisor is zero, and then both operators end in that
fault. The quotient is cut off towards zero, and wraps around for one pair only; the remainder is smaller
than the divisor and has the sign of the dividend; and the two lead back to the dividend by multiplication and
addition as the language has them. -/
theorem integers_divide_with_remainder (a b : Int64) :
    (BinaryOperator.divide.apply (.int a) (.int b) = .error .divisionByZero ↔ b = 0) ∧
      (BinaryOperator.modulo.apply (.int a) (.int b) = .error .divisionByZero ↔ b = 0) ∧
      (b ≠ 0 → ∃ q r, BinaryOperator.divide.apply (.int a) (.int b) = .ok (.int q) ∧
        BinaryOperator.modulo.apply (.int a) (.int b) = .ok (.int r) ∧ Divided a b q r) := by
  refine ⟨quotient_fails_iff _ _ a b, quotient_fails_iff _ _ a b, fun hb => ?_⟩
  exact ⟨a / b, a % b, if_neg hb, if_neg hb, divided a hb⟩

/-- The pair whose quotient wraps around is divided like all others. -/
theorem integers_divide_with_remainder_least :
    (-1 : Int64) ≠ 0 ∧ ∃ q r,
      BinaryOperator.divide.apply (.int Int64.minValue) (.int (-1)) = .ok (.int q) ∧
        BinaryOperator.modulo.apply (.int Int64.minValue) (.int (-1)) = .ok (.int r) ∧
          Divided Int64.minValue (-1) q r := by
  have hb : (-1 : Int64) ≠ 0 := by decide
  exact ⟨hb, (integers_divide_with_remainder Int64.minValue (-1)).2.2 hb⟩

end LoxLang
