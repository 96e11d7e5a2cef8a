import Mathlib.NumberTheory.Multiplicity
import LoxLang.Value.Arithmetic

/-!
# Powers of integers

Repeated squaring computes the power of a word exactly if the exponent has no more bits than there are rounds.
An integer power has thirty-two rounds, and a greater exponent is replaced by the greatest one for them. The
power is then the one of the integers, reduced to a word, wherever the two exponents give the same residue:
for all even bases, but for few odd ones.
-/

namespace LoxLang

/-! ## Words -/

/-- Integers become the same word if they differ by a multiple of the number of words. -/
theorem ofInt_eq_iff (x y : Int) : Int64.ofInt x = Int64.ofInt y ↔ (2 ^ 64 : Int) ∣ x - y := by
  rw [← Int64.toInt_inj, Int64.toInt_ofInt, Int64.toInt_ofInt, Int.bmod_eq_bmod_iff_bmod_sub_eq_zero,
    ← Int.dvd_iff_bmod_eq_zero]
  norm_num

theorem eq_one_iff (a : Int64) : a = 1 ↔ (2 ^ 64 : Int) ∣ a.toInt - 1 := by
  rw [← ofInt_eq_iff, Int64.ofInt_toInt]
  rfl

namespace Arithmetic

/-! ## Repeated squaring -/

/-- A round squares the base and halves the exponent; an odd exponent leaves one factor over. -/
theorem wordPower_eq {bits exponent : Nat} (base : Int) (h : exponent < 2 ^ bits) :
    wordPower bits (Int64.ofInt base) exponent = Int64.ofInt (base ^ exponent) := by
  induction bits generalizing base exponent with
  | zero =>
    obtain rfl : exponent = 0 := by omega
    rw [pow_zero]
    rfl
  | succ bits ih =>
    have hrest : wordPower bits (Int64.ofInt base * Int64.ofInt base) (exponent / 2) =
        Int64.ofInt ((base * base) ^ (exponent / 2)) := by
      rw [← Int64.ofInt_mul, ih _ (by omega)]
    have hpower : base ^ exponent = base ^ (exponent % 2) * (base * base) ^ (exponent / 2) := by
      rw [← pow_two, ← pow_mul, ← pow_add, Nat.mod_add_div]
    simp only [wordPower, hrest]
    split
    · rename_i hodd
      rw [hpower, hodd, pow_one, Int64.ofInt_mul]
    · rename_i heven
      rw [hpower, Nat.mod_two_ne_one.1 heven, pow_zero, one_mul]

/-- The power of two integers, with the exponent that is taken. -/
theorem power_ints (a : Int64) {b : Int64} (h : 0 ≤ b) : power (.int a) (.int b) =
    .ok (.int (Int64.ofInt (a.toInt ^ min b.toInt.toNat greatestExponent))) := by
  have hbits : min b.toInt.toNat greatestExponent < 2 ^ 32 :=
    Nat.lt_of_le_of_lt (Nat.min_le_right _ _) (by decide)
  have hword := wordPower_eq a.toInt hbits
  rw [Int64.ofInt_toInt] at hword
  change (if b < 0 then _ else _) = _
  rw [if_neg (Int64.not_lt.2 h), hword]

/-! ## Two exponents -/

section
variable {a : Int}

theorem pow_sub_pow_even (h : 2 ∣ a) {c : Nat} (hc : 64 ≤ c) (k : Nat) :
    (2 ^ 64 : Int) ∣ a ^ c - a ^ (c + k) := by
  have hpower : (2 ^ 64 : Int) ∣ a ^ c := (pow_dvd_pow 2 hc).trans (pow_dvd_pow_of_dvd h c)
  rw [pow_add]
  exact dvd_sub hpower (hpower.mul_right _)

/-- For an odd base, only the difference of the exponents counts. -/
theorem pow_sub_pow_odd (h : ¬ 2 ∣ a) (c k : Nat) :
    (2 ^ 64 : Int) ∣ a ^ c - a ^ (c + k) ↔ (2 ^ 64 : Int) ∣ a ^ k - 1 := by
  have hfactor : a ^ c - a ^ (c + k) = -(a ^ c * (a ^ k - 1)) := by ring
  have hodd : ¬ (2 : Int) ∣ a ^ c := fun hd => h (Int.prime_two.dvd_of_dvd_pow hd)
  rw [hfactor, dvd_neg]
  exact ⟨Int.prime_two.pow_dvd_of_dvd_mul_left 64 hodd, fun hd => hd.mul_left _⟩

/-- An odd number of factors brings an odd base no nearer to one. -/
theorem pow_sub_one_odd (h : ¬ 2 ∣ a) {k : Nat} (hk : Odd k) :
    (2 ^ 64 : Int) ∣ a ^ k - 1 ↔ (2 ^ 64 : Int) ∣ a - 1 := by
  have hnear : (2 : Int) ∣ a - 1 := by omega
  have hcount : ¬ (2 : Int) ∣ (k : Int) := by
    obtain ⟨j, rfl⟩ := hk
    omega
  have hsame := emultiplicity_pow_sub_pow_of_prime Int.prime_two hnear h hcount
  rw [one_pow] at hsame
  rw [pow_dvd_iff_le_emultiplicity, pow_dvd_iff_le_emultiplicity, hsame]

/-- An even number of factors: each factor of two in the neighbours of the base and in the number counts. -/
theorem pow_sub_one_even (h : ¬ 2 ∣ a) {k : Nat} (hk : Even k) :
    (2 ^ 64 : Int) ∣ a ^ k - 1 ↔ (2 ^ 65 : Int) ∣ (a + 1) * (a - 1) * k := by
  have hnear : (2 : Int) ∣ a - 1 := by omega
  have hlift := Int.two_pow_sub_pow hnear h hk
  rw [one_pow] at hlift
  rw [pow_dvd_iff_le_emultiplicity, pow_dvd_iff_le_emultiplicity, emultiplicity_mul Int.prime_two,
    emultiplicity_mul Int.prime_two, ← hlift]
  exact (ENat.add_le_add_iff_right (ENat.natCast_ne_top 1)).symm

end

/-- Which exponents give the word that the greatest one gives. -/
theorem ofInt_greatest_eq_iff (a : Int64) {n : Nat} (h : greatestExponent ≤ n) :
    Int64.ofInt (a.toInt ^ greatestExponent) = Int64.ofInt (a.toInt ^ n) ↔
      2 ∣ a.toInt ∨ a = 1 ∨
        Odd n ∧ (2 ^ 65 : Int) ∣ (a.toInt + 1) * (a.toInt - 1) * (n - greatestExponent) := by
  obtain ⟨k, rfl⟩ := Nat.exists_eq_add_of_le h
  have hgreatest : Odd greatestExponent := by decide
  have hlost : ((greatestExponent + k : Nat) : Int) - greatestExponent = k := by omega
  rw [ofInt_eq_iff, hlost]
  by_cases heven : 2 ∣ a.toInt
  · exact iff_of_true (pow_sub_pow_even heven (by decide) k) (.inl heven)
  · rw [pow_sub_pow_odd heven]
    rcases Nat.even_or_odd k with hk | hk
    · have hn : Odd (greatestExponent + k) := hgreatest.add_even hk
      have hone : a = 1 → (2 ^ 65 : Int) ∣ (a.toInt + 1) * (a.toInt - 1) * k := by
        intro h
        have hzero : a.toInt - 1 = 0 := by
          rw [h]
          rfl
        rw [hzero, mul_zero, zero_mul]
        exact dvd_zero _
      rw [pow_sub_one_even heven hk]
      tauto
    · have hn : ¬ Odd (greatestExponent + k) := Nat.not_odd_iff_even.2 (hgreatest.add_odd hk)
      rw [pow_sub_one_odd heven hk, ← eq_one_iff]
      tauto

end Arithmetic

open Arithmetic

/-- An integer power is the power of the integers reduced to a word, as long as the exponent fits into
thirty-two bits. A greater exponent is replaced by the greatest such one. It still gives the same word if the
base is even, if it is one, or if the exponent is odd and enough factors of two stand in the neighbours of
the base and in the part of the exponent that is lost; in no other case. -/
theorem integer_power_up_to_greatest_exponent (a b : Int64) (h : 0 ≤ b) :
    BinaryOperator.power.apply (.int a) (.int b) =
      .ok (.int (Int64.ofInt (a.toInt ^ min b.toInt.toNat greatestExponent))) ∧
    (BinaryOperator.power.apply (.int a) (.int b) = .ok (.int (Int64.ofInt (a.toInt ^ b.toInt.toNat))) ↔
      b.toInt.toNat ≤ greatestExponent ∨ 2 ∣ a.toInt ∨ a = 1 ∨
        Odd b.toInt.toNat ∧
          (2 ^ 65 : Int) ∣ (a.toInt + 1) * (a.toInt - 1) * (b.toInt.toNat - greatestExponent)) := by
  have hpower : BinaryOperator.power.apply (.int a) (.int b) =
      .ok (.int (Int64.ofInt (a.toInt ^ min b.toInt.toNat greatestExponent))) := power_ints a h
  refine ⟨hpower, ?_⟩
  rw [hpower, Except.ok.injEq, Value.int.injEq]
  rcases Nat.le_total b.toInt.toNat greatestExponent with hle | hle
  · rw [Nat.min_eq_left hle]
    exact iff_of_true rfl (.inl hle)
  · rw [Nat.min_eq_right hle, ofInt_greatest_eq_iff a hle]
    have hequal : b.toInt.toNat ≤ greatestExponent →
        2 ∣ a.toInt ∨ a = 1 ∨ Odd b.toInt.toNat ∧
          (2 ^ 65 : Int) ∣ (a.toInt + 1) * (a.toInt - 1) * (b.toInt.toNat - greatestExponent) := by
      intro hge
      rw [Nat.le_antisymm hge hle, sub_self, mul_zero]
      exact .inr (.inr ⟨by decide, dvd_zero _⟩)
    tauto

/-- A lost part of sixty factors of two does no harm to a base with five more in its neighbours; one factor
less does. -/
theorem integer_power_up_to_greatest_exponent_of_fifteen :
    let a : Int64 := 15
    let b : Int64 := 1152921508901814271
    let c : Int64 := 576460756598390783
    (0 ≤ b ∧ BinaryOperator.power.apply (.int a) (.int b) =
      .ok (.int (Int64.ofInt (a.toInt ^ b.toInt.toNat)))) ∧
    0 ≤ c ∧ BinaryOperator.power.apply (.int a) (.int c) ≠
      .ok (.int (Int64.ofInt (a.toInt ^ c.toInt.toNat))) := by
  intro a b c
  have hb : 0 ≤ b := by decide
  have hc : 0 ≤ c := by decide
  obtain ⟨-, hexact⟩ := integer_power_up_to_greatest_exponent a b hb
  obtain ⟨-, hother⟩ := integer_power_up_to_greatest_exponent a c hc
  exact ⟨⟨hb, hexact.2 (by decide +kernel)⟩, hc, hother.not.2 (by decide +kernel)⟩

/-- The greatest exponent is odd: it gives minus one a power of minus one, and an even exponent behind it, which
is replaced by it, gives one. -/
theorem integer_power_of_even_exponent_negative : ¬ ∀ a b : Int64, 0 ≤ b →
    BinaryOperator.power.apply (.int a) (.int b) = .ok (.int (Int64.ofInt (a.toInt ^ b.toInt.toNat))) := by
  intro h
  have hexact := h (-1) 4294967296 (by decide)
  have htaken := power_ints (-1) (b := 4294967296) (by decide)
  have hword : Int64.ofInt ((-1) ^ greatestExponent) = Int64.ofInt ((-1) ^ 4294967296) :=
    Value.int.inj (Except.ok.inj (htaken.symm.trans hexact))
  have hodd : Odd greatestExponent := by decide
  have heven : Even 4294967296 := by decide
  rw [hodd.neg_one_pow, heven.neg_one_pow] at hword
  exact absurd hword (by decide)

end LoxLang
