/-!
# Sets of characters as ranges

A property of characters is a list of closed ranges of code points. A list that ascends, with at least
one code point between two ranges, is the only one for its set.
-/

namespace LoxLang.Text

/-- Closed ranges of code points. -/
abbrev CodeRanges : Type := List (Nat × Nat)

namespace CodeRanges

/-- Whether a character lies in one of the ranges. -/
def has (ranges : CodeRanges) (c : Char) : Bool :=
  ranges.any fun r => decide (r.1 ≤ c.toNat) && decide (c.toNat ≤ r.2)

/-- Whether the ranges ascend from `least` on and do not touch. -/
def ascendsFrom (least : Nat) : CodeRanges → Bool
  | [] => true
  | (first, last) :: rest =>
    decide (least ≤ first) && decide (first ≤ last) && ascendsFrom (last + 2) rest

theorem has_eq_true_iff {ranges : CodeRanges} {c : Char} :
    ranges.has c = true ↔ ∃ r ∈ ranges, r.1 ≤ c.toNat ∧ c.toNat ≤ r.2 := by
  simp [has]

/-- A character in a gap of all ranges is not in the set. -/
theorem has_eq_false_of_gap {ranges : CodeRanges} {low high : Nat}
    (apart : (ranges.all fun r => decide (r.2 < low) || decide (high < r.1)) = true) {c : Char}
    (above : low ≤ c.toNat) (below : c.toNat ≤ high) : ranges.has c = false := by
  rw [Bool.eq_false_iff]
  intro held
  obtain ⟨r, hr, h1, h2⟩ := has_eq_true_iff.mp held
  have hgap := List.all_eq_true.mp apart r hr
  simp only [Bool.or_eq_true, decide_eq_true_eq] at hgap
  omega

end CodeRanges

end LoxLang.Text
