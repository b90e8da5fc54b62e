/-
This file proves how the bits of a number change when a power of two is added to it.
-/

import Mathlib.Tactic

namespace BinaryCounter

theorem testBit_double_add (half : Nat) (bit : Bool) (position : Nat) :
    (2 * half + bit.toNat).testBit position =
      if position = 0 then bit else half.testBit (position - 1) := by
  cases position with
  | zero => cases bit <;> simp
  | succ position =>
      have halved : (2 * half + bit.toNat) / 2 = half := by cases bit <;> simp; omega
      rw [Nat.testBit_add_one, halved]
      simp

/-- A clear bit is set and no other bit changes. -/
theorem testBit_add_clear {number level : Nat} (clear : number.testBit level = false)
    (position : Nat) :
    (number + 2 ^ level).testBit position = (number.testBit position || position == level) := by
  have positive : 0 < 2 ^ level := by positivity
  have low : number % 2 ^ level < 2 ^ level := Nat.mod_lt _ positive
  have even : number / 2 ^ level % 2 = 0 := by
    rw [Nat.testBit_eq_decide_div_mod_eq, decide_eq_false_iff_not] at clear
    omega
  obtain ⟨half, halved⟩ : ∃ half, number / 2 ^ level = 2 * half :=
    ⟨number / 2 ^ level / 2, by omega⟩
  have before : number = 2 ^ level * (2 * half + false.toNat) + number % 2 ^ level := by
    rw [Bool.toNat_false, add_zero, ← halved, Nat.div_add_mod]
  have after : number + 2 ^ level =
      2 ^ level * (2 * half + true.toNat) + number % 2 ^ level := by
    rw [Bool.toNat_true, mul_add, ← halved, mul_one]
    have whole := Nat.div_add_mod number (2 ^ level)
    omega
  rw [after, Nat.testBit_two_pow_mul_add _ low]
  conv_rhs => rw [before, Nat.testBit_two_pow_mul_add _ low]
  rw [testBit_double_add, testBit_double_add]
  rcases Nat.lt_trichotomy position level with below | same | above
  · simp [below, below.ne]
  · simp [same]
  · simp [above.not_gt, above.ne', Nat.sub_ne_zero_of_lt above]

/-- A set bit is cleared and passes the power on to the next bit. -/
theorem add_set {number level : Nat} (set : number.testBit level = true) :
    ∃ rest, number = rest + 2 ^ level ∧ rest.testBit level = false ∧
      ∀ position, position ≠ level → rest.testBit position = number.testBit position := by
  have enough : 2 ^ level ≤ number := Nat.ge_two_pow_of_testBit set
  have clear : (number - 2 ^ level).testBit level = false := by
    have back := Nat.testBit_two_pow_add_eq (number - 2 ^ level) level
    rw [Nat.add_sub_cancel' enough, set] at back
    simpa using back.symm
  refine ⟨number - 2 ^ level, by omega, clear, ?_⟩
  intro position other
  have back := testBit_add_clear clear position
  rw [Nat.sub_add_cancel enough] at back
  simp [back, other]

/-- The set bits from a level on are cleared up to the first clear bit, which is set. -/
theorem testBit_add_carry {number level next : Nat} (up : level ≤ next)
    (ones : ∀ position, level ≤ position → position < next → number.testBit position = true)
    (clear : number.testBit next = false) (position : Nat) :
    (number + 2 ^ level).testBit position =
      if level ≤ position ∧ position < next then false
      else number.testBit position || position == next := by
  induction up using Nat.decreasingInduction generalizing number with
  | self =>
      rw [testBit_add_clear clear, if_neg (by omega)]
  | of_succ level below ih =>
      obtain ⟨rest, split, unset, same⟩ := add_set (ones level le_rfl below)
      have doubled : number + 2 ^ level = rest + 2 ^ (level + 1) := by
        rw [split, pow_succ]
        ring
      have carried := @ih rest
        (fun position above below => by rw [same position (by omega), ones position (by omega) below])
        (by rw [same next (by omega), clear])
      rw [doubled, carried]
      by_cases here : position = level
      · subst here
        simp [unset, below, below.ne]
      · rw [same position here]
        have range : level + 1 ≤ position ∧ position < next ↔
            level ≤ position ∧ position < next := by omega
        simp only [range]

/-- A number without bits below a level is a multiple of its power. -/
theorem dvd_of_low {number level : Nat}
    (low : ∀ position < level, number.testBit position = false) : 2 ^ level ∣ number := by
  apply Nat.dvd_of_mod_eq_zero
  apply Nat.eq_of_testBit_eq
  intro position
  rw [Nat.testBit_mod_two_pow, Nat.zero_testBit]
  by_cases inside : position < level
  · simp [low position inside]
  · simp [inside]

/-- A multiple of a power has no bits below its level. -/
theorem low_of_dvd {number level position : Nat} (multiple : 2 ^ level ∣ number)
    (below : position < level) : number.testBit position = false := by
  have cut := Nat.testBit_mod_two_pow number level position
  rw [Nat.mod_eq_zero_of_dvd multiple, Nat.zero_testBit] at cut
  simpa [below] using cut.symm

end BinaryCounter
