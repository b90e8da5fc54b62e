/-
This file gives the arithmetic of the mantissas of two words.
-/

import MachineEmulator.Proof.SoftFloat.Standard

namespace MachineEmulator.SoftFloat.Format

open Rounding

variable {f : Format}

section Alignment

/-- The lowest bit of a number of two words is the one of its low word. -/
theorem or_bit (high low : ℕ) (lost : Prop) [Decidable lost] :
    high * 2 ^ f.fSize + (low ||| if lost then 1 else 0) =
      (high * 2 ^ f.fSize + low) ||| if lost then 1 else 0 := by
  have split := f.fSize_split
  have even : 2 ^ f.fSize = 2 * 2 ^ (f.fSize - 1) := by
    rw [f.word_size, f.half_word_size]
  by_cases some : lost
  · rw [if_pos some, or_one, or_one, even, Nat.mul_left_comm]
    split <;> split <;> omega
  · rw [if_neg some, Nat.or_zero, Nat.or_zero]

/-- A shift of two words by less than one word. -/
theorem div_words (high low : ℕ) {count : ℕ} (small : count ≤ f.fSize) :
    (high * 2 ^ f.fSize + low) / 2 ^ count = high * 2 ^ (f.fSize - count) + low / 2 ^ count ∧
      (high * 2 ^ f.fSize + low) % 2 ^ count = low % 2 ^ count := by
  have parts : high * 2 ^ f.fSize = 2 ^ count * (high * 2 ^ (f.fSize - count)) := by
    rw [Nat.mul_left_comm, ← Nat.pow_add, Nat.add_sub_cancel' small]
  rw [parts]
  exact ⟨Nat.mul_add_div (Nat.two_pow_pos _) _ _, Nat.mul_add_mod _ _ _⟩

/-- A lowest bit does not leave a word. -/
theorem or_bit_lt {value : ℕ} (word : value < 2 ^ f.fSize) (lost : Prop) [Decidable lost] :
    (value ||| if lost then 1 else 0) < 2 ^ f.fSize := by
  have even : 2 ^ f.fSize = 2 * 2 ^ (f.fSize - 1) := by
    rw [f.word_size, f.half_word_size]
  by_cases some : lost
  · rw [if_pos some, or_one]
    split <;> omega
  · rw [if_neg some, Nat.or_zero]
    exact word

/-- The words of an aligned mantissa, where nothing is lost without a trace. -/
theorem alignWords_sticky {high low count : ℕ} (highWord : high < 2 ^ f.fSize) (lowWord : low < 2 ^ f.fSize)
    (kept : count ≤ f.fSize ∨ 2 * f.fSize ≤ count ∨ low = 0) :
    (f.alignWords count high low).1 * 2 ^ f.fSize + (f.alignWords count high low).2 =
        stick (high * 2 ^ f.fSize + low) (2 ^ count) ∧
      (f.alignWords count high low).2 < 2 ^ f.fSize := by
  have split := f.fSize_split
  have one : 1 < 2 ^ f.fSize := Nat.one_lt_two_pow (by omega)
  have whole : high * 2 ^ f.fSize + low < 2 ^ f.fSize * 2 ^ f.fSize := by
    have bound : (high + 1) * 2 ^ f.fSize ≤ 2 ^ f.fSize * 2 ^ f.fSize := Nat.mul_le_mul_right _ highWord
    rw [Nat.succ_mul] at bound
    omega
  rw [alignWords]
  by_cases all : 2 * f.fSize ≤ count
  · have wide : high * 2 ^ f.fSize + low < 2 ^ count := by
      refine whole.trans_le ?_
      rw [← Nat.pow_add, ← two_mul]
      exact Nat.pow_le_pow_right two_pos all
    have zero : low ||| high ≠ 0 ↔ high * 2 ^ f.fSize + low ≠ 0 := by
      rw [Ne, Ne, Nat.or_eq_zero_iff, Nat.add_eq_zero_iff, Nat.mul_eq_zero]
      have positive := Nat.two_pow_pos f.fSize
      omega
    rw [if_pos all, stick, Nat.div_eq_of_lt wide, Nat.mod_eq_of_lt wide, Nat.zero_or, Nat.zero_mul,
      Nat.zero_add]
    simp only [zero]
    refine ⟨trivial, ?_⟩
    split <;> omega
  rw [if_neg all]
  by_cases beyond : f.fSize + 1 ≤ count
  · have clear : low = 0 := by
      omega
    have power : 2 ^ count = 2 ^ (count - f.fSize) * 2 ^ f.fSize := by
      rw [← Nat.pow_add]
      congr 1
      omega
    have shift : ((count : ℤ) - f.fSize).toNat = count - f.fSize := by
      omega
    have moved : stick (high * 2 ^ f.fSize + low) (2 ^ count) = stick high (2 ^ (count - f.fSize)) := by
      have positive := Nat.two_pow_pos f.fSize
      rw [clear, Nat.add_zero, stick, power, Nat.mul_div_mul_right _ _ positive, Nat.mul_mod_mul_right, stick]
      simp
    have half : high / 2 ^ (count - f.fSize) ≤ high / 2 :=
      Nat.div_le_div_left (Nat.le_self_pow (by omega) 2) two_pos
    have bounds := stick_bounds high (2 ^ (count - f.fSize))
    rw [if_pos beyond, moved, mantRshiftRnd_eq highWord, shift, Nat.zero_mul, Nat.zero_add]
    exact ⟨rfl, by dsimp only; omega⟩
  rw [if_neg beyond]
  obtain ⟨quotient, remainder⟩ := div_words high low (by omega : count ≤ f.fSize)
  rw [stick, quotient, remainder]
  by_cases exactly : count = f.fSize
  · rw [if_pos exactly, exactly, Nat.sub_self, Nat.pow_zero, Nat.mul_one, Nat.div_eq_of_lt lowWord,
      Nat.mod_eq_of_lt lowWord, Nat.zero_mul, Nat.zero_add, Nat.add_zero]
    exact ⟨rfl, or_bit_lt highWord _⟩
  rw [if_neg exactly]
  by_cases none : count = 0
  · rw [if_neg (not_not.mpr none), none, Nat.pow_zero, Nat.div_one, Nat.mod_one]
    simpa using lowWord
  · have upper : f.shl high (f.fSize - count) = high % 2 ^ count * 2 ^ (f.fSize - count) := by
      have power : 2 ^ f.fSize = 2 ^ count * 2 ^ (f.fSize - count) := by
        rw [← Nat.pow_add]
        congr 1
        omega
      rw [shl, wrap, Nat.shiftLeft_eq, power, Nat.mul_mod_mul_right]
    have below : low / 2 ^ count < 2 ^ (f.fSize - count) := by
      rw [Nat.div_lt_iff_lt_mul (Nat.two_pow_pos _), ← Nat.pow_add]
      exact lowWord.trans_le (Nat.pow_le_pow_right two_pos (by omega))
    have joined : high % 2 ^ count * 2 ^ (f.fSize - count) ||| low / 2 ^ count =
        high % 2 ^ count * 2 ^ (f.fSize - count) + low / 2 ^ count := by
      rw [← Nat.shiftLeft_eq, Nat.shiftLeft_add_eq_or_of_lt below]
    have fits : high % 2 ^ count * 2 ^ (f.fSize - count) + low / 2 ^ count < 2 ^ f.fSize := by
      have rest := Nat.mod_lt high (Nat.two_pow_pos count)
      have bound : (high % 2 ^ count + 1) * 2 ^ (f.fSize - count) ≤ 2 ^ count * 2 ^ (f.fSize - count) :=
        Nat.mul_le_mul_right _ rest
      rw [Nat.succ_mul, ← Nat.pow_add, Nat.add_sub_cancel' (by omega)] at bound
      omega
    have total : high / 2 ^ count * 2 ^ f.fSize +
        (high % 2 ^ count * 2 ^ (f.fSize - count) + low / 2 ^ count) =
          high * 2 ^ (f.fSize - count) + low / 2 ^ count := by
      have power : 2 ^ f.fSize = 2 ^ count * 2 ^ (f.fSize - count) := by
        rw [← Nat.pow_add]
        congr 1
        omega
      have parts := Nat.div_add_mod high (2 ^ count)
      calc high / 2 ^ count * 2 ^ f.fSize +
            (high % 2 ^ count * 2 ^ (f.fSize - count) + low / 2 ^ count) =
            (2 ^ count * (high / 2 ^ count) + high % 2 ^ count) * 2 ^ (f.fSize - count) +
              low / 2 ^ count := by
              rw [power]
              ring
        _ = _ := by
              rw [parts]
    rw [if_pos none]
    dsimp only
    rw [Nat.one_shiftLeft, Nat.and_two_pow_sub_one_eq_mod, Nat.shiftRight_eq_div_pow,
      Nat.shiftRight_eq_div_pow, upper, joined]
    refine ⟨?_, or_bit_lt fits _⟩
    rw [or_bit, total]

end Alignment

section Sums

variable {rHigh rLow cHigh cLow : ℕ} (rWord : rLow < 2 ^ f.fSize) (cWord : cLow < 2 ^ f.fSize)
include rWord cWord

/-- The sum of two words with a carry. -/
theorem add_words (small : rHigh * 2 ^ f.fSize + rLow + (cHigh * 2 ^ f.fSize + cLow) < 2 ^ f.fSize * 2 ^ f.fSize) :
    let low := f.wrap (rLow + cLow)
    let carry := if low < cLow then 1 else 0
    f.wrap (rHigh + (cHigh + carry)) * 2 ^ f.fSize + low =
        rHigh * 2 ^ f.fSize + rLow + (cHigh * 2 ^ f.fSize + cLow) ∧ low < 2 ^ f.fSize := by
  intro low carry
  have double := Nat.lt_or_ge (rLow + cLow) (2 ^ f.fSize)
  have high_lt : rHigh + cHigh < 2 ^ f.fSize := by
    by_contra large
    have bound : 2 ^ f.fSize * 2 ^ f.fSize ≤ (rHigh + cHigh) * 2 ^ f.fSize :=
      Nat.mul_le_mul_right _ (by omega)
    rw [Nat.add_mul] at bound
    omega
  have low_lt : low < 2 ^ f.fSize := Nat.mod_lt _ (Nat.two_pow_pos _)
  refine ⟨?_, low_lt⟩
  rcases double with fits | carries
  · have low_eq : low = rLow + cLow := wrap_eq f fits
    have carry_eq : carry = 0 := if_neg (by omega)
    rw [carry_eq, low_eq, Nat.add_zero, wrap_eq f high_lt, Nat.add_mul]
    omega
  · have low_eq : low = rLow + cLow - 2 ^ f.fSize := by
      simp only [low, wrap]
      rw [Nat.mod_eq_sub_mod carries, Nat.mod_eq_of_lt (by omega)]
    have carry_eq : carry = 1 := if_pos (by omega)
    have next_lt : rHigh + (cHigh + 1) < 2 ^ f.fSize := by
      by_contra large
      have bound : 2 ^ f.fSize * 2 ^ f.fSize ≤ (rHigh + cHigh + 1) * 2 ^ f.fSize :=
        Nat.mul_le_mul_right _ (by omega)
      rw [Nat.succ_mul, Nat.add_mul] at bound
      omega
    rw [carry_eq, low_eq, wrap_eq f next_lt, ← Nat.add_assoc, Nat.succ_mul, Nat.add_mul]
    omega

/-- The difference of two words with a borrow. -/
theorem sub_words (rSmall : rHigh < 2 ^ f.fSize) (cSmall : cHigh < 2 ^ f.fSize)
    (less : cHigh * 2 ^ f.fSize + cLow ≤ rHigh * 2 ^ f.fSize + rLow) :
    let low := f.wrap (rLow + 2 ^ f.fSize - cLow)
    let borrow := if rLow < low then 1 else 0
    f.wrap (rHigh + 2 * 2 ^ f.fSize - cHigh - borrow) * 2 ^ f.fSize + low =
        rHigh * 2 ^ f.fSize + rLow - (cHigh * 2 ^ f.fSize + cLow) ∧ low < 2 ^ f.fSize := by
  intro low borrow
  have low_lt : low < 2 ^ f.fSize := Nat.mod_lt _ (Nat.two_pow_pos _)
  refine ⟨?_, low_lt⟩
  rcases Nat.lt_or_ge rLow cLow with borrows | fits
  · have low_eq : low = rLow + 2 ^ f.fSize - cLow := Nat.mod_eq_of_lt (by omega)
    have borrow_eq : borrow = 1 := if_pos (by omega)
    have high_lt : cHigh < rHigh := by
      by_contra above
      have bound : rHigh * 2 ^ f.fSize ≤ cHigh * 2 ^ f.fSize := Nat.mul_le_mul_right _ (by omega)
      omega
    have high_eq : f.wrap (rHigh + 2 * 2 ^ f.fSize - cHigh - 1) = rHigh - cHigh - 1 := by
      have moved : rHigh + 2 * 2 ^ f.fSize - cHigh - 1 = rHigh - cHigh - 1 + 2 * 2 ^ f.fSize := by
        omega
      rw [wrap, moved, Nat.add_mul_mod_self_right, Nat.mod_eq_of_lt (by omega)]
    obtain ⟨difference, difference_eq⟩ := Nat.exists_eq_add_of_lt high_lt
    rw [borrow_eq, high_eq, low_eq, difference_eq, Nat.add_mul, Nat.add_mul]
    have rest : cHigh + difference + 1 - cHigh - 1 = difference := by
      omega
    rw [rest]
    omega
  · have low_eq : low = rLow - cLow := by
      have moved : rLow + 2 ^ f.fSize - cLow = rLow - cLow + 2 ^ f.fSize := by
        omega
      simp only [low, wrap]
      rw [moved, Nat.add_mod_right, Nat.mod_eq_of_lt (by omega)]
    have borrow_eq : borrow = 0 := if_neg (by omega)
    have high_le : cHigh ≤ rHigh := by
      by_contra below
      have bound : (rHigh + 1) * 2 ^ f.fSize ≤ cHigh * 2 ^ f.fSize := Nat.mul_le_mul_right _ (by omega)
      rw [Nat.succ_mul] at bound
      omega
    have high_eq : f.wrap (rHigh + 2 * 2 ^ f.fSize - cHigh - 0) = rHigh - cHigh := by
      have moved : rHigh + 2 * 2 ^ f.fSize - cHigh - 0 = rHigh - cHigh + 2 * 2 ^ f.fSize := by
        omega
      rw [wrap, moved, Nat.add_mul_mod_self_right, Nat.mod_eq_of_lt (by omega)]
    rw [borrow_eq, high_eq, low_eq, Nat.sub_mul]
    have scaled : cHigh * 2 ^ f.fSize ≤ rHigh * 2 ^ f.fSize := Nat.mul_le_mul_right _ high_le
    omega

end Sums

section Joining

/-- The bits of two words are cut to one word with its leading bit in place. -/
theorem joinWords_eq {high low count : ℕ} (lowWord : low < 2 ^ f.fSize)
    (small : (high * 2 ^ f.fSize + low) * 2 ^ count < 2 ^ f.fSize * 2 ^ f.fSize) :
    f.joinWords count high low = stick ((high * 2 ^ f.fSize + low) * 2 ^ count) (2 ^ f.fSize) := by
  have positive := Nat.two_pow_pos f.fSize
  rw [joinWords]
  by_cases none : count = 0
  · rw [if_pos none, none, Nat.pow_zero, Nat.mul_one, stick, Nat.mul_comm, Nat.mul_add_div positive,
      Nat.mul_add_mod, Nat.div_eq_of_lt lowWord, Nat.mod_eq_of_lt lowWord, Nat.add_zero]
  rw [if_neg none]
  have spread : (high * 2 ^ f.fSize + low) * 2 ^ count =
      2 ^ f.fSize * (high * 2 ^ count) + low * 2 ^ count := by
    ring
  have quotient : (high * 2 ^ f.fSize + low) * 2 ^ count / 2 ^ f.fSize =
      high * 2 ^ count + low * 2 ^ count / 2 ^ f.fSize := by
    rw [spread, Nat.mul_add_div positive]
  have remainder : (high * 2 ^ f.fSize + low) * 2 ^ count % 2 ^ f.fSize =
      low * 2 ^ count % 2 ^ f.fSize := by
    rw [spread, Nat.mul_add_mod]
  have upper : high * 2 ^ count < 2 ^ f.fSize := by
    have bound := Nat.div_lt_of_lt_mul small
    rw [quotient] at bound
    exact (Nat.le_add_right _ _).trans_lt bound
  rw [stick, quotient, remainder]
  by_cases inside : count < f.fSize
  · have power : 2 ^ f.fSize = 2 ^ count * 2 ^ (f.fSize - count) := by
      rw [← Nat.pow_add]
      congr 1
      omega
    have moved : low * 2 ^ count / 2 ^ f.fSize = low / 2 ^ (f.fSize - count) := by
      rw [power, Nat.mul_comm, Nat.mul_div_mul_left _ _ (Nat.two_pow_pos _)]
    have below : low / 2 ^ (f.fSize - count) < 2 ^ count := by
      rw [Nat.div_lt_iff_lt_mul (Nat.two_pow_pos _), ← power]
      exact lowWord
    rw [if_pos inside, shl_eq f upper, Nat.shiftRight_eq_div_pow, moved, shl, wrap, Nat.shiftLeft_eq,
      ← Nat.shiftLeft_eq high, ← Nat.shiftLeft_add_eq_or_of_lt below]
  · have clear : high = 0 := by
      by_contra some
      have bound : 1 * 2 ^ f.fSize ≤ high * 2 ^ count :=
        Nat.mul_le_mul (by omega) (Nat.pow_le_pow_right two_pos (by omega))
      omega
    have power : low * 2 ^ count = low * 2 ^ (count - f.fSize) * 2 ^ f.fSize := by
      rw [Nat.mul_assoc, ← Nat.pow_add]
      congr 2
      omega
    have fits : low * 2 ^ (count - f.fSize) < 2 ^ f.fSize := by
      rw [clear, Nat.zero_mul, Nat.zero_add, power] at small
      exact Nat.lt_of_mul_lt_mul_right small
    rw [if_neg inside, clear, Nat.zero_mul, Nat.zero_add, power, Nat.mul_div_cancel _ positive,
      Nat.mul_mod_left, shl_eq f fits]
    simp

end Joining

end MachineEmulator.SoftFloat.Format
