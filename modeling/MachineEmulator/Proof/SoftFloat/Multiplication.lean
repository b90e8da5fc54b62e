/-
This file proves that products and quotients are rounded correctly.
-/

import MachineEmulator.Proof.SoftFloat.Standard

namespace MachineEmulator.SoftFloat.Format

open Rounding

variable {f : Format} (rm : FrmMode) (fflags : Flags)

section Mantissas

/-- A result of two words is cut to one, with the bits that are lost in the lowest one. -/
theorem stick_words (value : ℕ) :
    value >>> f.fSize ||| (if f.wrap value ≠ 0 then 1 else 0) = stick value (2 ^ f.fSize) := by
  rw [stick, wrap, Nat.shiftRight_eq_div_pow]

/-- A sticky quotient keeps the bounds of the quotient that are even. -/
theorem stick_lt {p q bound : ℕ} (positive : 0 < q) (below : p < 2 * bound * q) :
    stick p q < 2 * bound := by
  have quotient : p / q < 2 * bound := (Nat.div_lt_iff_lt_mul positive).mpr below
  rw [stick]
  split
  · rw [or_one]
    split <;> omega
  · rw [Nat.or_zero]
    omega

theorem le_stick {p q bound : ℕ} (positive : 0 < q) (above : bound * q ≤ p) : bound ≤ stick p q :=
  ((Nat.le_div_iff_mul_le positive).mpr above).trans (stick_bounds p q).1

end Mantissas

section Products

/-- The product of two numbers that are not zero is the scaled product of their mantissas. -/
theorem mul_mantissas {aExp bExp : ℤ} {aMant bMant : ℕ} (aSign : Bool)
    (aLow : 2 ^ f.mantSize ≤ aMant) (aHigh : aMant < 2 ^ (f.mantSize + 1))
    (bLow : 2 ^ f.mantSize ≤ bMant) (bHigh : bMant < 2 ^ (f.mantSize + 1)) :
    let words := f.mulU (f.shl aMant f.rndSize) (f.shl bMant (f.rndSize + 1))
    f.Rounds rm aSign ((aMant : ℚ) * (2 : ℚ) ^ (aExp - f.bias - f.mantSize) *
        (bMant * (2 : ℚ) ^ (bExp - f.bias - f.mantSize))) fflags
      (f.normalize aSign (aExp + bExp - (1 <<< (f.expSize - 1) : ℕ) + 2)
        (words.1 ||| (if words.2 ≠ 0 then 1 else 0)) rm fflags) := by
  intro words
  have split := f.fSize_split
  have large := f.rndSize_large
  have aFits : aMant * 2 ^ f.rndSize < 2 ^ f.fSize := by
    calc aMant * 2 ^ f.rndSize < 2 ^ (f.mantSize + 1) * 2 ^ f.rndSize :=
          Nat.mul_lt_mul_of_pos_right aHigh (Nat.two_pow_pos _)
      _ ≤ 2 ^ f.fSize := by
          rw [← Nat.pow_add]
          exact Nat.pow_le_pow_right two_pos (by omega)
  have bFits : bMant * 2 ^ (f.rndSize + 1) < 2 ^ f.fSize := by
    calc bMant * 2 ^ (f.rndSize + 1) < 2 ^ (f.mantSize + 1) * 2 ^ (f.rndSize + 1) :=
          Nat.mul_lt_mul_of_pos_right bHigh (Nat.two_pow_pos _)
      _ ≤ 2 ^ f.fSize := by
          rw [← Nat.pow_add]
          exact Nat.pow_le_pow_right two_pos (by omega)
  have product : words.1 ||| (if words.2 ≠ 0 then 1 else 0) =
      stick (aMant * bMant * 2 ^ (2 * f.rndSize + 1)) (2 ^ f.fSize) := by
    rw [← stick_words]
    have regroup : aMant * 2 ^ f.rndSize * (bMant * 2 ^ (f.rndSize + 1)) =
        aMant * bMant * 2 ^ (2 * f.rndSize + 1) := by
      rw [two_mul, add_assoc, Nat.pow_add]
      ring
    simp only [words, mulU, shl_eq f aFits, shl_eq f bFits, regroup]
  have low : 2 ^ (f.fSize - 3) * 2 ^ f.fSize ≤ aMant * bMant * 2 ^ (2 * f.rndSize + 1) := by
    calc 2 ^ (f.fSize - 3) * 2 ^ f.fSize = 2 ^ f.mantSize * 2 ^ f.mantSize * 2 ^ (2 * f.rndSize + 1) := by
          rw [← Nat.pow_add, ← Nat.pow_add, ← Nat.pow_add]
          congr 1
          omega
      _ ≤ _ := Nat.mul_le_mul_right _ (Nat.mul_le_mul aLow bLow)
  have high : aMant * bMant * 2 ^ (2 * f.rndSize + 1) < 2 * 2 ^ (f.fSize - 2) * 2 ^ f.fSize := by
    calc aMant * bMant * 2 ^ (2 * f.rndSize + 1) <
          2 ^ (f.mantSize + 1) * 2 ^ (f.mantSize + 1) * 2 ^ (2 * f.rndSize + 1) :=
          Nat.mul_lt_mul_of_pos_right (Nat.mul_lt_mul'' aHigh bHigh) (Nat.two_pow_pos _)
      _ = _ := by
          rw [← Nat.pow_add, ← Nat.pow_add, ← Nat.pow_succ', ← Nat.pow_add]
          congr 1
          omega
  have top : 2 * 2 ^ (f.fSize - 2) = 2 ^ (f.fSize - 1) := by
    rw [← Nat.pow_succ']
    congr 1
    omega
  have small := stick_lt (Nat.two_pow_pos f.fSize) high
  rw [top] at small
  have at_least := (Nat.pow_le_pow_right two_pos (by omega : f.mantSize + 2 ≤ f.fSize - 3)).trans
    (le_stick (Nat.two_pow_pos f.fSize) low)
  have same := stick_sameSide (K := ℚ) (aMant * bMant * 2 ^ (2 * f.rndSize + 1))
    (Nat.two_pow_pos f.fSize)
  have number : (aMant : ℚ) * (2 : ℚ) ^ (aExp - f.bias - f.mantSize) *
      (bMant * (2 : ℚ) ^ (bExp - f.bias - f.mantSize)) =
        ((aMant * bMant * 2 ^ (2 * f.rndSize + 1) : ℕ) : ℚ) / (2 ^ f.fSize : ℕ) *
          (2 : ℚ) ^ (aExp + bExp - (1 <<< (f.expSize - 1) : ℕ) + 2 - f.bias - (f.fSize - 2 : ℕ)) := by
    rw [bias_shift]
    push_cast
    rw [mul_div_assoc, mul_assoc (aMant * bMant : ℚ), pow_div_mul, mul_mul_mul_comm,
      ← zpow_add₀ two_ne_zero]
    congr 2
    omega
  rw [product, number]
  exact normalize_sticky aSign rm fflags same at_least small

theorem mul_numbers {a b : f.FUint} (aFinite : f.expOf a ≠ f.expMask) (bFinite : f.expOf b ≠ f.expMask) :
    f.Rounds rm (f.signOf a ^^ f.signOf b) (magnitude ℚ a * magnitude ℚ b) fflags (f.mul a b rm fflags) := by
  have zero := magnitude_eq_zero (K := ℚ) a
  have zero' := magnitude_eq_zero (K := ℚ) b
  rw [mul]
  simp only [aFinite, bFinite, or_self, if_false]
  by_cases aZero : f.expOf a = 0 ∧ f.mantOf a = 0
  · rw [if_pos aZero, zero.mpr aZero, zero_mul]
    exact rounds_zero _ rm fflags
  by_cases bZero : f.expOf b = 0 ∧ f.mantOf b = 0
  · rw [if_neg aZero, if_pos bZero, zero'.mpr bZero, mul_zero]
    exact rounds_zero _ rm fflags
  obtain ⟨aLow, aHigh, aNumber⟩ := withLeadingBit_spec (K := ℚ) aZero
  obtain ⟨bLow, bHigh, bNumber⟩ := withLeadingBit_spec (K := ℚ) bZero
  rw [if_neg aZero, if_neg bZero, aNumber, bNumber]
  exact mul_mantissas rm fflags _ aLow aHigh bLow bHigh

/-- The product is the rounding of the exact product. -/
theorem mul_delivers (a b : f.FUint) :
    f.Delivers rm (mulOutcome (datum ℚ a) (datum ℚ b)) fflags (f.mul a b rm fflags) := by
  have large := f.expMask_large
  have zero := magnitude_eq_zero (K := ℚ) a
  have zero' := magnitude_eq_zero (K := ℚ) b
  have mask : ¬0 = f.expMask := by omega
  have mask' : ¬f.expMask = 0 := by omega
  rcases classes (K := ℚ) a with ⟨aLast, aMant, aNan, aDatum⟩ | ⟨aLast, aMant, aNan, aSig, aDatum⟩ |
      ⟨aFinite, aNan, aSig, aDatum⟩ <;>
    rcases classes (K := ℚ) b with ⟨bLast, bMant, bNan, bDatum⟩ | ⟨bLast, bMant, bNan, bSig, bDatum⟩ |
      ⟨bFinite, bNan, bSig, bDatum⟩ <;>
    rw [aDatum, bDatum]
  · cases sig : f.isSigNan a || f.isSigNan b <;> simp_all [mul, mulOutcome, nanOutcome, Delivers]
  · cases sig : f.isSigNan a <;> simp [mul, mulOutcome, nanOutcome, Delivers, *]
  · cases sig : f.isSigNan a <;> simp [mul, mulOutcome, nanOutcome, Delivers, *]
  · cases sig : f.isSigNan b <;> simp [mul, mulOutcome, nanOutcome, Delivers, *]
  · simp [mul, mulOutcome, Delivers, *]
  · by_cases bZero : f.expOf b = 0 ∧ f.mantOf b = 0 <;> simp [mul, mulOutcome, Delivers, *]
  · cases sig : f.isSigNan b <;> simp [mul, mulOutcome, nanOutcome, Delivers, *]
  · by_cases aZero : f.expOf a = 0 ∧ f.mantOf a = 0 <;> simp [mul, mulOutcome, Delivers, *]
  · exact mul_numbers rm fflags aFinite bFinite

end Products

section Quotients

/-- The quotient of two numbers that are not zero is the scaled quotient of their mantissas. -/
theorem div_mantissas {aExp bExp : ℤ} {aMant bMant : ℕ} (aSign : Bool)
    (aLow : 2 ^ f.mantSize ≤ aMant) (aHigh : aMant < 2 ^ (f.mantSize + 1))
    (bLow : 2 ^ f.mantSize ≤ bMant) (bHigh : bMant < 2 ^ (f.mantSize + 1)) :
    let words := f.divremU aMant 0 (f.shl bMant 2)
    f.Rounds rm aSign ((aMant : ℚ) * (2 : ℚ) ^ (aExp - f.bias - f.mantSize) /
        (bMant * (2 : ℚ) ^ (bExp - f.bias - f.mantSize))) fflags
      (f.normalize aSign (aExp - bExp + (1 <<< (f.expSize - 1) : ℕ) - 1)
        (if words.2 ≠ 0 then words.1 ||| 1 else words.1) rm fflags) := by
  intro words
  have split := f.fSize_split
  have large := f.rndSize_large
  have positive := Nat.two_pow_pos f.mantSize
  have double : 2 ^ (f.mantSize + 1) = 2 * 2 ^ f.mantSize := Nat.pow_succ'
  have whole : 2 ^ f.fSize = 8 * 2 ^ (f.fSize - 3) := by
    have eight : 8 = 2 ^ 3 := rfl
    rw [eight, ← Nat.pow_add]
    congr 1
    omega
  have bFits : bMant * 2 ^ 2 < 2 ^ f.fSize := by
    calc bMant * 2 ^ 2 < 2 ^ (f.mantSize + 1) * 2 ^ 2 :=
          Nat.mul_lt_mul_of_pos_right bHigh (by omega)
      _ ≤ 2 ^ f.fSize := by
          rw [← Nat.pow_add]
          exact Nat.pow_le_pow_right two_pos (by omega)
  have divisor : 0 < bMant * 2 ^ 2 := by
    omega
  have high : aMant * 2 ^ f.fSize < 2 * 2 ^ (f.fSize - 2) * (bMant * 2 ^ 2) := by
    have quarter : 2 ^ (f.fSize - 2) = 2 * 2 ^ (f.fSize - 3) := by
      rw [← Nat.pow_succ']
      congr 1
      omega
    have unit := Nat.two_pow_pos (f.fSize - 3)
    have less : aMant * (8 * 2 ^ (f.fSize - 3)) < 2 * bMant * (8 * 2 ^ (f.fSize - 3)) :=
      Nat.mul_lt_mul_of_pos_right (by omega) (by omega)
    calc aMant * 2 ^ f.fSize = aMant * (8 * 2 ^ (f.fSize - 3)) := by rw [whole]
      _ < 2 * bMant * (8 * 2 ^ (f.fSize - 3)) := less
      _ = _ := by
          rw [quarter]
          ring
  have low : 2 ^ (f.fSize - 3) * (bMant * 2 ^ 2) ≤ aMant * 2 ^ f.fSize := by
    calc 2 ^ (f.fSize - 3) * (bMant * 2 ^ 2) ≤ 2 ^ (f.fSize - 3) * (2 * aMant * 2 ^ 2) :=
          Nat.mul_le_mul_left _ (Nat.mul_le_mul_right _ (by omega))
      _ = aMant * 2 ^ f.fSize := by
          rw [whole]
          ring
  have top : 2 * 2 ^ (f.fSize - 2) = 2 ^ (f.fSize - 1) := by
    rw [← Nat.pow_succ']
    congr 1
    omega
  have quotient : aMant * 2 ^ f.fSize / (bMant * 2 ^ 2) < 2 ^ f.fSize := by
    refine (Nat.div_lt_of_lt_mul ?_).trans_le (Nat.pow_le_pow_right two_pos (Nat.sub_le _ 1))
    rw [← top, Nat.mul_comm (bMant * 2 ^ 2)]
    exact high
  have remainder : aMant * 2 ^ f.fSize % (bMant * 2 ^ 2) < 2 ^ f.fSize :=
    (Nat.mod_lt _ divisor).trans bFits
  have result : (if words.2 ≠ 0 then words.1 ||| 1 else words.1) =
      stick (aMant * 2 ^ f.fSize) (bMant * 2 ^ 2) := by
    simp only [words, divremU, Nat.or_zero, Nat.shiftLeft_eq, shl_eq f bFits, wrap_eq f quotient,
      wrap_eq f remainder, stick]
    split <;> simp
  have small := stick_lt divisor high
  rw [top] at small
  have at_least := (Nat.pow_le_pow_right two_pos (by omega : f.mantSize + 2 ≤ f.fSize - 3)).trans
    (le_stick divisor low)
  have same := stick_sameSide (K := ℚ) (aMant * 2 ^ f.fSize) divisor
  have number : (aMant : ℚ) * (2 : ℚ) ^ (aExp - f.bias - f.mantSize) /
      (bMant * (2 : ℚ) ^ (bExp - f.bias - f.mantSize)) =
        ((aMant * 2 ^ f.fSize : ℕ) : ℚ) / (bMant * 2 ^ 2 : ℕ) *
          (2 : ℚ) ^ (aExp - bExp + (1 <<< (f.expSize - 1) : ℕ) - 1 - f.bias - (f.fSize - 2 : ℕ)) := by
    rw [bias_shift]
    simp only [Nat.cast_mul, Nat.cast_pow, Nat.cast_ofNat]
    rw [mul_div_mul_comm, ← zpow_sub₀ two_ne_zero, mul_div_mul_comm, mul_assoc, pow_div_mul]
    congr 2
    omega
  rw [result, number]
  exact normalize_sticky aSign rm fflags same at_least small

theorem div_numbers {a b : f.FUint} (aFinite : f.expOf a ≠ f.expMask) (bFinite : f.expOf b ≠ f.expMask)
    (bNonzero : ¬(f.expOf b = 0 ∧ f.mantOf b = 0)) :
    f.Rounds rm (f.signOf a ^^ f.signOf b) (magnitude ℚ a / magnitude ℚ b) fflags (f.div a b rm fflags) := by
  have zero := magnitude_eq_zero (K := ℚ) a
  rw [div]
  simp only [aFinite, bFinite, bNonzero, if_false]
  by_cases aZero : f.expOf a = 0 ∧ f.mantOf a = 0
  · rw [if_pos aZero, zero.mpr aZero, zero_div]
    exact rounds_zero _ rm fflags
  obtain ⟨aLow, aHigh, aNumber⟩ := withLeadingBit_spec (K := ℚ) aZero
  obtain ⟨bLow, bHigh, bNumber⟩ := withLeadingBit_spec (K := ℚ) bNonzero
  rw [if_neg aZero, aNumber, bNumber]
  exact div_mantissas rm fflags _ aLow aHigh bLow bHigh

/-- The quotient is the rounding of the exact quotient. -/
theorem div_delivers (a b : f.FUint) :
    f.Delivers rm (divOutcome (datum ℚ a) (datum ℚ b)) fflags (f.div a b rm fflags) := by
  have large := f.expMask_large
  have zero := magnitude_eq_zero (K := ℚ) a
  have zero' := magnitude_eq_zero (K := ℚ) b
  have mask : ¬0 = f.expMask := by omega
  have mask' : ¬f.expMask = 0 := by omega
  rcases classes (K := ℚ) a with ⟨aLast, aMant, aNan, aDatum⟩ | ⟨aLast, aMant, aNan, aSig, aDatum⟩ |
      ⟨aFinite, aNan, aSig, aDatum⟩ <;>
    rcases classes (K := ℚ) b with ⟨bLast, bMant, bNan, bDatum⟩ | ⟨bLast, bMant, bNan, bSig, bDatum⟩ |
      ⟨bFinite, bNan, bSig, bDatum⟩ <;>
    rw [aDatum, bDatum]
  · cases sig : f.isSigNan a || f.isSigNan b <;> simp_all [div, divOutcome, nanOutcome, Delivers]
  · cases sig : f.isSigNan a <;> simp [div, divOutcome, nanOutcome, Delivers, *]
  · cases sig : f.isSigNan a <;> simp [div, divOutcome, nanOutcome, Delivers, *]
  · cases sig : f.isSigNan b <;> simp [div, divOutcome, nanOutcome, Delivers, *]
  · simp [div, divOutcome, Delivers, *]
  · simp [div, divOutcome, Delivers, *]
  · cases sig : f.isSigNan b <;> simp [div, divOutcome, nanOutcome, Delivers, *]
  · have rounded := rounds_zero (K := ℚ) (f := f) (f.signOf a ^^ f.signOf b) rm fflags
    simp [div, divOutcome, Delivers, *]
  · by_cases bZero : f.expOf b = 0 ∧ f.mantOf b = 0
    · by_cases aZero : f.expOf a = 0 ∧ f.mantOf a = 0 <;> simp [div, divOutcome, Delivers, *]
    · have rounded := div_numbers rm fflags aFinite bFinite bZero
      rw [divOutcome, if_neg (mt zero'.mp bZero)]
      exact rounded

end Quotients

end MachineEmulator.SoftFloat.Format
