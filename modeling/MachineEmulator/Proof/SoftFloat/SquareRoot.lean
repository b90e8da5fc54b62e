/-
This file proves that square roots are rounded correctly.
-/

import MachineEmulator.Proof.SoftFloat.Multiplication

namespace MachineEmulator.SoftFloat.Format

open Rounding

variable {f : Format} (rm : FrmMode) (fflags : Flags)

section Digits

/-- The state of the loop with some bits left: a root of the upper digits and what is left of the number. -/
def RootState (a count res rem : ℕ) : Prop :=
  ∃ root, res = root * 2 ^ count ∧ root * root + rem = a ∧ a < (root + 2 ^ count) * (root + 2 ^ count)

/-- One round of the loop finds the next bit of the root. -/
theorem rootState_step {a count res rem : ℕ} (state : RootState a (count + 1) res rem) :
    let bit := 1 <<< (2 * count)
    let tmp := res + bit
    (tmp ≤ rem → RootState a count ((res >>> 1) + bit) (rem - tmp)) ∧
      (¬tmp ≤ rem → RootState a count (res >>> 1) rem) := by
  intro bit tmp
  obtain ⟨root, res_eq, sum, bound⟩ := state
  have bit_eq : bit = 2 ^ count * 2 ^ count := by
    simp only [bit, Nat.one_shiftLeft, two_mul, Nat.pow_add]
  have halved : res >>> 1 = root * 2 ^ count := by
    rw [res_eq, Nat.shiftRight_eq_div_pow, Nat.pow_one, Nat.pow_succ, ← Nat.mul_assoc,
      Nat.mul_div_cancel _ two_pos]
  have tmp_eq : tmp = 2 * (root * 2 ^ count) + 2 ^ count * 2 ^ count := by
    simp only [tmp]
    rw [bit_eq, res_eq, Nat.pow_succ]
    ring
  have square : (root + 2 ^ count) * (root + 2 ^ count) = root * root + tmp := by
    rw [tmp_eq]
    ring
  constructor
  · intro fits
    refine ⟨root + 2 ^ count, ?_, ?_, ?_⟩
    · rw [halved, bit_eq]
      ring
    · omega
    · have next : root + 2 ^ count + 2 ^ count = root + 2 ^ (count + 1) := by
        rw [Nat.pow_succ]
        omega
      rw [next]
      exact bound
  · intro large
    refine ⟨root, halved, sum, ?_⟩
    omega

/-- The loop finds the root of the largest square that is not above the number. -/
theorem sqrtremLoop_spec {a count res rem : ℕ} (state : RootState a count res rem) :
    (sqrtremLoop count res rem).1 * (sqrtremLoop count res rem).1 + (sqrtremLoop count res rem).2 = a ∧
      a < ((sqrtremLoop count res rem).1 + 1) * ((sqrtremLoop count res rem).1 + 1) := by
  induction count generalizing res rem with
  | zero =>
      obtain ⟨root, res_eq, sum, bound⟩ := state
      rw [Nat.pow_zero, Nat.mul_one] at res_eq
      subst res_eq
      exact ⟨sum, bound⟩
  | succ count ih =>
      obtain ⟨fits, large⟩ := rootState_step state
      rw [sqrtremLoop]
      split
      · rename_i small
        exact ih (fits small)
      · rename_i small
        exact ih (large small)

/-- The root of a number of two words, with its lowest bit set if it is not exact. -/
theorem sqrtremU_spec {ah : ℕ} (small : ah < 2 ^ (f.fSize - 2)) :
    ∃ root : ℕ, ∃ inexact : Bool, f.sqrtremU ah 0 = (root, inexact) ∧
      root * root ≤ ah * 2 ^ f.fSize ∧ ah * 2 ^ f.fSize < (root + 1) * (root + 1) ∧
      (inexact = false → root * root = ah * 2 ^ f.fSize) ∧
      (inexact = true → root * root ≠ ah * 2 ^ f.fSize) ∧ root < 2 * 2 ^ (f.fSize - 2) := by
  have split := f.fSize_split
  have start : RootState (ah * 2 ^ f.fSize) f.fSize 0 (ah * 2 ^ f.fSize) := by
    refine ⟨0, (Nat.zero_mul _).symm, by omega, ?_⟩
    rw [Nat.zero_add]
    exact Nat.mul_lt_mul_of_pos_right (small.trans_le (Nat.pow_le_pow_right two_pos (Nat.sub_le _ 2)))
      (Nat.two_pow_pos _)
  have found := sqrtremLoop_spec start
  rw [sqrtremU, Nat.or_zero, Nat.shiftLeft_eq]
  generalize sqrtremLoop f.fSize 0 (ah * 2 ^ f.fSize) = state at found ⊢
  obtain ⟨res, rem⟩ := state
  obtain ⟨sum, bound⟩ := found
  dsimp only at sum bound ⊢
  have res_lt : res < 2 * 2 ^ (f.fSize - 2) := by
    by_contra large
    have square : (2 * 2 ^ (f.fSize - 2)) * (2 * 2 ^ (f.fSize - 2)) ≤ res * res :=
      Nat.mul_le_mul (by omega) (by omega)
    have whole : 2 ^ f.fSize = 4 * 2 ^ (f.fSize - 2) := by
      have four : 4 = 2 ^ 2 := rfl
      rw [four, ← Nat.pow_add]
      congr 1
      omega
    have number : ah * 2 ^ f.fSize < 2 ^ (f.fSize - 2) * 2 ^ f.fSize :=
      Nat.mul_lt_mul_of_pos_right small (Nat.two_pow_pos _)
    have product : (2 * 2 ^ (f.fSize - 2)) * (2 * 2 ^ (f.fSize - 2)) = 2 ^ (f.fSize - 2) * 2 ^ f.fSize := by
      rw [whole]
      ring
    omega
  have word : res < 2 ^ f.fSize := by
    refine res_lt.trans_le ?_
    rw [← Nat.pow_succ']
    exact Nat.pow_le_pow_right two_pos (by omega)
  rw [wrap_eq f word]
  refine ⟨res, decide (rem ≠ 0), rfl, by omega, bound, fun exact_ => ?_, fun lost => ?_, res_lt⟩
  · have none : rem = 0 := by
      simpa using exact_
    omega
  · have some : rem ≠ 0 := by
      simpa using lost
    omega

end Digits

section Roots

/-- The root of a mantissa with an even exponent. -/
theorem sqrt_mantissa {aExp : ℤ} {aMant : ℕ} (aLow : 2 ^ f.mantSize ≤ aMant)
    (aHigh : aMant < 2 ^ (f.mantSize + 2)) (even : aExp % 2 = 0) :
    let words := f.sqrtremU (f.shl aMant (f.fSize - 4 - f.mantSize)) 0
    f.Rounds rm false (Real.sqrt (aMant * 2 ^ (aExp - f.mantSize))) fflags
      (f.normalize false (aExp / 2 + (f.expMask / 2 : ℕ)) (if words.2 then words.1 ||| 1 else words.1)
        rm fflags) := by
  intro words
  have split := f.fSize_split
  have large := f.rndSize_large
  have scaled_lt : aMant * 2 ^ (f.fSize - 4 - f.mantSize) < 2 ^ (f.fSize - 2) := by
    calc aMant * 2 ^ (f.fSize - 4 - f.mantSize) < 2 ^ (f.mantSize + 2) * 2 ^ (f.fSize - 4 - f.mantSize) :=
          Nat.mul_lt_mul_of_pos_right aHigh (Nat.two_pow_pos _)
      _ = 2 ^ (f.fSize - 2) := by
          rw [← Nat.pow_add]
          congr 1
          omega
  have fits : aMant * 2 ^ (f.fSize - 4 - f.mantSize) < 2 ^ f.fSize :=
    scaled_lt.trans_le (Nat.pow_le_pow_right two_pos (Nat.sub_le _ 2))
  obtain ⟨root, inexact, words_eq, below, above, whole, lost, root_lt⟩ := sqrtremU_spec scaled_lt
  have result : (if words.2 then words.1 ||| 1 else words.1) = root ||| (if inexact then 1 else 0) := by
    simp only [words, shl_eq f fits, words_eq]
    cases inexact <;> simp
  set number : ℕ := aMant * 2 ^ (f.fSize - 4 - f.mantSize) * 2 ^ f.fSize with number_eq
  have same : SameSide (2 : ℝ) (Real.sqrt number) ((root ||| (if inexact then 1 else 0) : ℕ) : ℝ) := by
    apply SameSide.of_cut
    · intro exact_
      have square := whole (by simpa using exact_)
      rw [← square, Nat.cast_mul, Real.sqrt_mul_self (Nat.cast_nonneg root)]
    · intro inexact'
      have differs := lost inexact'
      constructor
      · rw [Real.lt_sqrt (Nat.cast_nonneg root)]
        exact_mod_cast (by rw [pow_two]; omega : root ^ 2 < number)
      · rw [Real.sqrt_lt' (by positivity)]
        exact_mod_cast (by rw [pow_two]; exact above : number < (root + 1) ^ 2)
  have root_low : 2 ^ (f.fSize - 2) ≤ root := by
    by_contra low
    have square : (root + 1) * (root + 1) ≤ 2 ^ (f.fSize - 2) * 2 ^ (f.fSize - 2) :=
      Nat.mul_le_mul (by omega) (by omega)
    have powers : 2 ^ (f.fSize - 2) * 2 ^ (f.fSize - 2) =
        2 ^ f.mantSize * 2 ^ (f.fSize - 4 - f.mantSize) * 2 ^ f.fSize := by
      rw [← Nat.pow_add, ← Nat.pow_add, ← Nat.pow_add]
      congr 1
      omega
    have least : 2 ^ f.mantSize * 2 ^ (f.fSize - 4 - f.mantSize) * 2 ^ f.fSize ≤ number :=
      Nat.mul_le_mul_right _ (Nat.mul_le_mul_right _ aLow)
    omega
  have top : 2 * 2 ^ (f.fSize - 2) = 2 ^ (f.fSize - 1) := by
    rw [← Nat.pow_succ']
    congr 1
    omega
  have sticky_low : root ≤ root ||| (if inexact then 1 else 0) := Nat.left_le_or
  have sticky_high : root ||| (if inexact then 1 else 0) < 2 ^ (f.fSize - 1) := by
    rw [← top]
    cases inexact
    · simpa using root_lt
    · simp only [if_true, or_one]
      split <;> omega
  have value : Real.sqrt (aMant * 2 ^ (aExp - f.mantSize)) = Real.sqrt number *
      2 ^ (aExp / 2 + (f.expMask / 2 : ℕ) - f.bias - (f.fSize - 2 : ℕ)) := by
    have power : (0 : ℝ) < 2 ^ (aExp / 2 + (f.expMask / 2 : ℕ) - f.bias - (f.fSize - 2 : ℕ)) :=
      zpow_pos two_pos _
    rw [Real.sqrt_eq_iff_mul_self_eq (by positivity) (by positivity), mul_mul_mul_comm,
      Real.mul_self_sqrt (Nat.cast_nonneg _), ← zpow_add₀ two_ne_zero, number_eq, half_expMask]
    push_cast
    rw [mul_assoc (aMant : ℝ), mul_assoc (aMant : ℝ), ← zpow_natCast, ← zpow_natCast,
      ← zpow_add₀ two_ne_zero, ← zpow_add₀ two_ne_zero]
    congr 2
    omega
  rw [result, value]
  exact normalize_sticky false rm fflags same
    ((Nat.pow_le_pow_right two_pos (by omega)).trans (root_low.trans sticky_low)) sticky_high

theorem sqrt_numbers {a : f.FUint} (aFinite : f.expOf a ≠ f.expMask) (positive : f.signOf a = false)
    (nonzero : ¬(f.expOf a = 0 ∧ f.mantOf a = 0)) :
    f.Rounds rm false (Real.sqrt (magnitude ℝ a)) fflags (f.sqrt a rm fflags) := by
  have split := f.fSize_split
  have large := f.rndSize_large
  obtain ⟨aLow, aHigh, aNumber⟩ := withLeadingBit_spec (K := ℝ) nonzero
  rw [sqrt]
  simp only [aFinite, positive, nonzero, if_false, Bool.false_eq_true]
  rw [aNumber]
  generalize f.withLeadingBit (f.expOf a) (f.mantOf a) = leading at aLow aHigh ⊢
  obtain ⟨aExp, aMant⟩ := leading
  dsimp only at aLow aHigh ⊢
  have double : 2 ^ (f.mantSize + 2) = 2 * 2 ^ (f.mantSize + 1) := Nat.pow_succ'
  have room : 2 ^ (f.mantSize + 2) ≤ 2 ^ f.fSize := Nat.pow_le_pow_right two_pos (by omega)
  rw [half_expMask]
  by_cases odd : (aExp - f.bias) % 2 ≠ 0
  · have moved : (aMant : ℝ) * 2 ^ (aExp - f.bias - f.mantSize) =
        (aMant * 2 : ℕ) * 2 ^ (aExp - f.bias - 1 - f.mantSize) := by
      have exponent : aExp - f.bias - f.mantSize = 1 + (aExp - f.bias - 1 - f.mantSize) := by
        ring
      rw [exponent, zpow_add₀ two_ne_zero]
      push_cast
      ring
    rw [if_pos odd, moved, shl_eq f (by omega), Nat.pow_one, ← half_expMask]
    exact sqrt_mantissa rm fflags (by omega) (by omega) (by rw [half_expMask]; omega)
  · rw [if_neg odd, ← half_expMask]
    exact sqrt_mantissa rm fflags aLow (by omega) (by rw [half_expMask]; omega)

/-- The root is the rounding of the exact root. -/
theorem sqrt_delivers (a : f.FUint) :
    f.Delivers rm (sqrtOutcome (datum ℝ a)) fflags (f.sqrt a rm fflags) := by
  have large := f.expMask_large
  have zero := magnitude_eq_zero (K := ℝ) a
  have mask : ¬0 = f.expMask := by omega
  have mask' : ¬f.expMask = 0 := by omega
  rcases classes (K := ℝ) a with ⟨aLast, aMant, aNan, aDatum⟩ | ⟨aLast, aMant, aNan, aSig, aDatum⟩ |
      ⟨aFinite, aNan, aSig, aDatum⟩ <;>
    rw [aDatum]
  · cases sig : f.isSigNan a <;> simp [sqrt, sqrtOutcome, nanOutcome, Delivers, *]
  · have word := pack_fields a
    rw [aLast, aMant] at word
    cases sign : f.signOf a
    · rw [sign] at word
      simp [sqrt, sqrtOutcome, Delivers, *]
    · simp [sqrt, sqrtOutcome, Delivers, *]
  · by_cases aZero : f.expOf a = 0 ∧ f.mantOf a = 0
    · have word := pack_fields a
      rw [aZero.1, aZero.2] at word
      have rounded := rounds_zero (K := ℝ) (f := f) (f.signOf a) rm fflags
      rw [word] at rounded
      rw [sqrtOutcome, if_pos (zero.mpr aZero)]
      cases sign : f.signOf a
      · rw [sign] at rounded word
        simp [sqrt, Delivers, *]
      · rw [sign] at rounded
        simp [sqrt, Delivers, *]
    · rw [sqrtOutcome, if_neg (mt zero.mp aZero)]
      cases sign : f.signOf a
      · exact sqrt_numbers rm fflags aFinite sign aZero
      · simp [sqrt, Delivers, *]

end Roots

end MachineEmulator.SoftFloat.Format
