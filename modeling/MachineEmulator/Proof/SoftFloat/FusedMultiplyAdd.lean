/-
This file proves that the fused multiplication and addition is rounded correctly, and once only.
-/

import MachineEmulator.Proof.SoftFloat.DoubleWords
import MachineEmulator.Proof.SoftFloat.Multiplication

namespace MachineEmulator.SoftFloat.Format

open Rounding

variable {f : Format} (rm : FrmMode) (fflags : Flags)

section Normalization

variable {high low total : ℕ} (whole : high * 2 ^ f.fSize + low = total) (lowWord : low < 2 ^ f.fSize)
  (nonzero : total ≠ 0) (small : total < 2 ^ (2 * f.fSize - 1))

include whole lowWord in
/-- The leading bit of two words is the one of the high word. -/
theorem log2_words (some : high ≠ 0) : total.log2 = f.fSize + high.log2 := by
  have atLeast := Nat.log2_self_le some
  have below := Nat.lt_log2_self (n := high)
  have positive := Nat.two_pow_pos f.fSize
  have lower : 2 ^ high.log2 * 2 ^ f.fSize ≤ high * 2 ^ f.fSize := Nat.mul_le_mul_right _ atLeast
  have upper : (high + 1) * 2 ^ f.fSize ≤ 2 ^ (high.log2 + 1) * 2 ^ f.fSize :=
    Nat.mul_le_mul_right _ below
  rw [Nat.succ_mul, ← Nat.pow_add] at upper
  rw [← Nat.pow_add] at lower
  have power := Nat.two_pow_pos (high.log2 + f.fSize)
  rw [Nat.log2_eq_iff (by omega), Nat.add_comm f.fSize, Nat.add_right_comm]
  omega

include whole lowWord nonzero in
/-- The shift that puts the leading bit of two words in its place. -/
theorem clz_words :
    (if high = 0 then f.fSize + clz f.fSize low else clz f.fSize high) -
      (f.fSize - 1 - f.imantSize) = 2 * f.fSize - 2 - total.log2 := by
  have split := f.fSize_split
  rw [imantSize]
  by_cases none : high = 0
  · rw [none, Nat.zero_mul, Nat.zero_add] at whole
    have log_lt : low.log2 < f.fSize := (Nat.log2_lt (whole ▸ nonzero)).mpr lowWord
    rw [if_pos none, clz_eq (whole ▸ nonzero), ← whole]
    omega
  · rw [if_neg none, clz_eq none, log2_words whole lowWord none]
    omega

include whole lowWord nonzero small in
/-- The mantissa of two words is shifted to its place and packed. -/
theorem normalize2_shifted (sign : Bool) (e : ℤ) {x : ℚ}
    (same : SameSide ((f.half * 2 ^ f.fSize : ℕ) : ℚ) (2 ^ (2 * f.fSize - 2 - total.log2) * x)
      (2 ^ (2 * f.fSize - 2 - total.log2) * total)) :
    f.Rounds rm sign (x / 2 ^ f.fSize * 2 ^ (e - f.bias - (f.fSize - 2 : ℕ))) fflags
      (f.normalize2 sign e high low rm fflags) := by
  have split := f.fSize_split
  have large := f.rndSize_large
  have word := Nat.two_pow_pos f.fSize
  have log_lt : total.log2 < 2 * f.fSize - 1 := (Nat.log2_lt nonzero).mpr small
  obtain ⟨atLeast, below⟩ := shift_bounds nonzero (by omega : total.log2 ≤ 2 * f.fSize - 2)
  have top : 2 * f.fSize - 2 + 1 = 2 * f.fSize - 1 := by
    omega
  rw [top] at below
  rw [normalize2]
  simp only [clz_words whole lowWord nonzero]
  generalize 2 * f.fSize - 2 - total.log2 = count at same atLeast below
  have fits : (high * 2 ^ f.fSize + low) * 2 ^ count < 2 ^ f.fSize * 2 ^ f.fSize := by
    rw [whole, ← Nat.pow_add]
    exact below.trans_le (Nat.pow_le_pow_right two_pos (by omega))
  have lower : 2 ^ (f.fSize - 2) * 2 ^ f.fSize ≤ total * 2 ^ count := by
    rw [← Nat.pow_add]
    exact (Nat.pow_le_pow_right two_pos (by omega)).trans atLeast
  have upper : total * 2 ^ count < 2 * 2 ^ (f.fSize - 2) * 2 ^ f.fSize := by
    rw [← Nat.pow_succ', ← Nat.pow_add]
    exact below.trans_le (Nat.pow_le_pow_right two_pos (by omega))
  have power : (0 : ℚ) < 2 ^ f.fSize := by
    positivity
  have cut : SameSide (f.half : ℚ) (2 ^ count * x / 2 ^ f.fSize)
      (stick (total * 2 ^ count) (2 ^ f.fSize)) := by
    have scaled := same.scale (inv_pos.mpr power)
    have gap : (2 ^ f.fSize : ℚ)⁻¹ * (f.half * 2 ^ f.fSize : ℕ) = f.half := by
      push_cast
      field_simp
    rw [gap] at scaled
    have sticky := (stick_sameSide (K := ℚ) (total * 2 ^ count) word).coarsen (2 ^ (f.rndSize - 2) : ℕ)
    have halves : (((2 ^ (f.rndSize - 2) : ℕ) : ℤ) : ℚ) * 2 = f.half := by
      rw [half, show f.rndSize - 1 = f.rndSize - 2 + 1 by omega]
      push_cast
      ring
    have fraction : (2 ^ f.fSize : ℚ)⁻¹ * (2 ^ count * total) =
        ((total * 2 ^ count : ℕ) : ℚ) / (2 ^ f.fSize : ℕ) := by
      push_cast
      field_simp
    rw [halves, ← fraction] at sticky
    rw [div_eq_inv_mul]
    exact scaled.trans sticky
  have moved : x / 2 ^ f.fSize * 2 ^ (e - f.bias - (f.fSize - 2 : ℕ)) =
      2 ^ count * x / 2 ^ f.fSize * (2 : ℚ) ^ (e - count - f.bias - (f.fSize - 2 : ℕ)) := by
    have parts : (2 : ℚ) ^ (e - f.bias - (f.fSize - 2 : ℕ)) =
        2 ^ count * 2 ^ (e - count - f.bias - (f.fSize - 2 : ℕ)) := by
      rw [← zpow_natCast, ← zpow_add₀ two_ne_zero]
      congr 1
      omega
    rw [parts]
    ring
  have high_lt := stick_lt word upper
  rw [← Nat.pow_succ', show (f.fSize - 2).succ = f.fSize - 1 by omega] at high_lt
  rw [joinWords_eq lowWord fits, whole, moved]
  exact roundPack_rounds sign rm fflags cut (le_stick word lower) high_lt

include whole lowWord in
/-- A mantissa of two words is rounded, where it is exact or shifted by few bits only. -/
theorem normalize2_near (sign : Bool) (e : ℤ) {x : ℚ} {gap : ℕ} (small : total < 2 ^ (2 * f.fSize - 1))
    (same : SameSide (gap : ℚ) x total) (fine : gap ∣ 2 ^ (f.fSize - 2))
    (near : x = total ∨ 2 ^ (2 * f.fSize - 4) ≤ total) :
    f.Rounds rm sign (x / 2 ^ f.fSize * 2 ^ (e - f.bias - (f.fSize - 2 : ℕ))) fflags
      (f.normalize2 sign e high low rm fflags) := by
  have split := f.fSize_split
  by_cases zero : total = 0
  · have exact_zero : x = 0 := by
      have at_zero := same.eq_iff 0
      rw [Int.cast_zero, zero_mul, Nat.cast_eq_zero] at at_zero
      exact at_zero.mpr zero
    have parts : high = 0 ∧ low = 0 := by
      have positive := Nat.two_pow_pos f.fSize
      rw [zero, Nat.add_eq_zero_iff, Nat.mul_eq_zero] at whole
      omega
    rw [parts.1, parts.2, exact_zero, zero_div, zero_mul, normalize2]
    have nothing (count : ℕ) : f.joinWords count 0 0 = 0 := by
      simp [joinWords, shl, wrap]
    simp only [nothing, roundPack_zero]
    exact rounds_zero sign rm fflags
  · apply normalize2_shifted rm fflags whole lowWord zero small
    rcases near with exactly | large
    · rw [exactly]
      exact SameSide.refl _ _
    · have log_le := (Nat.le_log2 zero).mpr large
      obtain ⟨factor, factor_eq⟩ := fine
      have power : (0 : ℚ) < 2 ^ (2 * f.fSize - 2 - total.log2) := by
        positivity
      have scaled := (same.scale power).coarsen
        (factor * (f.half * 2 ^ (2 - (2 * f.fSize - 2 - total.log2))) : ℕ)
      have wide : (((factor * (f.half * 2 ^ (2 - (2 * f.fSize - 2 - total.log2))) : ℕ) : ℤ) : ℚ) *
          (2 ^ (2 * f.fSize - 2 - total.log2) * gap) = (f.half * 2 ^ f.fSize : ℕ) := by
        have word : 2 ^ f.fSize = gap * factor * (2 ^ (2 - (2 * f.fSize - 2 - total.log2)) *
            2 ^ (2 * f.fSize - 2 - total.log2)) := by
          rw [← factor_eq, ← Nat.pow_add, ← Nat.pow_add]
          congr 1
          omega
        rw [word]
        push_cast
        ring
      rw [wide] at scaled
      exact scaled

end Normalization

section Alignment

/-- A mantissa of two words with its leading bit in place, and with some bits below the number. -/
structure Leading (f : Format) (high low : ℕ) : Prop where
  word : low < 2 ^ f.fSize
  normal : 2 ^ (f.fSize - 3) ≤ high
  lt : high < 2 ^ (f.fSize - 2)
  fine : 8 ∣ low

/-- Two mantissas of two words that are added, the second one after a shift. -/
structure Addends (f : Format) (rHigh rLow cHigh cLow count : ℕ) : Prop where
  r : Leading f rHigh rLow
  c : Leading f cHigh cLow
  one_word : rLow = 0 ∨ cLow = 0
  less : count = 0 → cHigh * 2 ^ f.fSize + cLow ≤ rHigh * 2 ^ f.fSize + rLow

variable {rHigh rLow cHigh cLow count : ℕ}

/-- A shift by more than a word, where the low word is dropped. -/
theorem alignWords_far (cHighWord : cHigh < 2 ^ f.fSize) (far : f.fSize + 1 ≤ count)
    (inside : count < 2 * f.fSize) :
    f.alignWords count cHigh cLow = (0, stick cHigh (2 ^ (count - f.fSize))) := by
  have shift : ((count : ℤ) - f.fSize).toNat = count - f.fSize := by
    omega
  rw [alignWords, if_neg (not_le.mpr inside), if_pos far, mantRshiftRnd_eq cHighWord, shift]

variable (addends : Addends f rHigh rLow cHigh cLow count)
include addends

/-- The sizes of the mantissas of two words. -/
theorem Addends.bounds :
    2 ^ (2 * f.fSize - 3) ≤ rHigh * 2 ^ f.fSize + rLow ∧
      rHigh * 2 ^ f.fSize + rLow < 2 * 2 ^ (2 * f.fSize - 3) ∧
      cHigh * 2 ^ f.fSize + cLow < 2 * 2 ^ (2 * f.fSize - 3) := by
  have split := f.fSize_split
  have large := f.rndSize_large
  have lower : 2 ^ (2 * f.fSize - 3) = 2 ^ (f.fSize - 3) * 2 ^ f.fSize := by
    rw [← Nat.pow_add]
    congr 1
    omega
  have upper : 2 * 2 ^ (2 * f.fSize - 3) = 2 ^ (f.fSize - 2) * 2 ^ f.fSize := by
    rw [← Nat.pow_succ', ← Nat.pow_add]
    congr 1
    omega
  have atLeast := Nat.mul_le_mul_right (2 ^ f.fSize) addends.r.normal
  have rBelow := Nat.mul_le_mul_right (2 ^ f.fSize) (Nat.succ_le_of_lt addends.r.lt)
  have cBelow := Nat.mul_le_mul_right (2 ^ f.fSize) (Nat.succ_le_of_lt addends.c.lt)
  have rWord := addends.r.word
  have cWord := addends.c.word
  rw [Nat.succ_mul] at rBelow cBelow
  rw [upper, lower]
  omega

/-- The shifted addend, and the number that stands for it, are on the same side of the multiples of
a gap that the other addend does not move. -/
theorem Addends.aligned :
    ∃ gap : ℕ, SameSide (gap : ℚ) ((cHigh * 2 ^ f.fSize + cLow : ℕ) / (2 ^ count : ℕ))
        ((f.alignWords count cHigh cLow).1 * 2 ^ f.fSize + (f.alignWords count cHigh cLow).2 : ℕ) ∧
      gap ∣ rHigh * 2 ^ f.fSize + rLow ∧ gap ∣ 2 ^ (f.fSize - 2) := by
  have split := f.fSize_split
  have large := f.rndSize_large
  have word : 2 ^ f.fSize = 4 * 2 ^ (f.fSize - 2) := by
    rw [show 4 = 2 ^ 2 from rfl, ← Nat.pow_add]
    congr 1
    omega
  have cHighWord : cHigh < 2 ^ f.fSize :=
    addends.c.lt.trans_le (Nat.pow_le_pow_right two_pos (Nat.sub_le _ _))
  by_cases kept : count ≤ f.fSize ∨ 2 * f.fSize ≤ count ∨ cLow = 0
  · use 2
    rw [(alignWords_sticky cHighWord addends.c.word kept).1]
    refine ⟨stick_sameSide _ (Nat.two_pow_pos _), ?_, ?_⟩
    · have eight : 8 ∣ 2 ^ f.fSize := Nat.pow_dvd_pow 2 (by omega : 3 ≤ f.fSize)
      exact (by decide : 2 ∣ 8).trans (Nat.dvd_add (eight.mul_left rHigh) addends.r.fine)
    · exact dvd_pow_self 2 (by omega)
  · have far : f.fSize + 1 ≤ count ∧ count < 2 * f.fSize ∧ cLow ≠ 0 := by
      omega
    have clear : rLow = 0 := addends.one_word.resolve_right far.2.2
    have positive := Nat.two_pow_pos (f.fSize - 3)
    have half : 2 ^ (f.fSize - 2) = 2 * 2 ^ (f.fSize - 3) := by
      rw [← Nat.pow_succ']
      congr 1
      omega
    have cNormal := addends.c.normal
    have cLess := addends.c.lt
    have cWord := addends.c.word
    have power : 2 ^ count = 2 ^ (count - f.fSize) * 2 ^ f.fSize := by
      rw [← Nat.pow_add]
      congr 1
      omega
    have two : 2 ≤ 2 ^ (count - f.fSize) := Nat.le_self_pow (by omega) 2
    have halved : cHigh / 2 ^ (count - f.fSize) ≤ cHigh / 2 := Nat.div_le_div_left two two_pos
    have sticky := stick_bounds cHigh (2 ^ (count - f.fSize))
    have sticky_pos : 0 < stick cHigh (2 ^ (count - f.fSize)) :=
      stick_pos (Nat.two_pow_pos _) (by omega)
    have scaled : 2 * (2 ^ (f.fSize - 2) * 2 ^ f.fSize) ≤ 2 ^ (f.fSize - 2) * 2 ^ count := by
      rw [power, Nat.mul_left_comm]
      apply Nat.mul_le_mul_left
      exact Nat.mul_le_mul_right _ two
    have below : cHigh * 2 ^ f.fSize + cLow < 2 ^ (f.fSize - 2) * 2 ^ count := by
      have step := Nat.mul_le_mul_right (2 ^ f.fSize) (Nat.succ_le_of_lt cLess)
      rw [Nat.succ_mul] at step
      omega
    have above : 0 < cHigh * 2 ^ f.fSize + cLow := by
      omega
    use 2 ^ (f.fSize - 2)
    rw [alignWords_far cHighWord far.1 far.2.1, clear, Nat.add_zero, Nat.zero_mul, Nat.zero_add]
    refine ⟨?_, ?_, dvd_refl _⟩
    · have count_pos : (0 : ℚ) < (2 ^ count : ℕ) := by
        positivity
      apply SameSide.of_inside 0 (by positivity)
      · rw [Int.cast_zero, zero_mul]
        exact div_pos (Nat.cast_pos.mpr above) count_pos
      · rw [Int.cast_zero, zero_add, one_mul, div_lt_iff₀ count_pos, ← Nat.cast_mul]
        exact Nat.cast_lt.mpr below
      · rw [Int.cast_zero, zero_mul]
        exact Nat.cast_pos.mpr sticky_pos
      · rw [Int.cast_zero, zero_add, one_mul]
        exact Nat.cast_lt.mpr (by omega)
    · rw [word]
      exact ((dvd_refl _).mul_left _).mul_left _

/-- A shift by few bits loses nothing. -/
theorem Addends.aligned_exact (near : count ≤ 3) :
    ((cHigh * 2 ^ f.fSize + cLow : ℕ) : ℚ) / (2 ^ count : ℕ) =
      ((f.alignWords count cHigh cLow).1 * 2 ^ f.fSize + (f.alignWords count cHigh cLow).2 : ℕ) := by
  have split := f.fSize_split
  have large := f.rndSize_large
  have cHighWord : cHigh < 2 ^ f.fSize :=
    addends.c.lt.trans_le (Nat.pow_le_pow_right two_pos (Nat.sub_le _ _))
  have eight : 8 ∣ 2 ^ f.fSize := Nat.pow_dvd_pow 2 (by omega : 3 ≤ f.fSize)
  have divides : 2 ^ count ∣ cHigh * 2 ^ f.fSize + cLow :=
    (Nat.pow_dvd_pow 2 near).trans (Nat.dvd_add (eight.mul_left cHigh) addends.c.fine)
  obtain ⟨quotient, quotient_eq⟩ := divides
  have power : ((2 ^ count : ℕ) : ℚ) ≠ 0 := Nat.cast_ne_zero.mpr (Nat.two_pow_pos count).ne'
  rw [(alignWords_sticky cHighWord addends.c.word (.inl (by omega))).1, quotient_eq, stick,
    Nat.mul_div_cancel_left _ (Nat.two_pow_pos _), Nat.mul_mod_right, Nat.cast_mul,
    mul_div_cancel_left₀ _ power]
  simp

theorem Addends.aligned_word : (f.alignWords count cHigh cLow).2 < 2 ^ f.fSize := by
  have cHighWord : cHigh < 2 ^ f.fSize :=
    addends.c.lt.trans_le (Nat.pow_le_pow_right two_pos (Nat.sub_le _ _))
  by_cases kept : count ≤ f.fSize ∨ 2 * f.fSize ≤ count ∨ cLow = 0
  · exact (alignWords_sticky cHighWord addends.c.word kept).2
  · have halved : cHigh / 2 ^ (count - f.fSize) ≤ cHigh / 2 :=
      Nat.div_le_div_left (Nat.le_self_pow (by omega) 2) two_pos
    have sticky := stick_bounds cHigh (2 ^ (count - f.fSize))
    have some := addends.c.normal
    have positive := Nat.two_pow_pos (f.fSize - 3)
    rw [alignWords_far cHighWord (by omega) (by omega)]
    dsimp only
    omega

/-- The shifted addend is not above the other one. -/
theorem Addends.aligned_le :
    ((cHigh * 2 ^ f.fSize + cLow : ℕ) : ℚ) / (2 ^ count : ℕ) ≤ (rHigh * 2 ^ f.fSize + rLow : ℕ) := by
  obtain ⟨rLarge, -, cSmall⟩ := addends.bounds
  have power : (0 : ℚ) < (2 ^ count : ℕ) := by
    positivity
  rw [div_le_iff₀ power, ← Nat.cast_mul, Nat.cast_le]
  rcases Nat.eq_zero_or_pos count with none | some
  · rw [none, Nat.pow_zero, Nat.mul_one]
    exact addends.less none
  · have two : (rHigh * 2 ^ f.fSize + rLow) * 2 ≤ (rHigh * 2 ^ f.fSize + rLow) * 2 ^ count :=
      Nat.mul_le_mul_left _ (Nat.le_self_pow some.ne' 2)
    omega

/-- A shift by more than three bits leaves less than an eighth. -/
theorem Addends.aligned_far (far : 3 < count) :
    ((cHigh * 2 ^ f.fSize + cLow : ℕ) : ℚ) / (2 ^ count : ℕ) ≤ (2 ^ (2 * f.fSize - 6) : ℕ) := by
  have split := f.fSize_split
  have large := f.rndSize_large
  obtain ⟨-, -, cSmall⟩ := addends.bounds
  have power : (0 : ℚ) < (2 ^ count : ℕ) := by
    positivity
  rw [div_le_iff₀ power, ← Nat.cast_mul, Nat.cast_le, ← Nat.pow_add]
  rw [← Nat.pow_succ'] at cSmall
  exact cSmall.le.trans (Nat.pow_le_pow_right two_pos (by omega))

end Alignment

section Sums

variable {rHigh rLow cHigh cLow count : ℕ} (addends : Addends f rHigh rLow cHigh cLow count)
include addends

/-- The shifted addend as a number. -/
theorem Addends.aligned_total_le :
    (f.alignWords count cHigh cLow).1 * 2 ^ f.fSize + (f.alignWords count cHigh cLow).2 ≤
      rHigh * 2 ^ f.fSize + rLow := by
  obtain ⟨gap, same, ⟨quotient, whole⟩, -⟩ := addends.aligned
  have exactly : (((quotient : ℕ) : ℤ) : ℚ) * gap = (rHigh * 2 ^ f.fSize + rLow : ℕ) := by
    rw [whole]
    push_cast
    ring
  have bound := (same.ge_iff (quotient : ℕ)).mp (by
    rw [exactly]
    exact addends.aligned_le)
  rw [exactly] at bound
  exact Nat.cast_le.mp bound

theorem Addends.aligned_total_far (far : 3 < count) :
    (f.alignWords count cHigh cLow).1 * 2 ^ f.fSize + (f.alignWords count cHigh cLow).2 ≤
      2 ^ (2 * f.fSize - 6) := by
  have split := f.fSize_split
  have large := f.rndSize_large
  have mantissa := f.mant_large
  obtain ⟨gap, same, -, fine⟩ := addends.aligned
  obtain ⟨quotient, whole⟩ := fine.trans (Nat.pow_dvd_pow 2 (by omega : f.fSize - 2 ≤ 2 * f.fSize - 6))
  have exactly : (((quotient : ℕ) : ℤ) : ℚ) * gap = (2 ^ (2 * f.fSize - 6) : ℕ) := by
    rw [whole]
    push_cast
    ring
  have bound := (same.ge_iff (quotient : ℕ)).mp (by
    rw [exactly]
    exact addends.aligned_far far)
  rw [exactly] at bound
  exact Nat.cast_le.mp bound

/-- The sum of the mantissas is rounded. -/
theorem Addends.sum_rounds (sign : Bool) (e : ℤ) (high low : ℕ) (lowWord : low < 2 ^ f.fSize)
    (whole : high * 2 ^ f.fSize + low = rHigh * 2 ^ f.fSize + rLow +
      ((f.alignWords count cHigh cLow).1 * 2 ^ f.fSize + (f.alignWords count cHigh cLow).2)) :
    f.Rounds rm sign (((rHigh * 2 ^ f.fSize + rLow : ℕ) +
        (cHigh * 2 ^ f.fSize + cLow : ℕ) / (2 ^ count : ℕ) : ℚ) / 2 ^ f.fSize *
          2 ^ (e - f.bias - (f.fSize - 2 : ℕ))) fflags (f.normalize2 sign e high low rm fflags) := by
  have split := f.fSize_split
  have large := f.rndSize_large
  obtain ⟨rLarge, rSmall, -⟩ := addends.bounds
  have least := addends.aligned_total_le
  obtain ⟨gap, same, ⟨quotient, quotient_eq⟩, fine⟩ := addends.aligned
  have moved := same.add (quotient : ℕ)
  have multiple : (((quotient : ℕ) : ℤ) : ℚ) * gap = (rHigh * 2 ^ f.fSize + rLow : ℕ) := by
    rw [quotient_eq]
    push_cast
    ring
  rw [multiple, ← Nat.cast_add] at moved
  have top : 2 * (2 * 2 ^ (2 * f.fSize - 3)) = 2 ^ (2 * f.fSize - 1) := by
    rw [← Nat.pow_succ', ← Nat.pow_succ']
    congr 1
    omega
  have half : 2 ^ (2 * f.fSize - 4) ≤ 2 ^ (2 * f.fSize - 3) := Nat.pow_le_pow_right two_pos (by omega)
  apply normalize2_near rm fflags whole lowWord sign e (by omega) moved fine
  right
  omega

/-- The difference of the mantissas is rounded, and it is zero if the exact one is. -/
theorem Addends.difference_rounds (e : ℤ) (high low : ℕ) (lowWord : low < 2 ^ f.fSize)
    (whole : high * 2 ^ f.fSize + low = rHigh * 2 ^ f.fSize + rLow -
      ((f.alignWords count cHigh cLow).1 * 2 ^ f.fSize + (f.alignWords count cHigh cLow).2)) :
    (low ||| high = 0 ↔ ((rHigh * 2 ^ f.fSize + rLow : ℕ) : ℚ) -
        (cHigh * 2 ^ f.fSize + cLow : ℕ) / (2 ^ count : ℕ) = 0) ∧
      ∀ sign, f.Rounds rm sign (((rHigh * 2 ^ f.fSize + rLow : ℕ) -
          (cHigh * 2 ^ f.fSize + cLow : ℕ) / (2 ^ count : ℕ) : ℚ) / 2 ^ f.fSize *
            2 ^ (e - f.bias - (f.fSize - 2 : ℕ))) fflags (f.normalize2 sign e high low rm fflags) := by
  have split := f.fSize_split
  have large := f.rndSize_large
  obtain ⟨rLarge, rSmall, -⟩ := addends.bounds
  have least := addends.aligned_total_le
  obtain ⟨gap, same, ⟨quotient, quotient_eq⟩, fine⟩ := addends.aligned
  have moved := same.neg.add (quotient : ℕ)
  have multiple : (((quotient : ℕ) : ℤ) : ℚ) * gap = (rHigh * 2 ^ f.fSize + rLow : ℕ) := by
    rw [quotient_eq]
    push_cast
    ring
  rw [multiple, ← sub_eq_add_neg, ← sub_eq_add_neg, ← Nat.cast_sub least] at moved
  constructor
  · have at_zero := moved.eq_iff 0
    have positive := Nat.two_pow_pos f.fSize
    rw [Int.cast_zero, zero_mul, Nat.cast_eq_zero, ← whole] at at_zero
    rw [at_zero, Nat.or_eq_zero_iff, Nat.add_eq_zero_iff, Nat.mul_eq_zero]
    omega
  · intro sign
    have top : 2 * 2 ^ (2 * f.fSize - 3) ≤ 2 ^ (2 * f.fSize - 1) := by
      rw [← Nat.pow_succ']
      exact Nat.pow_le_pow_right two_pos (by omega)
    apply normalize2_near rm fflags whole lowWord sign e (by omega) moved fine
    rcases Nat.lt_or_ge 3 count with far | near
    · have small := addends.aligned_total_far far
      have eighth : 2 ^ (2 * f.fSize - 3) = 8 * 2 ^ (2 * f.fSize - 6) := by
        rw [show 8 = 2 ^ 3 from rfl, ← Nat.pow_add]
        congr 1
        omega
      have half : 2 ^ (2 * f.fSize - 3) = 2 * 2 ^ (2 * f.fSize - 4) := by
        rw [← Nat.pow_succ']
        congr 1
        omega
      right
      omega
    · left
      rw [addends.aligned_exact near, Nat.cast_sub least]

end Sums

section Words

/-- The number of a mantissa of two words with an exponent. -/
def wordsNumber (f : Format) (mantissa : ℕ) (e : ℤ) : ℚ :=
  mantissa / 2 ^ f.fSize * 2 ^ (e - f.bias - (f.fSize - 2 : ℕ))

theorem wordsNumber_nonneg (mantissa : ℕ) (e : ℤ) : 0 ≤ f.wordsNumber mantissa e := by
  rw [wordsNumber]
  positivity

/-- The sum of two numbers with mantissas of two words. -/
theorem addWords_delivers {rHigh rLow cHigh cLow : ℕ} {rExp cExp : ℤ}
    (addends : Addends f rHigh rLow cHigh cLow (rExp - cExp).toNat) (order : cExp ≤ rExp)
    (rSign cSign : Bool) :
    f.Delivers rm (sumOutcome rm rSign cSign (f.wordsNumber (rHigh * 2 ^ f.fSize + rLow) rExp)
        (f.wordsNumber (cHigh * 2 ^ f.fSize + cLow) cExp)) fflags
      (f.addWords rSign cSign rExp cExp rHigh rLow cHigh cLow rm fflags) := by
  have unit : (0 : ℚ) < 2 ^ (rExp - f.bias - (f.fSize - 2 : ℕ)) := zpow_pos two_pos _
  have word : (0 : ℚ) < 2 ^ f.fSize := by
    positivity
  have shifted : f.wordsNumber (cHigh * 2 ^ f.fSize + cLow) cExp =
      (cHigh * 2 ^ f.fSize + cLow : ℕ) / (2 ^ (rExp - cExp).toNat : ℕ) / 2 ^ f.fSize *
        2 ^ (rExp - f.bias - (f.fSize - 2 : ℕ)) := by
    have parts : (2 : ℚ) ^ (rExp - f.bias - (f.fSize - 2 : ℕ)) =
        (2 ^ (rExp - cExp).toNat : ℕ) * 2 ^ (cExp - f.bias - (f.fSize - 2 : ℕ)) := by
      push_cast
      rw [← zpow_natCast, ← zpow_add₀ two_ne_zero]
      congr 1
      omega
    rw [wordsNumber, parts]
    field_simp
  have less : f.wordsNumber (cHigh * 2 ^ f.fSize + cLow) cExp ≤
      f.wordsNumber (rHigh * 2 ^ f.fSize + rLow) rExp := by
    rw [shifted, wordsNumber]
    apply mul_le_mul_of_nonneg_right _ unit.le
    exact div_le_div_of_nonneg_right addends.aligned_le word.le
  have aligned_word := addends.aligned_word
  have least := addends.aligned_total_le
  obtain ⟨-, rSmall, -⟩ := addends.bounds
  rw [sumOutcome_swapped (wordsNumber_nonneg _ _) (wordsNumber_nonneg _ _) less, shifted, wordsNumber,
    addWords, ← add_mul, ← sub_mul, ← add_div, ← sub_div]
  have sums := addends.sum_rounds rm fflags rSign rExp
  have differences := addends.difference_rounds rm fflags rExp
  generalize f.alignWords (rExp - cExp).toNat cHigh cLow = aligned at *
  obtain ⟨alignedHigh, alignedLow⟩ := aligned
  dsimp only at *
  by_cases same : rSign = cSign
  · rw [if_pos same, if_pos same]
    have room : rHigh * 2 ^ f.fSize + rLow + (alignedHigh * 2 ^ f.fSize + alignedLow) <
        2 ^ f.fSize * 2 ^ f.fSize := by
      have split := f.fSize_split
      have top : 2 * (2 * 2 ^ (2 * f.fSize - 3)) ≤ 2 ^ f.fSize * 2 ^ f.fSize := by
        rw [← Nat.pow_succ', ← Nat.pow_succ', ← Nat.pow_add]
        exact Nat.pow_le_pow_right two_pos (by omega)
      omega
    obtain ⟨total, lowWord⟩ := add_words addends.r.word aligned_word room
    exact sums _ _ lowWord total
  · rw [if_neg same, if_neg same]
    have rWord : rHigh < 2 ^ f.fSize :=
      addends.r.lt.trans_le (Nat.pow_le_pow_right two_pos (Nat.sub_le _ _))
    have alignedWord : alignedHigh < 2 ^ f.fSize := by
      by_contra large
      have bound : (rHigh + 1) * 2 ^ f.fSize ≤ alignedHigh * 2 ^ f.fSize :=
        Nat.mul_le_mul_right _ (by omega)
      have rLowWord := addends.r.word
      rw [Nat.succ_mul] at bound
      omega
    obtain ⟨total, lowWord⟩ := sub_words addends.r.word aligned_word rWord alignedWord least
    obtain ⟨zero, rounds⟩ := differences _ _ lowWord total
    simp only [zero, mul_eq_zero_iff_right unit.ne', div_eq_zero_iff, word.ne', or_false]
    exact rounds _

end Words

section Products

/-- The words of a product are doubled. -/
theorem double_words {q : ℕ} (small : q / 2 ^ f.fSize < 2 ^ (f.fSize - 3)) :
    f.shl (q / 2 ^ f.fSize) 1 ||| (q % 2 ^ f.fSize) >>> (f.fSize - 1) = 2 * q / 2 ^ f.fSize ∧
      f.shl (q % 2 ^ f.fSize) 1 = 2 * q % 2 ^ f.fSize := by
  have split := f.fSize_split
  have large := f.rndSize_large
  have half : 2 ^ f.fSize = 2 * 2 ^ (f.fSize - 1) := by
    rw [f.word_size, f.half_word_size]
  have eighth : 2 ^ f.fSize = 8 * 2 ^ (f.fSize - 3) := by
    rw [show 8 = 2 ^ 3 from rfl, ← Nat.pow_add]
    congr 1
    omega
  have positive := Nat.two_pow_pos f.fSize
  have rest := Nat.mod_lt q positive
  have parts : 2 * q = 2 ^ f.fSize * (2 * (q / 2 ^ f.fSize)) + 2 * (q % 2 ^ f.fSize) := by
    have whole := Nat.div_add_mod q (2 ^ f.fSize)
    rw [Nat.mul_left_comm]
    omega
  have carry : 2 * (q % 2 ^ f.fSize) / 2 ^ f.fSize = q % 2 ^ f.fSize / 2 ^ (f.fSize - 1) := by
    nth_rewrite 2 [half]
    rw [Nat.mul_div_mul_left _ _ two_pos]
  have bit : q % 2 ^ f.fSize / 2 ^ (f.fSize - 1) < 2 ^ 1 := by
    rw [Nat.div_lt_iff_lt_mul (Nat.two_pow_pos _)]
    omega
  have quotient : 2 * q / 2 ^ f.fSize =
      2 * (q / 2 ^ f.fSize) + q % 2 ^ f.fSize / 2 ^ (f.fSize - 1) := by
    rw [parts, Nat.mul_add_div positive, carry]
  constructor
  · rw [quotient, shl_eq f (by omega), Nat.shiftRight_eq_div_pow, ← Nat.shiftLeft_eq,
      ← Nat.shiftLeft_add_eq_or_of_lt bit, Nat.shiftLeft_eq]
    omega
  · rw [shl, wrap, Nat.shiftLeft_eq, pow_one, Nat.mul_comm, Nat.mul_mod_mod]

/-- A product with its leading bit in place, as one number. -/
structure Product (f : Format) (q : ℕ) : Prop where
  low : 2 ^ (f.fSize - 3) * 2 ^ f.fSize ≤ q
  high : q < 2 * 2 ^ (f.fSize - 3) * 2 ^ f.fSize
  fine : 8 ∣ q

/-- The product of two mantissas, with its leading bit in place. -/
theorem product_normalized (aExp bExp : ℤ) {aMant bMant : ℕ}
    (aLow : 2 ^ f.mantSize ≤ aMant) (aHigh : aMant < 2 ^ (f.mantSize + 1))
    (bLow : 2 ^ f.mantSize ≤ bMant) (bHigh : bMant < 2 ^ (f.mantSize + 1)) :
    let words := f.mulU (f.shl aMant f.rndSize) (f.shl bMant f.rndSize)
    let rExp := aExp + bExp - (1 <<< (f.expSize - 1) : ℕ) + 3
    ∃ q e, Product f q ∧
      (if words.1 < 1 <<< (f.fSize - 3) then
          (rExp - 1, f.shl words.1 1 ||| (words.2 >>> (f.fSize - 1)), f.shl words.2 1)
        else (rExp, words.1, words.2)) = (e, q / 2 ^ f.fSize, q % 2 ^ f.fSize) ∧
      f.wordsNumber q e = (aMant : ℚ) * (2 : ℚ) ^ (aExp - f.bias - f.mantSize) *
        (bMant * (2 : ℚ) ^ (bExp - f.bias - f.mantSize)) := by
  intro words rExp
  have split := f.fSize_split
  have large := f.rndSize_large
  have positive := Nat.two_pow_pos f.fSize
  have fits {mant : ℕ} (small : mant < 2 ^ (f.mantSize + 1)) : mant * 2 ^ f.rndSize < 2 ^ f.fSize := by
    calc mant * 2 ^ f.rndSize < 2 ^ (f.mantSize + 1) * 2 ^ f.rndSize :=
          Nat.mul_lt_mul_of_pos_right small (Nat.two_pow_pos _)
      _ ≤ 2 ^ f.fSize := by
          rw [← Nat.pow_add]
          exact Nat.pow_le_pow_right two_pos (by omega)
  have words_eq : words = (aMant * bMant * 2 ^ (2 * f.rndSize) / 2 ^ f.fSize,
      aMant * bMant * 2 ^ (2 * f.rndSize) % 2 ^ f.fSize) := by
    have regroup : aMant * 2 ^ f.rndSize * (bMant * 2 ^ f.rndSize) =
        aMant * bMant * 2 ^ (2 * f.rndSize) := by
      rw [two_mul, Nat.pow_add]
      ring
    simp only [words, mulU, shl_eq f (fits aHigh), shl_eq f (fits bHigh), regroup,
      Nat.shiftRight_eq_div_pow, wrap]
  have low : 2 ^ (f.fSize - 3) * 2 ^ f.fSize ≤ 2 * (aMant * bMant * 2 ^ (2 * f.rndSize)) := by
    calc 2 ^ (f.fSize - 3) * 2 ^ f.fSize = 2 * (2 ^ f.mantSize * 2 ^ f.mantSize * 2 ^ (2 * f.rndSize)) := by
          rw [← Nat.pow_add, ← Nat.pow_add, ← Nat.pow_add, ← Nat.pow_succ']
          congr 1
          omega
      _ ≤ _ := Nat.mul_le_mul_left _ (Nat.mul_le_mul_right _ (Nat.mul_le_mul aLow bLow))
  have high : aMant * bMant * 2 ^ (2 * f.rndSize) < 2 * 2 ^ (f.fSize - 3) * 2 ^ f.fSize := by
    calc aMant * bMant * 2 ^ (2 * f.rndSize) <
          2 ^ (f.mantSize + 1) * 2 ^ (f.mantSize + 1) * 2 ^ (2 * f.rndSize) :=
          Nat.mul_lt_mul_of_pos_right (Nat.mul_lt_mul'' aHigh bHigh) (Nat.two_pow_pos _)
      _ = _ := by
          rw [← Nat.pow_add, ← Nat.pow_add, ← Nat.pow_succ', ← Nat.pow_add]
          congr 1
          omega
  have fine : 8 ∣ aMant * bMant * 2 ^ (2 * f.rndSize) :=
    (Nat.pow_dvd_pow 2 (by omega : 3 ≤ 2 * f.rndSize)).mul_left _
  have number (e : ℤ) (factor : ℕ) (exponents : rExp = e + factor) :
      f.wordsNumber (2 ^ factor * (aMant * bMant * 2 ^ (2 * f.rndSize))) e =
        (aMant : ℚ) * (2 : ℚ) ^ (aExp - f.bias - f.mantSize) *
          (bMant * (2 : ℚ) ^ (bExp - f.bias - f.mantSize)) := by
    have bias := f.bias_shift
    have regroup : ((2 ^ factor * (aMant * bMant * 2 ^ (2 * f.rndSize)) : ℕ) : ℚ) =
        aMant * bMant * 2 ^ (factor + 2 * f.rndSize) := by
      push_cast
      rw [pow_add]
      ring
    rw [wordsNumber, regroup, mul_div_assoc, mul_assoc (aMant * bMant : ℚ), pow_div_mul,
      mul_mul_mul_comm, ← zpow_add₀ two_ne_zero]
    congr 2
    simp only [rExp] at exponents
    omega
  rw [words_eq]
  dsimp only
  rw [Nat.one_shiftLeft]
  by_cases small : aMant * bMant * 2 ^ (2 * f.rndSize) / 2 ^ f.fSize < 2 ^ (f.fSize - 3)
  · obtain ⟨quotient, remainder⟩ := double_words small
    have below := (Nat.div_lt_iff_lt_mul positive).mp small
    use 2 * (aMant * bMant * 2 ^ (2 * f.rndSize)), rExp - 1
    rw [if_pos small, quotient, remainder]
    refine ⟨⟨low, ?_, fine.mul_left _⟩, rfl, number _ 1 (by omega)⟩
    rw [Nat.mul_assoc 2 (2 ^ (f.fSize - 3))]
    omega
  · have above := (Nat.le_div_iff_mul_le positive).mp (not_lt.mp small)
    use aMant * bMant * 2 ^ (2 * f.rndSize), rExp
    rw [if_neg small]
    refine ⟨⟨above, high, fine⟩, rfl, ?_⟩
    have same := number rExp 0 (by omega)
    rwa [Nat.pow_zero, Nat.one_mul] at same

end Products

section Numbers

variable {a b c : f.FUint}

theorem Product.leading {q : ℕ} (product : Product f q) : Leading f (q / 2 ^ f.fSize) (q % 2 ^ f.fSize) := by
  have split := f.fSize_split
  have large := f.rndSize_large
  have positive := Nat.two_pow_pos f.fSize
  have double : 2 ^ (f.fSize - 2) = 2 * 2 ^ (f.fSize - 3) := by
    rw [← Nat.pow_succ']
    congr 1
    omega
  have eight : 8 ∣ 2 ^ f.fSize := Nat.pow_dvd_pow 2 (by omega : 3 ≤ f.fSize)
  refine ⟨Nat.mod_lt _ positive, (Nat.le_div_iff_mul_le positive).mpr product.low, ?_, ?_⟩
  · rw [double]
    exact (Nat.div_lt_iff_lt_mul positive).mpr product.high
  · exact (Nat.dvd_mod_iff eight).mpr product.fine

/-- An addend in the high word. -/
theorem addend_leading {cMant : ℕ} (low : 2 ^ f.mantSize ≤ cMant) (high : cMant < 2 ^ (f.mantSize + 1)) :
    Leading f (cMant * 2 ^ (f.rndSize - 1)) 0 := by
  have split := f.fSize_split
  have large := f.rndSize_large
  constructor
  · exact Nat.two_pow_pos _
  · calc 2 ^ (f.fSize - 3) = 2 ^ f.mantSize * 2 ^ (f.rndSize - 1) := by
          rw [← Nat.pow_add]
          congr 1
          omega
      _ ≤ _ := Nat.mul_le_mul_right _ low
  · calc cMant * 2 ^ (f.rndSize - 1) < 2 ^ (f.mantSize + 1) * 2 ^ (f.rndSize - 1) :=
          Nat.mul_lt_mul_of_pos_right high (Nat.two_pow_pos _)
      _ = 2 ^ (f.fSize - 2) := by
          rw [← Nat.pow_add]
          congr 1
          omega
  · exact dvd_zero 8

theorem addend_number (cMant : ℕ) (cExp : ℤ) :
    (cMant : ℚ) * 2 ^ (cExp - f.bias - f.mantSize) =
      f.wordsNumber (cMant * 2 ^ (f.rndSize - 1) * 2 ^ f.fSize + 0) (cExp + 1) := by
  have split := f.fSize_split
  have large := f.rndSize_large
  have word : (2 : ℚ) ^ f.fSize ≠ 0 := by
    positivity
  rw [wordsNumber, Nat.add_zero]
  push_cast
  rw [mul_div_cancel_right₀ _ word, mul_assoc, ← zpow_natCast, ← zpow_add₀ two_ne_zero]
  congr 2
  omega

/-- The sum of a product and an addend, for numbers where the product is not zero. -/
theorem fmaFinite_delivers (aNonzero : ¬(f.expOf a = 0 ∧ f.mantOf a = 0))
    (bNonzero : ¬(f.expOf b = 0 ∧ f.mantOf b = 0)) :
    f.Delivers rm (sumOutcome rm (f.signOf a ^^ f.signOf b) (f.signOf c) (magnitude ℚ a * magnitude ℚ b)
      (magnitude ℚ c)) fflags (f.fmaFinite a b c rm fflags) := by
  obtain ⟨aLow, aHigh, aNumber⟩ := withLeadingBit_spec (K := ℚ) aNonzero
  obtain ⟨bLow, bHigh, bNumber⟩ := withLeadingBit_spec (K := ℚ) bNonzero
  rw [fmaFinite, aNumber, bNumber]
  generalize f.withLeadingBit (f.expOf a) (f.mantOf a) = aLeading at *
  generalize f.withLeadingBit (f.expOf b) (f.mantOf b) = bLeading at *
  obtain ⟨aExp, aMant⟩ := aLeading
  obtain ⟨bExp, bMant⟩ := bLeading
  dsimp only at *
  obtain ⟨q, e, product, code, number⟩ := product_normalized aExp bExp aLow aHigh
    bLow bHigh
  have split := f.fSize_split
  have large := f.rndSize_large
  have word := Nat.two_pow_pos f.fSize
  have leading := product.leading
  have parts : q = q / 2 ^ f.fSize * 2 ^ f.fSize + q % 2 ^ f.fSize := by
    rw [Nat.mul_comm, Nat.div_add_mod]
  rw [code, ← number]
  dsimp only
  by_cases cZero : f.expOf c = 0 ∧ f.mantOf c = 0
  · have nonneg := f.wordsNumber_nonneg q e
    rw [if_pos cZero, (magnitude_eq_zero (K := ℚ) c).mpr cZero,
      sumOutcome_swapped nonneg le_rfl nonneg, sub_zero, add_zero]
    have some : f.wordsNumber q e ≠ 0 := by
      have positive : 0 < q := (Nat.mul_pos (Nat.two_pow_pos _) word).trans_le product.low
      rw [wordsNumber]
      positivity
    have same := stick_sameSide (K := ℚ) q word
    have double : 2 * 2 ^ (f.fSize - 3) ≤ 2 ^ (f.fSize - 1) := by
      rw [← Nat.pow_succ']
      exact Nat.pow_le_pow_right two_pos (by omega)
    have atLeast := (Nat.pow_le_pow_right two_pos (by omega : f.mantSize + 2 ≤ f.fSize - 3)).trans
      (le_stick word product.low)
    push_cast at same
    rw [if_neg some, ite_self]
    exact normalize_sticky _ rm fflags same atLeast ((stick_lt word product.high).trans_le double)
  · obtain ⟨cLow, cHigh, cNumber⟩ := withLeadingBit_spec (K := ℚ) cZero
    rw [if_neg cZero, cNumber]
    generalize f.withLeadingBit (f.expOf c) (f.mantOf c) = cLeading at *
    obtain ⟨cExp, cMant⟩ := cLeading
    dsimp only at *
    have cLeading := addend_leading cLow cHigh
    have fits : cMant * 2 ^ (f.rndSize - 1) < 2 ^ f.fSize :=
      cLeading.lt.trans_le (Nat.pow_le_pow_right two_pos (Nat.sub_le _ _))
    rw [shl_eq f fits, addend_number]
    by_cases order : cExp + 1 < e ∨ e = cExp + 1 ∧ cMant * 2 ^ (f.rndSize - 1) ≤ q / 2 ^ f.fSize
    · rw [if_neg (not_not.mpr order)]
      nth_rewrite 1 [parts]
      apply addWords_delivers
      · refine ⟨leading, cLeading, .inr rfl, fun same => ?_⟩
        have highs : cMant * 2 ^ (f.rndSize - 1) ≤ q / 2 ^ f.fSize := by
          omega
        have scaled := Nat.mul_le_mul_right (2 ^ f.fSize) highs
        omega
      · omega
    · rw [if_pos order, sumOutcome_comm]
      nth_rewrite 1 [parts]
      apply addWords_delivers
      · refine ⟨cLeading, leading, .inl rfl, fun same => ?_⟩
        have highs : q / 2 ^ f.fSize < cMant * 2 ^ (f.rndSize - 1) := by
          omega
        have scaled := Nat.mul_le_mul_right (2 ^ f.fSize) (Nat.succ_le_of_lt highs)
        have rest := Nat.mod_lt q word
        rw [Nat.succ_mul] at scaled
        omega
      · omega

/-- The sum of a product and an addend, for numbers. -/
theorem fma_numbers (aFinite : f.expOf a ≠ f.expMask) (bFinite : f.expOf b ≠ f.expMask)
    (cFinite : f.expOf c ≠ f.expMask) :
    f.Delivers rm (sumOutcome rm (f.signOf a ^^ f.signOf b) (f.signOf c) (magnitude ℚ a * magnitude ℚ b)
      (magnitude ℚ c)) fflags (f.fma a b c rm fflags) := by
  have zero := magnitude_eq_zero (K := ℚ) a
  have zero' := magnitude_eq_zero (K := ℚ) b
  rw [fma]
  simp only [aFinite, bFinite, cFinite, or_self, if_false]
  by_cases empty : (f.expOf a = 0 ∧ f.mantOf a = 0) ∨ (f.expOf b = 0 ∧ f.mantOf b = 0)
  · have product : magnitude ℚ a * magnitude ℚ b = 0 := by
      rw [mul_eq_zero, zero, zero']
      exact empty
    have nonneg := magnitude_nonneg (K := ℚ) c
    rw [if_pos empty, product, sumOutcome_comm, sumOutcome_swapped nonneg le_rfl nonneg, sub_zero,
      add_zero]
    by_cases cZero : f.expOf c = 0 ∧ f.mantOf c = 0
    · rw [if_pos cZero, (magnitude_eq_zero (K := ℚ) c).mpr cZero, if_pos rfl]
      by_cases same : f.signOf c = (f.signOf a ^^ f.signOf b)
      · rw [if_pos same, if_neg (not_not.mpr same), same]
        exact rounds_zero _ rm fflags
      · rw [if_neg same, if_pos same]
        exact rounds_zero _ rm fflags
    · have some := mt (magnitude_eq_zero (K := ℚ) c).mp cZero
      rw [if_neg cZero, if_neg some, ite_self]
      exact rounds_self cFinite rm fflags
  · rw [if_neg empty]
    exact fmaFinite_delivers rm fflags (fun none => empty (.inl none)) (fun none => empty (.inr none))

end Numbers

section Special

variable {a b c : f.FUint}

/-- The product of an infinity and a zero. -/
abbrev InfinityTimesZero (a b : f.FUint) : Prop :=
  (f.expOf a = f.expMask ∧ f.mantOf a = 0) ∧ (f.expOf b = 0 ∧ f.mantOf b = 0) ∨
    (f.expOf b = f.expMask ∧ f.mantOf b = 0) ∧ (f.expOf a = 0 ∧ f.mantOf a = 0)

theorem isSignaling_datum (c : f.FUint) : (datum ℚ c).isSignaling = f.isSigNan c := by
  rcases classes (K := ℚ) c with ⟨-, -, -, cDatum⟩ | ⟨-, -, -, cSig, cDatum⟩ | ⟨-, -, cSig, cDatum⟩
  · rw [cDatum]
    rfl
  · rw [cDatum, cSig]
    rfl
  · rw [cDatum, cSig]
    rfl

theorem fma_invalid (invalid : InfinityTimesZero a b) :
    f.Delivers rm (.invalid : Outcome ℚ) fflags (f.fma a b c rm fflags) := by
  have special : f.expOf a = f.expMask ∨ f.expOf b = f.expMask ∨ f.expOf c = f.expMask := by
    rcases invalid with ⟨⟨aLast, -⟩, -⟩ | ⟨⟨bLast, -⟩, -⟩
    · exact .inl aLast
    · exact .inr (.inl bLast)
  rw [fma]
  rw [if_pos special, if_pos invalid]
  rfl

theorem fma_nan (nan : f.isNan a = true ∨ f.isNan b = true) (valid : ¬InfinityTimesZero a b) :
    f.Delivers rm (nanOutcome (f.isSigNan a || f.isSigNan b || (datum ℚ c).isSignaling) : Outcome ℚ)
      fflags (f.fma a b c rm fflags) := by
  have special : f.expOf a = f.expMask ∨ f.expOf b = f.expMask ∨ f.expOf c = f.expMask := by
    rcases nan with aNan | bNan
    · exact .inl ((isNan_iff a).mp aNan).1
    · exact .inr (.inl ((isNan_iff b).mp bNan).1)
  have any : f.isNan a = true ∨ f.isNan b = true ∨ f.isNan c = true := by
    rw [← or_assoc]
    exact .inl nan
  rw [fma, isSignaling_datum]
  rw [if_pos special, if_neg valid, if_pos any]
  cases f.isSigNan a <;> cases f.isSigNan b <;> cases f.isSigNan c <;> rfl

theorem fma_infinite (infinite : f.expOf a = f.expMask ∨ f.expOf b = f.expMask)
    (aNumber : f.isNan a = false ∧ f.isSigNan a = false)
    (bNumber : f.isNan b = false ∧ f.isSigNan b = false) (valid : ¬InfinityTimesZero a b) :
    f.Delivers rm (infiniteOutcome (f.signOf a ^^ f.signOf b) (datum ℚ c)) fflags
      (f.fma a b c rm fflags) := by
  have special : f.expOf a = f.expMask ∨ f.expOf b = f.expMask ∨ f.expOf c = f.expMask := by
    rw [← or_assoc]
    exact .inl infinite
  rw [fma]
  rw [if_pos special, if_neg valid, aNumber.1, aNumber.2, bNumber.1, bNumber.2]
  rcases classes (K := ℚ) c with ⟨-, -, cNan, cDatum⟩ | ⟨cLast, -, cNan, cSig, cDatum⟩ |
      ⟨cFinite, cNan, cSig, cDatum⟩
  · rw [cDatum, infiniteOutcome]
    cases sig : f.isSigNan c <;> simp [nanOutcome, Delivers, cNan]
  · rw [cDatum, infiniteOutcome]
    by_cases same : (f.signOf a ^^ f.signOf b) = f.signOf c <;>
      simp [Delivers, cNan, cLast, infinite, same]
  · rw [cDatum, infiniteOutcome]
    simp [Delivers, cNan, cFinite]

theorem fma_finite (aFinite : f.expOf a ≠ f.expMask) (bFinite : f.expOf b ≠ f.expMask)
    (aNumber : f.isNan a = false ∧ f.isSigNan a = false)
    (bNumber : f.isNan b = false ∧ f.isSigNan b = false)
    (aDatum : datum ℚ a = .number (f.signOf a) (magnitude ℚ a))
    (bDatum : datum ℚ b = .number (f.signOf b) (magnitude ℚ b)) :
    f.Delivers rm (fmaOutcome rm (datum ℚ a) (datum ℚ b) (datum ℚ c)) fflags
      (f.fma a b c rm fflags) := by
  rw [aDatum, bDatum]
  rcases classes (K := ℚ) c with ⟨cLast, -, cNan, cDatum⟩ | ⟨cLast, cMant, cNan, cSig, cDatum⟩ |
      ⟨cFinite, -, -, cDatum⟩
  · rw [cDatum, fmaOutcome]
    cases sig : f.isSigNan c <;> simp [fma, nanOutcome, Delivers, *]
  · rw [cDatum, fmaOutcome]
    simp [fma, Delivers, *]
  · rw [cDatum]
    exact fma_numbers rm fflags aFinite bFinite cFinite

end Special

/-- The sum of the exact product and the addend is rounded once. -/
theorem fma_delivers (a b c : f.FUint) :
    f.Delivers rm (fmaOutcome rm (datum ℚ a) (datum ℚ b) (datum ℚ c)) fflags (f.fma a b c rm fflags) := by
  have large := f.expMask_large
  have zero := magnitude_eq_zero (K := ℚ) a
  have zero' := magnitude_eq_zero (K := ℚ) b
  rcases classes (K := ℚ) a with ⟨aLast, aMant, aNan, aDatum⟩ | ⟨aLast, aMant, aNan, aSig, aDatum⟩ |
      ⟨aFinite, aNan, aSig, aDatum⟩ <;>
    rcases classes (K := ℚ) b with ⟨bLast, bMant, bNan, bDatum⟩ | ⟨bLast, bMant, bNan, bSig, bDatum⟩ |
      ⟨bFinite, bNan, bSig, bDatum⟩
  · have rounded := fma_nan rm fflags (c := c) (.inl aNan) (b := b) (by rw [InfinityTimesZero]; omega)
    rwa [aDatum, bDatum]
  · have rounded := fma_nan rm fflags (c := c) (.inl aNan) (b := b) (by rw [InfinityTimesZero]; omega)
    rw [bSig, Bool.or_false] at rounded
    rwa [aDatum, bDatum]
  · have rounded := fma_nan rm fflags (c := c) (.inl aNan) (b := b) (by rw [InfinityTimesZero]; omega)
    rw [bSig, Bool.or_false] at rounded
    rwa [aDatum, bDatum]
  · have rounded := fma_nan rm fflags (c := c) (a := a) (.inr bNan) (by rw [InfinityTimesZero]; omega)
    rw [aSig, Bool.false_or] at rounded
    rwa [aDatum, bDatum]
  · rw [aDatum, bDatum]
    exact fma_infinite rm fflags (.inl aLast) ⟨aNan, aSig⟩ ⟨bNan, bSig⟩ (by rw [InfinityTimesZero]; omega)
  · rw [aDatum, bDatum, fmaOutcome]
    by_cases bZero : f.expOf b = 0 ∧ f.mantOf b = 0
    · rw [if_pos (zero'.mpr bZero)]
      exact fma_invalid rm fflags (.inl ⟨⟨aLast, aMant⟩, bZero⟩)
    · rw [if_neg (mt zero'.mp bZero)]
      exact fma_infinite rm fflags (.inl aLast) ⟨aNan, aSig⟩ ⟨bNan, bSig⟩ (by
        rw [InfinityTimesZero]
        omega)
  · have rounded := fma_nan rm fflags (c := c) (a := a) (.inr bNan) (by rw [InfinityTimesZero]; omega)
    rw [aSig, Bool.false_or] at rounded
    rwa [aDatum, bDatum]
  · rw [aDatum, bDatum, fmaOutcome]
    by_cases aZero : f.expOf a = 0 ∧ f.mantOf a = 0
    · rw [if_pos (zero.mpr aZero)]
      exact fma_invalid rm fflags (.inr ⟨⟨bLast, bMant⟩, aZero⟩)
    · rw [if_neg (mt zero.mp aZero)]
      exact fma_infinite rm fflags (.inr bLast) ⟨aNan, aSig⟩ ⟨bNan, bSig⟩ (by
        rw [InfinityTimesZero]
        omega)
  · exact fma_finite rm fflags aFinite bFinite ⟨aNan, aSig⟩ ⟨bNan, bSig⟩ aDatum bDatum

end MachineEmulator.SoftFloat.Format
