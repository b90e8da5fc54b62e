/-
This file proves that sums are rounded correctly.
-/

import MachineEmulator.Proof.SoftFloat.Standard
import Mathlib.Data.Nat.Bitwise

namespace MachineEmulator.SoftFloat.Format

open Rounding

variable {f : Format} (rm : FrmMode) (fflags : Flags)

section Mantissas

/-- A shift by few bits loses nothing. -/
theorem aligned_exact {distance : ℕ} (near : distance ≤ 3) (bMant : ℕ) :
    stick (8 * bMant) (2 ^ distance) = 2 ^ (3 - distance) * bMant := by
  have eight : 8 * bMant = 2 ^ distance * (2 ^ (3 - distance) * bMant) := by
    rw [← Nat.mul_assoc, ← Nat.pow_add, Nat.add_sub_cancel' near]
  rw [eight, stick, Nat.mul_div_cancel_left _ (Nat.two_pow_pos _), Nat.mul_mod_right]
  simp

/-- The quotient of a shift by few bits is exact. -/
theorem aligned_quotient {distance : ℕ} (near : distance ≤ 3) (bMant : ℕ) :
    ((8 * bMant : ℕ) : ℚ) / (2 ^ distance : ℕ) = stick (8 * bMant) (2 ^ distance) := by
  rw [aligned_exact near, div_eq_iff (by positivity), ← Nat.cast_mul, Nat.cast_inj, Nat.mul_right_comm,
    ← Nat.pow_add, Nat.sub_add_cancel near]

/-- A magnitude near the sum or the difference is rounded, as nothing is lost where it is small. -/
theorem normalize_near (aSign : Bool) {distance total : ℕ} {x : ℚ} (small : total < 2 ^ (f.fSize - 1))
    (same : SameSide (2 : ℚ) x total) (near : distance ≤ 3 → x = total)
    (far : 3 < distance → 2 ^ (f.mantSize + 2) ≤ total) (e : ℤ) :
    f.Rounds rm aSign (x * 2 ^ (e - f.bias - (f.fSize - 2 : ℕ))) fflags
      (f.normalize aSign e total rm fflags) := by
  rcases Nat.lt_or_ge 3 (distance) with apart | close
  · exact normalize_sticky aSign rm fflags same (far apart) small
  · rw [near close]
    by_cases zero : total = 0
    · rw [zero, Nat.cast_zero, zero_mul]
      exact normalize_zero aSign rm fflags
    · exact normalize_exact aSign rm fflags zero small

/-- Two mantissas in the order of their magnitudes, with the exponents that go with them. -/
structure Ordered (f : Format) (aExp bExp : ℕ) (aMant bMant : ℕ) : Prop where
  exps : bExp ≤ aExp
  a_lt : aMant < 2 ^ (f.mantSize + 1)
  b_lt : bMant < 2 ^ (f.mantSize + 1)
  b_pos : 0 < bExp
  normal : 1 < aExp → 2 ^ f.mantSize ≤ aMant
  mants : aExp = bExp → bMant ≤ aMant

variable {aExp bExp aMant bMant : ℕ} (ordered : Ordered f aExp bExp aMant bMant)
include ordered

/-- The second mantissa, with three more bits, in the place that it has for the first one. -/
theorem aligned_eq :
    f.mantRshiftRnd (8 * bMant) ((aExp : ℤ) - bExp) = stick (8 * bMant) (2 ^ (aExp - bExp)) := by
  have split := f.fSize_split
  have large := f.rndSize_large
  have small : 8 * bMant < 2 ^ f.fSize := by
    calc 8 * bMant < 2 ^ 3 * 2 ^ (f.mantSize + 1) := by
          have bound := ordered.b_lt
          omega
      _ ≤ 2 ^ f.fSize := by
          rw [← Nat.pow_add]
          exact Nat.pow_le_pow_right two_pos (by omega)
  have count : ((aExp : ℤ) - bExp).toNat = aExp - bExp := by
    omega
  rw [mantRshiftRnd_eq small, count]

/-- A shift by many bits leaves less than an eighth. -/
theorem aligned_far (far : 3 < aExp - bExp) :
    stick (8 * bMant) (2 ^ (aExp - bExp)) ≤ 2 ^ f.mantSize := by
  have double : 2 ^ (f.mantSize + 1) = 2 * 2 ^ f.mantSize := Nat.pow_succ'
  have bound := ordered.b_lt
  have bounds := stick_bounds (8 * bMant) (2 ^ (aExp - bExp))
  have sixteenth : 8 * bMant / 2 ^ (aExp - bExp) ≤ 8 * bMant / 2 ^ 4 :=
    Nat.div_le_div_left (Nat.pow_le_pow_right two_pos far) (by omega)
  omega

/-- The second mantissa is never above the first one. -/
theorem aligned_le : stick (8 * bMant) (2 ^ (aExp - bExp)) ≤ 8 * aMant := by
  have double : 2 ^ (f.mantSize + 1) = 2 * 2 ^ f.mantSize := Nat.pow_succ'
  have bound := ordered.b_lt
  have exps := ordered.exps
  rcases Nat.eq_zero_or_pos (aExp - bExp) with same | apart
  · have mants := ordered.mants (by omega)
    rw [aligned_exact (by omega), same]
    omega
  · have normal := ordered.normal (by have positive := ordered.b_pos; omega)
    have bounds := stick_bounds (8 * bMant) (2 ^ (aExp - bExp))
    have half : 8 * bMant / 2 ^ (aExp - bExp) ≤ 8 * bMant / 2 ^ 1 :=
      Nat.div_le_div_left (Nat.pow_le_pow_right two_pos apart) (by omega)
    omega

/-- The first mantissa in units of its last bit with three more bits. -/
theorem unit_eq (aMant bMant : ℕ) :
    (aMant : ℚ) * (2 : ℚ) ^ ((aExp : ℤ) - f.bias - f.mantSize) =
        (8 * aMant : ℕ) * (2 : ℚ) ^ (aExp + (f.rndSize - 3 : ℕ) - f.bias - (f.fSize - 2 : ℕ)) ∧
      (bMant : ℚ) * (2 : ℚ) ^ ((bExp : ℤ) - f.bias - f.mantSize) =
        (8 * bMant : ℕ) / (2 ^ (aExp - bExp) : ℕ) *
          (2 : ℚ) ^ (aExp + (f.rndSize - 3 : ℕ) - f.bias - (f.fSize - 2 : ℕ)) := by
  have split := f.fSize_split
  have large := f.rndSize_large
  have exps := ordered.exps
  have eight : (8 : ℚ) = 2 ^ 3 := by
    norm_num
  constructor
  · push_cast
    rw [mul_comm (8 : ℚ), mul_assoc, eight, ← zpow_natCast, ← zpow_add₀ two_ne_zero]
    congr 2
    omega
  · push_cast
    rw [mul_comm (8 : ℚ), mul_div_assoc, mul_assoc, eight, pow_div_mul]
    congr 2
    omega

variable (aSign : Bool)

theorem add_mantissas :
    f.Rounds rm aSign ((aMant : ℚ) * (2 : ℚ) ^ ((aExp : ℤ) - f.bias - f.mantSize) +
        bMant * (2 : ℚ) ^ ((bExp : ℤ) - f.bias - f.mantSize)) fflags
      (f.normalize aSign (aExp + (f.rndSize - 3 : ℕ))
        (f.wrap (8 * aMant + f.mantRshiftRnd (8 * bMant) ((aExp : ℤ) - bExp))) rm fflags) := by
  have split := f.fSize_split
  have large := f.rndSize_large
  have bound := ordered.a_lt
  have positive := ordered.b_pos
  have least := aligned_le ordered
  have quarter : 2 ^ (f.mantSize + 2) = 4 * 2 ^ f.mantSize := by
    rw [Nat.pow_add, Nat.mul_comm]
  have room : 16 * 2 ^ (f.mantSize + 1) ≤ 2 ^ (f.fSize - 1) := by
    have sixteen : 16 = 2 ^ 4 := rfl
    rw [sixteen, ← Nat.pow_add]
    exact Nat.pow_le_pow_right two_pos (by omega)
  have word : 2 ^ (f.fSize - 1) ≤ 2 ^ f.fSize := Nat.pow_le_pow_right two_pos (by omega)
  obtain ⟨aUnit, bUnit⟩ := unit_eq ordered aMant bMant
  have same := (stick_sameSide (K := ℚ) (8 * bMant) (Nat.two_pow_pos (aExp - bExp))).add (4 * aMant : ℕ)
  have doubled : (((4 * aMant : ℕ) : ℤ) : ℚ) * 2 = (8 * aMant : ℕ) := by
    push_cast
    ring
  rw [doubled, ← Nat.cast_add] at same
  rw [aligned_eq ordered, wrap_eq f (by omega), aUnit, bUnit, ← add_mul]
  apply normalize_near rm fflags aSign (by omega) same
  · intro near
    rw [aligned_quotient near]
    push_cast
    ring
  · intro far
    have normal := ordered.normal (by omega)
    omega

theorem sub_mantissas :
    let total := f.wrap (8 * aMant + 2 ^ f.fSize - f.mantRshiftRnd (8 * bMant) ((aExp : ℤ) - bExp))
    (total = 0 ↔ (aMant : ℚ) * (2 : ℚ) ^ ((aExp : ℤ) - f.bias - f.mantSize) -
        bMant * (2 : ℚ) ^ ((bExp : ℤ) - f.bias - f.mantSize) = 0) ∧
      ∀ sign, f.Rounds rm sign ((aMant : ℚ) * (2 : ℚ) ^ ((aExp : ℤ) - f.bias - f.mantSize) -
          bMant * (2 : ℚ) ^ ((bExp : ℤ) - f.bias - f.mantSize)) fflags
        (f.normalize sign (aExp + (f.rndSize - 3 : ℕ)) total rm fflags) := by
  intro total
  have split := f.fSize_split
  have large := f.rndSize_large
  have bound := ordered.a_lt
  have positive := ordered.b_pos
  have least := aligned_le ordered
  have quarter : 2 ^ (f.mantSize + 2) = 4 * 2 ^ f.mantSize := by
    rw [Nat.pow_add, Nat.mul_comm]
  have room : 16 * 2 ^ (f.mantSize + 1) ≤ 2 ^ (f.fSize - 1) := by
    have sixteen : 16 = 2 ^ 4 := rfl
    rw [sixteen, ← Nat.pow_add]
    exact Nat.pow_le_pow_right two_pos (by omega)
  have word : 2 ^ (f.fSize - 1) ≤ 2 ^ f.fSize := Nat.pow_le_pow_right two_pos (by omega)
  have total_eq : total = 8 * aMant - stick (8 * bMant) (2 ^ (aExp - bExp)) := by
    have moved : 8 * aMant + 2 ^ f.fSize - stick (8 * bMant) (2 ^ (aExp - bExp)) =
        8 * aMant - stick (8 * bMant) (2 ^ (aExp - bExp)) + 2 ^ f.fSize := by
      omega
    simp only [total]
    rw [aligned_eq ordered, moved, wrap, Nat.add_mod_right]
    exact Nat.mod_eq_of_lt (by omega)
  obtain ⟨aUnit, bUnit⟩ := unit_eq ordered aMant bMant
  have power : (2 : ℚ) ^ (aExp + (f.rndSize - 3 : ℕ) - f.bias - (f.fSize - 2 : ℕ)) ≠ 0 :=
    zpow_ne_zero _ two_ne_zero
  have same := (stick_sameSide (K := ℚ) (8 * bMant) (Nat.two_pow_pos (aExp - bExp))).neg.add
    (4 * aMant : ℕ)
  have doubled : (((4 * aMant : ℕ) : ℤ) : ℚ) * 2 = (8 * aMant : ℕ) := by
    push_cast
    ring
  rw [doubled, ← sub_eq_add_neg, ← sub_eq_add_neg, ← Nat.cast_sub least, ← total_eq] at same
  rw [aUnit, bUnit, ← sub_mul, mul_eq_zero_iff_right power]
  constructor
  · have at_zero := same.eq_iff 0
    rw [Int.cast_zero, zero_mul, Nat.cast_eq_zero] at at_zero
    exact at_zero.symm
  · intro sign
    apply normalize_near rm fflags sign (by omega) same
    · intro near
      rw [aligned_quotient near, total_eq, Nat.cast_sub least]
    · intro far
      have normal := ordered.normal (by omega)
      have small := aligned_far ordered far
      omega

end Mantissas

section Sums

theorem shl_three (a : f.FUint) : f.shl (f.mantOf a) 3 = f.mantOf a <<< 3 := by
  have split := f.fSize_split
  have large := f.rndSize_large
  have bound := mantOf_lt a
  have fits : f.mantOf a * 2 ^ 3 < 2 ^ f.fSize := by
    calc f.mantOf a * 2 ^ 3 < 2 ^ f.mantSize * 2 ^ 3 := Nat.mul_lt_mul_of_pos_right bound (by omega)
      _ ≤ 2 ^ f.fSize := by
          rw [← Nat.pow_add]
          exact Nat.pow_le_pow_right two_pos (by omega)
  rw [shl_eq f fits, Nat.shiftLeft_eq]

theorem shl_three_eq_zero (a : f.FUint) : f.shl (f.mantOf a) 3 = 0 ↔ f.mantOf a = 0 := by
  rw [shl_three, Nat.shiftLeft_eq]
  omega

/-- The quiet bit of a NaN whose mantissa has three more bits. -/
theorem quiet_bit {a : f.FUint} (last : f.expOf a = f.expMask) (nan : f.mantOf a ≠ 0) :
    f.shl (f.mantOf a) 3 &&& (f.qnanMask <<< 3) = 0 ↔ f.isSigNan a = true := by
  have positive := Nat.two_pow_pos (f.mantSize - 1)
  rw [isSigNan_eq, shl_three, ← Nat.shiftLeft_and_distrib, qnanMask, Nat.one_shiftLeft, Nat.and_two_pow,
    Nat.shiftLeft_eq]
  cases (f.mantOf a).testBit (f.mantSize - 1) <;> simp [last, nan]

/-- The larger of two words, by the bits without the signs, comes first. -/
def Swapped (a b : f.FUint) : Prop :=
  f.expOf b * 2 ^ f.mantSize + f.mantOf b ≤ f.expOf a * 2 ^ f.mantSize + f.mantOf a

variable {a b : f.FUint} (swapped : Swapped a b)
include swapped

theorem swapped_fields :
    f.expOf b ≤ f.expOf a ∧ (f.expOf a = f.expOf b → f.mantOf b ≤ f.mantOf a) := by
  rw [Swapped] at swapped
  have aMant := mantOf_lt a
  have bMant := mantOf_lt b
  constructor
  · by_contra less
    have above : (f.expOf a + 1) * 2 ^ f.mantSize ≤ f.expOf b * 2 ^ f.mantSize :=
      Nat.mul_le_mul_right _ (by omega)
    rw [Nat.succ_mul] at above
    omega
  · intro same
    rw [same] at swapped
    omega

theorem swapped_ordered : Ordered f (effective a).1 (effective b).1 (effective a).2 (effective b).2 := by
  obtain ⟨exps, mants⟩ := swapped_fields swapped
  obtain ⟨aPos, aLt, aNormal⟩ := effective_bounds a
  obtain ⟨bPos, bLt, -⟩ := effective_bounds b
  have bMant := mantOf_lt b
  refine ⟨?_, aLt, bLt, bPos, aNormal, ?_⟩
  · rw [effective, effective]
    split <;> split <;> dsimp only <;> omega
  · rw [effective, effective]
    split <;> split <;> dsimp only <;> omega

theorem swapped_magnitude : magnitude ℚ b ≤ magnitude ℚ a := by
  have ordered := swapped_ordered swapped
  have same := stick_sameSide (K := ℚ) (8 * (effective b).2)
    (Nat.two_pow_pos ((effective a).1 - (effective b).1))
  have least := (same.ge_iff (4 * (effective a).2 : ℕ)).mpr (by
    have doubled : (((4 * (effective a).2 : ℕ) : ℤ) : ℚ) * 2 = (8 * (effective a).2 : ℕ) := by
      push_cast
      ring
    rw [doubled]
    exact Nat.cast_le.mpr (aligned_le ordered))
  obtain ⟨aUnit, bUnit⟩ := unit_eq ordered (effective a).2 (effective b).2
  rw [magnitude_effective a, magnitude_effective b, aUnit, bUnit]
  apply mul_le_mul_of_nonneg_right _ (zpow_pos two_pos _).le
  refine least.trans_eq ?_
  push_cast
  ring

theorem addOrdered_numbers (aFinite : f.expOf a ≠ f.expMask) :
    f.Delivers rm (sumOutcome rm (f.signOf a) (f.signOf b) (magnitude ℚ a) (magnitude ℚ b)) fflags
      (f.addOrdered a b rm fflags) := by
  have large := f.rndSize_large
  have ordered := swapped_ordered swapped
  have code := effective_shl a (by omega : 3 ≤ f.rndSize)
  have code' := effective_shl b (by omega : 3 ≤ f.rndSize)
  rw [sumOutcome_swapped (magnitude_nonneg a) (magnitude_nonneg b) (swapped_magnitude swapped),
    addOrdered, magnitude_effective a, magnitude_effective b]
  dsimp only
  rw [if_neg aFinite, code, code']
  by_cases same : f.signOf a = f.signOf b
  · rw [if_pos same, if_pos same]
    exact add_mantissas rm fflags ordered (f.signOf a)
  · obtain ⟨zero, rounds⟩ := sub_mantissas rm fflags ordered
    rw [if_neg same, if_neg same]
    simp only [← zero]
    exact rounds _

theorem addOrdered_delivers :
    f.Delivers rm (addOutcome rm (datum ℚ a) (datum ℚ b)) fflags (f.addOrdered a b rm fflags) := by
  obtain ⟨exps, mants⟩ := swapped_fields swapped
  have aLe := expOf_le a
  have bLe := expOf_le b
  have shifted := shl_three_eq_zero a
  have clear : f.shl 0 3 = 0 := by
    rw [shl, wrap, Nat.zero_shiftLeft, Nat.zero_mod]
  have word := pack_fields a
  rcases classes (K := ℚ) a with ⟨aLast, aMant, aNan, aDatum⟩ | ⟨aLast, aMant, aNan, aSig, aDatum⟩ |
      ⟨aFinite, aNan, aSig, aDatum⟩ <;>
    rcases classes (K := ℚ) b with ⟨bLast, bMant, bNan, bDatum⟩ | ⟨bLast, bMant, bNan, bSig, bDatum⟩ |
      ⟨bFinite, bNan, bSig, bDatum⟩ <;>
    rw [aDatum, bDatum]
  · have quiet := quiet_bit aLast aMant
    cases sig : f.isSigNan a <;> cases sig' : f.isSigNan b <;>
      simp [addOrdered, addOutcome, nanOutcome, Delivers, *]
  · have quiet := quiet_bit aLast aMant
    cases sig : f.isSigNan a <;> simp [addOrdered, addOutcome, nanOutcome, Delivers, *]
  · have quiet := quiet_bit aLast aMant
    cases sig : f.isSigNan a <;> simp [addOrdered, addOutcome, nanOutcome, Delivers, *]
  · have none := mants (aLast.trans bLast.symm)
    omega
  · rw [aLast, aMant] at word
    by_cases same : f.signOf a = f.signOf b
    · rw [same] at word
      simp [addOrdered, addOutcome, Delivers, *]
    · simp [addOrdered, addOutcome, Delivers, *]
  · rw [aLast, aMant] at word
    simp [addOrdered, addOutcome, Delivers, *]
  · omega
  · omega
  · exact addOrdered_numbers rm fflags swapped aFinite

end Sums

/-- The sum is the rounding of the exact sum. -/
theorem add_delivers (a b : f.FUint) :
    f.Delivers rm (addOutcome rm (datum ℚ a) (datum ℚ b)) fflags (f.add a b rm fflags) := by
  rw [add]
  split
  · rename_i less
    rw [BitVec.lt_def, abs_eq, abs_eq] at less
    rw [addOutcome_comm]
    exact addOrdered_delivers rm fflags less.le
  · rename_i less
    rw [BitVec.lt_def, abs_eq, abs_eq, not_lt] at less
    exact addOrdered_delivers rm fflags less

end MachineEmulator.SoftFloat.Format
