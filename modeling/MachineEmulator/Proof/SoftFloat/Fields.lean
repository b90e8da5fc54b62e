/-
This file relates the fields of a floating-point word to the number that it stands for.
-/

import MachineEmulator.Construction.SoftFloat.Arithmetic
import MachineEmulator.Library.Rounding

namespace MachineEmulator.SoftFloat.Format

open Rounding

variable (f : Format)

section Sizes

theorem rndSize_eq : f.rndSize = f.expSize - 1 := by
  have fields := f.fields
  rw [rndSize, imantSize]
  omega

theorem expMask_eq : f.expMask = 2 ^ f.expSize - 1 := by
  rw [expMask, Nat.one_shiftLeft]

theorem mantMask_eq : f.mantMask = 2 ^ f.mantSize - 1 := by
  rw [mantMask, Nat.one_shiftLeft]

theorem and_mantMask (value : Nat) : value &&& f.mantMask = value % 2 ^ f.mantSize := by
  rw [mantMask_eq, Nat.and_two_pow_sub_one_eq_mod]

theorem and_expMask (value : Nat) : value &&& f.expMask = value % 2 ^ f.expSize := by
  rw [expMask_eq, Nat.and_two_pow_sub_one_eq_mod]

/-- A word is twice the exponents times the mantissas. -/
theorem word_size : 2 ^ f.fSize = 2 * (2 ^ f.expSize * 2 ^ f.mantSize) := by
  rw [f.fields, Nat.pow_add, Nat.pow_add, Nat.mul_assoc, pow_one]

theorem half_word_size : 2 ^ (f.fSize - 1) = 2 ^ f.expSize * 2 ^ f.mantSize := by
  have sizes : f.fSize - 1 = f.expSize + f.mantSize := by
    have fields := f.fields
    omega
  rw [sizes, Nat.pow_add]

theorem shl_eq {value count : Nat} (small : value * 2 ^ count < 2 ^ f.fSize) :
    f.shl value count = value * 2 ^ count := by
  rw [shl, wrap, Nat.shiftLeft_eq, Nat.mod_eq_of_lt small]

theorem wrap_eq {value : Nat} (small : value < 2 ^ f.fSize) : f.wrap value = value :=
  Nat.mod_eq_of_lt small

end Sizes

section Fields

variable {f} (a : f.FUint)

theorem mantOf_eq : f.mantOf a = a.toNat % 2 ^ f.mantSize := f.and_mantMask _

theorem expOf_eq : f.expOf a = a.toNat / 2 ^ f.mantSize % 2 ^ f.expSize := by
  rw [expOf, and_expMask, Nat.shiftRight_eq_div_pow]

theorem signOf_eq : f.signOf a = decide (2 ^ (f.fSize - 1) ≤ a.toNat) := by
  have bound : a.toNat / 2 ^ (f.fSize - 1) ≠ 0 ↔ 2 ^ (f.fSize - 1) ≤ a.toNat := by
    rw [Ne, Nat.div_eq_zero_iff]
    have positive := Nat.two_pow_pos (f.fSize - 1)
    omega
  rw [signOf, Nat.shiftRight_eq_div_pow]
  exact decide_eq_decide.mpr bound

theorem mantOf_lt : f.mantOf a < 2 ^ f.mantSize := by
  rw [mantOf_eq]
  exact Nat.mod_lt _ (Nat.two_pow_pos _)

theorem expOf_le : f.expOf a ≤ f.expMask := by
  have bound := Nat.mod_lt (a.toNat / 2 ^ f.mantSize) (Nat.two_pow_pos f.expSize)
  rw [expOf_eq, expMask_eq]
  omega

/-- A word is made of its fields. -/
theorem toNat_fields :
    a.toNat = (f.signOf a).toNat * 2 ^ (f.fSize - 1) + (f.expOf a * 2 ^ f.mantSize + f.mantOf a) := by
  have bound := a.isLt
  have size := f.word_size
  have parts := Nat.div_add_mod a.toNat (2 ^ f.mantSize)
  have upper := Nat.div_add_mod (a.toNat / 2 ^ f.mantSize) (2 ^ f.expSize)
  have nested : a.toNat / 2 ^ f.mantSize / 2 ^ f.expSize = (f.signOf a).toNat := by
    have small : a.toNat / (2 ^ f.expSize * 2 ^ f.mantSize) < 2 := by
      rw [Nat.div_lt_iff_lt_mul (by positivity)]
      omega
    rw [Nat.div_div_eq_div_mul, Nat.mul_comm, signOf_eq, half_word_size]
    by_cases negative : 2 ^ f.expSize * 2 ^ f.mantSize ≤ a.toNat
    · have positive : 0 < a.toNat / (2 ^ f.expSize * 2 ^ f.mantSize) := Nat.div_pos negative (by positivity)
      rw [decide_eq_true negative, Bool.toNat_true]
      omega
    · rw [decide_eq_false negative, Bool.toNat_false, Nat.div_eq_of_lt (by omega)]
  rw [half_word_size, mantOf_eq, expOf_eq]
  rw [nested] at upper
  calc a.toNat = 2 ^ f.mantSize * (2 ^ f.expSize * (f.signOf a).toNat +
        a.toNat / 2 ^ f.mantSize % 2 ^ f.expSize) + a.toNat % 2 ^ f.mantSize := by
          rw [upper, parts]
    _ = _ := by
          ring

theorem toNat_pack (aSign : Bool) {aExp : Nat} (aMant : Nat) (small : aExp ≤ f.expMask) :
    (f.pack aSign aExp aMant).toNat =
      aSign.toNat * 2 ^ (f.fSize - 1) + (aExp * 2 ^ f.mantSize + aMant % 2 ^ f.mantSize) := by
  have mantissa := Nat.mod_lt aMant (Nat.two_pow_pos f.mantSize)
  have positive := Nat.two_pow_pos f.expSize
  have below : aExp * 2 ^ f.mantSize + aMant % 2 ^ f.mantSize < 2 ^ (f.fSize - 1) := by
    rw [expMask_eq] at small
    have bound : (aExp + 1) * 2 ^ f.mantSize ≤ 2 ^ f.expSize * 2 ^ f.mantSize :=
      Nat.mul_le_mul_right _ (by omega)
    rw [half_word_size]
    rw [Nat.succ_mul] at bound
    omega
  have joined : (aExp <<< f.mantSize) ||| (aMant % 2 ^ f.mantSize) =
      aExp * 2 ^ f.mantSize + aMant % 2 ^ f.mantSize := by
    rw [← Nat.shiftLeft_add_eq_or_of_lt mantissa, Nat.shiftLeft_eq]
  rw [pack, and_mantMask, Nat.or_assoc, joined, ← Nat.shiftLeft_add_eq_or_of_lt below,
    Nat.shiftLeft_eq, BitVec.toNat_ofNat, Nat.mod_eq_of_lt]
  have size := f.word_size
  rw [half_word_size] at below ⊢
  cases aSign
  · simp only [Bool.toNat_false]
    omega
  · simp only [Bool.toNat_true]
    omega

/-- A word is packed from its own fields. -/
theorem pack_fields : f.pack (f.signOf a) (f.expOf a) (f.mantOf a) = a := by
  apply BitVec.eq_of_toNat_eq
  rw [toNat_pack _ _ (expOf_le a), Nat.mod_eq_of_lt (mantOf_lt a), ← toNat_fields]

variable (aSign : Bool) {aExp : Nat} (aMant : Nat) (small : aExp ≤ f.expMask)
include small

theorem mantOf_pack : f.mantOf (f.pack aSign aExp aMant) = aMant % 2 ^ f.mantSize := by
  have inner : aExp * 2 ^ f.mantSize + aMant % 2 ^ f.mantSize ≡ aMant [MOD 2 ^ f.mantSize] := by
    rw [Nat.ModEq, Nat.mul_comm, Nat.mul_add_mod, Nat.mod_mod]
  rw [mantOf_eq, toNat_pack aSign aMant small, half_word_size, ← Nat.mul_assoc, Nat.mul_comm,
    Nat.mul_add_mod]
  exact inner

theorem expOf_pack : f.expOf (f.pack aSign aExp aMant) = aExp := by
  have mantissa := Nat.mod_lt aMant (Nat.two_pow_pos f.mantSize)
  have positive := Nat.two_pow_pos f.expSize
  have joined : aSign.toNat * 2 ^ (f.fSize - 1) + (aExp * 2 ^ f.mantSize + aMant % 2 ^ f.mantSize) =
      2 ^ f.mantSize * (2 ^ f.expSize * aSign.toNat + aExp) + aMant % 2 ^ f.mantSize := by
    rw [half_word_size]
    ring
  rw [expMask_eq] at small
  rw [expOf_eq, toNat_pack aSign aMant (by rw [expMask_eq]; exact small), joined,
    Nat.mul_add_div (Nat.two_pow_pos _), Nat.div_eq_of_lt mantissa, Nat.add_zero, Nat.mul_add_mod,
    Nat.mod_eq_of_lt (by omega)]

theorem signOf_pack : f.signOf (f.pack aSign aExp aMant) = aSign := by
  have whole := toNat_fields (f.pack aSign aExp aMant)
  rw [expOf_pack aSign aMant small, mantOf_pack aSign aMant small, toNat_pack aSign aMant small] at whole
  have positive := Nat.two_pow_pos (f.fSize - 1)
  have same : aSign.toNat * 2 ^ (f.fSize - 1) =
      (f.signOf (f.pack aSign aExp aMant)).toNat * 2 ^ (f.fSize - 1) := by
    omega
  have signs := Nat.eq_of_mul_eq_mul_right positive same
  cases aSign <;> cases h : f.signOf (f.pack _ aExp aMant) <;> simp_all

end Fields

section Numbers

variable {f}

theorem isNan_iff (a : f.FUint) : f.isNan a = true ↔ f.expOf a = f.expMask ∧ f.mantOf a ≠ 0 := by
  rw [isNan, decide_eq_true_iff]

/-- A number is below the exponent of the infinities. -/
def IsFinite (a : f.FUint) : Prop := f.expOf a ≠ f.expMask

instance (a : f.FUint) : Decidable (IsFinite a) := inferInstanceAs (Decidable (_ ≠ _))

def bias (f : Format) : ℤ := 2 ^ (f.expSize - 1) - 1

/-- The exponent of the smallest normal number. -/
def emin (f : Format) : ℤ := 1 - f.bias

/-- The magnitude of a finite number. -/
def magnitude (K : Type*) [Field K] (a : f.FUint) : K :=
  if f.expOf a = 0 then f.mantOf a * 2 ^ (f.emin - f.mantSize)
  else (2 ^ f.mantSize + f.mantOf a) * 2 ^ (f.expOf a - f.bias - f.mantSize)

variable {K : Type*} [Field K]

theorem magnitude_pack_zero (aSign : Bool) (aMant : ℕ) (small : aMant < 2 ^ f.mantSize) :
    magnitude K (f.pack aSign 0 aMant) = aMant * 2 ^ (f.emin - f.mantSize) := by
  rw [magnitude, if_pos (expOf_pack _ _ (Nat.zero_le _)), mantOf_pack _ _ (Nat.zero_le _),
    Nat.mod_eq_of_lt small]

theorem magnitude_pack (aSign : Bool) {aExp : ℕ} (aMant : ℕ) (positive : 0 < aExp)
    (small : aExp ≤ f.expMask) :
    magnitude K (f.pack aSign aExp aMant) =
      (2 ^ f.mantSize + (aMant % 2 ^ f.mantSize : ℕ)) * 2 ^ (aExp - f.bias - f.mantSize) := by
  rw [magnitude, expOf_pack _ _ small, if_neg positive.ne', mantOf_pack _ _ small]

/-- The logarithm of a number that is not zero finds its leading bit. -/
theorem clz_eq {size value : ℕ} (nonzero : value ≠ 0) : clz size value = size - 1 - value.log2 := by
  rw [clz, if_neg nonzero]

/-- A shift by the missing bits gives a number its leading bit. -/
theorem shift_bounds {value top : ℕ} (nonzero : value ≠ 0) (small : value.log2 ≤ top) :
    2 ^ top ≤ value * 2 ^ (top - value.log2) ∧ value * 2 ^ (top - value.log2) < 2 ^ (top + 1) := by
  have low := Nat.log2_self_le nonzero
  have high := Nat.lt_log2_self (n := value)
  have positive := Nat.two_pow_pos (top - value.log2)
  constructor
  · calc 2 ^ top = 2 ^ value.log2 * 2 ^ (top - value.log2) := by
          rw [← Nat.pow_add]
          congr 1
          omega
      _ ≤ _ := Nat.mul_le_mul_right _ low
  · calc value * 2 ^ (top - value.log2) < 2 ^ (value.log2 + 1) * 2 ^ (top - value.log2) :=
          Nat.mul_lt_mul_of_pos_right high positive
      _ = 2 ^ (top + 1) := by
          rw [← Nat.pow_add]
          congr 1
          omega

variable [LinearOrder K] [IsStrictOrderedRing K]

theorem magnitude_nonneg (a : f.FUint) : 0 ≤ magnitude K a := by
  rw [magnitude]
  split <;> positivity

/-- A leading bit is put in place without a change of the number. -/
theorem withLeadingBit_spec {a : f.FUint} (nonzero : ¬(f.expOf a = 0 ∧ f.mantOf a = 0)) :
    2 ^ f.mantSize ≤ (f.withLeadingBit (f.expOf a) (f.mantOf a)).2 ∧
      (f.withLeadingBit (f.expOf a) (f.mantOf a)).2 < 2 ^ (f.mantSize + 1) ∧
      magnitude K a = (f.withLeadingBit (f.expOf a) (f.mantOf a)).2 *
        2 ^ ((f.withLeadingBit (f.expOf a) (f.mantOf a)).1 - f.bias - f.mantSize) := by
  have fields := f.fields
  have bound := mantOf_lt a
  rw [withLeadingBit, magnitude]
  by_cases subnormal : f.expOf a = 0
  · have nonzero' : f.mantOf a ≠ 0 := fun zero => nonzero ⟨subnormal, zero⟩
    have log_lt : (f.mantOf a).log2 < f.mantSize := (Nat.log2_lt nonzero').mpr bound
    obtain ⟨low, high⟩ := shift_bounds nonzero' log_lt.le
    have room : 2 ^ (f.mantSize + 1) ≤ 2 ^ f.fSize := Nat.pow_le_pow_right (by omega) (by omega)
    have shift : f.mantSize - (f.fSize - 1 - (f.fSize - 1 - (f.mantOf a).log2)) =
        f.mantSize - (f.mantOf a).log2 := by
      omega
    rw [if_pos (by exact_mod_cast subnormal), if_pos subnormal, mantNormalizeSubnormal, clz_eq nonzero',
      shift]
    dsimp only
    rw [shl_eq f (by omega)]
    refine ⟨low, high, ?_⟩
    push_cast
    rw [mul_assoc, ← zpow_natCast, ← zpow_add₀ two_ne_zero, emin]
    congr 2
    omega
  · have joined : f.mantOf a ||| (1 <<< f.mantSize) = 2 ^ f.mantSize + f.mantOf a := by
      rw [Nat.or_comm, ← Nat.shiftLeft_add_eq_or_of_lt bound, Nat.shiftLeft_eq, Nat.one_mul]
    rw [if_neg (by exact_mod_cast subnormal), if_neg subnormal]
    dsimp only
    rw [joined]
    refine ⟨by omega, by rw [Nat.pow_succ]; omega, ?_⟩
    push_cast
    ring

end Numbers

end MachineEmulator.SoftFloat.Format
