/-
This file proves that the conversions between floating-point numbers and integers are rounded
correctly.
-/

import MachineEmulator.Construction.SoftFloat.Conversions
import MachineEmulator.Proof.SoftFloat.Multiplication

namespace MachineEmulator.SoftFloat

/-- The integer that a word of a type stands for. -/
def integerOf (isUnsigned : Bool) {size : ℕ} (word : BitVec size) : ℤ :=
  if isUnsigned then word.toNat else word.toInt

def leastInteger (isUnsigned : Bool) (size : ℕ) : ℤ :=
  if isUnsigned then 0 else -2 ^ (size - 1)

def greatestInteger (isUnsigned : Bool) (size : ℕ) : ℤ :=
  if isUnsigned then 2 ^ size - 1 else 2 ^ (size - 1) - 1

/-- The end of the range of a type on the side of a sign. -/
def saturated (isUnsigned : Bool) (size : ℕ) (sign : Bool) : ℤ :=
  if sign then leastInteger isUnsigned size else greatestInteger isUnsigned size

/-- A number is rounded to an integer of a type if it fits, and saturated otherwise; a NaN is like a
positive infinity. -/
def DeliversInteger (isUnsigned : Bool) {size : ℕ} (rm : FrmMode) (value : Datum ℚ) (fflags : Flags)
    (result : BitVec size × Flags) : Prop :=
  match value with
  | .nan _ =>
      integerOf isUnsigned result.1 = saturated isUnsigned size false ∧ result.2 = fflags ||| fflagsNvMask
  | .infinity sign =>
      integerOf isUnsigned result.1 = saturated isUnsigned size sign ∧ result.2 = fflags ||| fflagsNvMask
  | .number sign x =>
      let rounded : ℤ := signed sign ((rm.rule sign).round x)
      if leastInteger isUnsigned size ≤ rounded ∧ rounded ≤ greatestInteger isUnsigned size then
        integerOf isUnsigned result.1 = rounded ∧
          result.2 = if ((rm.rule sign).round x : ℚ) = x then fflags else fflags ||| fflagsNxMask
      else
        integerOf isUnsigned result.1 = saturated isUnsigned size sign ∧
          result.2 = fflags ||| fflagsNvMask

namespace Format

open Rounding

variable {f : Format} (rm : FrmMode) (fflags : Flags) {size : ℕ} (isUnsigned : Bool)

section Saturation

variable (sign : Bool)

theorem cvtMax_eq :
    cvtMax isUnsigned size sign =
      if isUnsigned then (if sign then 0 else 2 ^ size - 1)
      else (if sign then 2 ^ (size - 1) else 2 ^ (size - 1) - 1) := by
  have power := Nat.two_pow_pos size
  cases isUnsigned <;> cases sign
  · simp [cvtMax, Nat.one_shiftLeft]
  · simp [cvtMax, Nat.one_shiftLeft]
  · simp [cvtMax]
  · simp [cvtMax]

/-- A magnitude fits if it does not pass the end of the range on the side of its sign. -/
theorem cvtMax_fits (magnitude : ℕ) :
    (leastInteger isUnsigned size ≤ signed sign (magnitude : ℤ) ∧
        signed sign (magnitude : ℤ) ≤ greatestInteger isUnsigned size) ↔
      magnitude ≤ cvtMax isUnsigned size sign := by
  have power := Nat.two_pow_pos size
  have power' := Nat.two_pow_pos (size - 1)
  have cast : ((2 ^ size : ℕ) : ℤ) = 2 ^ size := by
    push_cast
    rfl
  have cast' : ((2 ^ (size - 1) : ℕ) : ℤ) = 2 ^ (size - 1) := by
    push_cast
    rfl
  rw [cvtMax_eq, leastInteger, greatestInteger, signed]
  cases isUnsigned <;> cases sign <;> simp only [if_true, Bool.false_eq_true, if_false] <;> omega

variable (positive : 0 < size)
include positive

theorem double_size : 2 ^ size = 2 * 2 ^ (size - 1) := by
  rw [← Nat.pow_succ']
  congr 1
  omega

theorem integerOf_signed {magnitude : ℕ} (fits : magnitude ≤ cvtMax isUnsigned size sign) :
    integerOf isUnsigned (if sign then -BitVec.ofNat size magnitude else BitVec.ofNat size magnitude) =
      signed sign (magnitude : ℤ) := by
  have double := double_size positive
  have power := Nat.two_pow_pos (size - 1)
  rw [cvtMax_eq] at fits
  cases isUnsigned <;> cases sign <;> simp only [if_true, Bool.false_eq_true, if_false] at fits
  · have small : magnitude % 2 ^ size = magnitude := Nat.mod_eq_of_lt (by omega)
    simp only [integerOf, signed, Bool.false_eq_true, if_false, BitVec.toInt_eq_toNat_cond,
      BitVec.toNat_ofNat, small]
    rw [if_pos (by omega)]
  · have small : magnitude % 2 ^ size = magnitude := Nat.mod_eq_of_lt (by omega)
    simp only [integerOf, signed, Bool.false_eq_true, if_true, if_false, BitVec.toInt_eq_toNat_cond,
      BitVec.toNat_neg, BitVec.toNat_ofNat, small]
    rcases Nat.eq_zero_or_pos magnitude with zero | some
    · rw [zero, Nat.sub_zero, Nat.mod_self]
      simp
    · rw [Nat.mod_eq_of_lt (by omega), if_neg (by omega), Nat.cast_sub (by omega)]
      ring
  · have small : magnitude % 2 ^ size = magnitude := Nat.mod_eq_of_lt (by omega)
    simp only [integerOf, signed, Bool.false_eq_true, if_true, if_false, BitVec.toNat_ofNat, small]
  · have zero : magnitude = 0 := by
      omega
    subst zero
    simp [integerOf, signed]

/-- The largest magnitude for a sign is the end of the range on its side. -/
theorem cvtMax_saturated :
    integerOf isUnsigned (BitVec.ofNat size (cvtMax isUnsigned size sign)) =
      saturated isUnsigned size sign := by
  have double := double_size positive
  have power := Nat.two_pow_pos (size - 1)
  rw [cvtMax_eq, saturated, leastInteger, greatestInteger]
  cases isUnsigned <;> cases sign <;>
    simp only [integerOf, if_true, Bool.false_eq_true, if_false, BitVec.toInt_eq_toNat_cond,
      BitVec.toNat_ofNat, Nat.zero_mod]
  · rw [Nat.mod_eq_of_lt (by omega), if_pos (by omega), Nat.cast_sub (by omega)]
    push_cast
    ring
  · rw [Nat.mod_eq_of_lt (by omega), if_neg (by omega), double]
    push_cast
    ring
  · rw [Nat.mod_eq_of_lt (by omega), Nat.cast_sub (by omega)]
    push_cast
    ring
  · rfl

end Saturation

section ToInteger

variable (positive : 0 < size)
include positive

/-- A magnitude that is rounded is given with its sign if it fits. -/
theorem delivers_rounded {sign : Bool} {x : ℚ} {rounded : ℕ} {flags : Flags}
    (value : (rm.rule sign).round x = rounded)
    (exact : flags = if (rounded : ℚ) = x then fflags else fflags ||| fflagsNxMask) :
    DeliversInteger isUnsigned rm (.number sign x) fflags
      (if cvtMax isUnsigned size sign < rounded then
          (BitVec.ofNat size (cvtMax isUnsigned size sign), fflags ||| fflagsNvMask)
        else (if sign then -BitVec.ofNat size rounded else BitVec.ofNat size rounded, flags)) := by
  rw [DeliversInteger, value, exact]
  by_cases fits : rounded ≤ cvtMax isUnsigned size sign
  · rw [if_pos ((cvtMax_fits isUnsigned sign rounded).mpr fits), if_neg (not_lt.mpr fits)]
    exact ⟨integerOf_signed isUnsigned sign positive fits, rfl⟩
  · rw [if_neg (mt (cvtMax_fits isUnsigned sign rounded).mp fits), if_pos (not_le.mp fits)]
    exact ⟨cvtMax_saturated isUnsigned sign positive, rfl⟩

/-- A magnitude above the range is saturated. -/
theorem delivers_saturated {sign : Bool} {x : ℚ} (large : (2 ^ size : ℕ) ≤ x) :
    DeliversInteger isUnsigned rm (.number sign x) fflags
      (BitVec.ofNat size (cvtMax isUnsigned size sign), fflags ||| fflagsNvMask) := by
  have rounded := (rm.rule sign).le_round large
  have double := double_size positive
  have power := Nat.two_pow_pos (size - 1)
  have limit : cvtMax isUnsigned size sign < 2 ^ size := by
    rw [cvtMax_eq]
    split <;> split <;> omega
  have outside : ¬(rm.rule sign).round x ≤ cvtMax isUnsigned size sign := by
    omega
  rw [DeliversInteger]
  dsimp only
  rw [if_neg (mt (cvtMax_fits isUnsigned sign _).mp outside)]
  exact ⟨cvtMax_saturated isUnsigned sign positive, rfl⟩

omit positive in
/-- The part of the conversion that shifts to the right. -/
theorem shifted_rounds {mant : ℕ} (small : mant < 2 ^ (f.mantSize + 1)) {e : ℤ} (negative : e < 0)
    (sign : Bool) :
    let shifted := f.mantRshiftRnd (mant * 2 ^ f.rndSize) (-e)
    let rounded := f.roundMant rm (f.roundAddend sign rm) shifted
    (rm.rule sign).round ((mant : ℚ) * 2 ^ e) = rounded ∧
      ((rounded : ℚ) = mant * 2 ^ e ↔ f.rndBits shifted = 0) := by
  intro shifted rounded
  have split := f.fSize_split
  have large := f.rndSize_large
  have fits : mant * 2 ^ f.rndSize < 2 ^ (f.fSize - 1) := by
    calc mant * 2 ^ f.rndSize < 2 ^ (f.mantSize + 1) * 2 ^ f.rndSize :=
          Nat.mul_lt_mul_of_pos_right small (Nat.two_pow_pos _)
      _ = 2 ^ (f.fSize - 1) := by
          rw [← Nat.pow_add]
          congr 1
          omega
  have word : mant * 2 ^ f.rndSize < 2 ^ f.fSize :=
    fits.trans_le (Nat.pow_le_pow_right two_pos (Nat.sub_le _ _))
  have shifted_lt : shifted < 2 ^ (f.fSize - 1) :=
    (mantRshiftRnd_le fits (by omega)).trans_lt (Nat.pow_lt_pow_right one_lt_two (by omega))
  have sticky := (stick_sameSide (K := ℚ) (mant * 2 ^ f.rndSize)
    (Nat.two_pow_pos (-e).toNat)).coarsen (2 ^ (f.rndSize - 2) : ℕ)
  have halves : (((2 ^ (f.rndSize - 2) : ℕ) : ℤ) : ℚ) * 2 = f.half := by
    have parts : f.half = 2 ^ (f.rndSize - 2) * 2 := by
      rw [half, ← Nat.pow_succ]
      congr 1
      omega
    rw [parts]
    push_cast
    ring
  rw [halves, ← mantRshiftRnd_eq word] at sticky
  have number : (mant : ℚ) * 2 ^ e =
      ((mant * 2 ^ f.rndSize : ℕ) : ℚ) / (2 ^ (-e).toNat : ℕ) / (2 * f.half : ℕ) := by
    have power : (2 : ℚ) ^ e = ((2 : ℚ) ^ (-e).toNat)⁻¹ := by
      rw [← zpow_natCast, ← zpow_neg]
      congr 1
      omega
    rw [two_half, power]
    push_cast
    field_simp
  have code : rounded = (rm.rule sign).roundNat f.half shifted := roundMant_eq sign rm shifted_lt
  rw [code, number, rndBits_eq]
  exact ⟨sticky.round_fraction f.half_pos (by positivity) _, sticky.round_exact f.half_pos _⟩

omit positive in
theorem effective_or (a : f.FUint) :
    (if f.expOf a = 0 then (1, f.mantOf a) else (f.expOf a, f.mantOf a ||| (1 <<< f.mantSize))) =
      effective a := by
  have bound := mantOf_lt a
  rw [effective, Nat.or_comm, ← Nat.shiftLeft_add_eq_or_of_lt bound, Nat.shiftLeft_eq, Nat.one_mul]

/-- The conversion of a number, by its mantissa and its exponent. -/
theorem cvtFI_number {a : f.FUint} (finite : f.expOf a ≠ f.expMask) :
    DeliversInteger isUnsigned rm (.number (f.signOf a) (magnitude ℚ a)) fflags
      (f.cvtFI isUnsigned size a rm fflags) := by
  have split := f.fSize_split
  obtain ⟨-, small, normal⟩ := effective_bounds a
  have half := f.half_expMask
  have quiet : ¬(f.expOf a = f.expMask ∧ f.mantOf a ≠ 0) := fun nan => finite nan.1
  rw [cvtFI, magnitude_effective]
  simp only [effective_or, half]
  rw [if_neg quiet]
  generalize f.signOf a = sign
  generalize effective a = leading at *
  obtain ⟨e, mant⟩ := leading
  dsimp only at *
  have fits : mant * 2 ^ f.rndSize < 2 ^ f.fSize := by
    calc mant * 2 ^ f.rndSize < 2 ^ (f.mantSize + 1) * 2 ^ f.rndSize :=
          Nat.mul_lt_mul_of_pos_right small (Nat.two_pow_pos _)
      _ ≤ 2 ^ f.fSize := by
          rw [← Nat.pow_add]
          exact Nat.pow_le_pow_right two_pos (by omega)
  rw [shl_eq f fits]
  by_cases right : 0 ≤ (e : ℤ) - f.bias - f.mantSize
  · obtain ⟨count, count_eq⟩ := Int.eq_ofNat_of_zero_le right
    have some := normal (by
      have bias := f.bias_pos
      have size := f.mant_large
      omega)
    have whole : (mant : ℚ) * (2 : ℚ) ^ ((e : ℤ) - f.bias - f.mantSize) = (mant * 2 ^ count : ℕ) := by
      rw [count_eq]
      push_cast
      rw [zpow_natCast]
    rw [if_pos right]
    by_cases inside : (e : ℤ) - f.bias - f.mantSize ≤ (size : ℤ) - 1 - f.mantSize
    · have below : mant * 2 ^ count < 2 ^ size := by
        calc mant * 2 ^ count < 2 ^ (f.mantSize + 1) * 2 ^ count :=
              Nat.mul_lt_mul_of_pos_right small (Nat.two_pow_pos _)
          _ ≤ 2 ^ size := by
              rw [← Nat.pow_add]
              exact Nat.pow_le_pow_right two_pos (by omega)
      have code : (((mant * 2 ^ f.rndSize) >>> f.rndSize) <<<
          ((e : ℤ) - f.bias - f.mantSize).toNat) % 2 ^ size = mant * 2 ^ count := by
        rw [count_eq, Int.toNat_natCast, Nat.shiftRight_eq_div_pow,
          Nat.mul_div_cancel _ (Nat.two_pow_pos _), Nat.shiftLeft_eq, Nat.mod_eq_of_lt below]
      rw [if_pos inside, code, whole]
      apply delivers_rounded rm fflags isUnsigned positive ((rm.rule sign).round_natCast _)
      rw [if_pos rfl]
    · rw [if_neg inside, whole]
      apply delivers_saturated rm fflags isUnsigned positive
      rw [Nat.cast_le]
      calc 2 ^ size ≤ 2 ^ (f.mantSize + count) := Nat.pow_le_pow_right two_pos (by omega)
        _ = 2 ^ f.mantSize * 2 ^ count := Nat.pow_add _ _ _
        _ ≤ mant * 2 ^ count := Nat.mul_le_mul_right _ some
  · obtain ⟨value, exact⟩ := shifted_rounds (f := f) rm small (not_le.mp right) sign
    rw [if_neg right]
    apply delivers_rounded rm fflags isUnsigned positive value
    simp only [exact, ne_eq, ite_not]

/-- The conversion is the rounding of the number, or the end of the range. -/
theorem cvtFI_delivers (range : (size : ℤ) ≤ f.bias + 1) (integers : (f.mantSize : ℤ) ≤ f.bias + 1)
    (a : f.FUint) :
    DeliversInteger isUnsigned rm (datum ℚ a) fflags (f.cvtFI isUnsigned size a rm fflags) := by
  have last (special : f.expOf a = f.expMask) : f.cvtFI isUnsigned size a rm fflags =
      (BitVec.ofNat size (cvtMax isUnsigned size
        (if f.expOf a = f.expMask ∧ f.mantOf a ≠ 0 then false else f.signOf a)),
          fflags ||| fflagsNvMask) := by
    have half := f.half_expMask
    have mask := f.expMask_bias
    have large := f.expMask_large
    rw [cvtFI]
    simp only [half]
    rw [if_neg (by omega : ¬f.expOf a = 0)]
    dsimp only
    rw [if_pos (by omega), if_neg (by omega)]
  rcases classes (K := ℚ) a with ⟨aLast, aMant, -, aDatum⟩ | ⟨aLast, aMant, -, -, aDatum⟩ |
      ⟨aFinite, -, -, aDatum⟩
  · rw [aDatum, last aLast, if_pos ⟨aLast, aMant⟩]
    exact ⟨cvtMax_saturated isUnsigned false positive, rfl⟩
  · rw [aDatum, last aLast, if_neg (fun nan => nan.2 aMant)]
    exact ⟨cvtMax_saturated isUnsigned (f.signOf a) positive, rfl⟩
  · rw [aDatum]
    exact cvtFI_number rm fflags isUnsigned positive aFinite

end ToInteger

section FromInteger

omit rm fflags in
/-- The magnitude of an integer is the word of its negation if it is negative. -/
theorem integerOf_magnitude (a : BitVec size) :
    (if !isUnsigned && a.msb then (-a).toNat else a.toNat) = (integerOf isUnsigned a).natAbs ∧
      (!isUnsigned && a.msb) = decide (integerOf isUnsigned a < 0) := by
  have bound := a.isLt
  have sign := BitVec.msb_eq_toInt (x := a)
  cases isUnsigned
  · rw [integerOf, if_neg Bool.false_ne_true]
    cases negative : a.msb
    · have value := BitVec.toInt_eq_toNat_of_msb negative
      rw [negative] at sign
      simp only [Bool.not_false, Bool.and_false, Bool.false_eq_true, if_false, value, Int.natAbs_natCast]
      exact ⟨trivial, (decide_eq_false (by omega)).symm⟩
    · have value := BitVec.toInt_eq_msb_cond a
      have large := BitVec.msb_eq_decide a
      have power := Nat.two_pow_pos (size - 1)
      rw [negative, if_pos rfl] at value
      rw [negative, eq_comm, decide_eq_true_iff] at large
      simp only [Bool.not_false, Bool.and_self, if_true, BitVec.toNat_neg]
      rw [Nat.mod_eq_of_lt (by omega), value]
      constructor
      · omega
      · exact (decide_eq_true (by omega)).symm
  · simp [integerOf]

/-- The conversion is the rounding of the integer. -/
theorem cvtIF_rounds (a : BitVec size) :
    f.Rounds rm (integerOf isUnsigned a < 0) ((integerOf isUnsigned a).natAbs : ℚ) fflags
      (f.cvtIF isUnsigned a rm fflags) := by
  have split := f.fSize_split
  have large := f.rndSize_large
  obtain ⟨magnitude, sign⟩ := integerOf_magnitude isUnsigned a
  rw [cvtIF]
  dsimp only
  rw [magnitude, sign, half_expMask]
  have small : (integerOf isUnsigned a).natAbs < 2 ^ size := by
    rw [← magnitude]
    split
    · exact (-a).isLt
    · exact a.isLt
  generalize (integerOf isUnsigned a).natAbs = r at *
  generalize decide (integerOf isUnsigned a < 0) = sign
  by_cases zero : r = 0
  · have left : ¬0 < (size : ℤ) - clz size 0 - (f.fSize - 1) := by
      rw [clz, if_pos rfl]
      omega
    rw [zero, if_neg left, Nat.cast_zero]
    exact normalize_zero sign rm fflags
  have log_lt : r.log2 < size := (Nat.log2_lt zero).mpr small
  have unit (l : ℕ) : (r : ℚ) = r / (2 ^ l : ℕ) *
      (2 : ℚ) ^ (f.bias + f.fSize - 2 + l - f.bias - (f.fSize - 2 : ℕ)) := by
    have exponent : f.bias + f.fSize - 2 + l - f.bias - (f.fSize - 2 : ℕ) = l := by
      omega
    rw [exponent, zpow_natCast]
    push_cast
    field_simp
  rw [clz_eq zero]
  by_cases right : 0 < (size : ℤ) - (size - 1 - r.log2 : ℕ) - (f.fSize - 1)
  · obtain ⟨l, l_eq⟩ := Int.eq_ofNat_of_zero_le right.le
    have top : r.log2 + 1 = f.fSize - 1 + l := by
      omega
    have low : 2 ^ (f.fSize - 2) * 2 ^ l ≤ r := by
      rw [← Nat.pow_add, show f.fSize - 2 + l = r.log2 by omega]
      exact Nat.log2_self_le zero
    have high : r < 2 * 2 ^ (f.fSize - 2) * 2 ^ l := by
      rw [← Nat.pow_succ', ← Nat.pow_add, show (f.fSize - 2).succ + l = r.log2 + 1 by omega]
      exact Nat.lt_log2_self
    have word := Nat.two_pow_pos l
    have atLeast := (Nat.pow_le_pow_right two_pos (by omega : f.mantSize + 2 ≤ f.fSize - 2)).trans
      (le_stick word low)
    have below := stick_lt word high
    rw [← Nat.pow_succ', show (f.fSize - 2).succ = f.fSize - 1 by omega] at below
    have code : r >>> l ||| (if r &&& (r &&& ((1 <<< l) - 1)) ≠ 0 then 1 else 0) = stick r (2 ^ l) := by
      rw [← Nat.and_assoc, Nat.and_self, Nat.one_shiftLeft, Nat.and_two_pow_sub_one_eq_mod,
        Nat.shiftRight_eq_div_pow, stick]
    rw [if_pos right, l_eq, Int.toNat_natCast, code, unit l]
    exact normalize_sticky sign rm fflags (stick_sameSide r word) atLeast below
  · have below : r < 2 ^ (f.fSize - 1) := (Nat.log2_lt zero).mp (by omega)
    have exact_unit := unit 0
    rw [Nat.pow_zero, Nat.cast_one, div_one, Nat.cast_zero, add_zero] at exact_unit
    rw [if_neg right, exact_unit]
    exact normalize_exact sign rm fflags zero below

end FromInteger

end Format

end MachineEmulator.SoftFloat
