/-
This file proves that the conversions between the two formats are correct.
-/

import MachineEmulator.Proof.SoftFloat.IntegerConversions

namespace MachineEmulator.SoftFloat

open Rounding Format

/-- What the conversion to another format has to deliver. -/
def convertOutcome {K : Type*} : Datum K → Outcome K
  | .nan s => nanOutcome s
  | .infinity s => .infinity s
  | .number s x => .rounded s x

section Uniqueness

variable {f : Format} {a b : f.FUint}

theorem effective_order (same : magnitude ℚ a = magnitude ℚ b) : (effective b).1 ≤ (effective a).1 := by
  obtain ⟨aPos, aSmall, -⟩ := effective_bounds a
  obtain ⟨-, -, bNormal⟩ := effective_bounds b
  rw [magnitude_effective, magnitude_effective] at same
  generalize effective a = aLeading at *
  generalize effective b = bLeading at *
  obtain ⟨aExp, aMant⟩ := aLeading
  obtain ⟨bExp, bMant⟩ := bLeading
  dsimp only at *
  by_contra less
  obtain ⟨distance, distance_eq⟩ := Nat.exists_eq_add_of_lt (not_le.mp less)
  have unit : (2 : ℚ) ^ ((aExp : ℤ) - f.bias - f.mantSize) ≠ 0 := zpow_ne_zero _ two_ne_zero
  have parts : (2 : ℚ) ^ ((bExp : ℤ) - f.bias - f.mantSize) =
      2 ^ (distance + 1) * 2 ^ ((aExp : ℤ) - f.bias - f.mantSize) := by
    rw [← zpow_natCast, ← zpow_add₀ two_ne_zero, distance_eq]
    congr 1
    push_cast
    ring
  rw [parts, ← mul_assoc, mul_left_inj' unit] at same
  have whole : aMant = bMant * 2 ^ (distance + 1) := by
    exact_mod_cast same
  have normal := bNormal (by omega)
  have double : 2 * bMant ≤ bMant * 2 ^ (distance + 1) := by
    rw [Nat.mul_comm]
    exact Nat.mul_le_mul_left _ (Nat.le_self_pow (Nat.succ_ne_zero _) 2)
  rw [Nat.pow_succ'] at aSmall
  omega

/-- The exponent and the mantissa of a number are those of its magnitude. -/
theorem effective_unique (same : magnitude ℚ a = magnitude ℚ b) : effective a = effective b := by
  have exps := le_antisymm (effective_order same.symm) (effective_order same)
  have unit : (2 : ℚ) ^ (((effective b).1 : ℤ) - f.bias - f.mantSize) ≠ 0 := zpow_ne_zero _ two_ne_zero
  rw [magnitude_effective, magnitude_effective, exps, mul_left_inj' unit] at same
  exact Prod.ext exps (by exact_mod_cast same)

/-- A number is its sign and its magnitude. -/
theorem number_unique (signs : f.signOf a = f.signOf b) (same : magnitude ℚ a = magnitude ℚ b) : a = b := by
  have aMant := mantOf_lt a
  have bMant := mantOf_lt b
  have fields : f.expOf a = f.expOf b ∧ f.mantOf a = f.mantOf b := by
    have parts := effective_unique same
    rw [effective, effective] at parts
    split at parts <;> split at parts <;> rw [Prod.mk.injEq] at parts <;> omega
  rw [← pack_fields a, ← pack_fields b, signs, fields.1, fields.2]

/-- There is one result only that is the rounding of a magnitude. -/
theorem rounds_unique {rm : FrmMode} {sign : Bool} {x : ℚ} {fflags : Flags} {result other : f.FUint × Flags}
    (first : f.Rounds rm sign x fflags result) (second : f.Rounds rm sign x fflags other) :
    result = other := by
  rw [Rounds] at first second
  split at first
  · rename_i overflow
    rw [if_pos overflow] at second
    exact first.trans second.symm
  · rename_i inside
    rw [if_neg inside] at second
    obtain ⟨-, sign_eq, number, flags⟩ := first
    obtain ⟨-, sign_eq', number', flags'⟩ := second
    apply Prod.ext
    · exact number_unique (sign_eq.trans sign_eq'.symm) (number.trans number'.symm)
    · exact flags.trans flags'.symm

end Uniqueness

section Constants

theorem sfloat32_bias : sfloat32.bias = 127 := by
  norm_num [bias, sfloat32]

theorem sfloat64_bias : sfloat64.bias = 1023 := by
  norm_num [bias, sfloat64]

theorem sfloat32_mantSize : sfloat32.mantSize = 23 := rfl

theorem sfloat64_mantSize : sfloat64.mantSize = 52 := rfl

theorem sfloat32_expMask : sfloat32.expMask = 255 := rfl

theorem sfloat64_expMask : sfloat64.expMask = 2047 := rfl

end Constants

section Narrowing

variable (rm : FrmMode) (fflags : Flags)

/-- A magnitude far below the smallest number is rounded from any mantissa that is not zero. -/
theorem normalize_tiny {f : Format} (sign : Bool) {e : ℤ} {mant : ℕ} {v : ℚ} (nonzero : mant ≠ 0)
    (small : mant < 2 ^ (f.fSize - 1)) (far : e ≤ -f.fSize) (positive : 0 < v)
    (tiny : v < 2 ^ (f.emin - f.mantSize - 1)) :
    f.Rounds rm sign v fflags (f.normalize sign e mant rm fflags) := by
  have split := f.fSize_split
  have large := f.rndSize_large
  have log_lt : mant.log2 < f.fSize - 1 := (Nat.log2_lt nonzero).mpr small
  obtain ⟨low, high⟩ := shift_bounds nonzero (by omega : mant.log2 ≤ f.fSize - 2)
  have top : f.fSize - 2 + 1 = f.fSize - 1 := by
    omega
  have room : 2 ^ (f.fSize - 1) ≤ 2 ^ f.fSize := Nat.pow_le_pow_right two_pos (Nat.sub_le _ _)
  have shift : clz f.fSize mant - (f.fSize - 1 - f.imantSize) = f.fSize - 2 - mant.log2 := by
    rw [clz_eq nonzero, imantSize]
    omega
  have power := Nat.two_pow_pos (f.fSize - 2)
  have unit : (0 : ℚ) < 2 ^ (f.emin - f.mantSize - f.rndSize) := zpow_pos two_pos _
  have below : v < 2 ^ (f.emin - 1) := tiny.trans_le (zpow_le_zpow_right₀ one_le_two (by omega))
  have limit : (2 : ℚ) ^ (f.emin - 1) < 2 ^ f.emin := zpow_lt_zpow_right₀ one_lt_two (by omega)
  rw [top] at high
  rw [Format.normalize]
  simp only [shift]
  rw [shl_eq f (by omega)]
  have one : f.mantRshiftRnd (mant * 2 ^ (f.fSize - 2 - mant.log2))
      (1 - (e - (f.fSize - 2 - mant.log2 : ℕ))) = 1 := by
    rw [mantRshiftRnd, if_pos (by omega), if_pos (by omega), if_pos (by omega)]
  apply roundPack_below (y := v / 2 ^ (f.emin - f.mantSize - f.rndSize)) sign rm fflags positive
    (below.trans limit) (by omega) high
  · rw [div_mul_cancel₀ _ unit.ne']
  · rw [one]
    have inside : v / 2 ^ (f.emin - f.mantSize - f.rndSize) < f.half := by
      have scaled : (f.half : ℚ) * 2 ^ (f.emin - f.mantSize - f.rndSize) = 2 ^ (f.emin - f.mantSize - 1) := by
        rw [half]
        push_cast
        rw [← zpow_natCast, ← zpow_add₀ two_ne_zero]
        congr 1
        omega
      rw [div_lt_iff₀ unit, scaled]
      exact tiny
    have one_lt : 1 < f.half := Nat.one_lt_two_pow (by omega)
    apply SameSide.of_inside 0 (Nat.cast_pos.mpr f.half_pos)
    · rw [Int.cast_zero, zero_mul]
      exact div_pos positive unit
    · simpa using inside
    · simp
    · simpa using one_lt
  · intro _
    exact iff_of_true (.inl (by omega))
      ((Rule.roundUnbounded_le _ _ positive below).trans_lt limit)

/-- The conversion to the smaller format rounds a number. -/
theorem narrowing_number {a : sfloat64.FUint} (finite : sfloat64.expOf a ≠ sfloat64.expMask) :
    sfloat32.Rounds rm (sfloat64.signOf a) (magnitude ℚ a) fflags (sfloatCvtF64F32 a rm fflags) := by
  have size : sfloat32.fSize = 32 := rfl
  have exponent : ((sfloat64.expMask / 2 : ℕ) : ℤ) = 1023 := rfl
  have shift : (sfloat64.mantSize : ℤ) - (32 - 2) = 22 := rfl
  have bound := mantOf_lt a
  rw [sfloat64_mantSize] at bound
  rw [sfloatCvtF64F32]
  dsimp only
  rw [if_neg finite, exponent, shift]
  by_cases zero : sfloat64.expOf a = 0 ∧ sfloat64.mantOf a = 0
  · rw [if_pos zero, (magnitude_eq_zero (K := ℚ) a).mpr zero]
    exact rounds_zero _ rm fflags
  rw [if_neg zero]
  have word (mant : ℕ) (fits : mant < 2 ^ 64) : sfloat64.mantRshiftRnd mant 22 = stick mant (2 ^ 22) :=
    mantRshiftRnd_eq (f := sfloat64) fits 22
  by_cases subnormal : sfloat64.expOf a = 0
  · have nonzero : sfloat64.mantOf a ≠ 0 := fun none => zero ⟨subnormal, none⟩
    have bounds := stick_bounds (sfloat64.mantOf a) (2 ^ 22)
    rw [if_pos subnormal]
    dsimp only
    rw [word _ (by omega)]
    apply normalize_tiny rm fflags
    · exact (stick_pos (by decide) (Nat.pos_of_ne_zero nonzero)).ne'
    · rw [size]
      omega
    · rw [mantNormalizeSubnormal, size]
      dsimp only
      omega
    · exact lt_of_le_of_ne (magnitude_nonneg a) (Ne.symm (mt (magnitude_eq_zero (K := ℚ) a).mp zero))
    · have small : (sfloat64.mantOf a : ℚ) < 2 ^ (52 : ℤ) := by
        exact_mod_cast bound
      have unit : (0 : ℚ) < 2 ^ (sfloat64.emin - sfloat64.mantSize) := zpow_pos two_pos _
      rw [magnitude, if_pos subnormal]
      refine (mul_lt_mul_of_pos_right small unit).trans_le ?_
      rw [← zpow_add₀ two_ne_zero, emin, emin, sfloat64_bias, sfloat32_bias, sfloat64_mantSize,
        sfloat32_mantSize]
      exact zpow_le_zpow_right₀ one_le_two (by omega)
  · have joined : sfloat64.mantOf a ||| (1 <<< sfloat64.mantSize) = 2 ^ 52 + sfloat64.mantOf a := by
      rw [sfloat64_mantSize, Nat.or_comm, ← Nat.shiftLeft_add_eq_or_of_lt bound, Nat.shiftLeft_eq,
        Nat.one_mul]
    have same := stick_sameSide (K := ℚ) (2 ^ 52 + sfloat64.mantOf a) (by decide : 0 < 2 ^ 22)
    have bounds := stick_bounds (2 ^ 52 + sfloat64.mantOf a) (2 ^ 22)
    have upper : 2 ^ 52 + sfloat64.mantOf a < 2 * 2 ^ 30 * 2 ^ 22 := by omega
    have small := stick_lt (by decide : 0 < 2 ^ 22) upper
    rw [if_neg subnormal]
    dsimp only
    rw [joined, word _ (by omega)]
    have number : magnitude ℚ a = ((2 ^ 52 + sfloat64.mantOf a : ℕ) : ℚ) / (2 ^ 22 : ℕ) *
        2 ^ ((sfloat64.expOf a : ℤ) - 1023 + 0x7f - sfloat32.bias - (sfloat32.fSize - 2 : ℕ)) := by
      have moved : (2 : ℚ) ^ ((sfloat64.expOf a : ℤ) - 1023 + 0x7f - 127 - (32 - 2 : ℕ)) =
          4194304 * 2 ^ ((sfloat64.expOf a : ℤ) - 1023 - (52 : ℕ)) := by
        have power : (4194304 : ℚ) = 2 ^ (22 : ℤ) := by
          norm_num
        rw [power, ← zpow_add₀ two_ne_zero]
        congr 1
        push_cast
        ring
      rw [magnitude, if_neg subnormal, sfloat64_bias, sfloat32_bias, sfloat64_mantSize, size, moved]
      push_cast
      ring
    rw [number]
    apply normalize_sticky _ rm fflags same
    · rw [sfloat32_mantSize]
      omega
    · rw [size]
      omega

/-- The conversion to the smaller format is the rounding of the number. -/
theorem narrowing_delivers (a : sfloat64.FUint) :
    sfloat32.Delivers rm (convertOutcome (datum ℚ a)) fflags (sfloatCvtF64F32 a rm fflags) := by
  rcases classes (K := ℚ) a with ⟨aLast, aMant, -, aDatum⟩ | ⟨aLast, aMant, -, -, aDatum⟩ |
      ⟨aFinite, -, -, aDatum⟩
  · rw [aDatum, convertOutcome, sfloatCvtF64F32]
    dsimp only
    rw [if_pos aLast, if_pos aMant]
    cases sfloat64.isSigNan a <;> rfl
  · rw [aDatum, convertOutcome, sfloatCvtF64F32]
    dsimp only
    rw [if_pos aLast, if_neg (not_not.mpr aMant)]
    rfl
  · rw [aDatum]
    exact narrowing_number rm fflags aFinite

end Narrowing

section Widening

/-- The mantissa with or without its leading bit, as the conversion to the larger format has it. -/
theorem widening_mantissa {a : sfloat32.FUint} (nonzero : ¬(sfloat32.expOf a = 0 ∧ sfloat32.mantOf a = 0)) :
    let leading := sfloat32.withLeadingBit (sfloat32.expOf a) (sfloat32.mantOf a)
    ∃ mant, (if sfloat32.expOf a = 0 then sfloat32.mantNormalizeSubnormal (sfloat32.mantOf a)
        else ((sfloat32.expOf a : ℤ), sfloat32.mantOf a)) = (leading.1, mant) ∧
      mant < 2 ^ 24 ∧ mant % 2 ^ 23 = leading.2 % 2 ^ 23 ∧ -22 ≤ leading.1 ∧
      (leading.1 ≤ sfloat32.expOf a ∨ leading.1 ≤ 1) := by
  intro leading
  have bound := mantOf_lt a
  obtain ⟨-, high, -⟩ := withLeadingBit_spec (K := ℚ) nonzero
  rw [sfloat32_mantSize] at bound high
  by_cases subnormal : sfloat32.expOf a = 0
  · have code : leading = sfloat32.mantNormalizeSubnormal (sfloat32.mantOf a) :=
      if_pos (by exact_mod_cast subnormal)
    rw [if_pos subnormal, ← code]
    refine ⟨_, rfl, high, rfl, ?_⟩
    rw [code, mantNormalizeSubnormal, sfloat32_mantSize]
    dsimp only
    omega
  · have code : leading = ((sfloat32.expOf a : ℤ), sfloat32.mantOf a ||| (1 <<< sfloat32.mantSize)) :=
      if_neg (by exact_mod_cast subnormal)
    rw [if_neg subnormal, code]
    refine ⟨_, rfl, by omega, ?_, by dsimp only; omega, .inl le_rfl⟩
    dsimp only
    rw [sfloat32_mantSize, Nat.or_comm, ← Nat.shiftLeft_add_eq_or_of_lt bound, Nat.shiftLeft_eq, Nat.one_mul,
      Nat.add_mod_left]

/-- The conversion to the larger format keeps a number. -/
theorem widening_number {a : sfloat32.FUint} (fflags : Flags) (finite : sfloat32.expOf a ≠ sfloat32.expMask) :
    ∃ word, sfloatCvtF32F64 a fflags = (word, fflags) ∧ sfloat64.expOf word ≠ sfloat64.expMask ∧
      sfloat64.signOf word = sfloat32.signOf a ∧ magnitude ℚ word = magnitude ℚ a := by
  have last : ¬sfloat32.expOf a = 0xff := finite
  have below := expOf_le a
  rw [sfloat32_expMask] at below
  rw [sfloatCvtF32F64]
  dsimp only
  rw [if_neg last]
  by_cases zero : sfloat32.expOf a = 0 ∧ sfloat32.mantOf a = 0
  · rw [if_pos zero, (magnitude_eq_zero (K := ℚ) a).mpr zero]
    refine ⟨_, rfl, ?_, signOf_pack _ _ (Nat.zero_le _), ?_⟩
    · rw [expOf_pack _ _ (Nat.zero_le _), sfloat64_expMask]
      omega
    · rw [magnitude_pack_zero _ _ (Nat.two_pow_pos _), Nat.cast_zero, zero_mul]
  · rw [if_neg zero]
    obtain ⟨low, high, number⟩ := withLeadingBit_spec (K := ℚ) zero
    obtain ⟨mant, code, mant_lt, mant_eq, least, most⟩ := widening_mantissa zero
    rw [code, number]
    generalize sfloat32.withLeadingBit (sfloat32.expOf a) (sfloat32.mantOf a) = leading at *
    obtain ⟨e, whole⟩ := leading
    rw [sfloat32_mantSize] at low high
    dsimp only at *
    have exponent : ((sfloat64.expMask / 2 : ℕ) : ℤ) = 1023 := rfl
    rw [exponent]
    have fits : (e - 0x7f + 1023).toNat ≤ sfloat64.expMask := by
      rw [sfloat64_expMask]
      omega
    refine ⟨_, rfl, ?_, signOf_pack _ _ fits, ?_⟩
    · rw [expOf_pack _ _ fits, sfloat64_expMask]
      omega
    · have shift : sfloat64.mantSize - 23 = 29 := rfl
      have word : mant * 2 ^ 29 < 2 ^ sfloat64.fSize := by
        have size : sfloat64.fSize = 64 := rfl
        rw [size]
        omega
      have rest : mant * 2 ^ 29 % 2 ^ 52 = (whole - 2 ^ 23) * 2 ^ 29 := by
        omega
      rw [magnitude_pack _ _ (by omega) fits, shift, shl_eq _ word, sfloat64_mantSize, rest,
        sfloat64_bias, sfloat32_bias, sfloat32_mantSize]
      have moved : (2 : ℚ) ^ (e - 127 - (23 : ℕ)) = 2 ^ 29 * 2 ^ (((e - 0x7f + 1023).toNat : ℤ) - 1023 - (52 : ℕ)) := by
        rw [← zpow_natCast, ← zpow_add₀ two_ne_zero]
        congr 1
        omega
      rw [moved, Nat.cast_mul, Nat.cast_sub low]
      push_cast
      ring

/-- The conversion to the larger format is exact. -/
theorem widening_exact (fflags : Flags) (a : sfloat32.FUint) :
    match datum ℚ a with
    | .nan signaling =>
        sfloatCvtF32F64 a fflags = (sfloat64.fQnan, if signaling then fflags ||| fflagsNvMask else fflags)
    | value => datum ℚ (sfloatCvtF32F64 a fflags).1 = value ∧ (sfloatCvtF32F64 a fflags).2 = fflags := by
  have mask := sfloat64_expMask
  rcases classes (K := ℚ) a with ⟨aLast, aMant, -, aDatum⟩ | ⟨aLast, aMant, -, -, aDatum⟩ |
      ⟨aFinite, -, -, aDatum⟩
  · have last : sfloat32.expOf a = 0xff := aLast
    rw [aDatum]
    dsimp only
    rw [sfloatCvtF32F64]
    dsimp only
    rw [if_pos last, if_pos aMant]
  · have last : sfloat32.expOf a = 0xff := aLast
    rw [aDatum]
    dsimp only
    rw [sfloatCvtF32F64]
    dsimp only
    rw [if_pos last, if_neg (not_not.mpr aMant), datum, expOf_pack _ _ le_rfl, if_pos rfl,
      mantOf_pack _ _ le_rfl, Nat.zero_mod, if_pos rfl, signOf_pack _ _ le_rfl]
    exact ⟨rfl, rfl⟩
  · obtain ⟨word, code, finite, sign, number⟩ := widening_number fflags aFinite
    rw [aDatum, code]
    dsimp only
    rw [datum, if_neg finite, sign, number]
    exact ⟨rfl, rfl⟩

end Widening

section RoundTrips

/-- A number that is widened and narrowed again is the number from before, without a flag. -/
theorem narrowing_widening (rm : FrmMode) (fflags : Flags) {a : sfloat32.FUint}
    (number : sfloat32.isNan a = false) :
    sfloatCvtF64F32 (sfloatCvtF32F64 a fflags).1 rm (sfloatCvtF32F64 a fflags).2 = (a, fflags) := by
  rcases classes (K := ℚ) a with ⟨-, -, nan, -⟩ | ⟨aLast, aMant, -, -, aDatum⟩ | ⟨aFinite, -, -, aDatum⟩
  · rw [nan] at number
    contradiction
  · have exactly := widening_exact fflags a
    rw [aDatum] at exactly
    have narrowed := narrowing_delivers rm (sfloatCvtF32F64 a fflags).2 (sfloatCvtF32F64 a fflags).1
    rw [exactly.1, exactly.2] at narrowed
    rw [exactly.2]
    refine narrowed.trans ?_
    rw [← aLast, ← aMant, pack_fields]
  · obtain ⟨word, code, finite, sign, same⟩ := widening_number fflags aFinite
    have narrowed := narrowing_number rm fflags finite
    rw [sign, same] at narrowed
    rw [code]
    exact rounds_unique narrowed (rounds_self aFinite rm fflags)

/-- The conversions between the formats and the integers of 32 or 64 bits, signed or unsigned. -/
theorem conversions_deliver (isUnsigned wide : Bool) (rm : FrmMode) (fflags : Flags) :
    let size := if wide then 64 else 32
    (∀ a, DeliversInteger isUnsigned rm (datum ℚ a) fflags (sfloat32.cvtFI isUnsigned size a rm fflags)) ∧
      (∀ a, DeliversInteger isUnsigned rm (datum ℚ a) fflags
        (sfloat64.cvtFI isUnsigned size a rm fflags)) ∧
      (∀ a : BitVec size, sfloat32.Rounds rm (integerOf isUnsigned a < 0)
        ((integerOf isUnsigned a).natAbs : ℚ) fflags (sfloat32.cvtIF isUnsigned a rm fflags)) ∧
      (∀ a : BitVec size, sfloat64.Rounds rm (integerOf isUnsigned a < 0)
        ((integerOf isUnsigned a).natAbs : ℚ) fflags (sfloat64.cvtIF isUnsigned a rm fflags)) ∧
      (∀ a, sfloat32.Delivers rm (convertOutcome (datum ℚ a)) fflags (sfloatCvtF64F32 a rm fflags)) ∧
      (∀ a, match datum ℚ a with
        | .nan signaling => sfloatCvtF32F64 a fflags =
            (sfloat64.fQnan, if signaling then fflags ||| fflagsNvMask else fflags)
        | value => datum ℚ (sfloatCvtF32F64 a fflags).1 = value ∧ (sfloatCvtF32F64 a fflags).2 = fflags) ∧
      ∀ a, sfloat32.isNan a = false →
        sfloatCvtF64F32 (sfloatCvtF32F64 a fflags).1 rm (sfloatCvtF32F64 a fflags).2 = (a, fflags) := by
  intro size
  have positive : 0 < size := by
    cases wide <;> decide
  have small : (size : ℤ) ≤ 64 := by
    cases wide <;> decide
  refine ⟨?_, ?_, ?_, ?_, ?_, ?_, ?_⟩
  · apply cvtFI_delivers rm fflags isUnsigned positive
    · rw [sfloat32_bias]
      omega
    · rw [sfloat32_bias, sfloat32_mantSize]
      omega
  · apply cvtFI_delivers rm fflags isUnsigned positive
    · rw [sfloat64_bias]
      omega
    · rw [sfloat64_bias, sfloat64_mantSize]
      omega
  · exact cvtIF_rounds rm fflags isUnsigned
  · exact cvtIF_rounds rm fflags isUnsigned
  · exact narrowing_delivers rm fflags
  · exact widening_exact fflags
  · exact fun a => narrowing_widening rm fflags

/-- The conversions of the number one. -/
theorem conversions_deliver_one :
    sfloat32.isNan 0x3f800000 = false ∧
      sfloatCvtF64F32 (sfloatCvtF32F64 0x3f800000 0).1 .rne (sfloatCvtF32F64 0x3f800000 0).2 =
        (0x3f800000, 0) := by
  constructor
  · decide
  · exact (conversions_deliver true false .rne 0).2.2.2.2.2.2 0x3f800000 (by decide)

end RoundTrips

end MachineEmulator.SoftFloat
