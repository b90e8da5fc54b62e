/-
This file proves that comparisons follow the order of the numbers.
-/

import MachineEmulator.Construction.SoftFloat.Comparisons
import MachineEmulator.Proof.SoftFloat.Standard
import Mathlib.Data.Nat.Bitwise

namespace MachineEmulator.SoftFloat

/-- The place of a datum among the numbers, which end at the infinities. A NaN has none. -/
def Datum.place {K : Type*} [Neg K] : Datum K → Option (WithBot (WithTop K))
  | .nan _ => none
  | .infinity sign => some (if sign then ⊥ else ((⊤ : WithTop K) : WithBot (WithTop K)))
  | .number sign magnitude => some ((signed sign magnitude : K) : WithTop K)

namespace Format

variable {f : Format}

section Ranks

variable (a b : f.FUint)

/-- A word without its sign. -/
def rank (a : f.FUint) : ℕ := f.expOf a * 2 ^ f.mantSize + f.mantOf a

/-- A word as a sign and a rank. -/
def key (a : f.FUint) : ℤ := signed (f.signOf a) (rank a)

theorem toNat_rank : a.toNat = (f.signOf a).toNat * 2 ^ (f.fSize - 1) + rank a := toNat_fields a

theorem rank_lt : rank a < 2 ^ (f.fSize - 1) := by
  have mantissa := mantOf_lt a
  have exponent := expOf_le a
  have positive := Nat.two_pow_pos f.expSize
  have bound : (f.expOf a + 1) * 2 ^ f.mantSize ≤ 2 ^ f.expSize * 2 ^ f.mantSize := by
    rw [expMask_eq] at exponent
    exact Nat.mul_le_mul_right _ (by omega)
  rw [Nat.succ_mul] at bound
  rw [rank, half_word_size]
  omega

theorem rank_eq : rank a = a.toNat % 2 ^ (f.fSize - 1) := by
  rw [toNat_rank, Nat.mul_comm, Nat.mul_add_mod, Nat.mod_eq_of_lt (rank_lt a)]

/-- Words are equal if their signs and ranks are. -/
theorem word_eq_iff : a = b ↔ f.signOf a = f.signOf b ∧ rank a = rank b := by
  constructor
  · rintro rfl
    exact ⟨rfl, rfl⟩
  · rintro ⟨signs, ranks⟩
    apply BitVec.eq_of_toNat_eq
    rw [toNat_rank, toNat_rank b, signs, ranks]

/-- Words of one sign are in the order of their ranks. -/
theorem word_lt_iff (signs : f.signOf a = f.signOf b) : a < b ↔ rank a < rank b := by
  rw [BitVec.lt_def, toNat_rank, toNat_rank b, signs]
  omega

theorem word_le_iff (signs : f.signOf a = f.signOf b) : a ≤ b ↔ rank a ≤ rank b := by
  rw [BitVec.le_def, toNat_rank, toNat_rank b, signs]
  omega

/-- The test for zeros drops the signs. -/
theorem zeros_iff : (a ||| b) <<< 1 = 0 ↔ rank a = 0 ∧ rank b = 0 := by
  have size := f.fields
  have double : 2 ^ f.fSize = 2 ^ (f.fSize - 1) * 2 := by
    rw [← Nat.pow_succ]
    congr 1
    omega
  have shifted : ((a ||| b) <<< 1).toNat = (rank a ||| rank b) * 2 := by
    rw [BitVec.toNat_shiftLeft, Nat.shiftLeft_eq, Nat.pow_one, double, Nat.mul_mod_mul_right,
      BitVec.toNat_or, Nat.or_mod_two_pow, rank_eq, rank_eq]
  rw [← BitVec.toNat_inj, shifted, BitVec.ofNat_eq_ofNat, BitVec.toNat_ofNat, Nat.zero_mod,
    mul_eq_zero_iff_right two_ne_zero, Nat.or_eq_zero_iff]

theorem rank_effective :
    rank a + 2 ^ f.mantSize = (effective a).1 * 2 ^ f.mantSize + (effective a).2 := by
  rw [rank, effective]
  split
  · rename_i subnormal
    rw [subnormal]
    dsimp only
    omega
  · dsimp only
    omega

end Ranks

section Order

variable {K : Type*} [Field K] [LinearOrder K] [IsStrictOrderedRing K] (a b : f.FUint)

/-- The number of the higher rank is the larger one. -/
theorem magnitude_lt (less : rank a < rank b) : magnitude K a < magnitude K b := by
  have first := rank_effective a
  have second := rank_effective b
  obtain ⟨positive, fits, normal⟩ := effective_bounds a
  obtain ⟨positive', fits', normal'⟩ := effective_bounds b
  have double : 2 ^ (f.mantSize + 1) = 2 * 2 ^ f.mantSize := Nat.pow_succ'
  rw [magnitude_effective, magnitude_effective]
  rcases Nat.lt_trichotomy (effective a).1 (effective b).1 with lower | same | higher
  · have next : ((effective a).1 : ℤ) + 1 ≤ (effective b).1 := by
      omega
    calc ((effective a).2 : K) * 2 ^ ((effective a).1 - f.bias - f.mantSize : ℤ)
        < 2 ^ (f.mantSize + 1) * 2 ^ ((effective a).1 - f.bias - f.mantSize : ℤ) := by
          gcongr
          exact_mod_cast fits
      _ = 2 ^ f.mantSize * 2 ^ ((effective a).1 + 1 - f.bias - f.mantSize : ℤ) := by
          rw [pow_succ, mul_assoc, ← zpow_one_add₀ two_ne_zero]
          congr 2
          ring
      _ ≤ (effective b).2 * 2 ^ ((effective b).1 - f.bias - f.mantSize : ℤ) := by
          gcongr
          · exact_mod_cast normal' (by omega)
          · exact one_le_two
  · have mantissa : (effective a).2 < (effective b).2 := by
      rw [same] at first
      omega
    rw [same]
    gcongr
  · have whole : ((effective b).1 + 1) * 2 ^ f.mantSize ≤ (effective a).1 * 2 ^ f.mantSize :=
      Nat.mul_le_mul_right _ higher
    rw [Nat.succ_mul] at whole
    have large := normal (by omega)
    omega

omit [LinearOrder K] [IsStrictOrderedRing K] in
theorem magnitude_congr (same : rank a = rank b) : magnitude K a = magnitude K b := by
  have exponent (c : f.FUint) : f.expOf c = rank c / 2 ^ f.mantSize := by
    rw [rank, Nat.mul_comm, Nat.mul_add_div (Nat.two_pow_pos _), Nat.div_eq_of_lt (mantOf_lt c),
      Nat.add_zero]
  have mantissa (c : f.FUint) : f.mantOf c = rank c % 2 ^ f.mantSize := by
    rw [rank, Nat.mul_comm, Nat.mul_add_mod, Nat.mod_eq_of_lt (mantOf_lt c)]
  rw [magnitude, magnitude, exponent, exponent b, mantissa, mantissa b, same]

theorem magnitude_lt_iff : magnitude K a < magnitude K b ↔ rank a < rank b := by
  refine ⟨fun less => ?_, magnitude_lt a b⟩
  by_contra notBelow
  rcases Nat.lt_or_eq_of_le (Nat.le_of_not_lt notBelow) with above | same
  · exact lt_asymm less (magnitude_lt b a above)
  · exact less.ne' (magnitude_congr b a same)

theorem magnitude_zero_iff : magnitude K a = 0 ↔ rank a = 0 := by
  have positive := Nat.two_pow_pos f.mantSize
  rw [magnitude_eq_zero, rank, Nat.add_eq_zero_iff, mul_eq_zero_iff_right positive.ne']

/-- The signs act on the numbers as on the ranks. -/
theorem signed_magnitude_lt_iff :
    signed (f.signOf a) (magnitude K a) < signed (f.signOf b) (magnitude K b) ↔ key a < key b := by
  have nonneg := magnitude_nonneg (K := K) a
  have nonneg' := magnitude_nonneg (K := K) b
  have zero := magnitude_zero_iff (K := K) a
  have zero' := magnitude_zero_iff (K := K) b
  rw [key, key]
  cases f.signOf a <;> cases f.signOf b
  case false.false => exact (magnitude_lt_iff a b).trans Nat.cast_lt.symm
  case true.true =>
    refine neg_lt_neg_iff.trans ((magnitude_lt_iff b a).trans ?_)
    exact Nat.cast_lt.symm.trans neg_lt_neg_iff.symm
  case false.true =>
    refine iff_of_false (not_lt.mpr ?_) (not_lt.mpr ?_)
    · exact (neg_nonpos.mpr nonneg').trans nonneg
    · exact (neg_nonpos.mpr (Int.natCast_nonneg _)).trans (Int.natCast_nonneg _)
  case true.false =>
    have numbers : -magnitude K a < magnitude K b ↔ ¬(magnitude K a = 0 ∧ magnitude K b = 0) := by
      constructor
      · rintro less ⟨first, second⟩
        rw [first, second, neg_zero] at less
        exact lt_irrefl _ less
      · intro nonzero
        by_contra notLess
        have bound := not_lt.mp notLess
        exact nonzero ⟨by linarith, by linarith⟩
    refine numbers.trans ?_
    rw [zero, zero']
    change _ ↔ -(rank a : ℤ) < rank b
    omega

omit [LinearOrder K] [IsStrictOrderedRing K] in
/-- A word is a NaN, or it is below the infinities or one of them. -/
theorem place_cases :
    (f.isNan a = true ∧ (datum K a).place = none) ∨
      (f.isNan a = false ∧ f.isSigNan a = false ∧ (datum K a).isSignaling = false ∧
        rank a = f.expMask * 2 ^ f.mantSize ∧
        (datum K a).place =
          some (if f.signOf a then ⊥ else ((⊤ : WithTop K) : WithBot (WithTop K)))) ∨
      (f.isNan a = false ∧ f.isSigNan a = false ∧ (datum K a).isSignaling = false ∧
        rank a < f.expMask * 2 ^ f.mantSize ∧
        (datum K a).place = some ((signed (f.signOf a) (magnitude K a) : K) : WithTop K)) := by
  rcases classes (K := K) a with ⟨-, -, nan, datum_eq⟩ | ⟨last, zero, nan, quiet, datum_eq⟩ |
    ⟨finite, nan, quiet, datum_eq⟩
  · rw [datum_eq]
    exact Or.inl ⟨nan, rfl⟩
  · rw [datum_eq]
    exact Or.inr (Or.inl ⟨nan, quiet, rfl, by rw [rank, last, zero, Nat.add_zero], rfl⟩)
  · rw [datum_eq]
    have below : (f.expOf a + 1) * 2 ^ f.mantSize ≤ f.expMask * 2 ^ f.mantSize :=
      Nat.mul_le_mul_right _ (Nat.lt_of_le_of_ne (expOf_le a) finite)
    have mantissa := mantOf_lt a
    rw [Nat.succ_mul] at below
    exact Or.inr (Or.inr ⟨nan, quiet, rfl, by rw [rank]; omega, rfl⟩)

variable {a b} {x y : WithBot (WithTop K)}

/-- The places are in the order of the keys. -/
theorem place_lt_iff (first : (datum K a).place = some x) (second : (datum K b).place = some y) :
    x < y ↔ key a < key b := by
  have positive : 0 < f.expMask * 2 ^ f.mantSize := by
    have large := f.expMask_large
    positivity
  have below (z : K) : ((z : WithTop K) : WithBot (WithTop K)) < ⊤ :=
    WithBot.coe_lt_coe.mpr (WithTop.coe_lt_top z)
  rcases place_cases (K := K) a with ⟨-, none⟩ | ⟨-, -, -, rank_a, place⟩ | ⟨-, -, -, rank_a, place⟩
  · cases none.symm.trans first
  · obtain rfl := Option.some.inj (place.symm.trans first)
    rcases place_cases (K := K) b with ⟨-, none⟩ | ⟨-, -, -, rank_b, place'⟩ |
      ⟨-, -, -, rank_b, place'⟩
    · cases none.symm.trans second
    · obtain rfl := Option.some.inj (place'.symm.trans second)
      rw [key, key]
      cases f.signOf a <;> cases f.signOf b <;> simp [signed] <;> omega
    · obtain rfl := Option.some.inj (place'.symm.trans second)
      generalize signed (f.signOf b) (magnitude K b) = z
      rw [key, key]
      cases f.signOf a <;> cases f.signOf b <;> simp [signed] <;> omega
  · obtain rfl := Option.some.inj (place.symm.trans first)
    rcases place_cases (K := K) b with ⟨-, none⟩ | ⟨-, -, -, rank_b, place'⟩ |
      ⟨-, -, -, rank_b, place'⟩
    · cases none.symm.trans second
    · obtain rfl := Option.some.inj (place'.symm.trans second)
      generalize signed (f.signOf a) (magnitude K a) = z
      rw [key, key]
      cases f.signOf a <;> cases f.signOf b <;> simp [signed, below] <;> omega
    · obtain rfl := Option.some.inj (place'.symm.trans second)
      rw [WithBot.coe_lt_coe, WithTop.coe_lt_coe]
      exact signed_magnitude_lt_iff a b

theorem place_le_iff (first : (datum K a).place = some x) (second : (datum K b).place = some y) :
    x ≤ y ↔ key a ≤ key b := by
  rw [← not_lt, place_lt_iff second first, not_lt]

theorem place_eq_iff (first : (datum K a).place = some x) (second : (datum K b).place = some y) :
    x = y ↔ key a = key b := by
  rw [le_antisymm_iff, place_le_iff first second, place_le_iff second first, ← le_antisymm_iff]

omit [LinearOrder K] [IsStrictOrderedRing K] in
/-- A word has no place if it is a NaN. -/
theorem place_eq_none (a : f.FUint) : (datum K a).place = none ↔ f.isNan a = true := by
  rcases place_cases (K := K) a with ⟨nan, none⟩ | ⟨nan, -, -, -, place⟩ | ⟨nan, -, -, -, place⟩
  · exact iff_of_true none nan
  · rw [place, nan]
    exact iff_of_false nofun nofun
  · rw [place, nan]
    exact iff_of_false nofun nofun

omit [LinearOrder K] [IsStrictOrderedRing K] in
theorem place_of_nan {a : f.FUint} (nan : f.isNan a = true) : (datum K a).place = none :=
  (place_eq_none a).mpr nan

omit [LinearOrder K] [IsStrictOrderedRing K] in
theorem place_of_number {a : f.FUint} (number : ¬f.isNan a = true) :
    ∃ x, (datum K a).place = some x :=
  Option.ne_none_iff_exists'.mp fun none => number ((place_eq_none a).mp none)

omit [LinearOrder K] [IsStrictOrderedRing K] in
theorem isSignaling_eq (a : f.FUint) : (datum K a).isSignaling = f.isSigNan a := by
  rcases classes (K := K) a with ⟨-, -, -, datum_eq⟩ | ⟨-, -, -, quiet, datum_eq⟩ |
    ⟨-, -, quiet, datum_eq⟩
  · rw [datum_eq]
    rfl
  · rw [datum_eq, quiet]
    rfl
  · rw [datum_eq, quiet]
    rfl

theorem isSigNan_of_not_isNan {a : f.FUint} (number : f.isNan a = false) :
    f.isSigNan a = false := by
  rw [isNan, decide_eq_false_iff_not] at number
  rw [isSigNan_eq, decide_eq_false number, Bool.false_and]

end Order

section Keys

variable (a b : f.FUint) (fflags : Flags)

theorem key_eq_iff :
    key a = key b ↔ rank a = 0 ∧ rank b = 0 ∨ f.signOf a = f.signOf b ∧ rank a = rank b := by
  rw [key, key]
  cases f.signOf a <;> cases f.signOf b <;> simp [signed] <;> omega

/-- Words of different signs are in order unless they are the two zeros. -/
theorem key_lt_of_signs (signs : f.signOf a ≠ f.signOf b) :
    key a < key b ↔ f.signOf a = true ∧ ¬(rank a = 0 ∧ rank b = 0) := by
  rw [key, key]
  cases first : f.signOf a <;> cases second : f.signOf b <;> simp_all [signed]
  omega

theorem key_le_of_signs (signs : f.signOf a ≠ f.signOf b) :
    key a ≤ key b ↔ f.signOf a = true ∨ rank a = 0 ∧ rank b = 0 := by
  rw [key, key]
  cases first : f.signOf a <;> cases second : f.signOf b <;> simp_all [signed]
  omega

theorem key_lt_of_sign (sign : f.signOf a = f.signOf b) :
    key a < key b ↔ if f.signOf a then b < a else a < b := by
  rw [word_lt_iff a b sign, word_lt_iff b a sign.symm, key, key, ← sign]
  cases f.signOf a <;> simp [signed]

theorem key_le_of_sign (sign : f.signOf a = f.signOf b) :
    key a ≤ key b ↔ if f.signOf a then b ≤ a else a ≤ b := by
  rw [word_le_iff a b sign, word_le_iff b a sign.symm, key, key, ← sign]
  cases f.signOf a <;> simp [signed]

variable {a b} (number : ¬(f.isNan a ∨ f.isNan b))
include number

theorem eq_number : f.eq a b fflags = (decide (key a = key b), fflags) := by
  rw [eq, if_neg number, decide_eq_decide.mpr (key_eq_iff a b)]
  split
  · rename_i zeros
    rw [decide_eq_true (Or.inl ((zeros_iff a b).mp zeros))]
  · rename_i nonzero
    rw [zeros_iff] at nonzero
    congr 1
    rw [decide_eq_decide, word_eq_iff]
    exact (or_iff_right nonzero).symm

theorem le_number : f.le a b fflags = (decide (key a ≤ key b), fflags) := by
  rw [le, if_neg number]
  split
  · rename_i signs
    congr 1
    rw [Bool.eq_iff_iff, decide_eq_true_iff, key_le_of_signs a b signs, Bool.or_eq_true,
      decide_eq_true_iff, zeros_iff]
  · rename_i sign
    congr 1
    rw [Bool.eq_iff_iff, decide_eq_true_iff, key_le_of_sign a b (not_not.mp sign)]
    cases f.signOf a <;> simp

theorem lt_number : f.lt a b fflags = (decide (key a < key b), fflags) := by
  rw [lt, if_neg number]
  split
  · rename_i signs
    congr 1
    rw [Bool.eq_iff_iff, decide_eq_true_iff, key_lt_of_signs a b signs, Bool.and_eq_true,
      decide_eq_true_iff, Ne, zeros_iff]
  · rename_i sign
    congr 1
    rw [Bool.eq_iff_iff, decide_eq_true_iff, key_lt_of_sign a b (not_not.mp sign)]
    cases f.signOf a <;> simp

end Keys

section Relations

variable (K : Type*) [Field K] [LinearOrder K] [IsStrictOrderedRing K] (a b : f.FUint)
  (fflags : Flags)

/-- A comparison answers for the places of its operands. A NaN is related to nothing, and it sets
the flag if it is invalid. -/
def Compares (relation : WithBot (WithTop K) → WithBot (WithTop K) → Prop) (invalid : Bool)
    (result : Bool × Flags) : Prop :=
  match (datum K a).place, (datum K b).place with
  | some x, some y => (result.1 = true ↔ relation x y) ∧ result.2 = fflags
  | _, _ => result = (false, if invalid then fflags ||| fflagsNvMask else fflags)

variable {K a b fflags} {relation : WithBot (WithTop K) → WithBot (WithTop K) → Prop}
  {invalid : Bool} {result : Bool × Flags}

omit [LinearOrder K] [IsStrictOrderedRing K] in
/-- A comparison handles the NaNs first. -/
theorem compares_of
    (nan : f.isNan a ∨ f.isNan b →
      result = (false, if invalid then fflags ||| fflagsNvMask else fflags))
    (number : ¬(f.isNan a ∨ f.isNan b) → ∀ x y, (datum K a).place = some x →
      (datum K b).place = some y → (result.1 = true ↔ relation x y) ∧ result.2 = fflags) :
    Compares K a b fflags relation invalid result := by
  rw [Compares]
  by_cases nan_a : f.isNan a = true
  · rw [place_of_nan nan_a]
    exact nan (Or.inl nan_a)
  obtain ⟨x, place⟩ := place_of_number (K := K) nan_a
  rw [place]
  by_cases nan_b : f.isNan b = true
  · rw [place_of_nan nan_b]
    exact nan (Or.inr nan_b)
  obtain ⟨y, place'⟩ := place_of_number (K := K) nan_b
  rw [place']
  exact number (not_or.mpr ⟨nan_a, nan_b⟩) x y place place'

variable (K a b fflags)

/-- The comparisons are those of the numbers and the infinities. Every NaN is invalid for the order,
but only a signaling one is for the equality. -/
theorem comparisons_ordered :
    Compares K a b fflags (· = ·) ((datum K a).isSignaling || (datum K b).isSignaling)
        (f.eq a b fflags) ∧
      Compares K a b fflags (· ≤ ·) true (f.le a b fflags) ∧
      Compares K a b fflags (· < ·) true (f.lt a b fflags) := by
  refine ⟨compares_of ?_ ?_, compares_of ?_ ?_, compares_of ?_ ?_⟩
  · intro nan
    rw [eq, if_pos nan, isSignaling_eq, isSignaling_eq]
    simp only [Bool.or_eq_true]
  · intro number x y first second
    rw [eq_number fflags number]
    exact ⟨decide_eq_true_iff.trans (place_eq_iff first second).symm, rfl⟩
  · intro nan
    rw [le, if_pos nan, if_pos rfl]
  · intro number x y first second
    rw [le_number fflags number]
    exact ⟨decide_eq_true_iff.trans (place_le_iff first second).symm, rfl⟩
  · intro nan
    rw [lt, if_pos nan, if_pos rfl]
  · intro number x y first second
    rw [lt_number fflags number]
    exact ⟨decide_eq_true_iff.trans (place_lt_iff first second).symm, rfl⟩

/-- The number -1 is below the number 1. -/
theorem comparisons_ordered_ones :
    Compares ℚ (0xbf800000 : sfloat32.FUint) (0x3f800000 : sfloat32.FUint) 0 (· < ·) true
      (sfloat32.lt 0xbf800000 0x3f800000 0) :=
  (comparisons_ordered ℚ (f := sfloat32) 0xbf800000 0x3f800000 0).2.2

end Relations

section Extremes

variable {K : Type*} [Field K] [LinearOrder K] [IsStrictOrderedRing K] {a b : f.FUint}
  {fflags : Flags}

/-- The first operand stands before the second one; a negative zero stands before the other. -/
def isFirst (a b : f.FUint) : Bool :=
  if f.signOf a ≠ f.signOf b then f.signOf a else decide (a < b) ^^ f.signOf a

theorem key_of_isFirst (isFirst_eq : isFirst a b = true) :
    key a ≤ key b ∧ (f.signOf b = true → f.signOf a = true) := by
  rw [isFirst] at isFirst_eq
  split at isFirst_eq
  · rename_i signs
    exact ⟨(key_le_of_signs a b signs).mpr (Or.inl isFirst_eq), fun _ => isFirst_eq⟩
  · rename_i sign
    rw [not_not] at sign
    refine ⟨?_, fun negative => sign.trans negative⟩
    rw [key_le_of_sign a b sign]
    cases negative : f.signOf a
    · rw [negative, Bool.xor_false, decide_eq_true_iff] at isFirst_eq
      exact BitVec.le_of_lt isFirst_eq
    · rw [negative, Bool.xor_true, Bool.not_eq_true', decide_eq_false_iff_not] at isFirst_eq
      exact BitVec.not_lt.mp isFirst_eq

theorem key_of_not_isFirst (isFirst_eq : isFirst a b = false) :
    key b ≤ key a ∧ (f.signOf a = true → f.signOf b = true) := by
  rw [isFirst] at isFirst_eq
  split at isFirst_eq
  · rename_i signs
    refine ⟨(key_le_of_signs b a signs.symm).mpr (Or.inl ?_), fun negative => ?_⟩
    · exact Bool.eq_true_of_not_eq_false fun positive => signs (isFirst_eq.trans positive.symm)
    · exact absurd (isFirst_eq.symm.trans negative) nofun
  · rename_i sign
    rw [not_not] at sign
    refine ⟨?_, fun negative => sign.symm.trans negative⟩
    rw [key_le_of_sign b a sign.symm, ← sign]
    cases negative : f.signOf a
    · rw [negative, Bool.xor_false, decide_eq_false_iff_not] at isFirst_eq
      exact BitVec.not_lt.mp isFirst_eq
    · rw [negative, Bool.xor_true, Bool.not_eq_false', decide_eq_true_iff] at isFirst_eq
      exact BitVec.le_of_lt isFirst_eq

theorem signs_joined {s t : Bool} (before : t = true → s = true) : (s || t) = s ∧ (s && t) = t := by
  cases s <;> cases t <;> simp_all

theorem minimum_number (number : ¬(f.isNan a ∨ f.isNan b)) :
    f.minimum a b fflags = (if isFirst a b then a else b, fflags) := by
  rw [minimum, if_neg number, isFirst]
  split <;> rfl

theorem maximum_number (number : ¬(f.isNan a ∨ f.isNan b)) :
    f.maximum a b fflags = (if isFirst a b then b else a, fflags) := by
  rw [maximum, if_neg number, isFirst]
  split <;> rfl

variable (K a b fflags)

/-- An operation picks one of its operands. A NaN gives way to the other operand, and the sign
decides between the zeros. -/
def Picks (choose : WithBot (WithTop K) → WithBot (WithTop K) → WithBot (WithTop K))
    (sign : Bool → Bool → Bool) (result : f.FUint × Flags) : Prop :=
  result.2 = (if (datum K a).isSignaling || (datum K b).isSignaling then fflags ||| fflagsNvMask
    else fflags) ∧
  match (datum K a).place, (datum K b).place with
  | some x, some y =>
      (result.1 = a ∨ result.1 = b) ∧ (datum K result.1).place = some (choose x y) ∧
        f.signOf result.1 = sign (f.signOf a) (f.signOf b)
  | some _, none => result.1 = a
  | none, some _ => result.1 = b
  | none, none => result.1 = f.fQnan

variable {K a b fflags} {choose : WithBot (WithTop K) → WithBot (WithTop K) → WithBot (WithTop K)}
  {sign : Bool → Bool → Bool} {result : f.FUint × Flags}

omit [LinearOrder K] [IsStrictOrderedRing K] in
theorem picks_nan (nan : f.isNan a ∨ f.isNan b) :
    Picks K a b fflags choose sign (f.minMaxNan a b fflags) := by
  rw [Picks, minMaxNan, isSignaling_eq, isSignaling_eq]
  refine ⟨?_, ?_⟩
  · simp only [Bool.or_eq_true]
    split
    · split <;> rfl
    · rfl
  by_cases nan_a : f.isNan a = true
  · rw [if_pos nan_a, place_of_nan nan_a]
    by_cases nan_b : f.isNan b = true
    · rw [if_pos nan_b, place_of_nan nan_b]
    · obtain ⟨y, place'⟩ := place_of_number (K := K) nan_b
      rw [if_neg nan_b, place']
  · obtain ⟨x, place⟩ := place_of_number (K := K) nan_a
    rw [if_neg nan_a, place, place_of_nan (nan.resolve_left nan_a)]

omit [LinearOrder K] [IsStrictOrderedRing K] in
theorem picks_number (number : ¬(f.isNan a ∨ f.isNan b)) (flags : result.2 = fflags)
    (picked : ∀ x y, (datum K a).place = some x → (datum K b).place = some y →
      (result.1 = a ∨ result.1 = b) ∧ (datum K result.1).place = some (choose x y) ∧
        f.signOf result.1 = sign (f.signOf a) (f.signOf b)) :
    Picks K a b fflags choose sign result := by
  obtain ⟨number_a, number_b⟩ := not_or.mp number
  rw [Picks, isSignaling_eq, isSignaling_eq,
    isSigNan_of_not_isNan (Bool.eq_false_of_not_eq_true number_a),
    isSigNan_of_not_isNan (Bool.eq_false_of_not_eq_true number_b)]
  obtain ⟨x, place⟩ := place_of_number (K := K) number_a
  obtain ⟨y, place'⟩ := place_of_number (K := K) number_b
  rw [place, place']
  exact ⟨flags, picked x y place place'⟩

variable (K a b fflags)

/-- The minimum and the maximum are those of the numbers and the infinities. -/
theorem extremes_picked :
    Picks K a b fflags min (· || ·) (f.minimum a b fflags) ∧
      Picks K a b fflags max (· && ·) (f.maximum a b fflags) := by
  by_cases nan : f.isNan a ∨ f.isNan b
  · rw [minimum, if_pos nan, maximum, if_pos nan]
    exact ⟨picks_nan nan, picks_nan nan⟩
  · rw [minimum_number nan, maximum_number nan]
    cases order : isFirst a b with
    | true =>
        obtain ⟨keys, signs⟩ := key_of_isFirst order
        obtain ⟨either, both⟩ := signs_joined signs
        refine ⟨picks_number nan rfl ?_, picks_number nan rfl ?_⟩
        · intro x y first second
          refine ⟨Or.inl rfl, ?_, ?_⟩
          · rw [min_eq_left ((place_le_iff first second).mpr keys)]
            exact first
          · exact either.symm
        · intro x y first second
          refine ⟨Or.inr rfl, ?_, ?_⟩
          · rw [max_eq_right ((place_le_iff first second).mpr keys)]
            exact second
          · exact both.symm
    | false =>
        obtain ⟨keys, signs⟩ := key_of_not_isFirst order
        obtain ⟨either, both⟩ := signs_joined signs
        refine ⟨picks_number nan rfl ?_, picks_number nan rfl ?_⟩
        · intro x y first second
          refine ⟨Or.inr rfl, ?_, ?_⟩
          · rw [min_eq_right ((place_le_iff second first).mpr keys)]
            exact second
          · exact (either.symm.trans (Bool.or_comm _ _))
        · intro x y first second
          refine ⟨Or.inl rfl, ?_, ?_⟩
          · rw [max_eq_left ((place_le_iff second first).mpr keys)]
            exact first
          · exact (both.symm.trans (Bool.and_comm _ _))

/-- The minimum of the zeros is the negative one. -/
theorem extremes_picked_zeros :
    Picks ℚ (0 : sfloat32.FUint) (0x80000000 : sfloat32.FUint) 0 min (· || ·)
        (sfloat32.minimum 0 0x80000000 0) ∧
      Picks ℚ (0 : sfloat32.FUint) (0x80000000 : sfloat32.FUint) 0 max (· && ·)
        (sfloat32.maximum 0 0x80000000 0) :=
  extremes_picked ℚ (f := sfloat32) 0 0x80000000 0

end Extremes

section Classes

variable {K : Type*} [Field K] [LinearOrder K]

/-- The class of a datum. The smallest normal number separates the numbers. -/
def classOf (f : Format) : Datum K → FloatClass
  | .nan signaling => if signaling then .snan else .qnan
  | .infinity sign => if sign then .ninf else .pinf
  | .number sign magnitude =>
      if magnitude = 0 then if sign then .nzero else .pzero
      else if magnitude < 2 ^ f.emin then if sign then .nsubnormal else .psubnormal
      else if sign then .nnormal else .pnormal

variable [IsStrictOrderedRing K] (a : f.FUint)

theorem qnanMask_bit :
    f.mantOf a &&& f.qnanMask ≠ 0 ↔ (f.mantOf a).testBit (f.mantSize - 1) = true := by
  rw [qnanMask, Nat.one_shiftLeft, Nat.and_two_pow]
  cases (f.mantOf a).testBit (f.mantSize - 1)
  · simp
  · simp

/-- A number is below the smallest normal one if its exponent is zero. -/
theorem subnormal_iff : magnitude K a < 2 ^ f.emin ↔ f.expOf a = 0 := by
  have smallest : (2 : K) ^ f.emin = 2 ^ f.mantSize * 2 ^ (f.emin - f.mantSize) := by
    rw [← zpow_natCast, ← zpow_add₀ two_ne_zero]
    congr 1
    ring
  rw [magnitude, smallest]
  by_cases subnormal : f.expOf a = 0
  · rw [if_pos subnormal]
    refine iff_of_true ?_ subnormal
    gcongr
    exact_mod_cast mantOf_lt a
  · rw [if_neg subnormal]
    refine iff_of_false (not_lt.mpr ?_) subnormal
    gcongr
    · exact le_add_of_nonneg_right (Nat.cast_nonneg _)
    · exact one_le_two
    · rw [emin]
      omega

variable (K)

/-- The class of a word is that of the number that it stands for. -/
theorem fclass_eq : f.fclass a = f.classOf (datum K a) := by
  rw [fclass, datum]
  by_cases last : f.expOf a = f.expMask
  · rw [if_pos last, if_pos last]
    by_cases zero : f.mantOf a = 0
    · rw [if_neg (not_not.mpr zero), if_pos zero, classOf]
    · rw [if_pos zero, if_neg zero, classOf]
      rw [if_congr (qnanMask_bit a) rfl rfl]
      cases (f.mantOf a).testBit (f.mantSize - 1) <;> rfl
  · rw [if_neg last, if_neg last, classOf, if_congr (magnitude_eq_zero a) rfl rfl,
      if_congr (subnormal_iff a) rfl rfl]
    by_cases subnormal : f.expOf a = 0
    · by_cases zero : f.mantOf a = 0
      · simp [subnormal, zero]
      · simp [subnormal, zero]
    · simp [subnormal]

/-- The word of the lowest bit is the smallest subnormal number. -/
theorem fclass_eq_one : sfloat64.fclass 1 = sfloat64.classOf (datum ℚ (1 : sfloat64.FUint)) :=
  fclass_eq ℚ (1 : sfloat64.FUint)

end Classes

end Format

end MachineEmulator.SoftFloat
