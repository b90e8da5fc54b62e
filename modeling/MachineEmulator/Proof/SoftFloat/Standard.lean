/-
This file states what the floating-point standard asks of the operations.
-/

import MachineEmulator.Proof.SoftFloat.RoundPack
import Mathlib.Analysis.Real.Sqrt

namespace MachineEmulator.SoftFloat

/-- What a floating-point word stands for. -/
inductive Datum (K : Type*) where
  | nan (signaling : Bool)
  | infinity (sign : Bool)
  | number (sign : Bool) (magnitude : K)

def Datum.isSignaling {K : Type*} : Datum K → Bool
  | .nan signaling => signaling
  | _ => false

/-- What an operation has to deliver: a rounded result has an exact magnitude and a sign. -/
inductive Outcome (K : Type*) where
  | invalid
  | quiet
  | divideByZero (sign : Bool)
  | infinity (sign : Bool)
  | rounded (sign : Bool) (magnitude : K)

/-- The value of a sign and a magnitude. -/
def signed {K : Type*} [Neg K] (sign : Bool) (magnitude : K) : K :=
  if sign then -magnitude else magnitude

namespace Format

variable {f : Format}

section Words

/-- The quiet bit of a NaN is the highest one of its mantissa. -/
def datum (K : Type*) [Field K] (a : f.FUint) : Datum K :=
  if f.expOf a = f.expMask then
    if f.mantOf a = 0 then .infinity (f.signOf a)
    else .nan (!(f.mantOf a).testBit (f.mantSize - 1))
  else .number (f.signOf a) (magnitude K a)

/-- A result delivers an outcome, and the flags from before stay set. -/
def Delivers {K : Type*} [Field K] [LinearOrder K] [IsStrictOrderedRing K] [FloorSemiring K]
    (f : Format) (rm : FrmMode) (outcome : Outcome K) (fflags : Flags) (result : f.FUint × Flags) :
    Prop :=
  match outcome with
  | .invalid => result = (f.fQnan, fflags ||| fflagsNvMask)
  | .quiet => result = (f.fQnan, fflags)
  | .divideByZero sign => result = (f.pack sign f.expMask 0, fflags ||| fflagsDzMask)
  | .infinity sign => result = (f.pack sign f.expMask 0, fflags)
  | .rounded sign magnitude => f.Rounds rm sign magnitude fflags result

end Words

section Outcomes

variable {K : Type*} [Field K] [LinearOrder K]

/-- A NaN operand gives the quiet NaN, and a signaling one makes the operation invalid. -/
def nanOutcome (signaling : Bool) : Outcome K := if signaling then .invalid else .quiet

/-- The sum of two numbers; a zero of opposite signs is positive unless the mode rounds down. -/
def sumOutcome (rm : FrmMode) (aSign bSign : Bool) (x y : K) : Outcome K :=
  let exact := signed aSign x + signed bSign y
  .rounded (if exact = 0 then (if aSign = bSign then aSign else rm = .rdn) else exact < 0) |exact|

def addOutcome (rm : FrmMode) : Datum K → Datum K → Outcome K
  | .nan s, .nan t => nanOutcome (s || t)
  | .nan s, _ => nanOutcome s
  | _, .nan t => nanOutcome t
  | .infinity s, .infinity t => if s = t then .infinity s else .invalid
  | .infinity s, .number _ _ => .infinity s
  | .number _ _, .infinity t => .infinity t
  | .number s x, .number t y => sumOutcome rm s t x y

def mulOutcome : Datum K → Datum K → Outcome K
  | .nan s, .nan t => nanOutcome (s || t)
  | .nan s, _ => nanOutcome s
  | _, .nan t => nanOutcome t
  | .infinity s, .infinity t => .infinity (s ^^ t)
  | .infinity s, .number t y => if y = 0 then .invalid else .infinity (s ^^ t)
  | .number s x, .infinity t => if x = 0 then .invalid else .infinity (s ^^ t)
  | .number s x, .number t y => .rounded (s ^^ t) (x * y)

def divOutcome : Datum K → Datum K → Outcome K
  | .nan s, .nan t => nanOutcome (s || t)
  | .nan s, _ => nanOutcome s
  | _, .nan t => nanOutcome t
  | .infinity _, .infinity _ => .invalid
  | .infinity s, .number t _ => .infinity (s ^^ t)
  | .number s _, .infinity t => .rounded (s ^^ t) 0
  | .number s x, .number t y =>
      if y = 0 then (if x = 0 then .invalid else .divideByZero (s ^^ t)) else .rounded (s ^^ t) (x / y)

open Classical in
/-- The root of a number below zero is invalid, and a zero keeps its sign. -/
noncomputable def sqrtOutcome : Datum ℝ → Outcome ℝ
  | .nan s => nanOutcome s
  | .infinity s => if s then .invalid else .infinity false
  | .number s x => if x = 0 then .rounded s 0 else if s then .invalid else .rounded false (Real.sqrt x)

/-- An infinite product and an addend. -/
def infiniteOutcome (sign : Bool) : Datum K → Outcome K
  | .nan u => nanOutcome u
  | .infinity u => if sign = u then .infinity u else .invalid
  | .number _ _ => .infinity sign

/-- The product of an infinity and a zero is invalid even if the addend is a NaN. -/
def fmaOutcome (rm : FrmMode) (a b c : Datum K) : Outcome K :=
  match a, b with
  | .nan s, .nan t => nanOutcome (s || t || c.isSignaling)
  | .nan s, _ => nanOutcome (s || c.isSignaling)
  | _, .nan t => nanOutcome (t || c.isSignaling)
  | .infinity s, .infinity t => infiniteOutcome (s ^^ t) c
  | .infinity s, .number t y => if y = 0 then .invalid else infiniteOutcome (s ^^ t) c
  | .number s x, .infinity t => if x = 0 then .invalid else infiniteOutcome (s ^^ t) c
  | .number s x, .number t y =>
      match c with
      | .nan u => nanOutcome u
      | .infinity u => .infinity u
      | .number u z => sumOutcome rm (s ^^ t) u (x * y) z

end Outcomes

section Signs

variable {K : Type*} [Field K] [LinearOrder K] [IsStrictOrderedRing K] {x y : K}

theorem abs_signed (sign : Bool) (nonneg : 0 ≤ x) : |signed sign x| = x := by
  cases sign
  · exact abs_of_nonneg nonneg
  · rw [signed, if_pos rfl, abs_neg, abs_of_nonneg nonneg]

omit [LinearOrder K] [IsStrictOrderedRing K] in
theorem signed_eq_zero (sign : Bool) : signed sign x = 0 ↔ x = 0 := by
  cases sign
  · exact Iff.rfl
  · exact neg_eq_zero

theorem signed_neg_iff (sign : Bool) (nonneg : 0 ≤ x) (nonzero : x ≠ 0) :
    decide (signed sign x < 0) = sign := by
  have positive := lt_of_le_of_ne nonneg nonzero.symm
  cases sign
  · exact decide_eq_false (not_lt.mpr nonneg)
  · exact decide_eq_true (neg_lt_zero.mpr positive)

/-- The sum of two numbers whose first one is not the smaller one. -/
theorem sumOutcome_swapped {rm : FrmMode} (xNonneg : 0 ≤ x) (yNonneg : 0 ≤ y) (less : y ≤ x)
    (aSign bSign : Bool) :
    sumOutcome rm aSign bSign x y =
      if aSign = bSign then .rounded aSign (x + y)
      else .rounded (if x - y = 0 then rm = .rdn else aSign) (x - y) := by
  rw [sumOutcome]
  by_cases same : aSign = bSign
  · subst same
    have joined : signed aSign x + signed aSign y = signed aSign (x + y) := by
      cases aSign
      · rfl
      · simp only [signed, if_true]
        ring
    have nonneg := add_nonneg xNonneg yNonneg
    simp only [joined, abs_signed aSign nonneg, signed_eq_zero, if_true]
    split
    · rfl
    · rename_i nonzero
      rw [signed_neg_iff aSign nonneg nonzero]
  · have joined : signed aSign x + signed bSign y = signed aSign (x - y) := by
      cases aSign <;> cases bSign
      · exact absurd rfl same
      · exact (sub_eq_add_neg x y).symm
      · simp only [signed, if_true, Bool.false_eq_true, if_false]
        ring
      · exact absurd rfl same
    have nonneg := sub_nonneg.mpr less
    simp only [joined, abs_signed aSign nonneg, signed_eq_zero, same, if_false]
    split
    · rfl
    · rename_i nonzero
      rw [signed_neg_iff aSign nonneg nonzero]

omit [IsStrictOrderedRing K] in
theorem sumOutcome_comm (rm : FrmMode) (aSign bSign : Bool) :
    sumOutcome rm aSign bSign x y = sumOutcome rm bSign aSign y x := by
  rw [sumOutcome, sumOutcome, add_comm]
  cases aSign <;> cases bSign <;> rfl

omit [IsStrictOrderedRing K] in
theorem addOutcome_comm (rm : FrmMode) (a b : Datum K) : addOutcome rm a b = addOutcome rm b a := by
  cases a <;> cases b <;> simp only [addOutcome]
  · rw [Bool.or_comm]
  · rename_i s t
    cases s <;> cases t <;> rfl
  · exact sumOutcome_comm _ _ _

end Signs

section Classes

variable {K : Type*} [Field K] (a : f.FUint)

theorem isSigNan_eq :
    f.isSigNan a = (decide (f.expOf a = f.expMask ∧ f.mantOf a ≠ 0) &&
      !(f.mantOf a).testBit (f.mantSize - 1)) := by
  have large := f.mant_large
  have mask := f.expMask_large
  have field : (a.toNat >>> (f.mantSize - 1)) &&& ((1 <<< (f.expSize + 1)) - 1) =
      2 * f.expOf a + ((f.mantOf a).testBit (f.mantSize - 1)).toNat := by
    have mantissa := mantOf_lt a
    have exponent := expOf_le a
    have word := toNat_fields a
    have upper : 2 ^ f.mantSize = 2 * 2 ^ (f.mantSize - 1) := by
      rw [← Nat.pow_succ']
      congr 1
      omega
    have positive := Nat.two_pow_pos (f.mantSize - 1)
    have bit : ((f.mantOf a).testBit (f.mantSize - 1)).toNat = f.mantOf a / 2 ^ (f.mantSize - 1) := by
      have small : f.mantOf a / 2 ^ (f.mantSize - 1) < 2 := by
        rw [Nat.div_lt_iff_lt_mul positive]
        omega
      rw [Nat.testBit_eq_decide_div_mod_eq, Nat.mod_eq_of_lt small]
      rcases Nat.lt_or_ge (f.mantOf a / 2 ^ (f.mantSize - 1)) 1 with zero | one
      · rw [Nat.lt_one_iff.mp zero]
        rfl
      · have whole : f.mantOf a / 2 ^ (f.mantSize - 1) = 1 := by
          omega
        rw [whole]
        rfl
    have parts := Nat.div_add_mod (f.mantOf a) (2 ^ (f.mantSize - 1))
    have rest := Nat.mod_lt (f.mantOf a) positive
    have joined : a.toNat = 2 ^ (f.mantSize - 1) * (2 ^ (f.expSize + 1) * (f.signOf a).toNat +
        (2 * f.expOf a + f.mantOf a / 2 ^ (f.mantSize - 1))) +
          f.mantOf a % 2 ^ (f.mantSize - 1) := by
      calc a.toNat = (f.signOf a).toNat * (2 ^ f.expSize * 2 ^ f.mantSize) +
            (f.expOf a * 2 ^ f.mantSize + (2 ^ (f.mantSize - 1) *
              (f.mantOf a / 2 ^ (f.mantSize - 1)) + f.mantOf a % 2 ^ (f.mantSize - 1))) := by
              rw [parts, ← half_word_size]
              exact word
        _ = _ := by
              rw [upper, Nat.pow_succ]
              ring
    have fits : 2 * f.expOf a + f.mantOf a / 2 ^ (f.mantSize - 1) < 2 ^ (f.expSize + 1) := by
      have small : f.mantOf a / 2 ^ (f.mantSize - 1) < 2 := by
        rw [Nat.div_lt_iff_lt_mul positive]
        omega
      have positive' := Nat.two_pow_pos f.expSize
      rw [expMask_eq] at exponent
      rw [Nat.pow_succ]
      omega
    rw [bit, Nat.one_shiftLeft, Nat.and_two_pow_sub_one_eq_mod, Nat.shiftRight_eq_div_pow, joined,
      Nat.mul_add_div positive, Nat.div_eq_of_lt rest, Nat.add_zero, Nat.mul_add_mod,
      Nat.mod_eq_of_lt fits]
  rw [isSigNan, field]
  cases quiet : (f.mantOf a).testBit (f.mantSize - 1)
  · simp
  · have odd : ¬2 * f.expOf a + 1 = 2 * f.expMask := by
      omega
    simp [odd]

/-- A word is a NaN, an infinity or a number. -/
theorem classes :
    (f.expOf a = f.expMask ∧ f.mantOf a ≠ 0 ∧ f.isNan a = true ∧
        datum K a = .nan (f.isSigNan a)) ∨
      (f.expOf a = f.expMask ∧ f.mantOf a = 0 ∧ f.isNan a = false ∧ f.isSigNan a = false ∧
        datum K a = .infinity (f.signOf a)) ∨
      (f.expOf a ≠ f.expMask ∧ f.isNan a = false ∧ f.isSigNan a = false ∧
        datum K a = .number (f.signOf a) (magnitude K a)) := by
  rw [datum, isSigNan_eq, isNan]
  by_cases last : f.expOf a = f.expMask
  · by_cases zero : f.mantOf a = 0
    · simp [last, zero]
    · simp [last, zero]
  · simp [last]

/-- A number is zero if all its fields but the sign are. -/
theorem magnitude_eq_zero [LinearOrder K] [IsStrictOrderedRing K] :
    magnitude K a = 0 ↔ f.expOf a = 0 ∧ f.mantOf a = 0 := by
  have power (e : ℤ) : (2 : K) ^ e ≠ 0 := zpow_ne_zero _ two_ne_zero
  rw [magnitude]
  by_cases subnormal : f.expOf a = 0
  · rw [if_pos subnormal, mul_eq_zero_iff_right (power _), Nat.cast_eq_zero]
    simp [subnormal]
  · have leading : (0 : K) < 2 ^ f.mantSize + f.mantOf a := by
      positivity
    rw [if_neg subnormal, mul_eq_zero_iff_right (power _)]
    simp [subnormal, leading.ne']

/-- The exponent and the mantissa of a number, where a subnormal one has the smallest exponent. -/
def effective (a : f.FUint) : ℕ × ℕ :=
  if f.expOf a = 0 then (1, f.mantOf a) else (f.expOf a, 2 ^ f.mantSize + f.mantOf a)

theorem magnitude_effective :
    magnitude K a = (effective a).2 * 2 ^ ((effective a).1 - f.bias - f.mantSize) := by
  rw [magnitude, effective]
  split
  · rw [emin, Nat.cast_one]
  · push_cast
    ring

theorem effective_bounds :
    0 < (effective a).1 ∧ (effective a).2 < 2 ^ (f.mantSize + 1) ∧
      (1 < (effective a).1 → 2 ^ f.mantSize ≤ (effective a).2) := by
  have bound := mantOf_lt a
  have double : 2 ^ (f.mantSize + 1) = 2 * 2 ^ f.mantSize := Nat.pow_succ'
  rw [effective]
  split <;> dsimp only <;> omega

/-- The exponent and the mantissa in front of some more bits. -/
theorem effective_shl {count : ℕ} (room : count ≤ f.rndSize) :
    (if f.expOf a = 0 then (1, f.shl (f.mantOf a) count)
      else (f.expOf a, f.shl (f.mantOf a) count ||| 1 <<< (f.mantSize + count))) =
      ((effective a).1, 2 ^ count * (effective a).2) := by
  have split := f.fSize_split
  have bound := mantOf_lt a
  have fits : f.mantOf a * 2 ^ count < 2 ^ (f.mantSize + count) := by
    rw [Nat.pow_add]
    exact Nat.mul_lt_mul_of_pos_right bound (Nat.two_pow_pos _)
  have word : 2 ^ (f.mantSize + count) ≤ 2 ^ f.fSize := Nat.pow_le_pow_right two_pos (by omega)
  rw [shl_eq f (fits.trans_le word), effective]
  split
  · rw [Nat.mul_comm]
  · rw [Nat.or_comm, ← Nat.shiftLeft_add_eq_or_of_lt fits, Nat.shiftLeft_eq, Nat.one_mul, Nat.pow_add]
    congr 1
    ring

/-- The bits of a word without its sign. -/
theorem abs_eq : (a &&& ~~~f.signMask).toNat = f.expOf a * 2 ^ f.mantSize + f.mantOf a := by
  have size := f.word_size
  have half := f.half_word_size
  have word := toNat_fields a
  have mantissa := mantOf_lt a
  have exponent := expOf_le a
  have positive := Nat.two_pow_pos (f.fSize - 1)
  have double : 2 ^ f.fSize = 2 * 2 ^ (f.fSize - 1) := by
    rw [size, half]
  have mask : f.signMask.toNat = 2 ^ (f.fSize - 1) := by
    rw [signMask, Nat.one_shiftLeft, BitVec.toNat_ofNat, Nat.mod_eq_of_lt (by omega)]
  have rest : 2 ^ f.fSize - 1 - 2 ^ (f.fSize - 1) = 2 ^ (f.fSize - 1) - 1 := by
    omega
  have below : f.expOf a * 2 ^ f.mantSize + f.mantOf a < 2 ^ (f.fSize - 1) := by
    have positive' := Nat.two_pow_pos f.expSize
    rw [expMask_eq] at exponent
    have bound : (f.expOf a + 1) * 2 ^ f.mantSize ≤ 2 ^ f.expSize * 2 ^ f.mantSize :=
      Nat.mul_le_mul_right _ (by omega)
    rw [Nat.succ_mul] at bound
    omega
  rw [BitVec.toNat_and, BitVec.toNat_not, mask, rest, Nat.and_two_pow_sub_one_eq_mod, word, Nat.mul_comm,
    Nat.mul_add_mod, Nat.mod_eq_of_lt below]

end Classes

section Representable

variable {K : Type*} [Field K] [LinearOrder K] [IsStrictOrderedRing K] [FloorSemiring K]

/-- A multiple of a unit is rounded to itself by the unit or a finer one. -/
theorem roundAt_multiple (rule : Rounding.Rule) (n : ℕ) {unit finer : ℤ} (fine : finer ≤ unit) :
    rule.roundAt finer ((n : K) * 2 ^ unit) = n * 2 ^ unit := by
  have power : (2 : K) ^ finer ≠ 0 := zpow_ne_zero _ two_ne_zero
  have whole : (n : K) * 2 ^ unit = (n * 2 ^ (unit - finer).toNat : ℕ) * 2 ^ finer := by
    push_cast
    rw [mul_assoc, ← zpow_natCast, ← zpow_add₀ two_ne_zero]
    congr 2
    omega
  rw [whole, Rounding.Rule.roundAt, mul_div_cancel_right₀ _ power, rule.round_natCast]

/-- A number is the rounding of its own magnitude, without a flag. -/
theorem rounds_self {c : f.FUint} (finite : f.expOf c ≠ f.expMask) (rm : FrmMode) (fflags : Flags) :
    f.Rounds rm (f.signOf c) (magnitude K c) fflags (c, fflags) := by
  obtain ⟨positive, small, -⟩ := effective_bounds c
  have upper := expOf_le c
  have mask := f.expMask_bias
  have exponent : ((effective c).1 : ℤ) ≤ 2 * f.bias := by
    rw [effective]
    have large := f.expMask_large
    split <;> dsimp only <;> omega
  by_cases zero : magnitude K c = 0
  · have limit : ¬(2 : K) ^ (f.bias + 1) ≤ 0 := not_le.mpr (zpow_pos two_pos _)
    rw [Rounds, raised, zero, Rounding.Rule.roundUnbounded, Rounding.Rule.roundBounded, roundAt_zero,
      roundAt_zero, if_neg limit]
    exact ⟨finite, rfl, rfl, by simp⟩
  have number := magnitude_effective (K := K) c
  have unit : (0 : K) < 2 ^ ((effective c).1 - f.bias - f.mantSize) := zpow_pos two_pos _
  have below : magnitude K c < 2 ^ ((effective c).1 - f.bias + 1) := by
    have top : (2 : K) ^ ((effective c).1 - f.bias + 1) =
        (2 ^ (f.mantSize + 1) : ℕ) * 2 ^ ((effective c).1 - f.bias - f.mantSize) := by
      push_cast
      rw [← zpow_natCast, ← zpow_add₀ two_ne_zero]
      congr 1
      push_cast
      ring
    rw [number, top]
    exact mul_lt_mul_of_pos_right (Nat.cast_lt.mpr small) unit
  have some : 0 < magnitude K c := lt_of_le_of_ne (magnitude_nonneg c) (Ne.symm zero)
  have logarithm : Int.log 2 (magnitude K c) < (effective c).1 - f.bias + 1 :=
    (Int.lt_zpow_iff_log_lt (b := 2) one_lt_two some).mp (by exact_mod_cast below)
  have unbounded : (rm.rule (f.signOf c)).roundUnbounded f.mantSize (magnitude K c) = magnitude K c := by
    rw [Rounding.Rule.roundUnbounded]
    generalize Int.log 2 (magnitude K c) = exponent at logarithm
    rw [number]
    exact roundAt_multiple _ _ (by omega)
  have bounded : (rm.rule (f.signOf c)).roundBounded f.mantSize f.emin (magnitude K c) =
      magnitude K c := by
    rw [Rounding.Rule.roundBounded]
    generalize Int.log 2 (magnitude K c) = exponent at logarithm
    rw [number]
    apply roundAt_multiple
    rw [emin]
    omega
  have inside : ¬(2 : K) ^ (f.bias + 1) ≤ magnitude K c := by
    rw [not_le]
    exact below.trans_le (zpow_le_zpow_right₀ one_le_two (by omega))
  rw [Rounds, raised, unbounded, bounded, if_neg inside]
  exact ⟨finite, rfl, rfl, by simp⟩

end Representable

end Format

end MachineEmulator.SoftFloat
