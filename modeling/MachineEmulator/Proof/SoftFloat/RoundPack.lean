/-
This file proves that a mantissa and an exponent are packed to the number that they are rounded to.
-/

import MachineEmulator.Proof.SoftFloat.Fields

namespace MachineEmulator.SoftFloat

open Rounding

/-- What a mode does to the magnitude of a number with a sign. -/
def FrmMode.rule : FrmMode → Bool → Rule
  | .rne, _ => .nearestEven
  | .rtz, _ => .towardZero
  | .rdn, sign => if sign then .awayFromZero else .towardZero
  | .rup, sign => if sign then .towardZero else .awayFromZero
  | .rmm, _ => .nearestAway

namespace Format

variable {f : Format} {K : Type*} [Field K] [LinearOrder K] [IsStrictOrderedRing K] [FloorSemiring K]

/-- The flags of a result that is in range: inexact, and underflow if it is tiny after the rounding. -/
def raised (f : Format) (rule : Rule) (x : K) : Flags :=
  let inexact := rule.roundBounded f.mantSize f.emin x ≠ x
  let tiny := rule.roundUnbounded f.mantSize x < 2 ^ f.emin
  (if inexact ∧ tiny then fflagsUfMask else 0) ||| (if inexact then fflagsNxMask else 0)

/-- The result of an overflow. -/
def overflowed (f : Format) (sign : Bool) (rule : Rule) : f.FUint :=
  if rule = .towardZero then f.pack sign (f.expMask - 1) f.mantMask else f.pack sign f.expMask 0

/-- A result is the rounding of an exact magnitude with its sign, with its flags added. -/
def Rounds (f : Format) (rm : FrmMode) (sign : Bool) (x : K) (fflags : Flags)
    (result : f.FUint × Flags) : Prop :=
  if 2 ^ (f.bias + 1) ≤ (rm.rule sign).roundUnbounded f.mantSize x then
    result = (f.overflowed sign (rm.rule sign), fflags ||| (fflagsOfMask ||| fflagsNxMask))
  else
    IsFinite result.1 ∧ f.signOf result.1 = sign ∧
      magnitude K result.1 = (rm.rule sign).roundBounded f.mantSize f.emin x ∧
      result.2 = fflags ||| f.raised (rm.rule sign) x

section Steps

/-- Half of the weight of the lowest bit that is kept. -/
def half (f : Format) : ℕ := 2 ^ (f.rndSize - 1)

theorem rndSize_large (f : Format) : 4 ≤ f.rndSize := by
  have large := f.exp_large
  rw [rndSize_eq]
  omega

theorem two_half (f : Format) : 2 * f.half = 2 ^ f.rndSize := by
  have large := f.rndSize_large
  rw [half, ← Nat.pow_succ']
  congr 1
  omega

theorem half_pos (f : Format) : 0 < f.half := Nat.two_pow_pos _

/-- The sizes of a mantissa with its rounding bits. -/
theorem fSize_split (f : Format) : f.fSize = f.mantSize + f.rndSize + 2 := by
  have fields := f.fields
  have large := f.exp_large
  rw [rndSize_eq]
  omega

theorem mantRshiftRnd_eq {a : ℕ} (small : a < 2 ^ f.fSize) (d : ℤ) :
    f.mantRshiftRnd a d = stick a (2 ^ d.toNat) := by
  rw [mantRshiftRnd, stick]
  by_cases right : 0 < d
  · rw [if_pos right]
    by_cases all : (f.fSize : ℤ) ≤ d
    · have wide : a < 2 ^ d.toNat :=
        small.trans_le (Nat.pow_le_pow_right (by omega) (by omega))
      rw [if_pos all, Nat.div_eq_of_lt wide, Nat.mod_eq_of_lt wide, Nat.zero_or]
    · rw [if_neg all]
      dsimp only
      rw [Nat.one_shiftLeft, Nat.and_two_pow_sub_one_eq_mod, Nat.shiftRight_eq_div_pow]
  · have none : d.toNat = 0 := by
      omega
    rw [if_neg right, none, Nat.pow_zero, Nat.div_one, Nat.mod_one]
    simp

theorem mantRshiftRnd_le {a : ℕ} (small : a < 2 ^ (f.fSize - 1)) {d : ℤ} (right : 0 < d) :
    f.mantRshiftRnd a d ≤ 2 ^ (f.fSize - 2) := by
  have split := f.fSize_split
  have double : 2 ^ (f.fSize - 1) = 2 * 2 ^ (f.fSize - 2) := by
    rw [← Nat.pow_succ']
    congr 1
    omega
  have word : a < 2 ^ f.fSize := small.trans_le (Nat.pow_le_pow_right (by omega) (by omega))
  have halved : a / 2 ^ d.toNat ≤ a / 2 :=
    Nat.div_le_div_left (Nat.le_self_pow (by omega) 2) (by omega)
  have bounds := stick_bounds a (2 ^ d.toNat)
  rw [mantRshiftRnd_eq word]
  omega

theorem rndBits_eq (aMant : ℕ) : f.rndBits aMant = aMant % (2 * f.half) := by
  rw [rndBits, Nat.one_shiftLeft, Nat.and_two_pow_sub_one_eq_mod, two_half]

theorem roundAddend_eq (aSign : Bool) (rm : FrmMode) :
    f.roundAddend aSign rm = (rm.rule aSign).addend f.half := by
  cases rm <;> cases aSign <;>
    simp [roundAddend, FrmMode.rule, FrmMode.value, Rule.addend, Nat.one_shiftLeft, ← two_half, half]

theorem addend_lt (f : Format) (rule : Rule) : rule.addend f.half < 2 * f.half := by
  have positive := f.half_pos
  cases rule <;> simp only [Rule.addend] <;> omega

theorem roundMant_eq (aSign : Bool) (rm : FrmMode) {aMant : ℕ} (small : aMant < 2 ^ (f.fSize - 1)) :
    f.roundMant rm (f.roundAddend aSign rm) aMant = (rm.rule aSign).roundNat f.half aMant := by
  have addend := f.addend_lt (rm.rule aSign)
  have room : 2 * f.half ≤ 2 ^ (f.fSize - 1) := by
    rw [two_half]
    exact Nat.pow_le_pow_right (by omega) (by rw [fSize_split]; omega)
  have size : 2 ^ f.fSize = 2 * 2 ^ (f.fSize - 1) := by
    rw [f.word_size, f.half_word_size]
  have even : rm = .rne ↔ rm.rule aSign = .nearestEven := by
    cases rm <;> cases aSign <;> simp [FrmMode.rule]
  have middle : 1 <<< (f.rndSize - 1) = f.half := by
    rw [Nat.one_shiftLeft, half]
  rw [roundMant, roundAddend_eq, wrap_eq f (by omega), rndBits_eq, middle, Rule.roundNat]
  simp only [even, Nat.shiftRight_eq_div_pow, Nat.shiftLeft_eq, ← two_half, pow_one]

theorem expMask_large (f : Format) : 15 ≤ f.expMask := by
  have large := f.exp_large
  have power : 2 ^ 4 ≤ 2 ^ f.expSize := Nat.pow_le_pow_right (by omega) (by omega)
  rw [expMask_eq]
  omega

omit [IsStrictOrderedRing K] in
/-- The end of the packing for a mantissa that is in range. -/
theorem packRounded_inrange (aSign : Bool) {aExp : ℤ} {aMant : ℕ} (addend : ℕ)
    (normal : aExp = 1 ∨ 1 < aExp ∧ 2 ^ f.mantSize ≤ aMant) (small : aMant ≤ 2 ^ (f.mantSize + 1))
    (inside : aExp + (aMant / 2 ^ (f.mantSize + 1) : ℕ) < f.expMask) :
    ∃ word, (∀ fflags, f.packRounded aSign aExp aMant addend fflags = (word, fflags)) ∧
      IsFinite word ∧ f.signOf word = aSign ∧ magnitude K word = aMant * 2 ^ (aExp - f.bias - f.mantSize) := by
  have large := f.expMask_large
  have power := Nat.two_pow_pos f.mantSize
  have double : 2 ^ (f.mantSize + 1) = 2 * 2 ^ f.mantSize := Nat.pow_succ'
  have nonneg : (0 : ℤ) ≤ (aMant / 2 ^ (f.mantSize + 1) : ℕ) := Int.natCast_nonneg _
  have mask : aMant ≤ f.mantMask ↔ aMant < 2 ^ f.mantSize := by
    rw [mantMask_eq]
    omega
  simp only [packRounded, mask, Nat.shiftRight_eq_div_pow]
  by_cases subnormal : aMant < 2 ^ f.mantSize
  · have one : aExp = 1 := by
      omega
    refine ⟨_, fun _ => if_pos subnormal, ?_, signOf_pack _ _ (Nat.zero_le _), ?_⟩
    · rw [IsFinite, expOf_pack _ _ (Nat.zero_le _)]
      omega
    · rw [magnitude_pack_zero _ _ subnormal, one, emin]
  · simp only [if_neg subnormal, if_neg (not_le.mpr inside)]
    refine ⟨_, fun _ => rfl, ?_, signOf_pack _ _ (by omega), ?_⟩
    · rw [IsFinite, expOf_pack _ _ (by omega)]
      omega
    · rw [magnitude_pack _ _ (by omega) (by omega)]
      by_cases carry : aMant = 2 ^ (f.mantSize + 1)
      · have one : aMant / 2 ^ (f.mantSize + 1) = 1 := by
          rw [carry, Nat.div_self (Nat.two_pow_pos _)]
        have rest : aMant % 2 ^ f.mantSize = 0 := by
          rw [carry, double, Nat.mul_mod_left]
        have exponent : (((aExp + (1 : ℕ)).toNat : ℕ) : ℤ) - f.bias - f.mantSize =
            1 + (aExp - f.bias - f.mantSize) := by
          omega
        rw [one, rest, exponent, carry, double, zpow_add₀ two_ne_zero]
        push_cast
        ring
      · have none : aMant / 2 ^ (f.mantSize + 1) = 0 := Nat.div_eq_of_lt (by omega)
        have rest : aMant % 2 ^ f.mantSize = aMant - 2 ^ f.mantSize := by
          rw [Nat.mod_eq_sub_mod (by omega), Nat.mod_eq_of_lt (by omega)]
        have exponent : (((aExp + (0 : ℕ)).toNat : ℕ) : ℤ) - f.bias - f.mantSize =
            aExp - f.bias - f.mantSize := by
          omega
        rw [none, rest, exponent, Nat.cast_sub (by omega)]
        push_cast
        ring

/-- The end of the packing for a mantissa that is out of range. -/
theorem packRounded_overflow (aSign : Bool) {aExp : ℤ} {aMant : ℕ} (rm : FrmMode) (fflags : Flags)
    (normal : 2 ^ f.mantSize ≤ aMant)
    (outside : f.expMask ≤ aExp + (aMant / 2 ^ (f.mantSize + 1) : ℕ)) :
    f.packRounded aSign aExp aMant (f.roundAddend aSign rm) fflags =
      (f.overflowed aSign (rm.rule aSign), fflags ||| (fflagsOfMask ||| fflagsNxMask)) := by
  have power := Nat.two_pow_pos f.mantSize
  have positive := f.half_pos
  have truncated : (rm.rule aSign).addend f.half = 0 ↔ rm.rule aSign = .towardZero := by
    cases rm.rule aSign <;> simp [Rule.addend] <;> omega
  rw [packRounded]
  simp only [Nat.shiftRight_eq_div_pow]
  rw [if_neg (by rw [mantMask_eq]; omega), if_pos outside, roundAddend_eq, overflowed]
  simp only [truncated]

end Steps

section Rounding

/-- The flags of the packing are those of a result in range. -/
theorem packed_flags {inexact tiny : Prop} [Decidable inexact] [Decidable tiny] (isSubnormal : Prop)
    [Decidable isSubnormal] {bits : ℕ} (fflags : Flags) (cut : bits ≠ 0 ↔ inexact)
    (below : inexact → (isSubnormal ↔ tiny)) :
    (if bits ≠ 0 then (if isSubnormal ∧ bits ≠ 0 then fflags ||| fflagsUfMask else fflags) |||
        fflagsNxMask
      else (if isSubnormal ∧ bits ≠ 0 then fflags ||| fflagsUfMask else fflags)) =
      fflags ||| ((if inexact ∧ tiny then fflagsUfMask else 0) |||
        (if inexact then fflagsNxMask else 0)) := by
  by_cases lost : inexact
  · by_cases small : tiny
    · simp [cut, lost, small, below lost, BitVec.or_assoc]
    · simp [cut, lost, small, below lost]
  · simp [cut, lost]

variable {x : K} {aExp : ℤ} {aMant : ℕ} (aSign : Bool) (rm : FrmMode) (fflags : Flags)

/-- The rounding of a scaled magnitude is the rounding of the mantissa on its side. -/
theorem roundAt_scaled (rule : Rule) (same : SameSide (f.half : K) x aMant) (nonneg : 0 ≤ x) (e : ℤ) :
    rule.roundAt (e + f.rndSize) (x * 2 ^ e) = rule.roundNat f.half aMant * 2 ^ (e + f.rndSize) ∧
      (rule.roundAt (e + f.rndSize) (x * 2 ^ e) = x * 2 ^ e ↔ aMant % (2 * f.half) = 0) := by
  have unit : ((2 * f.half : ℕ) : K) = 2 ^ (f.rndSize : ℤ) := by
    rw [two_half, zpow_natCast]
    push_cast
    rfl
  have power : (0 : K) < 2 ^ (e + f.rndSize) := zpow_pos two_pos _
  have moved : x * 2 ^ e / 2 ^ (e + f.rndSize) = x / (2 * f.half : ℕ) := by
    rw [unit, zpow_add₀ two_ne_zero]
    field_simp
  have rounded : rule.roundAt (e + f.rndSize) (x * 2 ^ e) =
      rule.roundNat f.half aMant * 2 ^ (e + f.rndSize) := by
    rw [Rule.roundAt, moved, same.round_fraction f.half_pos nonneg]
  refine ⟨rounded, ?_⟩
  rw [rounded, ← same.round_exact f.half_pos rule, ← moved, eq_div_iff power.ne']

/-- The mantissa has its leading bit where the magnitude has it. -/
theorem log_scaled (same : SameSide (f.half : K) x aMant) (low : 2 ^ (f.fSize - 2) ≤ aMant)
    (high : aMant < 2 ^ (f.fSize - 1)) (e : ℤ) :
    Int.log 2 (x * 2 ^ e) = e + f.rndSize + f.mantSize := by
  have split := f.fSize_split
  have power : (0 : K) < 2 ^ e := zpow_pos two_pos _
  have low_parts : 2 ^ (f.fSize - 2) = 2 ^ (f.mantSize + 1) * f.half := by
    rw [half, ← Nat.pow_add]
    congr 1
    have large := f.rndSize_large
    omega
  have high_parts : 2 ^ (f.fSize - 1) = 2 ^ (f.mantSize + 2) * f.half := by
    rw [half, ← Nat.pow_add]
    congr 1
    have large := f.rndSize_large
    omega
  have x_low : (2 : K) ^ (f.fSize - 2) ≤ x := by
    have at_low := (same.le_iff (2 ^ (f.mantSize + 1) : ℕ)).mpr (by
      rw [low_parts] at low
      exact_mod_cast low)
    have parts : (2 : K) ^ (f.fSize - 2) = (2 ^ (f.mantSize + 1) : ℕ) * (f.half : K) := by
      exact_mod_cast low_parts
    rw [parts]
    exact_mod_cast at_low
  have x_high : x < (2 : K) ^ (f.fSize - 1) := by
    have at_high := (same.lt_iff (2 ^ (f.mantSize + 2) : ℕ)).mpr (by
      rw [high_parts] at high
      exact_mod_cast high)
    have parts : (2 : K) ^ (f.fSize - 1) = (2 ^ (f.mantSize + 2) : ℕ) * (f.half : K) := by
      exact_mod_cast high_parts
    rw [parts]
    exact_mod_cast at_high
  apply log_eq
  · have moved : (2 : K) ^ (e + f.rndSize + f.mantSize) = 2 ^ (f.fSize - 2) * 2 ^ e := by
      rw [← zpow_natCast, ← zpow_add₀ two_ne_zero]
      congr 1
      omega
    rw [moved]
    exact mul_le_mul_of_nonneg_right x_low power.le
  · have moved : (2 : K) ^ (e + f.rndSize + f.mantSize + 1) = 2 ^ (f.fSize - 1) * 2 ^ e := by
      rw [← zpow_natCast, ← zpow_add₀ two_ne_zero]
      congr 1
      omega
    rw [moved]
    exact mul_lt_mul_of_pos_right x_high power

theorem expMask_bias (f : Format) : (f.expMask : ℤ) = 2 * f.bias + 1 := by
  have large := f.exp_large
  have double : 2 ^ f.expSize = 2 * 2 ^ (f.expSize - 1) := by
    rw [← Nat.pow_succ']
    congr 1
    omega
  have positive := Nat.two_pow_pos (f.expSize - 1)
  rw [expMask_eq, bias, Nat.cast_sub (by omega), double]
  push_cast
  ring

theorem bias_pos (f : Format) : 0 < f.bias := by
  have mask := f.expMask_bias
  have large := f.expMask_large
  omega

theorem half_expMask (f : Format) : ((f.expMask / 2 : ℕ) : ℤ) = f.bias := by
  have mask := f.expMask_bias
  omega

/-- The shift of the exponents is one more than the bias. -/
theorem bias_shift (f : Format) : ((1 <<< (f.expSize - 1) : ℕ) : ℤ) = f.bias + 1 := by
  rw [Nat.one_shiftLeft, bias]
  push_cast
  ring

omit [FloorSemiring K] in
theorem pow_div_mul (c d : ℕ) (e : ℤ) : (2 : K) ^ c / 2 ^ d * 2 ^ e = 2 ^ (c - d + e) := by
  rw [zpow_add₀ two_ne_zero, zpow_sub₀ two_ne_zero, zpow_natCast, zpow_natCast]

/-- The rounded mantissa has at least the bits of a normal number and at most one more. -/
theorem roundNat_bounds (rule : Rule) (low : 2 ^ (f.fSize - 2) ≤ aMant)
    (high : aMant < 2 ^ (f.fSize - 1)) :
    2 ^ f.mantSize ≤ rule.roundNat f.half aMant ∧ rule.roundNat f.half aMant ≤ 2 ^ (f.mantSize + 1) := by
  have split := f.fSize_split
  constructor
  · apply rule.le_roundNat f.half_pos
    rw [two_half, ← Nat.pow_add]
    exact (Nat.pow_le_pow_right (by omega) (by omega)).trans low
  · apply rule.roundNat_le f.half_pos
    rw [two_half, ← Nat.pow_add]
    exact high.le.trans (Nat.pow_le_pow_right (by omega) (by omega))

/-- A rounded mantissa overflows with its exponent. -/
theorem overflow_iff (aExp : ℤ) {rounded : ℕ} (low : 2 ^ f.mantSize ≤ rounded)
    (high : rounded ≤ 2 ^ (f.mantSize + 1)) :
    (2 : K) ^ (f.bias + 1) ≤ rounded * 2 ^ (aExp - f.bias - f.mantSize) ↔
      f.expMask ≤ aExp + (rounded / 2 ^ (f.mantSize + 1) : ℕ) := by
  have power : (0 : K) < 2 ^ (aExp - f.bias - f.mantSize) := zpow_pos two_pos _
  have mask := f.expMask_bias
  have scale (k : ℕ) : ((2 ^ k : ℕ) : K) * 2 ^ (aExp - f.bias - f.mantSize) =
      2 ^ (k + (aExp - f.bias - f.mantSize)) := by
    push_cast
    rw [← zpow_natCast, ← zpow_add₀ two_ne_zero]
  by_cases carry : rounded = 2 ^ (f.mantSize + 1)
  · rw [carry, Nat.div_self (Nat.two_pow_pos _), scale, zpow_le_zpow_iff_right₀ one_lt_two]
    push_cast
    omega
  · have none : rounded / 2 ^ (f.mantSize + 1) = 0 := Nat.div_eq_of_lt (by omega)
    have above : (2 : K) ^ (f.mantSize + (aExp - f.bias - f.mantSize)) ≤
        rounded * 2 ^ (aExp - f.bias - f.mantSize) := by
      rw [← scale]
      exact mul_le_mul_of_nonneg_right (Nat.cast_le.mpr low) power.le
    have below : rounded * (2 : K) ^ (aExp - f.bias - f.mantSize) <
        2 ^ ((f.mantSize + 1 : ℕ) + (aExp - f.bias - f.mantSize)) := by
      rw [← scale]
      exact mul_lt_mul_of_pos_right (Nat.cast_lt.mpr (lt_of_le_of_ne high carry)) power
    rw [none]
    constructor
    · intro reaches
      have exponents := (zpow_lt_zpow_iff_right₀ one_lt_two).mp (reaches.trans_lt below)
      push_cast at exponents ⊢
      omega
    · intro reaches
      refine le_trans ?_ above
      apply zpow_le_zpow_right₀ one_le_two
      push_cast at reaches
      omega

/-- Bits are cut if the rounding is not exact. -/
theorem rndBits_ne_zero {exact_ : Prop} (exact : exact_ ↔ aMant % (2 * f.half) = 0) :
    f.rndBits aMant ≠ 0 ↔ ¬exact_ := by
  rw [rndBits_eq, exact]

/-- A result whose exponent is in the normal range is packed to its rounding. -/
theorem roundPack_normal (same : SameSide (f.half : K) x aMant) (low : 2 ^ (f.fSize - 2) ≤ aMant)
    (high : aMant < 2 ^ (f.fSize - 1)) (normal : 0 < aExp) :
    f.Rounds rm aSign (x * 2 ^ (aExp - f.bias - (f.fSize - 2 : ℕ))) fflags
      (f.roundPack aSign aExp aMant rm fflags) := by
  have split := f.fSize_split
  have positive : 0 < x := same.pos_iff.mpr (by
    exact_mod_cast lt_of_lt_of_le (Nat.two_pow_pos _) low)
  have logarithm := log_scaled same low high (aExp - f.bias - (f.fSize - 2 : ℕ))
  obtain ⟨rounded, exact⟩ := roundAt_scaled (rm.rule aSign) same positive.le
    (aExp - f.bias - (f.fSize - 2 : ℕ))
  obtain ⟨at_least, at_most⟩ := roundNat_bounds (rm.rule aSign) low high
  have unit : aExp - f.bias - (f.fSize - 2 : ℕ) + f.rndSize = aExp - f.bias - f.mantSize := by
    omega
  rw [unit] at rounded exact logarithm
  have unbounded : (rm.rule aSign).roundUnbounded f.mantSize
      (x * 2 ^ (aExp - f.bias - (f.fSize - 2 : ℕ))) =
        (rm.rule aSign).roundNat f.half aMant * 2 ^ (aExp - f.bias - f.mantSize) := by
    rw [Rule.roundUnbounded, logarithm, add_sub_cancel_right, rounded]
  have bounded : (rm.rule aSign).roundBounded f.mantSize f.emin
      (x * 2 ^ (aExp - f.bias - (f.fSize - 2 : ℕ))) =
        (rm.rule aSign).roundNat f.half aMant * 2 ^ (aExp - f.bias - f.mantSize) := by
    have above : max (aExp - f.bias - f.mantSize + f.mantSize) f.emin =
        aExp - f.bias - f.mantSize + f.mantSize := by
      rw [emin]
      omega
    rw [Rule.roundBounded, logarithm, above, add_sub_cancel_right, rounded]
  rw [rounded] at exact
  rw [Rounds, raised, unbounded, bounded, roundPack]
  have skipped : f.denormalize aExp aMant (f.roundAddend aSign rm) fflags = (aExp, aMant, fflags) :=
    if_neg (by omega)
  simp only [skipped]
  rw [roundMant_eq aSign rm high]
  have overflows := overflow_iff (K := K) aExp at_least at_most
  by_cases outside : (f.expMask : ℤ) ≤
      aExp + ((rm.rule aSign).roundNat f.half aMant / 2 ^ (f.mantSize + 1) : ℕ)
  · have absorbed : fflagsNxMask ||| (fflagsOfMask ||| fflagsNxMask) =
        fflagsOfMask ||| fflagsNxMask := by decide
    rw [if_pos (overflows.mpr outside), packRounded_overflow aSign rm _ at_least outside]
    split
    · rw [BitVec.or_assoc, absorbed]
    · rfl
  · obtain ⟨word, packed, finite, sign, number⟩ := packRounded_inrange (K := K) aSign
      (f.roundAddend aSign rm)
      (by omega : aExp = 1 ∨ 1 < aExp ∧ 2 ^ f.mantSize ≤ (rm.rule aSign).roundNat f.half aMant)
      at_most (by omega)
    have large : ¬((rm.rule aSign).roundNat f.half aMant : K) * 2 ^ (aExp - f.bias - f.mantSize) <
        2 ^ f.emin := by
      have power : (0 : K) < 2 ^ (aExp - f.bias - f.mantSize) := zpow_pos two_pos _
      rw [not_lt]
      calc (2 : K) ^ f.emin ≤ 2 ^ (f.mantSize + (aExp - f.bias - f.mantSize)) := by
            apply zpow_le_zpow_right₀ one_le_two
            rw [emin]
            omega
        _ = (2 ^ f.mantSize : ℕ) * 2 ^ (aExp - f.bias - f.mantSize) := by
            push_cast
            rw [← zpow_natCast, ← zpow_add₀ two_ne_zero]
        _ ≤ _ := mul_le_mul_of_nonneg_right (Nat.cast_le.mpr at_least) power.le
    have flags := packed_flags False fflags (rndBits_ne_zero exact) fun _ =>
      (iff_false_left not_false).mpr large
    rw [if_neg (mt overflows.mp outside), packed]
    refine ⟨finite, sign, number, ?_⟩
    simpa using flags

/-- A result below the normal range is packed to its rounding, from the mantissa that is shifted. -/
theorem roundPack_below {v y : K} (positive : 0 < v) (below : v < 2 ^ f.emin) (subnormal : aExp ≤ 0)
    (high : aMant < 2 ^ (f.fSize - 1))
    (scaled : v = y * 2 ^ (f.emin - f.mantSize - f.rndSize))
    (same : SameSide (f.half : K) y (f.mantRshiftRnd aMant (1 - aExp)))
    (tiny : (rm.rule aSign).roundBounded f.mantSize f.emin v ≠ v →
      ((aExp < 0 ∨ f.wrap (aMant + f.roundAddend aSign rm) < 1 <<< (f.fSize - 1)) ↔
        (rm.rule aSign).roundUnbounded f.mantSize v < 2 ^ f.emin)) :
    f.Rounds rm aSign v fflags (f.roundPack aSign aExp aMant rm fflags) := by
  have split := f.fSize_split
  have large := f.expMask_large
  have power : (0 : K) < 2 ^ (f.emin - f.mantSize - f.rndSize) := zpow_pos two_pos _
  have nonneg : 0 ≤ y := by
    rw [scaled] at positive
    exact (pos_of_mul_pos_left positive power.le).le
  have shifted := mantRshiftRnd_le high (by omega : 0 < 1 - aExp)
  obtain ⟨rounded, exact⟩ := roundAt_scaled (rm.rule aSign) same nonneg
    (f.emin - f.mantSize - f.rndSize)
  rw [← scaled, sub_add_cancel] at rounded exact
  have logarithm : Int.log 2 v < f.emin :=
    (Int.lt_zpow_iff_log_lt (b := 2) one_lt_two positive).mp (by exact_mod_cast below)
  have bounded : (rm.rule aSign).roundBounded f.mantSize f.emin v =
      (rm.rule aSign).roundNat f.half (f.mantRshiftRnd aMant (1 - aExp)) *
        2 ^ (f.emin - f.mantSize) := by
    rw [Rule.roundBounded, max_eq_right logarithm.le, rounded]
  have inside : ¬(2 : K) ^ (f.bias + 1) ≤ (rm.rule aSign).roundUnbounded f.mantSize v := by
    rw [not_le]
    refine lt_of_le_of_lt (Rule.roundUnbounded_le _ _ positive below) ?_
    apply zpow_lt_zpow_right₀ one_lt_two
    have mask := f.expMask_bias
    rw [emin]
    omega
  have at_most : (rm.rule aSign).roundNat f.half (f.mantRshiftRnd aMant (1 - aExp)) ≤ 2 ^ f.mantSize := by
    apply (rm.rule aSign).roundNat_le f.half_pos
    rw [two_half, ← Nat.pow_add]
    exact shifted.trans (Nat.pow_le_pow_right (by omega) (by omega))
  have double : 2 ^ (f.mantSize + 1) = 2 * 2 ^ f.mantSize := Nat.pow_succ'
  have small : (rm.rule aSign).roundNat f.half (f.mantRshiftRnd aMant (1 - aExp)) /
      2 ^ (f.mantSize + 1) = 0 := by
    apply Nat.div_eq_of_lt
    have power := Nat.two_pow_pos f.mantSize
    omega
  rw [Rounds, if_neg inside, roundPack]
  simp only [denormalize, if_pos subnormal]
  have fits : f.mantRshiftRnd aMant (1 - aExp) < 2 ^ (f.fSize - 1) :=
    shifted.trans_lt (Nat.pow_lt_pow_right one_lt_two (by omega))
  rw [roundMant_eq aSign rm fits]
  obtain ⟨word, packed, finite, sign, number⟩ := packRounded_inrange (K := K) aSign
    (f.roundAddend aSign rm) (.inl rfl)
    (at_most.trans (Nat.pow_le_pow_right two_pos (Nat.le_succ _)))
    (by rw [small]; push_cast; omega)
  have exactly : (rm.rule aSign).roundBounded f.mantSize f.emin v = v ↔
      f.mantRshiftRnd aMant (1 - aExp) % (2 * f.half) = 0 := by
    rw [bounded, ← rounded, exact]
  rw [packed, raised]
  refine ⟨finite, sign, ?_, packed_flags _ fflags (rndBits_ne_zero exactly) tiny⟩
  rw [number, bounded, emin]

/-- The carry of the rounding decides if a result just below the normal range is tiny. -/
theorem carry_iff (rule : Rule) (high : aMant < 2 ^ (f.fSize - 1)) :
    f.wrap (aMant + rule.addend f.half) < 1 <<< (f.fSize - 1) ↔
      rule.roundNat f.half aMant < 2 ^ (f.mantSize + 1) := by
  have split := f.fSize_split
  have addend := f.addend_lt rule
  have size : 2 ^ f.fSize = 2 * 2 ^ (f.fSize - 1) := by
    rw [f.word_size, f.half_word_size]
  have parts : 2 * 2 ^ f.mantSize * (2 * f.half) = 2 ^ (f.fSize - 1) := by
    rw [two_half, ← Nat.pow_succ', ← Nat.pow_add]
    congr 1
    omega
  have room : 2 * f.half ≤ 2 ^ (f.fSize - 1) := by
    rw [two_half]
    exact Nat.pow_le_pow_right (by omega) (by omega)
  rw [wrap_eq f (by omega), Nat.one_shiftLeft, Nat.pow_succ', rule.roundNat_lt_iff f.half_pos, parts]

/-- A result whose exponent is below the normal range is packed to its rounding. -/
theorem roundPack_subnormal (same : SameSide (f.half : K) x aMant) (low : 2 ^ (f.fSize - 2) ≤ aMant)
    (high : aMant < 2 ^ (f.fSize - 1)) (subnormal : aExp ≤ 0) :
    f.Rounds rm aSign (x * 2 ^ (aExp - f.bias - (f.fSize - 2 : ℕ))) fflags
      (f.roundPack aSign aExp aMant rm fflags) := by
  have split := f.fSize_split
  have word : aMant < 2 ^ f.fSize := high.trans_le (Nat.pow_le_pow_right (by omega) (by omega))
  have positive : 0 < x := same.pos_iff.mpr (by
    exact_mod_cast lt_of_lt_of_le (Nat.two_pow_pos _) low)
  have power : (0 : K) < 2 ^ (aExp - f.bias - (f.fSize - 2 : ℕ)) := zpow_pos two_pos _
  have logarithm := log_scaled same low high (aExp - f.bias - (f.fSize - 2 : ℕ))
  have unit : aExp - f.bias - (f.fSize - 2 : ℕ) + f.rndSize = aExp - f.bias - f.mantSize := by
    omega
  obtain ⟨rounded, -⟩ := roundAt_scaled (rm.rule aSign) same positive.le
    (aExp - f.bias - (f.fSize - 2 : ℕ))
  have number := mul_pos positive power
  have below : x * 2 ^ (aExp - f.bias - (f.fSize - 2 : ℕ)) < 2 ^ (aExp - f.bias + 1) := by
    have bound := (Int.lt_zpow_iff_log_lt (R := K) (b := 2) one_lt_two number
      (x := aExp - f.bias + 1)).mpr (by omega)
    exact_mod_cast bound
  have scaled : x * 2 ^ (aExp - f.bias - (f.fSize - 2 : ℕ)) =
      x / 2 ^ (1 - aExp).toNat * 2 ^ (f.emin - f.mantSize - f.rndSize) := by
    rw [div_mul_eq_mul_div, eq_div_iff (by positivity), mul_assoc, ← zpow_natCast,
      ← zpow_add₀ two_ne_zero, emin]
    congr 2
    omega
  have gap : 2 * 2 ^ (f.rndSize - 2) = f.half := by
    have large := f.rndSize_large
    rw [half, ← Nat.pow_succ']
    congr 1
    omega
  have shifted : SameSide (f.half : K) (x / 2 ^ (1 - aExp).toNat) (f.mantRshiftRnd aMant (1 - aExp)) := by
    rw [← gap] at same ⊢
    rw [mantRshiftRnd_eq word]
    exact same.shift _
  refine roundPack_below aSign rm fflags number ?_ subnormal high scaled shifted fun _ => ?_
  · refine below.trans_le (zpow_le_zpow_right₀ one_le_two ?_)
    rw [emin]
    omega
  · rw [roundAddend_eq, carry_iff _ high]
    have unbounded : (rm.rule aSign).roundUnbounded f.mantSize
        (x * 2 ^ (aExp - f.bias - (f.fSize - 2 : ℕ))) =
          (rm.rule aSign).roundNat f.half aMant * 2 ^ (aExp - f.bias - f.mantSize) := by
      rw [Rule.roundUnbounded, logarithm, add_sub_cancel_right, rounded, unit]
    by_cases last : aExp < 0
    · have tiny := (Rule.roundUnbounded_le (rm.rule aSign) f.mantSize number below).trans_lt
        (zpow_lt_zpow_right₀ one_lt_two (by rw [emin]; omega) : (2 : K) ^ (aExp - f.bias + 1) < 2 ^ f.emin)
      exact iff_of_true (.inl last) tiny
    · have zero : aExp = 0 := by
        omega
      have unit_pos : (0 : K) < 2 ^ (aExp - f.bias - f.mantSize) := zpow_pos two_pos _
      have limit : (2 : K) ^ f.emin = (2 ^ (f.mantSize + 1) : ℕ) * 2 ^ (aExp - f.bias - f.mantSize) := by
        push_cast
        rw [← zpow_natCast, ← zpow_add₀ two_ne_zero, emin, zero]
        congr 1
        push_cast
        ring
      rw [unbounded, limit, mul_lt_mul_iff_left₀ unit_pos, Nat.cast_lt]
      constructor
      · rintro (negative | less)
        · exact absurd negative last
        · exact less
      · exact .inr

/-- A mantissa and an exponent are packed to the rounding of a magnitude on the side of the mantissa. -/
theorem roundPack_rounds (same : SameSide (f.half : K) x aMant) (low : 2 ^ (f.fSize - 2) ≤ aMant)
    (high : aMant < 2 ^ (f.fSize - 1)) :
    f.Rounds rm aSign (x * 2 ^ (aExp - f.bias - (f.fSize - 2 : ℕ))) fflags
      (f.roundPack aSign aExp aMant rm fflags) := by
  rcases lt_or_ge 0 aExp with normal | subnormal
  · exact roundPack_normal aSign rm fflags same low high normal
  · exact roundPack_subnormal aSign rm fflags same low high subnormal

theorem roundAt_zero (rule : Rule) (e : ℤ) : rule.roundAt e (0 : K) = 0 := by
  have nothing := rule.round_natCast (K := K) 0
  rw [Rule.roundAt, zero_div, ← Nat.cast_zero, nothing, Nat.cast_zero, zero_mul]

/-- A zero is its own rounding, without a flag. -/
theorem rounds_zero : f.Rounds rm aSign (0 : K) fflags (f.pack aSign 0 0, fflags) := by
  have positive : ¬(2 : K) ^ (f.bias + 1) ≤ 0 := not_le.mpr (zpow_pos two_pos _)
  have large := f.expMask_large
  rw [Rounds, raised, Rule.roundUnbounded, Rule.roundBounded, roundAt_zero, roundAt_zero, if_neg positive]
  refine ⟨?_, signOf_pack _ _ (Nat.zero_le _), ?_, by simp⟩
  · rw [IsFinite, expOf_pack _ _ (Nat.zero_le _)]
    omega
  · rw [magnitude_pack_zero _ _ (Nat.two_pow_pos _), Nat.cast_zero, zero_mul]

/-- A zero is packed with its sign, whatever its exponent is. -/
theorem roundPack_zero : f.roundPack aSign aExp 0 rm fflags = (f.pack aSign 0 0, fflags) := by
  have none : f.rndBits 0 = 0 := by
    rw [rndBits_eq, Nat.zero_mod]
  have still (d : ℤ) : f.mantRshiftRnd 0 d = 0 := by
    rw [mantRshiftRnd_eq (Nat.two_pow_pos _), stick, Nat.zero_div, Nat.zero_mod, if_neg (by simp),
      Nat.zero_or]
  have rounded : f.roundMant rm (f.roundAddend aSign rm) 0 = 0 := by
    rw [roundMant_eq aSign rm (Nat.two_pow_pos _)]
    exact Nat.le_zero.mp ((rm.rule aSign).roundNat_le f.half_pos (by simp))
  have packed (exp : ℤ) : f.packRounded aSign exp 0 (f.roundAddend aSign rm) fflags =
      (f.pack aSign 0 0, fflags) := by
    simp only [packRounded]
    rw [if_pos (Nat.zero_le _)]
  rw [roundPack]
  by_cases subnormal : aExp ≤ 0
  · simp only [denormalize, if_pos subnormal, still, none, rounded]
    simpa using packed 1
  · simp only [denormalize, if_neg subnormal, none, rounded]
    simpa using packed aExp

/-- A mantissa is shifted to its place and packed. -/
theorem normalize_shifted (nonzero : aMant ≠ 0) (small : aMant < 2 ^ (f.fSize - 1))
    (same : SameSide (f.half : K) (2 ^ (f.fSize - 2 - aMant.log2) * x)
      (aMant * 2 ^ (f.fSize - 2 - aMant.log2) : ℕ)) :
    f.Rounds rm aSign (x * 2 ^ (aExp - f.bias - (f.fSize - 2 : ℕ))) fflags
      (f.normalize aSign aExp aMant rm fflags) := by
  have split := f.fSize_split
  have log_lt : aMant.log2 < f.fSize - 1 := (Nat.log2_lt nonzero).mpr small
  have shift : clz f.fSize aMant - (f.fSize - 1 - f.imantSize) = f.fSize - 2 - aMant.log2 := by
    rw [clz_eq nonzero, imantSize]
    omega
  obtain ⟨low, high⟩ := shift_bounds nonzero (by omega : aMant.log2 ≤ f.fSize - 2)
  have top : f.fSize - 2 + 1 = f.fSize - 1 := by
    omega
  rw [top] at high
  have room : 2 ^ (f.fSize - 1) ≤ 2 ^ f.fSize := Nat.pow_le_pow_right two_pos (by omega)
  rw [normalize]
  simp only [shift]
  rw [shl_eq f (by omega)]
  generalize f.fSize - 2 - aMant.log2 = count at same low high
  have moved : x * 2 ^ (aExp - f.bias - (f.fSize - 2 : ℕ)) =
      2 ^ count * x * 2 ^ (aExp - count - f.bias - (f.fSize - 2 : ℕ)) := by
    rw [mul_comm (2 ^ count) x, mul_assoc, ← zpow_natCast, ← zpow_add₀ two_ne_zero]
    congr 2
    omega
  rw [moved]
  exact roundPack_rounds aSign rm fflags same low high

/-- A mantissa near a magnitude is packed to its rounding, if the gaps stay small in the shift. -/
theorem normalize_rounds (gap : ℕ) (same : SameSide (gap : K) x aMant) (nonzero : aMant ≠ 0)
    (small : aMant < 2 ^ (f.fSize - 1))
    (fine : gap * 2 ^ (f.fSize - 2 - aMant.log2) ∣ f.half) :
    f.Rounds rm aSign (x * 2 ^ (aExp - f.bias - (f.fSize - 2 : ℕ))) fflags
      (f.normalize aSign aExp aMant rm fflags) := by
  apply normalize_shifted aSign rm fflags nonzero small
  generalize f.fSize - 2 - aMant.log2 = count at fine
  obtain ⟨factor, half_eq⟩ := fine
  have power : (0 : K) < 2 ^ count := by
    positivity
  have scaled := (same.scale power).coarsen factor
  have gap_eq : ((factor : ℤ) : K) * (2 ^ count * gap) = f.half := by
    rw [half_eq]
    push_cast
    ring
  rw [gap_eq] at scaled
  push_cast
  rw [mul_comm (aMant : K)]
  exact scaled

/-- A mantissa that is exact is packed to its rounding. -/
theorem normalize_exact (nonzero : aMant ≠ 0) (small : aMant < 2 ^ (f.fSize - 1)) :
    f.Rounds rm aSign ((aMant : K) * 2 ^ (aExp - f.bias - (f.fSize - 2 : ℕ))) fflags
      (f.normalize aSign aExp aMant rm fflags) := by
  apply normalize_shifted aSign rm fflags nonzero small
  push_cast
  rw [mul_comm]
  exact SameSide.refl _ _

/-- A sticky mantissa is packed to its rounding if it is not shifted past its rounding bits. -/
theorem normalize_sticky (same : SameSide (2 : K) x aMant) (low : 2 ^ (f.mantSize + 2) ≤ aMant)
    (small : aMant < 2 ^ (f.fSize - 1)) :
    f.Rounds rm aSign (x * 2 ^ (aExp - f.bias - (f.fSize - 2 : ℕ))) fflags
      (f.normalize aSign aExp aMant rm fflags) := by
  have split := f.fSize_split
  have large := f.rndSize_large
  have nonzero : aMant ≠ 0 := by
    have positive := Nat.two_pow_pos (f.mantSize + 2)
    omega
  have log_le := (Nat.le_log2 nonzero).mpr low
  refine normalize_rounds aSign rm fflags 2 (by exact_mod_cast same) nonzero small ?_
  rw [← Nat.pow_succ', half]
  exact Nat.pow_dvd_pow 2 (by omega)

theorem normalize_zero : f.Rounds rm aSign (0 : K) fflags (f.normalize aSign aExp 0 rm fflags) := by
  rw [normalize]
  simp only [shl, wrap, Nat.zero_shiftLeft, Nat.zero_mod, roundPack_zero]
  exact rounds_zero aSign rm fflags

end Rounding

end Format

end MachineEmulator.SoftFloat
