/-
This file gives the rounding of magnitudes to binary numbers of a limited precision, and when two
magnitudes have the same rounding.
-/

import Mathlib.Algebra.Order.Floor.Semifield
import Mathlib.Data.Int.Log
import Mathlib.Tactic

namespace MachineEmulator.Rounding

variable {K : Type*} [Field K] [LinearOrder K] [IsStrictOrderedRing K] [FloorSemiring K]

/-- The ways to round a magnitude. -/
inductive Rule where
  | nearestEven
  | nearestAway
  | towardZero
  | awayFromZero
deriving DecidableEq

instance two_atLeastTwo : Nat.AtLeastTwo 2 := ⟨le_rfl⟩

/-- The integer that a magnitude is rounded to. -/
def Rule.round (rule : Rule) (x : K) : ℕ :=
  match rule with
  | .nearestEven =>
      if x = ⌊x⌋₊ + 1 / 2 then (if Even ⌊x⌋₊ then ⌊x⌋₊ else ⌊x⌋₊ + 1) else ⌊x + 1 / 2⌋₊
  | .nearestAway => ⌊x + 1 / 2⌋₊
  | .towardZero => ⌊x⌋₊
  | .awayFromZero => ⌈x⌉₊

/-- A magnitude is rounded to a multiple of a power of two. -/
def Rule.roundAt (rule : Rule) (exponent : ℤ) (x : K) : K :=
  rule.round (x / 2 ^ exponent) * 2 ^ exponent

/-- The rounding to a number of fraction bits, with every exponent allowed. -/
def Rule.roundUnbounded (rule : Rule) (precision : ℕ) (x : K) : K :=
  rule.roundAt (Int.log 2 x - precision) x

/-- The rounding to a number of fraction bits, with gradual underflow below an exponent. -/
def Rule.roundBounded (rule : Rule) (precision : ℕ) (emin : ℤ) (x : K) : K :=
  rule.roundAt (max (Int.log 2 x) emin - precision) x

section Integers

/-- What is added to a numerator before the bits of a denominator `2 * half` are cut. -/
def Rule.addend (rule : Rule) (half : ℕ) : ℕ :=
  match rule with
  | .nearestEven | .nearestAway => half
  | .towardZero => 0
  | .awayFromZero => 2 * half - 1

/-- The rounding of a fraction with the denominator `2 * half`. -/
def Rule.roundNat (rule : Rule) (half numerator : ℕ) : ℕ :=
  let rounded := (numerator + rule.addend half) / (2 * half)
  if rule = .nearestEven ∧ numerator % (2 * half) = half then rounded / 2 * 2 else rounded

variable {half : ℕ} (positive : 0 < half) (numerator : ℕ)
include positive

theorem ceil_fraction :
    ⌈(numerator : K) / (2 * half : ℕ)⌉₊ = (numerator + (2 * half - 1)) / (2 * half) := by
  have denominator : (0 : K) < (2 * half : ℕ) := by
    exact_mod_cast (by omega : 0 < 2 * half)
  apply eq_of_forall_ge_iff
  intro bound
  rw [Nat.ceil_le, div_le_iff₀ denominator, ← Nat.cast_mul, Nat.cast_le,
    ← @Nat.lt_succ_iff (_ / _), Nat.div_lt_iff_lt_mul (by omega)]
  have next : bound.succ * (2 * half) = bound * (2 * half) + 2 * half := Nat.succ_mul _ _
  omega

theorem floor_fraction_half :
    ⌊(numerator : K) / (2 * half : ℕ) + 1 / 2⌋₊ = (numerator + half) / (2 * half) := by
  have nonzero : (half : K) ≠ 0 := by
    exact_mod_cast positive.ne'
  have moved : (numerator : K) / (2 * half : ℕ) + 1 / 2 = (numerator + half : ℕ) / (2 * half : ℕ) := by
    push_cast
    field_simp
  rw [moved, Nat.floor_div_eq_div]

theorem tie_iff :
    (numerator : K) / (2 * half : ℕ) = ⌊(numerator : K) / (2 * half : ℕ)⌋₊ + 1 / 2 ↔
      numerator % (2 * half) = half := by
  have nonzero : (half : K) ≠ 0 := by
    exact_mod_cast positive.ne'
  have parts := Nat.div_add_mod numerator (2 * half)
  rw [Nat.floor_div_eq_div]
  generalize numerator / (2 * half) = quotient at parts ⊢
  have cleared : (numerator : K) / (2 * half : ℕ) = quotient + 1 / 2 ↔
      (numerator : K) = (2 * half * quotient + half : ℕ) := by
    push_cast
    rw [div_eq_iff (by positivity)]
    constructor
    · intro same
      rw [same]
      ring
    · intro same
      rw [same]
      ring
  rw [cleared, Nat.cast_inj]
  omega

/-- A fraction is rounded by an addition and a cut. -/
theorem Rule.round_fraction (rule : Rule) :
    rule.round ((numerator : K) / (2 * half : ℕ)) = rule.roundNat half numerator := by
  cases rule with
  | nearestEven =>
      simp only [Rule.round, Rule.roundNat, Rule.addend, true_and]
      rw [floor_fraction_half positive, Nat.floor_div_eq_div]
      have tie := tie_iff (K := K) positive numerator
      rw [Nat.floor_div_eq_div] at tie
      by_cases halfway : numerator % (2 * half) = half
      · rw [if_pos (tie.mpr halfway), if_pos halfway]
        have parts := Nat.div_add_mod numerator (2 * half)
        have next : (numerator + half) / (2 * half) = numerator / (2 * half) + 1 := by
          have moved : numerator + half = 2 * half * (numerator / (2 * half) + 1) := by
            rw [Nat.mul_add]
            omega
          rw [moved, Nat.mul_div_cancel_left _ (by omega)]
        rw [next]
        rcases Nat.even_or_odd (numerator / (2 * half)) with even | odd
        · rw [if_pos even]
          obtain ⟨k, k_eq⟩ := even
          omega
        · rw [if_neg (Nat.not_even_iff_odd.mpr odd)]
          obtain ⟨k, k_eq⟩ := odd
          omega
      · rw [if_neg (mt tie.mp halfway), if_neg halfway]
  | nearestAway =>
      simp only [Rule.round, Rule.roundNat, Rule.addend, reduceCtorEq, false_and, if_false]
      exact floor_fraction_half positive numerator
  | towardZero =>
      simp only [Rule.round, Rule.roundNat, Rule.addend, reduceCtorEq, false_and, if_false, Nat.add_zero]
      exact Nat.floor_div_eq_div numerator (2 * half)
  | awayFromZero =>
      simp only [Rule.round, Rule.roundNat, Rule.addend, reduceCtorEq, false_and, if_false]
      exact ceil_fraction positive numerator

end Integers

section SameSide

/-- Two numbers are on the same side of each multiple of a gap. -/
def SameSide (gap x y : K) : Prop :=
  ∀ k : ℤ, (x < k * gap ↔ y < k * gap) ∧ (k * gap < x ↔ k * gap < y)

set_option linter.unusedSectionVars false

omit [FloorSemiring K]

variable {gap x y z : K}

theorem SameSide.refl (gap x : K) : SameSide gap x x := fun _ => ⟨Iff.rfl, Iff.rfl⟩

theorem SameSide.trans (first : SameSide gap x y) (second : SameSide gap y z) :
    SameSide gap x z :=
  fun k => ⟨(first k).1.trans (second k).1, (first k).2.trans (second k).2⟩

theorem SameSide.lt_iff (same : SameSide gap x y) (k : ℤ) : x < k * gap ↔ y < k * gap := (same k).1

theorem SameSide.le_iff (same : SameSide gap x y) (k : ℤ) : k * gap ≤ x ↔ k * gap ≤ y := by
  rw [← not_lt, ← not_lt, same.lt_iff]

theorem SameSide.ge_iff (same : SameSide gap x y) (k : ℤ) : x ≤ k * gap ↔ y ≤ k * gap := by
  rw [← not_lt, ← not_lt, (same k).2]

theorem SameSide.eq_iff (same : SameSide gap x y) (k : ℤ) : x = k * gap ↔ y = k * gap := by
  rw [le_antisymm_iff, le_antisymm_iff, same.le_iff, same.ge_iff]

/-- Numbers inside one gap are on the same side of all multiples. -/
theorem SameSide.of_inside (k : ℤ) (positive : 0 < gap) (low : k * gap < x) (high : x < (k + 1) * gap)
    (low' : k * gap < y) (high' : y < (k + 1) * gap) : SameSide gap x y := by
  intro j
  rcases le_or_gt j k with below | above
  · have bound : (j : K) * gap ≤ k * gap :=
      mul_le_mul_of_nonneg_right (Int.cast_le.mpr below) positive.le
    exact ⟨⟨fun less => absurd less (not_lt.mpr (bound.trans low.le)),
        fun less => absurd less (not_lt.mpr (bound.trans low'.le))⟩,
      ⟨fun _ => bound.trans_lt low', fun _ => bound.trans_lt low⟩⟩
  · have next : ((k + 1 : ℤ) : K) ≤ j := Int.cast_le.mpr above
    have bound : (k + 1) * gap ≤ j * gap := by
      push_cast at next
      exact mul_le_mul_of_nonneg_right next positive.le
    exact ⟨⟨fun _ => high'.trans_le bound, fun _ => high.trans_le bound⟩,
      ⟨fun less => absurd less (not_lt.mpr (high.le.trans bound)),
        fun less => absurd less (not_lt.mpr (high'.le.trans bound))⟩⟩

theorem SameSide.scale (same : SameSide gap x y) {factor : K} (positive : 0 < factor) :
    SameSide (factor * gap) (factor * x) (factor * y) := by
  intro k
  have moved : (k : K) * (factor * gap) = factor * (k * gap) := by
    ring
  rw [moved, mul_lt_mul_iff_right₀ positive, mul_lt_mul_iff_right₀ positive,
    mul_lt_mul_iff_right₀ positive, mul_lt_mul_iff_right₀ positive]
  exact same k

theorem SameSide.coarsen (same : SameSide gap x y) (factor : ℤ) : SameSide (factor * gap) x y := by
  intro k
  have moved : (k : K) * (factor * gap) = (k * factor : ℤ) * gap := by
    push_cast
    ring
  rw [moved]
  exact same (k * factor)

/-- A multiple of the gap can be added on both sides. -/
theorem SameSide.add (same : SameSide gap x y) (shift : ℤ) :
    SameSide gap (shift * gap + x) (shift * gap + y) := by
  intro k
  have moved : (k : K) * gap = shift * gap + ((k - shift : ℤ) : K) * gap := by
    push_cast
    ring
  rw [moved, add_lt_add_iff_left, add_lt_add_iff_left, add_lt_add_iff_left, add_lt_add_iff_left]
  exact same (k - shift)

theorem SameSide.neg (same : SameSide gap x y) : SameSide gap (-x) (-y) := by
  intro k
  have moved : (k : K) * gap = -(((-k : ℤ) : K) * gap) := by
    push_cast
    ring
  rw [moved, neg_lt_neg_iff, neg_lt_neg_iff, neg_lt_neg_iff, neg_lt_neg_iff]
  exact ⟨(same (-k)).2, (same (-k)).1⟩

theorem SameSide.pos_iff (same : SameSide gap x y) : 0 < x ↔ 0 < y := by
  simpa using (same 0).2

end SameSide

section Sticky

/-- A quotient whose lowest bit is set if there is a remainder. -/
def stick (p q : ℕ) : ℕ := p / q ||| if p % q ≠ 0 then 1 else 0

omit [FloorSemiring K]

theorem or_one (n : ℕ) : n ||| 1 = if n % 2 = 0 then n + 1 else n := by
  apply Nat.eq_of_testBit_eq
  intro index
  rw [Nat.testBit_or]
  cases index with
  | zero => split <;> simp_all [Nat.testBit_zero, Nat.add_mod]
  | succ index =>
      have one : Nat.testBit 1 (index + 1) = false := by
        rw [Nat.testBit_succ]
        simp
      have next : n % 2 = 0 → (n + 1) / 2 = n / 2 := by
        omega
      rw [one, Bool.or_false]
      split
      · rename_i even
        rw [Nat.testBit_succ, Nat.testBit_succ, next even]
      · rfl

theorem stick_bounds (p q : ℕ) : p / q ≤ stick p q ∧ stick p q ≤ p / q + 1 := by
  rw [stick]
  split
  · rw [or_one]
    split <;> omega
  · rw [Nat.or_zero]
    omega

/-- The lowest bit stands for all that is cut, since only even numbers are compared with. -/
theorem SameSide.of_cut {x : K} {n : ℕ} {inexact : Prop} [Decidable inexact]
    (whole : ¬inexact → x = n) (between : inexact → (n : K) < x ∧ x < n + 1) :
    SameSide (2 : K) x ((n ||| if inexact then 1 else 0 : ℕ) : K) := by
  by_cases lost : inexact
  · obtain ⟨above, below⟩ := between lost
    rw [if_pos lost, or_one]
    rcases Nat.even_or_odd' n with ⟨k, even | odd⟩
    · rw [if_pos (by omega)]
      subst even
      push_cast at above below ⊢
      apply SameSide.of_inside (k : ℤ) two_pos <;> push_cast <;> linarith
    · rw [if_neg (by omega)]
      subst odd
      push_cast at above below ⊢
      apply SameSide.of_inside (k : ℤ) two_pos <;> push_cast <;> linarith
  · rw [if_neg lost, Nat.or_zero, whole lost]
    exact SameSide.refl _ _

theorem stick_sameSide (p : ℕ) {q : ℕ} (positive : 0 < q) :
    SameSide (2 : K) ((p : K) / q) (stick p q) := by
  have parts := Nat.div_add_mod p q
  have denominator : (0 : K) < q := Nat.cast_pos.mpr positive
  apply SameSide.of_cut
  · intro divides
    rw [div_eq_iff denominator.ne', ← Nat.cast_mul, Nat.cast_inj, Nat.mul_comm]
    omega
  · intro lost
    have remainder := Nat.mod_lt p positive
    constructor
    · rw [lt_div_iff₀ denominator, ← Nat.cast_mul, Nat.cast_lt, Nat.mul_comm]
      omega
    · rw [div_lt_iff₀ denominator, ← Nat.cast_succ, ← Nat.cast_mul, Nat.cast_lt, Nat.mul_comm,
        Nat.mul_succ]
      omega

theorem stick_pos {p q : ℕ} (positive : 0 < q) (some : 0 < p) : 0 < stick p q := by
  have exactly : (0 : ℚ) < (p : ℚ) / q := div_pos (Nat.cast_pos.mpr some) (Nat.cast_pos.mpr positive)
  exact_mod_cast (stick_sameSide (K := ℚ) p positive).pos_iff.mp exactly

/-- A shift to the right that keeps what it cuts in the lowest bit. -/
theorem SameSide.shift {x : K} {m half : ℕ} (same : SameSide ((2 * half : ℕ) : K) x m)
    (d : ℕ) :
    SameSide ((2 * half : ℕ) : K) (x / 2 ^ d) (stick m (2 ^ d)) := by
  have power : (0 : K) < 2 ^ d := by
    positivity
  have wide : SameSide ((2 * half : ℕ) : K) (x / 2 ^ d) (m / 2 ^ d) := by
    have scaled := (same.coarsen (2 ^ d : ℕ)).scale (inv_pos.mpr power)
    have gap : (2 ^ d : K)⁻¹ * (((2 ^ d : ℕ) : ℤ) * ((2 * half : ℕ) : K)) = (2 * half : ℕ) := by
      push_cast
      field_simp
    rw [gap] at scaled
    simpa [div_eq_inv_mul] using scaled
  have sticky := (stick_sameSide (K := K) m (Nat.two_pow_pos d)).coarsen half
  have gap : ((half : ℤ) : K) * 2 = (2 * half : ℕ) := by
    push_cast
    ring
  rw [gap] at sticky
  push_cast at sticky wide ⊢
  exact wide.trans sticky

end Sticky

section Congruence

variable {x y : K}

/-- The multiples of one half decide a rounding. -/
theorem SameSide.round_eq (same : SameSide (1 / 2) x y) (nonneg : 0 ≤ x) (rule : Rule) :
    rule.round x = rule.round y := by
  have nonneg' : 0 ≤ y := by
    have at_zero := (same.le_iff 0).mp (by simpa using nonneg)
    simpa using at_zero
  have whole (n : ℕ) : ((2 * n : ℤ) : K) * (1 / 2) = n := by
    push_cast
    ring
  have floors : ⌊x⌋₊ = ⌊y⌋₊ := by
    apply eq_of_forall_le_iff
    intro n
    rw [Nat.le_floor_iff nonneg, Nat.le_floor_iff nonneg', ← whole n, same.le_iff]
  have ceils : ⌈x⌉₊ = ⌈y⌉₊ := by
    apply eq_of_forall_ge_iff
    intro n
    rw [Nat.ceil_le, Nat.ceil_le, ← whole n, same.ge_iff]
  have halves : ⌊x + 1 / 2⌋₊ = ⌊y + 1 / 2⌋₊ := by
    apply eq_of_forall_le_iff
    intro n
    have moved (z : K) : (n : K) ≤ z + 1 / 2 ↔ ((2 * n - 1 : ℤ) : K) * (1 / 2) ≤ z := by
      push_cast
      constructor
      · intro bound
        linarith
      · intro bound
        linarith
    rw [Nat.le_floor_iff (by linarith), Nat.le_floor_iff (by linarith), moved, moved, same.le_iff]
  have ties : x = ⌊y⌋₊ + 1 / 2 ↔ y = ⌊y⌋₊ + 1 / 2 := by
    have moved : ((⌊y⌋₊ : ℕ) : K) + 1 / 2 = ((2 * ⌊y⌋₊ + 1 : ℤ) : K) * (1 / 2) := by
      push_cast
      ring
    rw [moved, same.eq_iff]
  cases rule with
  | nearestEven =>
      rw [Rule.round, Rule.round, floors, halves]
      simp only [ties]
  | nearestAway => exact halves
  | towardZero => exact floors
  | awayFromZero => exact ceils

/-- A number is rounded to itself if it is an integer only. -/
theorem Rule.round_natCast (rule : Rule) (n : ℕ) : rule.round (n : K) = n := by
  have up : ⌊(n : K) + 1 / 2⌋₊ = n := by
    rw [Nat.floor_eq_iff (by positivity)]
    constructor <;> linarith
  have off : ¬(n : K) = n + 1 / 2 := by
    intro tie
    linarith
  cases rule with
  | nearestEven => rw [Rule.round, Nat.floor_natCast, if_neg off, up]
  | nearestAway => exact up
  | towardZero => exact Nat.floor_natCast n
  | awayFromZero => exact Nat.ceil_natCast n

theorem Rule.round_le (rule : Rule) {n : ℕ} (nonneg : 0 ≤ x) (bound : x ≤ n) : rule.round x ≤ n := by
  have down : ⌊x⌋₊ ≤ n := Nat.floor_le_of_le bound
  have up : ⌊x + 1 / 2⌋₊ ≤ n := by
    rw [← Nat.lt_succ_iff, Nat.floor_lt (by linarith)]
    push_cast
    linarith
  cases rule with
  | nearestEven =>
      rw [Rule.round]
      split
      · rename_i tie
        split
        · exact down
        · have below : (⌊x⌋₊ : K) < n := by
            linarith
          exact Nat.cast_lt.mp below
      · exact up
  | nearestAway => exact up
  | towardZero => exact down
  | awayFromZero => exact Nat.ceil_le.mpr bound

theorem Rule.le_round (rule : Rule) {n : ℕ} (bound : (n : K) ≤ x) : n ≤ rule.round x := by
  have down : n ≤ ⌊x⌋₊ := Nat.le_floor bound
  have up : n ≤ ⌊x + 1 / 2⌋₊ := Nat.le_floor (by linarith)
  cases rule with
  | nearestEven =>
      rw [Rule.round]
      split
      · split <;> omega
      · exact up
  | nearestAway => exact up
  | towardZero => exact down
  | awayFromZero => exact down.trans (Nat.floor_le_ceil x)

variable {half numerator : ℕ} (positive : 0 < half) (same : SameSide (half : K) x numerator)
include positive same

theorem SameSide.fraction : SameSide (1 / 2) (x / (2 * half : ℕ)) (numerator / (2 * half : ℕ)) := by
  have nonzero : (0 : K) < half := Nat.cast_pos.mpr positive
  have scaled := same.scale (inv_pos.mpr (by positivity : (0 : K) < (2 * half : ℕ)))
  have gap : ((2 * half : ℕ) : K)⁻¹ * half = 1 / 2 := by
    push_cast
    field_simp
  rw [gap] at scaled
  simpa [div_eq_inv_mul] using scaled

/-- A magnitude and a numerator on its side of all half units have the same rounding. -/
theorem SameSide.round_fraction (nonneg : 0 ≤ x) (rule : Rule) :
    rule.round (x / (2 * half : ℕ)) = rule.roundNat half numerator := by
  rw [(same.fraction positive).round_eq (by positivity), rule.round_fraction positive]

/-- The rounding is exact if the numerator has no bits that are cut. -/
theorem SameSide.round_exact (rule : Rule) :
    (rule.roundNat half numerator : K) = x / (2 * half : ℕ) ↔ numerator % (2 * half) = 0 := by
  have fraction := same.fraction positive
  have whole (n : ℕ) : (n : K) = ((2 * n : ℤ) : K) * (1 / 2) := by
    push_cast
    ring
  have denominator : (0 : K) < (2 * half : ℕ) := by
    exact_mod_cast (by omega : 0 < 2 * half)
  rw [eq_comm, whole (rule.roundNat half numerator), fraction.eq_iff, ← whole, div_eq_iff denominator.ne', ← Nat.cast_mul,
    Nat.cast_inj]
  constructor
  · intro product
    rw [product, Nat.mul_mod_left]
  · intro divides
    obtain ⟨quotient, product⟩ := Nat.dvd_of_mod_eq_zero divides
    have rounds := rule.round_fraction positive (K := K) numerator
    have cancelled : (numerator : K) / (2 * half : ℕ) = quotient := by
      rw [product, Nat.cast_mul, mul_div_cancel_left₀ _ denominator.ne']
    rw [cancelled, Rule.round_natCast] at rounds
    rw [← rounds, product, Nat.mul_comm]

end Congruence

section Bounds

variable {half numerator bound : ℕ} (positive : 0 < half) (rule : Rule)
include positive

theorem Rule.roundNat_le (below : numerator ≤ bound * (2 * half)) :
    rule.roundNat half numerator ≤ bound := by
  have denominator : (0 : ℚ) < (2 * half : ℕ) := by
    exact_mod_cast (by omega : 0 < 2 * half)
  rw [← rule.round_fraction (K := ℚ) positive]
  apply rule.round_le (by positivity)
  rw [div_le_iff₀ denominator]
  exact_mod_cast below

theorem Rule.le_roundNat (above : bound * (2 * half) ≤ numerator) :
    bound ≤ rule.roundNat half numerator := by
  have denominator : (0 : ℚ) < (2 * half : ℕ) := by
    exact_mod_cast (by omega : 0 < 2 * half)
  rw [← rule.round_fraction (K := ℚ) positive]
  apply rule.le_round
  rw [le_div_iff₀ denominator]
  exact_mod_cast above

/-- A rounding carries to an even number if the addition does. -/
theorem Rule.roundNat_lt_iff :
    rule.roundNat half numerator < 2 * bound ↔
      numerator + rule.addend half < 2 * bound * (2 * half) := by
  have cut : numerator + rule.addend half < 2 * bound * (2 * half) ↔
      (numerator + rule.addend half) / (2 * half) < 2 * bound :=
    (Nat.div_lt_iff_lt_mul (by omega)).symm
  rw [cut, Rule.roundNat]
  split <;> omega

end Bounds

section Binades

variable (rule : Rule) (precision : ℕ)

/-- The exponent of a number between two powers of two. -/
theorem log_eq {x : K} {exponent : ℤ} (low : 2 ^ exponent ≤ x) (high : x < 2 ^ (exponent + 1)) :
    Int.log 2 x = exponent := by
  have positive : 0 < x := lt_of_lt_of_le (zpow_pos two_pos _) low
  have below := (Int.zpow_le_iff_le_log (b := 2) one_lt_two positive).mp (by exact_mod_cast low)
  have above := (Int.lt_zpow_iff_log_lt (b := 2) one_lt_two positive).mp (by exact_mod_cast high)
  omega

/-- A rounding to a number of bits does not pass a power of two. -/
theorem Rule.roundUnbounded_le {x : K} {exponent : ℤ} (positive : 0 < x) (below : x < 2 ^ exponent) :
    rule.roundUnbounded precision x ≤ 2 ^ exponent := by
  have two : (0 : K) < 2 := two_pos
  have high : x < 2 ^ (Int.log 2 x + 1) := by
    exact_mod_cast Int.lt_zpow_succ_log_self (b := 2) one_lt_two x
  have log_lt : Int.log 2 x < exponent :=
    (Int.lt_zpow_iff_log_lt (b := 2) one_lt_two positive).mp (by exact_mod_cast below)
  have unit : (0 : K) < 2 ^ (Int.log 2 x - precision) := zpow_pos two _
  have bound : rule.round (x / 2 ^ (Int.log 2 x - precision)) ≤ 2 ^ (precision + 1) := by
    apply rule.round_le (by positivity)
    rw [div_le_iff₀ unit]
    push_cast
    rw [← zpow_natCast, ← zpow_add₀ two_ne_zero]
    push_cast
    have exponents : (precision : ℤ) + 1 + (Int.log 2 x - precision) = Int.log 2 x + 1 := by
      ring
    rw [exponents]
    exact high.le
  rw [Rule.roundUnbounded, Rule.roundAt]
  calc (rule.round (x / 2 ^ (Int.log 2 x - precision)) : K) * 2 ^ (Int.log 2 x - precision)
      ≤ (2 ^ (precision + 1) : ℕ) * 2 ^ (Int.log 2 x - precision) :=
        mul_le_mul_of_nonneg_right (Nat.cast_le.mpr bound) unit.le
    _ = 2 ^ (Int.log 2 x + 1) := by
        push_cast
        rw [← zpow_natCast, ← zpow_add₀ two_ne_zero]
        congr 1
        push_cast
        ring
    _ ≤ 2 ^ exponent := zpow_le_zpow_right₀ one_le_two (by omega)

end Binades

end MachineEmulator.Rounding
