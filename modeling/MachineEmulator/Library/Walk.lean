/-
This file gives walks: what a step function with an end visits, and when it never comes to its end.
-/

import Mathlib.Data.Fintype.Card
import Mathlib.Tactic

namespace MachineEmulator.Walk

variable {S : Type}

/-- The state after a number of steps, as long as the walk goes on. -/
def after (next : S → Option S) : Nat → S → Option S
  | 0, state => some state
  | count + 1, state => (next state).bind (after next count)

/-- A walk is endless if every step of it has another one behind it. -/
def Endless (next : S → Option S) (state : S) : Prop := ∀ count, (after next count state).isSome

/-- A walk returns if it is in one state at two times. -/
def Returns (next : S → Option S) (start : S) : Prop :=
  ∃ first second state, first < second ∧ after next first start = some state ∧
    after next second start = some state

variable {next : S → Option S}

theorem after_next {state successor : S} (goes : next state = some successor) (count : Nat) :
    after next (count + 1) state = after next count successor := by
  rw [after, goes, Option.bind_some]

theorem after_add (first second : Nat) (state : S) :
    after next (first + second) state = (after next first state).bind (after next second) := by
  induction first generalizing state with
  | zero => rw [Nat.zero_add, after, Option.bind_some]
  | succ first ih =>
      rw [Nat.succ_add, after, after, Option.bind_assoc]
      congr 1
      funext successor
      exact ih successor

theorem endless_next {state successor : S} (goes : next state = some successor) :
    Endless next state ↔ Endless next successor := by
  constructor
  · intro endless count
    rw [← after_next goes]
    exact endless (count + 1)
  · intro endless count
    cases count with
    | zero => rfl
    | succ count =>
        rw [after_next goes]
        exact endless count

theorem Endless.goes {state : S} (endless : Endless next state) :
    ∃ successor, next state = some successor ∧ Endless next successor := by
  have one := endless 1
  obtain ⟨successor, goes⟩ : ∃ successor, next state = some successor := by
    cases goes : next state with
    | none =>
        rw [after, goes] at one
        cases one
    | some successor => exact ⟨successor, rfl⟩
  exact ⟨successor, goes, (endless_next goes).mp endless⟩

/-- What always has a next state of its own kind never ends. -/
theorem Endless.of_invariant {Holds : S → Prop}
    (goes : ∀ state, Holds state → ∃ successor, next state = some successor ∧ Holds successor)
    {state : S} (holds : Holds state) : Endless next state := by
  intro count
  induction count generalizing state with
  | zero => rfl
  | succ count ih =>
      obtain ⟨successor, goes, holds⟩ := goes state holds
      rw [after_next goes]
      exact ih holds

theorem Returns.endless {start : S} (returns : Returns next start) : Endless next start := by
  obtain ⟨first, second, state, before, early, late⟩ := returns
  have round : after next (second - first) state = some state := by
    rw [← Nat.add_sub_of_le before.le, after_add, early, Option.bind_some] at late
    exact late
  have rounds : ∀ count, after next (count * (second - first)) state = some state := by
    intro count
    induction count with
    | zero => rw [Nat.zero_mul, after]
    | succ count ih => rw [Nat.succ_mul, after_add, ih, Option.bind_some, round]
  intro count
  -- The walk is still under way a whole number of rounds later.
  have far : count ≤ first + count * (second - first) := by
    have positive : 1 ≤ second - first := by omega
    have enough : count * 1 ≤ count * (second - first) := Nat.mul_le_mul_left count positive
    omega
  have there : after next (first + count * (second - first)) start = some state := by
    rw [after_add, early, Option.bind_some, rounds]
  rw [← Nat.add_sub_of_le far, after_add] at there
  obtain ⟨_, reached, _⟩ := Option.bind_eq_some_iff.mp there
  rw [reached]
  rfl

/-- Among finitely many states an endless walk is one that returns. -/
theorem endless_iff_returns [Finite S] {start : S} : Endless next start ↔ Returns next start := by
  constructor
  · intro endless
    obtain ⟨first, second, different, same⟩ := Finite.exists_ne_map_eq_of_infinite fun count =>
      (after next count start).get (endless count)
    have both : after next first start = after next second start := by
      rw [← Option.some_get (endless first), same, Option.some_get]
    obtain ⟨state, reached⟩ := Option.isSome_iff_exists.mp (endless first)
    rcases lt_or_gt_of_ne different with before | before
    · exact ⟨first, second, state, before, reached, both ▸ reached⟩
    · exact ⟨second, first, state, before, both ▸ reached, reached⟩
  · exact Returns.endless

/-- A loop with fuel finishes if and only if the walk of its states ends. -/
theorem finishes_iff {E A : Type} (loop : Nat → S → Except E A) (timeout : E) (state : S)
    (empty : ∀ state, loop 0 state = .error timeout)
    (goes : ∀ fuel state successor, next state = some successor →
      loop (fuel + 1) state = loop fuel successor)
    (stops : ∀ fuel state, next state = none → ∃ answer, loop (fuel + 1) state = .ok answer) :
    (∃ fuel answer, loop fuel state = .ok answer) ↔ ¬Endless next state := by
  constructor
  · rintro ⟨fuel, answer, finished⟩ endless
    induction fuel generalizing state with
    | zero =>
        rw [empty] at finished
        cases finished
    | succ fuel ih =>
        obtain ⟨successor, onward, endless⟩ := endless.goes
        rw [goes fuel state successor onward] at finished
        exact ih successor finished endless
  · intro ends
    obtain ⟨count, gone⟩ := not_forall.mp ends
    induction count generalizing state with
    | zero => exact absurd rfl gone
    | succ count ih =>
        cases onward : next state with
        | none =>
            obtain ⟨answer, finished⟩ := stops 0 state onward
            exact ⟨1, answer, finished⟩
        | some successor =>
            rw [after_next onward] at gone
            obtain ⟨fuel, answer, finished⟩ :=
              ih successor (fun endless => gone (endless count)) gone
            exact ⟨fuel + 1, answer, (goes fuel state successor onward).trans finished⟩

end MachineEmulator.Walk
