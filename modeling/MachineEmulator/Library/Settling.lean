/-
This file gives the outcomes of a step that may raise, one of whose failures stands for no outcome.
-/

import Mathlib.Logic.Basic

namespace MachineEmulator.Settling

variable {A B E : Type} {fault : E}

/-- A step raises a failure other than the fault, or its answer has a property. -/
def Settles (fault : E) (step : Except E A) (post : A → Prop) : Prop :=
  match step with
  | .ok answer => post answer
  | .error failure => failure ≠ fault

@[simp] theorem settles_ok {answer : A} {post : A → Prop} :
    Settles fault (.ok answer) post ↔ post answer := Iff.rfl

@[simp] theorem settles_pure {answer : A} {post : A → Prop} :
    Settles fault (pure answer) post ↔ post answer := Iff.rfl

@[simp] theorem settles_error {failure : E} {post : A → Prop} :
    Settles fault (.error failure) post ↔ failure ≠ fault := Iff.rfl

/-- A sequence settles when its first part does with an answer from which the rest does. -/
theorem settles_bind {first : Except E A} {next : A → Except E B} {post : B → Prop} :
    Settles fault (first >>= next) post ↔
      Settles fault first fun answer => Settles fault (next answer) post := by
  cases first with
  | ok answer => exact Iff.rfl
  | error failure => exact Iff.rfl

theorem settles_map {first : Except E A} {function : A → B} {post : B → Prop} :
    Settles fault (function <$> first) post ↔
      Settles fault first fun answer => post (function answer) := by
  cases first with
  | ok answer => exact Iff.rfl
  | error failure => exact Iff.rfl

/-- A check that raises leaves the rest to be settled where it does not. -/
theorem settles_check {condition : Prop} [Decidable condition] {failure : E}
    {next : A → Except E B} {rest : Except E B} {post : B → Prop} (harmless : failure ≠ fault) :
    Settles fault (if condition then .error failure >>= next else rest) post ↔
      (¬ condition → Settles fault rest post) := by
  by_cases holds : condition
  · simp [holds, settles_bind, harmless]
  · simp [holds]

/-- Properties that agree on the answer of a step settle it alike. -/
theorem settles_congr {step : Except E A} {post other : A → Prop}
    (agree : ∀ answer, step = .ok answer → (post answer ↔ other answer)) :
    Settles fault step post ↔ Settles fault step other := by
  cases step with
  | ok answer => exact agree answer rfl
  | error failure => exact Iff.rfl

theorem settles_mono {step : Except E A} {post other : A → Prop} (settled : Settles fault step post)
    (weaker : ∀ answer, post answer → other answer) : Settles fault step other := by
  cases step with
  | ok answer => exact weaker answer settled
  | error failure => exact settled

end MachineEmulator.Settling
