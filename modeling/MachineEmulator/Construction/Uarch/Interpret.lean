/-
This file gives the loop that runs the microarchitecture.
-/

import MachineEmulator.Construction.Uarch.Plain

namespace MachineEmulator.Uarch

open Effects

inductive UarchInterpreterBreakReason where
  | reachedTargetCycle
  | uarchHalted
  | cycleOverflow
deriving DecidableEq, Repr

/-- The interpreter itself throws only before its loop. -/
inductive InterpretFailure where
  | uarchCycleIsPast
  | step (failure : Failure)

variable {State : Type} (access : Handler Op Op.Answer Failure State)

/-- This is the loop of `uarch_interpret`, with the cycles that are left. -/
def uarchInterpretLoop : Nat → State → Except Failure (UarchInterpreterBreakReason × State)
  | 0, state => .ok (.reachedTargetCycle, state)
  | count + 1, state => do
      let (status, moved) ← uarchStep.run access state
      match status with
      | .success => uarchInterpretLoop count moved
      | .uarchHalted => return (.uarchHalted, moved)
      | .cycleOverflow => return (.cycleOverflow, moved)

def uarchInterpret (cycleEnd : Word) (state : State) :
    Except InterpretFailure (UarchInterpreterBreakReason × State) := do
  let (cycle, state) ← (readCycle.run access state).mapError .step
  if cycleEnd < cycle then .error .uarchCycleIsPast
  -- the loop counts its own cycles and never reads the register again
  else (uarchInterpretLoop access (cycleEnd.toNat - cycle.toNat) state).mapError .step

end MachineEmulator.Uarch
