/-
This file proves where the runs of the microarchitecture end and that they can be made in legs.
-/

import MachineEmulator.Construction.Uarch.Interpret

namespace MachineEmulator.Uarch

open Effects

section Steps

/-- The cycle register. -/
def cycleOf (memory : Memory) : Word := memory.loadWord ShadowUarchStateWhat.cycle.address

/-- The halt flag. -/
def haltFlagOf (memory : Memory) : Word := memory.loadWord ShadowUarchStateWhat.haltFlag.address

variable {machine : PlainMachine} {memory moved : Memory} {status : UArchStepStatus}

theorem run_readCycle :
    readCycle.run (plainAccess machine) memory = .ok (cycleOf memory, memory) := by
  rw [readCycle, perform, Program.run_perform]
  rfl

theorem run_readHaltFlag :
    readHaltFlag.run (plainAccess machine) memory = .ok (haltFlagOf memory, memory) := by
  rw [readHaltFlag, perform, Program.run_perform]
  rfl

/-- No instruction moves a machine whose cycles are used up. -/
theorem run_overflow (past : uarchCycleMax ≤ cycleOf memory) :
    uarchStep.run (plainAccess machine) memory = .ok (.cycleOverflow, memory) := by
  rw [uarchStep, Program.run_bind, run_readCycle]
  dsimp only
  rw [if_pos past, Program.run_pure]

/-- No instruction moves a halted machine. -/
theorem run_halted (below : ¬uarchCycleMax ≤ cycleOf memory) (halted : haltFlagOf memory ≠ 0) :
    uarchStep.run (plainAccess machine) memory = .ok (.uarchHalted, memory) := by
  rw [uarchStep, Program.run_bind, run_readCycle]
  dsimp only
  rw [if_neg below, Program.run_bind, run_readHaltFlag]
  dsimp only
  rw [if_pos halted, Program.run_pure]

theorem cycleOf_storeWord (value : Word) :
    cycleOf (memory.storeWord ShadowUarchStateWhat.cycle.address value) = value :=
  Memory.loadWord_storeWord _ _ _ (by decide)

/-- An instruction may write what it likes, but the cycle is counted after it. -/
theorem run_success (below : ¬uarchCycleMax ≤ cycleOf memory) (running : haltFlagOf memory = 0)
    (ran : uarchStep.run (plainAccess machine) memory = .ok (status, moved)) :
    status = .success ∧ cycleOf moved = cycleOf memory + 1 := by
  rw [uarchStep, Program.run_bind, run_readCycle] at ran
  dsimp only at ran
  rw [if_neg below, Program.run_bind, run_readHaltFlag] at ran
  dsimp only at ran
  rw [if_neg (not_not.mpr running), Program.run_bind_ok] at ran
  obtain ⟨pc, afterPc, -, ran⟩ := ran
  obtain ⟨insn, fetched, -, ran⟩ := (Program.run_bind_ok _).mp ran
  obtain ⟨_, executed, -, ran⟩ := (Program.run_bind_ok _).mp ran
  obtain ⟨_, counted, wrote, ran⟩ := (Program.run_bind_ok _).mp ran
  rw [Program.run_pure, Except.ok.injEq, Prod.mk.injEq] at ran
  obtain ⟨rfl, rfl⟩ := ran
  rw [writeCycle, perform, Program.run_perform] at wrote
  have stored :
      executed.storeWord ShadowUarchStateWhat.cycle.address (cycleOf memory + 1) = counted := by
    simpa [plainAccess, check] using wrote
  rw [← stored]
  exact ⟨rfl, cycleOf_storeWord _⟩

/-- What a step leaves, by its status. -/
def Stepped (memory : Memory) (status : UArchStepStatus) (moved : Memory) : Prop :=
  match status with
  | .success =>
      (cycleOf memory).toNat < uarchCycleMax.toNat ∧
        (cycleOf moved).toNat = (cycleOf memory).toNat + 1
  | .uarchHalted =>
      (cycleOf memory).toNat < uarchCycleMax.toNat ∧ haltFlagOf memory ≠ 0 ∧ moved = memory
  | .cycleOverflow => uarchCycleMax.toNat ≤ (cycleOf memory).toNat ∧ moved = memory

theorem uarchStep_stepped (ran : uarchStep.run (plainAccess machine) memory = .ok (status, moved)) :
    Stepped memory status moved := by
  by_cases past : uarchCycleMax ≤ cycleOf memory
  · rw [run_overflow past, Except.ok.injEq, Prod.mk.injEq] at ran
    obtain ⟨rfl, rfl⟩ := ran
    exact ⟨BitVec.le_def.mp past, rfl⟩
  have below : (cycleOf memory).toNat < uarchCycleMax.toNat := by
    rw [BitVec.le_def] at past
    exact Nat.lt_of_not_le past
  by_cases running : haltFlagOf memory = 0
  · obtain ⟨rfl, counted⟩ := run_success past running ran
    have room : uarchCycleMax.toNat = 2 ^ 20 := by
      decide
    refine ⟨below, ?_⟩
    rw [counted, BitVec.toNat_add, Nat.mod_eq_of_lt]
    · rfl
    · change (cycleOf memory).toNat + 1 < 2 ^ 64
      omega
  · rw [run_halted past running, Except.ok.injEq, Prod.mk.injEq] at ran
    obtain ⟨rfl, rfl⟩ := ran
    exact ⟨below, running, rfl⟩

end Steps

section Runs

variable {machine : PlainMachine} {memory moved : Memory} {reason : UarchInterpreterBreakReason}

/-- What a run of some cycles leaves, by its reason to end. -/
def Ended (memory : Memory) (count : ℕ) (reason : UarchInterpreterBreakReason)
    (moved : Memory) : Prop :=
  match reason with
  | .reachedTargetCycle => (cycleOf moved).toNat = (cycleOf memory).toNat + count
  | .uarchHalted =>
      (cycleOf memory).toNat ≤ (cycleOf moved).toNat ∧
        (cycleOf moved).toNat < (cycleOf memory).toNat + count ∧
        (cycleOf moved).toNat < uarchCycleMax.toNat ∧ haltFlagOf moved ≠ 0
  | .cycleOverflow =>
      (cycleOf memory).toNat ≤ (cycleOf moved).toNat ∧
        (cycleOf moved).toNat < (cycleOf memory).toNat + count ∧
        uarchCycleMax.toNat ≤ (cycleOf moved).toNat

/-- A run of one more cycle ends where the rest of it does. -/
theorem Ended.after {counted : Memory} {count : ℕ}
    (step : (cycleOf counted).toNat = (cycleOf memory).toNat + 1)
    (rest : Ended counted count reason moved) :
    Ended memory (count + 1) reason moved := by
  cases reason with
  | reachedTargetCycle =>
      rw [Ended, step] at rest
      rw [Ended]
      omega
  | uarchHalted =>
      obtain ⟨above, below, room, halted⟩ := rest
      exact ⟨by omega, by omega, room, halted⟩
  | cycleOverflow =>
      obtain ⟨above, below, past⟩ := rest
      exact ⟨by omega, by omega, past⟩

/-- The first step of a run. -/
theorem loop_succ (count : ℕ) :
    uarchInterpretLoop (plainAccess machine) (count + 1) memory =
      match uarchStep.run (plainAccess machine) memory with
      | .ok (.success, moved) => uarchInterpretLoop (plainAccess machine) count moved
      | .ok (.uarchHalted, moved) => .ok (.uarchHalted, moved)
      | .ok (.cycleOverflow, moved) => .ok (.cycleOverflow, moved)
      | .error failure => .error failure := by
  rw [uarchInterpretLoop]
  cases uarchStep.run (plainAccess machine) memory with
  | error failure => rfl
  | ok outcome =>
      obtain ⟨status, moved⟩ := outcome
      cases status <;> rfl

theorem loop_ended {count : ℕ}
    (ran : uarchInterpretLoop (plainAccess machine) count memory = .ok (reason, moved)) :
    Ended memory count reason moved := by
  induction count generalizing memory with
  | zero =>
      cases ran
      rfl
  | succ count ih =>
      rw [loop_succ] at ran
      cases step : uarchStep.run (plainAccess machine) memory with
      | error failure =>
          rw [step] at ran
          cases ran
      | ok outcome =>
          obtain ⟨status, counted⟩ := outcome
          rw [step] at ran
          have stepped := uarchStep_stepped step
          cases status with
          | success => exact (ih ran).after stepped.2
          | uarchHalted =>
              cases ran
              obtain ⟨below, halted, rfl⟩ := stepped
              exact ⟨le_rfl, by omega, below, halted⟩
          | cycleOverflow =>
              cases ran
              obtain ⟨past, rfl⟩ := stepped
              exact ⟨le_rfl, by omega, past⟩

/-- No run goes back, and none goes past its cycles. -/
theorem Ended.between {count : ℕ} (ended : Ended memory count reason moved) :
    (cycleOf memory).toNat ≤ (cycleOf moved).toNat ∧
      (cycleOf moved).toNat ≤ (cycleOf memory).toNat + count := by
  cases reason with
  | reachedTargetCycle =>
      rw [Ended] at ended
      omega
  | uarchHalted => exact ⟨ended.1, ended.2.1.le⟩
  | cycleOverflow => exact ⟨ended.1, ended.2.1.le⟩

/-- A run in two legs is the whole run: where the first leg stops early, the second one stops at
once for the same reason. -/
theorem loop_legs (first second : ℕ) :
    uarchInterpretLoop (plainAccess machine) (first + second) memory =
      uarchInterpretLoop (plainAccess machine) first memory >>= fun ended =>
        uarchInterpretLoop (plainAccess machine)
          ((cycleOf memory).toNat + (first + second) - (cycleOf ended.2).toNat) ended.2 := by
  induction first generalizing memory with
  | zero =>
      rw [Nat.zero_add]
      change _ = uarchInterpretLoop _ _ memory
      rw [Nat.add_sub_cancel_left]
  | succ first ih =>
      rw [Nat.succ_add, loop_succ, loop_succ]
      cases step : uarchStep.run (plainAccess machine) memory with
      | error failure => rfl
      | ok outcome =>
          obtain ⟨status, counted⟩ := outcome
          have stepped := uarchStep_stepped step
          cases status with
          | success =>
              have rest : (cycleOf counted).toNat + (first + second) =
                  (cycleOf memory).toNat + (first + second).succ := by
                rw [stepped.2]
                omega
              dsimp only
              rw [ih, rest]
          | uarchHalted =>
              obtain ⟨-, -, rfl⟩ := stepped
              change _ = uarchInterpretLoop _ _ counted
              rw [Nat.add_sub_cancel_left, loop_succ, step]
          | cycleOverflow =>
              obtain ⟨-, rfl⟩ := stepped
              change _ = uarchInterpretLoop _ _ counted
              rw [Nat.add_sub_cancel_left, loop_succ, step]

end Runs

section Interpret

variable {machine : PlainMachine} {memory moved : Memory} {reason : UarchInterpreterBreakReason}
  {cycleEnd : Word}

theorem uarchInterpret_eq :
    uarchInterpret (plainAccess machine) cycleEnd memory =
      if cycleEnd < cycleOf memory then .error .uarchCycleIsPast
      else (uarchInterpretLoop (plainAccess machine)
        (cycleEnd.toNat - (cycleOf memory).toNat) memory).mapError .step := by
  rw [uarchInterpret, run_readCycle]
  rfl

/-- A run that returned was not past its end, and its loop ended. -/
theorem uarchInterpret_ok
    (ran : uarchInterpret (plainAccess machine) cycleEnd memory = .ok (reason, moved)) :
    (cycleOf memory).toNat ≤ cycleEnd.toNat ∧
      uarchInterpretLoop (plainAccess machine) (cycleEnd.toNat - (cycleOf memory).toNat) memory =
        .ok (reason, moved) := by
  rw [uarchInterpret_eq] at ran
  split at ran
  · cases ran
  · rename_i notPast
    rw [BitVec.lt_def, Nat.not_lt] at notPast
    refine ⟨notPast, ?_⟩
    cases ended : uarchInterpretLoop (plainAccess machine)
        (cycleEnd.toNat - (cycleOf memory).toNat) memory with
    | error failure =>
        rw [ended] at ran
        cases ran
    | ok outcome =>
        rw [ended] at ran
        cases ran
        rfl

/-- A machine without ranges. -/
def bareMachine : PlainMachine := ⟨[], fun _ _ => .ok (), []⟩

/-- A memory that is zero but for its halt flag. -/
def haltedMemory : Memory := Memory.storeWord (fun _ => 0) ShadowUarchStateWhat.haltFlag.address 1

theorem cycleOf_haltedMemory : cycleOf haltedMemory = 0 := by
  decide

theorem haltedMemory_runs : uarchInterpret (plainAccess bareMachine) 5 haltedMemory =
    .ok (.uarchHalted, haltedMemory) := by
  have halted : haltFlagOf haltedMemory ≠ 0 := by
    decide
  have below : ¬uarchCycleMax ≤ cycleOf haltedMemory := by
    decide
  have notPast : ¬(5 : Word) < cycleOf haltedMemory := by
    decide
  rw [uarchInterpret_eq, if_neg notPast, cycleOf_haltedMemory]
  change Except.mapError .step
    (uarchInterpretLoop (plainAccess bareMachine) (4 + 1) haltedMemory) = _
  rw [loop_succ, run_halted below halted]
  rfl

/-- A run ends at its last cycle unless the machine halted or used up its cycles before. -/
theorem uarchInterpret_ends
    (ran : uarchInterpret (plainAccess machine) cycleEnd memory = .ok (reason, moved)) :
    cycleOf memory ≤ cycleOf moved ∧ cycleOf moved ≤ cycleEnd ∧
      match reason with
      | .reachedTargetCycle => cycleOf moved = cycleEnd
      | .uarchHalted =>
          cycleOf moved < cycleEnd ∧ cycleOf moved < uarchCycleMax ∧ haltFlagOf moved ≠ 0
      | .cycleOverflow => cycleOf moved < cycleEnd ∧ uarchCycleMax ≤ cycleOf moved := by
  obtain ⟨start, looped⟩ := uarchInterpret_ok ran
  have ended := loop_ended looped
  obtain ⟨above, below⟩ := ended.between
  refine ⟨BitVec.le_def.mpr above, BitVec.le_def.mpr (by omega), ?_⟩
  cases reason with
  | reachedTargetCycle =>
      rw [Ended] at ended
      exact BitVec.eq_of_toNat_eq (by omega)
  | uarchHalted =>
      obtain ⟨-, early, room, halted⟩ := ended
      exact ⟨BitVec.lt_def.mpr (by omega), BitVec.lt_def.mpr room, halted⟩
  | cycleOverflow =>
      obtain ⟨-, early, past⟩ := ended
      exact ⟨BitVec.lt_def.mpr (by omega), BitVec.le_def.mpr past⟩

theorem uarchInterpret_ends_halted :
    cycleOf haltedMemory ≤ cycleOf haltedMemory ∧ cycleOf haltedMemory ≤ 5 ∧
      cycleOf haltedMemory < 5 ∧ cycleOf haltedMemory < uarchCycleMax ∧
      haltFlagOf haltedMemory ≠ 0 :=
  uarchInterpret_ends haltedMemory_runs

/-- A run to a cycle in between and a run from there are the whole run. -/
theorem uarchInterpret_legs {middle : Word} (start : cycleOf memory ≤ middle)
    (order : middle ≤ cycleEnd) :
    uarchInterpret (plainAccess machine) cycleEnd memory =
      uarchInterpret (plainAccess machine) middle memory >>= fun ended =>
        uarchInterpret (plainAccess machine) cycleEnd ended.2 := by
  have from_start := BitVec.le_def.mp start
  have to_end := BitVec.le_def.mp order
  have legs := @loop_legs machine memory
    (middle.toNat - (cycleOf memory).toNat) (cycleEnd.toNat - middle.toNat)
  have whole : middle.toNat - (cycleOf memory).toNat + (cycleEnd.toNat - middle.toNat) =
      cycleEnd.toNat - (cycleOf memory).toNat := by
    omega
  rw [whole] at legs
  have notPast : ¬cycleEnd < cycleOf memory := by
    rw [BitVec.lt_def]
    omega
  have notPast' : ¬middle < cycleOf memory := by
    rw [BitVec.lt_def]
    omega
  rw [uarchInterpret_eq, if_neg notPast, uarchInterpret_eq, if_neg notPast', legs]
  cases looped : uarchInterpretLoop (plainAccess machine)
      (middle.toNat - (cycleOf memory).toNat) memory with
  | error failure => rfl
  | ok outcome =>
      obtain ⟨reason, moved⟩ := outcome
      have between := (loop_ended looped).between
      have notPast'' : ¬cycleEnd < cycleOf moved := by
        rw [BitVec.lt_def]
        omega
      have rest : (cycleOf memory).toNat + (cycleEnd.toNat - (cycleOf memory).toNat) -
          (cycleOf moved).toNat = cycleEnd.toNat - (cycleOf moved).toNat := by
        omega
      change Except.mapError .step (uarchInterpretLoop (plainAccess machine)
        ((cycleOf memory).toNat + (cycleEnd.toNat - (cycleOf memory).toNat) - (cycleOf moved).toNat)
        moved) = uarchInterpret (plainAccess machine) cycleEnd moved
      rw [uarchInterpret_eq, if_neg notPast'', rest]

/-- A halted machine stops twice. -/
theorem uarchInterpret_legs_halted :
    uarchInterpret (plainAccess bareMachine) 5 haltedMemory =
      uarchInterpret (plainAccess bareMachine) 3 haltedMemory >>= fun ended =>
        uarchInterpret (plainAccess bareMachine) 5 ended.2 :=
  uarchInterpret_legs (by decide) (by decide)

end Interpret

end MachineEmulator.Uarch
