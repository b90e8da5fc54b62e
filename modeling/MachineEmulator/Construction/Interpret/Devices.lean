/-
This file gives the calls of the devices into the registers and the polls of the host.
-/

import MachineEmulator.Construction.Interpret.Trap

namespace MachineEmulator.Interpret

section Clock

/-- This is `std::min`. -/
def minWord (first second : Word) : Word := if second < first then second else first

/-- This is `std::max`. -/
def maxWord (first second : Word) : Word := if first < second then second else first

def rtcFreqDiv : Word := 8192

/-- This is `RTC_CYCLES_PER_US`. -/
def rtcCyclesPerUs : Word := 128

def rtcCycleToTime (cycle : Word) : Word := cycle / rtcFreqDiv

/-- This is `rtc_time_to_cycle`, a product of 64 bits. -/
def rtcTimeToCycle (time : Word) : Word := time * rtcFreqDiv

def rtcIsTick (cycle : Word) : Bool := cycle % rtcFreqDiv == 0

end Clock

variable {Rest : Type}

section Calls

/-- This is `do_set_mip`. -/
def Registers.setMip (registers : Registers) (mask : Word) : Registers :=
  { registers with mip := warlMip (registers.readMip ||| mask) }

/-- This is `do_reset_mip`. -/
def Registers.resetMip (registers : Registers) (mask : Word) : Registers :=
  { registers with mip := warlMip (registers.readMip &&& ~~~mask) }

/-- The calls of the PLIC and of HTIF that change the registers of the processor. -/
inductive DeviceCall where
  | pendExternal
  | clearExternal
  | yieldAutomatic
  | yieldManual
  | halt
deriving DecidableEq, Repr

def DeviceCall.perform (registers : Registers) : DeviceCall → Registers
  | .pendExternal => registers.setMip (mipMeipMask ||| mipSeipMask)
  | .clearExternal => registers.resetMip (mipMeipMask ||| mipSeipMask)
  | .yieldAutomatic => { registers with iflagsX := 1 }
  | .yieldManual => { registers with iflagsY := 1 }
  | .halt => { registers with iflagsH := 1 }

/-- The calls of the devices, one after the other. -/
def Cpu.perform (cpu : Cpu Rest) (calls : List DeviceCall) : Cpu Rest :=
  cpu.withRegisters (calls.foldl DeviceCall.perform cpu.registers)

/-- This is `clint_address_range::do_write_device`. -/
def clintWriteDevice (cpu : Cpu Rest) (offset : Word) (log2Size : Nat) (val : Word) :
    ExecuteStatus × Cpu Rest :=
  if offset = 0 then
    if log2Size = 2 then
      if val &&& 1 ≠ 0 then
        (.successAndServeInterrupts, cpu.withRegisters (cpu.registers.setMip mipMsipMask))
      else (.success, cpu.withRegisters (cpu.registers.resetMip mipMsipMask))
    else (.failure, cpu)
  else if offset = 0x4000 then
    if log2Size = 3 then
      let written := { cpu.registers with clintMtimecmp := val }
      (.success, cpu.withRegisters (written.resetMip mipMtipMask))
    else (.failure, cpu)
  else (.failure, cpu)

/-- This is `set_rtc_interrupt`. -/
def setRtcInterrupt (cpu : Cpu Rest) (mcycle : Word) : Cpu Rest :=
  let timecmpCycle := rtcTimeToCycle cpu.registers.clintMtimecmp
  if timecmpCycle ≤ mcycle ∧ timecmpCycle ≠ 0 then
    cpu.withRegisters (cpu.registers.setMip mipMtipMask)
  else cpu

end Calls

section Poll

/-- What a poll gives back: the calls of the devices, the cycle and one of three statuses. -/
structure Polled (Rest : Type) where
  rest : Rest
  calls : List DeviceCall
  mcycle : Word
  status : ExecuteStatus
  answers : status ∈ [.success, .successAndServeInterrupts, ExecuteStatus.successAndConsoleInput]

theorem success_answers : ExecuteStatus.success ∈
    [.success, .successAndServeInterrupts, ExecuteStatus.successAndConsoleInput] := by
  decide

/-- What the host does while the machine waits for at most a number of microseconds. -/
structure Waited (Rest : Type) where
  rest : Rest
  calls : List DeviceCall
  timeoutUs : Word
  elapsedUs : Word
  serveInterrupts : Bool
  refillConsoleInput : Bool

/-- This is `machine::poll_external_interrupts`, where the host and its devices are a parameter. -/
def pollExternalInterrupts (isUnreproducible : Bool) (wait : Cpu Rest → Word → Waited Rest)
    (cpu : Cpu Rest) (mcycle mcycleMax : Word) : Polled Rest :=
  if isUnreproducible then
    let waited := wait cpu ((mcycleMax - mcycle) / rtcCyclesPerUs)
    let nextMcycle := mcycle + waited.elapsedUs * rtcCyclesPerUs
    ⟨waited.rest, waited.calls,
      if waited.timeoutUs > 0 then minWord (maxWord nextMcycle mcycle) mcycleMax else mcycle,
      if waited.refillConsoleInput then .successAndConsoleInput
      else if waited.serveInterrupts then .successAndServeInterrupts else .success,
      by cases waited.refillConsoleInput <;> cases waited.serveInterrupts <;> decide⟩
  else ⟨cpu.rest, [], mcycle, .success, success_answers⟩

end Poll

end MachineEmulator.Interpret
