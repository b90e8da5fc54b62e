/-
This file gives the interrupt controller: which sources are pending, which are being served, and the
bits that it keeps in `mip`.
-/

import MachineEmulator.Construction.Failure
import MachineEmulator.Construction.Interpret.Csr
import MachineEmulator.Construction.Interpret.Devices

namespace MachineEmulator.Interpret

/-- This is `plic_state`. -/
structure PlicState where
  girqpend : Word
  girqsrvd : Word
deriving DecidableEq, Repr

def plicMaxIrq : BitVec 32 := 31
def plicLowestIrqPriority : Word := 1
def plicEnabledIrqMask : Word := 0xfffffffe
def arPlicLength : Word := 0x400000

/-- This is `ilog2` of a word that is not zero. -/
def ilog2 (v : BitVec 32) : BitVec 32 := 31 - v.clz

section Access

variable (cpu : Cpu PlicState)

/-- This is `read_plic_girqpend`, whose callers keep 32 bits. -/
def Cpu.readGirqpend : BitVec 32 := cpu.rest.girqpend.setWidth 32

def Cpu.readGirqsrvd : BitVec 32 := cpu.rest.girqsrvd.setWidth 32

def Cpu.writeGirqpend (val : BitVec 32) : Cpu PlicState :=
  { cpu with rest := { cpu.rest with girqpend := val.setWidth 64 } }

def Cpu.writeGirqsrvd (val : BitVec 32) : Cpu PlicState :=
  { cpu with rest := { cpu.rest with girqsrvd := val.setWidth 64 } }

/-- The pending sources that are not being served. -/
def Cpu.ipmask : BitVec 32 := cpu.readGirqpend &&& ~~~cpu.readGirqsrvd

def Cpu.setExternal : Cpu PlicState :=
  cpu.withRegisters (cpu.registers.setMip (mipMeipMask ||| mipSeipMask))

def Cpu.resetExternal : Cpu PlicState :=
  cpu.withRegisters (cpu.registers.resetMip (mipMeipMask ||| mipSeipMask))

end Access

section Plic

variable (cpu : Cpu PlicState)

/-- This is `plic_read_pending`. -/
def plicReadPending : BitVec 32 := cpu.ipmask

/-- This is `plic_read_claim_complete`. -/
def plicReadClaimComplete : BitVec 32 × Cpu PlicState :=
  let ipmask := cpu.ipmask
  if ipmask ≠ 0 then
    let irqId := ilog2 ipmask
    let irqMask := (1 : BitVec 32) <<< irqId
    let served := cpu.writeGirqsrvd (cpu.readGirqsrvd ||| irqMask)
    (irqId, if served.ipmask = 0 then served.resetExternal else served)
  else (0, cpu)

/-- This is `plic_write_claim_complete`. -/
def plicWriteClaimComplete (val : BitVec 32) : ExecuteStatus × Cpu PlicState :=
  if 1 ≤ val ∧ val ≤ plicMaxIrq then
    let irqMask := (1 : BitVec 32) <<< val
    let completed := cpu.writeGirqsrvd (cpu.readGirqsrvd &&& ~~~irqMask)
    if completed.ipmask = 0 then (.success, completed.resetExternal)
    else (.successAndServeInterrupts, completed.setExternal)
  else (.success, cpu)

/-- This is `do_read_device`, which gives nothing when it fails. -/
def plicReadDevice (offset : Word) (log2Size : Nat) : Option (Word × Cpu PlicState) :=
  if offset &&& 3 ≠ 0 ∨ log2Size ≠ 2 ∨ arPlicLength < offset then none
  else if 0x4 ≤ offset ∧ offset ≤ 0x7c then some (plicLowestIrqPriority, cpu)
  else if offset = 0x1000 then some ((plicReadPending cpu).setWidth 64, cpu)
  else if offset = 0x2000 then some (plicEnabledIrqMask, cpu)
  else if offset = 0x200004 then
    let claimed := plicReadClaimComplete cpu
    some (claimed.1.setWidth 64, claimed.2)
  else some (0, cpu)

/-- This is `do_write_device`. -/
def plicWriteDevice (offset : Word) (log2Size : Nat) (val : Word) : ExecuteStatus × Cpu PlicState :=
  if offset &&& 3 ≠ 0 ∨ log2Size ≠ 2 ∨ arPlicLength < offset then (.failure, cpu)
  else if offset = 0x200004 then plicWriteClaimComplete cpu (val.setWidth 32)
  else (.success, cpu)

/-- This is `plic_set_pending_irq`. An id of 32 or more is shifted too far. -/
def plicSetPendingIrq (irqId : BitVec 32) : Except Failure (Cpu PlicState) := do
  check (irqId < 32) .undefinedBehavior
  let pended := cpu.writeGirqpend (cpu.readGirqpend ||| ((1 : BitVec 32) <<< irqId))
  return if pended.ipmask ≠ 0 then pended.setExternal else pended

/-- This is `plic_reset_pending_irq`. -/
def plicResetPendingIrq (irqId : BitVec 32) : Except Failure (Cpu PlicState) := do
  check (irqId < 32) .undefinedBehavior
  let cleared := cpu.writeGirqpend (cpu.readGirqpend &&& ~~~((1 : BitVec 32) <<< irqId))
  return if cleared.ipmask = 0 then cleared.resetExternal else cleared

end Plic

section Calls

/-- What reaches the controller: the calls of the devices, the accesses of the driver, and writes to
the control and status registers. -/
inductive PlicCall where
  | setPendingIrq (irqId : BitVec 32)
  | resetPendingIrq (irqId : BitVec 32)
  | readDevice (offset : Word) (log2Size : Nat)
  | writeDevice (offset : Word) (log2Size : Nat) (val : Word)
  | writeCsr (mcycle : Word) (csraddr : CsrAddress) (val : Word)

/-- A call with its status. The calls of the devices and the reads have none of their own. -/
def PlicCall.perform (cpu : Cpu PlicState) : PlicCall → Except Failure (ExecuteStatus × Cpu PlicState)
  | .setPendingIrq irqId => do
      let pended ← plicSetPendingIrq cpu irqId
      return (.success, pended)
  | .resetPendingIrq irqId => do
      let cleared ← plicResetPendingIrq cpu irqId
      return (.success, cleared)
  | .readDevice offset log2Size =>
      match plicReadDevice cpu offset log2Size with
      | some (_, after) => .ok (.success, after)
      | none => .ok (.failure, cpu)
  | .writeDevice offset log2Size val => .ok (plicWriteDevice cpu offset log2Size val)
  | .writeCsr mcycle csraddr val => .ok (Interpret.writeCsr cpu mcycle val csraddr)

end Calls

end MachineEmulator.Interpret
