/-
This file gives the traps of the processor: exceptions, interrupts and the privilege levels.
-/

import MachineEmulator.Construction.Interpret.Registers

namespace MachineEmulator.Interpret

/-- This is `execute_status`. -/
inductive ExecuteStatus where
  | success
  | failure
  | successAndFlushFetch
  | successAndServeInterrupts
  | successAndYield
  | successAndHalt
  | successAndConsoleOutput
  | successAndConsoleInput
deriving DecidableEq, Repr

section Causes

def mcauseInsnAddressMisaligned : Word := 0x0
def mcauseInsnAccessFault : Word := 0x1
def mcauseIllegalInsn : Word := 0x2
def mcauseBreakpoint : Word := 0x3
def mcauseStoreAmoAccessFault : Word := 0x7
def mcauseEcallBase : Word := 0x8
def mcauseInterruptFlag : Word := 0x8000000000000000

end Causes

variable {Rest : Type}

/-- This is `set_prv`. -/
def setPrv (cpu : Cpu Rest) (newPrv : Word) : Cpu Rest :=
  let flushed := (cpu.withRegisters { cpu.registers with iprv := newPrv }).flushAllTlb
  flushed.withRegisters { flushed.registers with ilrsc := -1 }

/-- This is `insn_is_uncompressed`, on the low half of a value. -/
def insnIsUncompressed (insn : Word) : Bool := insn.setWidth 32 &&& 3 == 3

/-- Whether a trap is delegated to the supervisor. -/
def delegated (registers : Registers) (cause : Word) : Bool :=
  decide (registers.iprv ≤ prvS) &&
    if cause &&& mcauseInterruptFlag ≠ 0 then
      (registers.readMideleg >>> (cause &&& 63).toNat) &&& 1 == 1
    else (registers.readMedeleg >>> (cause &&& 63).toNat) &&& 1 == 1

/-- This is `raise_exception`: the state and the program counter of the trap handler. -/
def raiseException (cpu : Cpu Rest) (pc cause tval : Word) : Cpu Rest × Word :=
  let tval : Word := if cause = mcauseIllegalInsn ∧ ¬insnIsUncompressed tval then tval &&& 0xffff else tval
  let prv := cpu.registers.iprv
  let counted := { cpu.registers with icycleinstret := cpu.registers.icycleinstret + 1 }
  if delegated cpu.registers cause then
    let caused := { counted with scause := cause, sepc := warlXepc pc, stval := tval }
    let mstatus : Word := caused.readMstatus
    let spie : Word := (mstatus &&& ~~~mstatusSpieMask) ||| (((mstatus >>> 1) &&& 1) <<< 5)
    let spp : Word := (spie &&& ~~~mstatusSppMask) ||| (prv <<< 8)
    let disabled := { caused with mstatus := warlMstatus (spp &&& ~~~mstatusSieMask) }
    let trapped := if prv ≠ prvS then setPrv (cpu.withRegisters disabled) prvS
      else cpu.withRegisters disabled
    (trapped, trapped.registers.readStvec)
  else
    let caused := { counted with mcause := cause, mepc := warlXepc pc, mtval := tval }
    let mstatus : Word := caused.readMstatus
    let mpie : Word := (mstatus &&& ~~~mstatusMpieMask) ||| (((mstatus >>> 3) &&& 1) <<< 7)
    let mpp : Word := (mpie &&& ~~~mstatusMppMask) ||| (prv <<< 11)
    let disabled := { caused with mstatus := warlMstatus (mpp &&& ~~~mstatusMieMask) }
    let trapped := if prv ≠ prvM then setPrv (cpu.withRegisters disabled) prvM
      else cpu.withRegisters disabled
    (trapped, trapped.registers.readMtvec)

/-- This is `get_pending_irq_mask`. -/
def getPendingIrqMask (registers : Registers) : BitVec 32 :=
  let pending := (registers.readMip &&& registers.readMie).setWidth 32
  if pending = 0 then 0
  else
    let machine := ~~~(registers.readMideleg.setWidth 32)
    let enabled : BitVec 32 :=
      if registers.iprv = prvM then
        if registers.readMstatus &&& mstatusMieMask ≠ 0 then machine else 0
      else if registers.iprv = prvS then
        if registers.readMstatus &&& mstatusSieMask ≠ 0 then -1 else machine
      else -1
    pending &&& enabled

/-- The interrupt numbers from the highest to the lowest priority. -/
def interruptsPriority : List Nat := [11, 3, 7, 9, 1, 5]

/-- This is `get_highest_priority_irq_num`; a mask with none of these bits cannot occur. -/
def getHighestPriorityIrqNum (mask : BitVec 32) : Nat :=
  (interruptsPriority.find? fun number => mask.getLsbD number).getD (mask.toNat.log2)

/-- This is `raise_interrupt_if_any`, which also says whether an interrupt was taken. -/
def raiseInterruptIfAny (cpu : Cpu Rest) (pc : Word) : Cpu Rest × Word × Bool :=
  let mask := getPendingIrqMask cpu.registers
  if mask ≠ 0 then
    let number := BitVec.ofNat 64 (getHighestPriorityIrqNum mask)
    let trapped := raiseException cpu pc (number ||| mcauseInterruptFlag) 0
    (trapped.1, trapped.2, true)
  else (cpu, pc, false)

end MachineEmulator.Interpret
