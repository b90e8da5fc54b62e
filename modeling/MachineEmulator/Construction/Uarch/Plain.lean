/-
This file runs the microarchitecture code on the machine itself.
-/

import MachineEmulator.Construction.Machine.AddressRange
import MachineEmulator.Construction.Uarch.Direct

namespace MachineEmulator.Uarch

open Effects

def tlbSetSize : Word := 256

def tlbNumSets : Word := 3

def tlbWrite : Word := 2

/-- A machine as the microarchitecture sees it, apart from its memory. The flush is
`mark_write_tlb_dirty_page`, which moves no byte of the memory and may throw. -/
structure PlainMachine where
  ranges : List Machine.AddressRange
  flush : Word → Memory → Except Failure Unit
  pristineRam : List Byte

variable (machine : PlainMachine)

/-- This is `write_unverified_tlb`. A set index past the last set indexes out of an array. -/
def writeUnverifiedTlb (setIndex slotIndex vaddrPage vpOffset pmaIndex : Word) (memory : Memory) :
    Except Failure Memory := do
  check (slotIndex < tlbSetSize) .tlbSlotOutOfBounds
  check (setIndex < tlbNumSets) .undefinedBehavior
  if setIndex = tlbWrite then machine.flush slotIndex memory else .ok ()
  return memory.store (shadowTlbGetAbsAddr setIndex slotIndex)
    (shadowTlbSlot vaddrPage vpOffset pmaIndex)

/-- The registers that `reset_uarch` sets to zero. -/
def resetRegisters (memory : Memory) : Memory :=
  ((memory.storeWord ShadowUarchStateWhat.haltFlag.address 0).storeWord
    ShadowUarchStateWhat.pc.address uarchRamStart).storeWord ShadowUarchStateWhat.cycle.address 0

/-- This is `machine::reset_uarch`: the registers, then the image of the RAM and zeros after it. -/
def resetUarchMachine (memory : Memory) : Memory :=
  let registers := (List.range' 1 31).foldl
    (fun memory index => memory.storeWord (ShadowUarchStateWhat.x (BitVec.ofNat 8 index)).address 0)
    (resetRegisters memory)
  registers.store uarchRamStart
    (machine.pristineRam ++ List.replicate (uarchRamLength - machine.pristineRam.length) 0)

/-- This is `uarch_state_access`. -/
def plainAccess : Handler Op Op.Answer Failure Memory
  | .readReg what, memory => .ok (memory.loadWord what.address, memory)
  | .writeReg what value, memory => do
      check (what ≠ .x 0) .assertionFailed
      return ((), memory.storeWord what.address value)
  | .readWord paddr, memory => do
      let value ← Machine.readWord paddr memory
      return (value, memory)
  | .writeWord paddr value, memory => do
      let written ← Machine.writeWord machine.ranges paddr value memory
      return ((), written)
  | .putchar _, memory => .ok ((), memory)
  | .writeTlb setIndex slotIndex vaddrPage vpOffset pmaIndex, memory => do
      let written ← writeUnverifiedTlb machine setIndex slotIndex vaddrPage vpOffset pmaIndex memory
      return ((), written)
  | .resetUarch, memory => .ok ((), resetUarchMachine machine memory)
  | .revertState, memory => .ok ((), memory)

end MachineEmulator.Uarch
