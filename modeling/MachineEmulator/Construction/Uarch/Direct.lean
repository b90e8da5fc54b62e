/-
This file runs the microarchitecture code directly on a memory.
-/

import MachineEmulator.Construction.Uarch.Step
import MachineEmulator.Construction.Uarch.ResetState

namespace MachineEmulator.Uarch

open Effects

def shadowTlbStart : Word := 0x1000

def shadowTlbSlotLog2Size : Nat := 5

/-- This is `shadow_tlb_get_abs_addr`: a set has 256 slots of 32 bytes. -/
def shadowTlbGetAbsAddr (setIndex slotIndex : Word) : Word :=
  shadowTlbStart + setIndex * 8192 + slotIndex * 32

/-- The slot that `shadow_tlb_fill_slot` fills, as it lies in memory. -/
def shadowTlbSlot (vaddrPage vpOffset pmaIndex : Word) : List Byte :=
  wordToBytes vaddrPage ++ wordToBytes vpOffset ++ wordToBytes pmaIndex ++ wordToBytes 0

/-- The registers are words of the memory, and the physical state never reverts. -/
def directAccess (pristineRam : List Byte) : Handler Op Op.Answer Failure Memory
  | .readReg what, memory => .ok (memory.loadWord what.address, memory)
  | .writeReg what value, memory => .ok ((), memory.storeWord what.address value)
  | .readWord paddr, memory => do
      check (paddr &&& 7 = 0) .misalignedRead
      return (memory.loadWord paddr, memory)
  | .writeWord paddr value, memory => do
      check (paddr &&& 7 = 0) .misalignedWrite
      return ((), memory.storeWord paddr value)
  | .putchar _, memory => .ok ((), memory)
  | .writeTlb setIndex slotIndex vaddrPage vpOffset pmaIndex, memory =>
      .ok ((), memory.store (shadowTlbGetAbsAddr setIndex slotIndex)
        (shadowTlbSlot vaddrPage vpOffset pmaIndex))
  | .resetUarch, memory => .ok ((), resetUarch pristineRam memory)
  | .revertState, memory => .ok ((), memory)

def stepMemory (pristineRam : List Byte) (memory : Memory) :
    Except Failure (UArchStepStatus × Memory) :=
  uarchStep.run (directAccess pristineRam) memory

def resetMemory (pristineRam : List Byte) (memory : Memory) : Except Failure (Unit × Memory) :=
  uarchResetState.run (directAccess pristineRam) memory

end MachineEmulator.Uarch
