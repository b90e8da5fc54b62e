/-
This file gives the address ranges that the machine registers and the words that a host may write.
-/

import MachineEmulator.Construction.Failure
import MachineEmulator.Construction.Memory

namespace MachineEmulator.Machine

/-- This is `PMA_ISTART_DID`. -/
inductive DriverId where
  | empty
  | memory
  | shadowState
  | flashDrive
  | clint
  | plic
  | htif
  | virtio
  | cmioRxBuffer
  | cmioTxBuffer
  | shadowUarchState
  | nvram
deriving DecidableEq, Repr

/-- Only these drivers leave their ranges open to writes from outside. -/
def pmasIsProtected : DriverId → Bool
  | .memory => false
  | .flashDrive => false
  | .nvram => false
  | .cmioRxBuffer => false
  | .cmioTxBuffer => false
  | _ => true

/-- The part of `address_range` that decides about writes. -/
structure AddressRange where
  start : Word
  finish : Word
  isMemory : Bool
  driverId : DriverId
  hasHostMemory : Bool
  isHostReadOnly : Bool
deriving DecidableEq, Repr

namespace AddressRange

def getLength (range : AddressRange) : Word := range.finish - range.start

def containsRelative (range : AddressRange) (offset length : Word) : Bool :=
  length ≤ range.getLength && offset ≤ range.getLength - length

def containsAbsolute (range : AddressRange) (start length : Word) : Bool :=
  range.start ≤ start && range.containsRelative (start - range.start) length

end AddressRange

/-- The first registered range that contains the block; the source returns a sentinel for none. -/
def find (ranges : List AddressRange) (paddr length : Word) : Option AddressRange :=
  ranges.find? fun range => range.containsAbsolute paddr length

def arShadowRegistersLength : Word := 0x1000

/-- This is `sizeof(shadow_registers_state)`. -/
def shadowRegistersSize : Word := 106 * 8

/-- The registers `x0`, `mvendorid`, `marchid` and `mimpid` refuse every write. -/
def readOnlyRegisters : List Word := [0x0, 0x288, 0x290, 0x298]

def arShadowUarchStateStart : Word := 0x400000

def arShadowUarchStateLength : Word := 0x1000

/-- This is `sizeof(shadow_uarch_state)`. -/
def shadowUarchStateSize : Word := 35 * 8

/-- The microarchitecture's `x0` refuses every write. -/
def uarchX0 : Word := 0x400018

/-- The checks of `write_word` before it writes. A write to a shadow goes to `write_reg`, which
stores the value as it is or refuses it. -/
def checkWriteWord (ranges : List AddressRange) (paddr : Word) : Except Failure Unit := do
  check (paddr &&& 7 = 0) .misalignedWrite
  if paddr < arShadowRegistersLength then do
    check (paddr < shadowRegistersSize) .unhandledShadowWrite
    check (paddr ∉ readOnlyRegisters) .registerReadOnly
  else if arShadowUarchStateStart ≤ paddr ∧
      paddr - arShadowUarchStateStart < arShadowUarchStateLength then do
    check (paddr - arShadowUarchStateStart < shadowUarchStateSize) .unhandledShadowWrite
    check (paddr ≠ uarchX0) .registerReadOnly
  else
    match find ranges paddr 8 with
    | none => .error .notMemory
    | some range => do
        check (range.isMemory ∧ range.hasHostMemory) .notMemory
        check (range.isHostReadOnly = false) .hostReadOnly
        check (pmasIsProtected range.driverId = false) .protectedRange

/-- This is `machine::read_word`; the memory is zero outside the ranges. -/
def readWord (paddr : Word) (memory : Memory) : Except Failure Word := do
  check (paddr &&& 7 = 0) .misalignedRead
  return memory.loadWord paddr

/-- This is `machine::write_word`. -/
def writeWord (ranges : List AddressRange) (paddr value : Word) (memory : Memory) :
    Except Failure Memory := do
  checkWriteWord ranges paddr
  return memory.storeWord paddr value

end MachineEmulator.Machine
