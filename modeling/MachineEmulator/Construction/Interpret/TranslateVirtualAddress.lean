/-
This file gives the walk of the page tables that translates a virtual address.
-/

import MachineEmulator.Construction.Interpret.Registers

namespace MachineEmulator.Interpret

def satpModeBare : Word := 0
def satpModeSv39 : Word := 8
def satpModeSv48 : Word := 9
def satpModeSv57 : Word := 10

def pteVMask : Word := 0x1
def pteUMask : Word := 0x10
def pteAMask : Word := 0x40
def pteDMask : Word := 0x80
def ptePpnMask : Word := 0x3ffffffffffc00
def pte6054Mask : Word := 0x1fc0000000000000
def ptePbmtMask : Word := 0x6000000000000000
def pteNMask : Word := 0x8000000000000000

def pteXwrWMask : Word := 0x2
def pteXwrXMask : Word := 0x4

/-- What an access wants to do. -/
inductive Access where
  | read
  | write
  | execute
deriving DecidableEq

/-- These are `PTE_XWR_R_SHIFT`, `PTE_XWR_W_SHIFT` and `PTE_XWR_X_SHIFT`. -/
def Access.xwrShift : Access → Nat
  | .read => 0
  | .write => 1
  | .execute => 2

/-- The part of an address range that a walk asks for. -/
structure Pma where
  start : Word
  length : Word
  isMemory : Bool
  isReadable : Bool
  isWriteable : Bool
deriving DecidableEq

/-- This is `contains_absolute` for a word of eight bytes. -/
def Pma.containsWord (range : Pma) (paddr : Word) : Bool :=
  range.start ≤ paddr && 8 ≤ range.length && paddr - range.start ≤ range.length - 8

/-- This is `find_pma`, up to the first empty entry; none is the sentinel. -/
def findPma : List Pma → Word → Option Pma
  | [], _ => none
  | range :: rest, paddr =>
      if range.length = 0 then none
      else if range.containsWord paddr then some range
      else findPma rest paddr

/-- What a translation depends on. -/
structure Mmu where
  iprv : Word
  mstatus : Word
  satp : Word
  pmas : List Pma

namespace Mmu

variable (mmu : Mmu)

def canRead (paddr : Word) : Bool :=
  match findPma mmu.pmas paddr with
  | some range => range.isMemory && range.isReadable
  | none => false

def canWrite (paddr : Word) : Bool :=
  match findPma mmu.pmas paddr with
  | some range => range.isMemory && range.isWriteable
  | none => false

/-- This is `read_ram_uint64`. -/
def readRamUint64 (memory : Memory) (paddr : Word) : Option Word :=
  if mmu.canRead paddr then some (memory.loadWord paddr) else none

/-- This is `write_ram_uint64`. -/
def writeRamUint64 (paddr value : Word) (memory : Memory) : Bool × Memory :=
  if mmu.canWrite paddr then (true, memory.storeWord paddr value) else (false, memory)

/-- The privilege of an access. -/
def prv (access : Access) : Word :=
  if access ≠ .execute ∧ mmu.mstatus &&& mstatusMprvMask ≠ 0 then
    (mmu.mstatus &&& mstatusMppMask) >>> 11
  else mmu.iprv

/-- The number of levels of a mode; Sv57 is disabled. -/
def levels (mode : Word) : Option Nat :=
  if mode = satpModeSv39 ∨ mode = satpModeSv48 then some ((mode - satpModeSv39).toNat + 3)
  else none

/-- The checks of a leaf against the access. -/
def leafAllows (access : Access) (pte xwr : Word) : Bool :=
  if xwr = pteXwrWMask ∨ xwr = (pteXwrWMask ||| pteXwrXMask) then false
  else if mmu.prv access = prvS ∧ pte &&& pteUMask ≠ 0 ∧
      (access = .execute ∨ mmu.mstatus &&& mstatusSumMask = 0) then false
  else if mmu.prv access ≠ prvS ∧ pte &&& pteUMask = 0 then false
  else
    let xwr := if mmu.mstatus &&& mstatusMxrMask ≠ 0 then xwr ||| (xwr >>> 2) else xwr
    (xwr >>> access.xwrShift) &&& 1 ≠ 0

/-- The entry with its access bits set. -/
def updatePte (access : Access) (pte : Word) : Word :=
  if access = .write then pte ||| pteAMask ||| pteDMask else pte ||| pteAMask

/-- What a leaf comes to. -/
def finishLeaf (update : Bool) (access : Access) (vaddr vaddrMask pteAddr pte ppn xwr : Word)
    (memory : Memory) : Option Word × Memory :=
  if ¬mmu.leafAllows access pte xwr then (none, memory)
  else if ppn &&& vaddrMask ≠ 0 then (none, memory)
  else
    let updated := if update ∧ pte ≠ updatePte access pte then
      (mmu.writeRamUint64 pteAddr (updatePte access pte) memory).2 else memory
    (some ((vaddr &&& vaddrMask) ||| (ppn &&& ~~~ vaddrMask)), updated)

/-- The loop over the levels that are left, from the table at an address. -/
def walk (update : Bool) (access : Access) (vaddr : Word) (memory : Memory) :
    Nat → Word → Option Word × Memory
  | 0, _ => (none, memory)
  | level + 1, table =>
      let vaddrShift := 12 + 9 * level
      let pteAddr := table + (((vaddr >>> vaddrShift) &&& 0x1ff) <<< 3)
      match mmu.readRamUint64 memory pteAddr with
      | none => (none, memory)
      | some pte =>
          if pte &&& pteVMask = 0 then (none, memory)
          else if pte &&& (pte6054Mask ||| ptePbmtMask ||| pteNMask) ≠ 0 then (none, memory)
          else
            let ppn := (pte &&& ptePpnMask) <<< 2
            let xwr := (pte >>> 1) &&& 7
            if xwr ≠ 0 then
              mmu.finishLeaf update access vaddr (((1 : Word) <<< vaddrShift) - 1) pteAddr pte ppn xwr
                memory
            else walk update access vaddr memory level ppn

/-- This is `translate_virtual_address`, with or without an update of the entry. -/
def translateVirtualAddress (update : Bool) (vaddr : Word) (access : Access) (memory : Memory) :
    Option Word × Memory :=
  if prvS < mmu.prv access then (some vaddr, memory)
  else if mmu.satp >>> 60 = satpModeBare then (some vaddr, memory)
  else
    match levels (mmu.satp >>> 60) with
    | none => (none, memory)
    | some levels =>
        let vaddrBits := 64 - (12 + 9 * levels)
        if (vaddr <<< vaddrBits).sshiftRight vaddrBits ≠ vaddr then (none, memory)
        else mmu.walk update access vaddr memory levels ((mmu.satp &&& satpPpnMask) <<< 12)

end Mmu

end MachineEmulator.Interpret
