/-
This file gives the functions that read and write the virtual memory from outside, page by page.
-/

import MachineEmulator.Construction.Interpret.TranslateVirtualAddress
import MachineEmulator.Construction.Machine.HostMemory

namespace MachineEmulator.Machine

open Interpret

def shadowIprvOffset : Nat := 0x218

def shadowMstatusOffset : Nat := 0x220

def shadowSatpOffset : Nat := 0x2c8

def pageMask : Word := 0xfff

/-- The part of a range that a page walk asks for. -/
def HostRange.toPma (range : HostRange) : Pma where
  start := range.start
  length := range.getLength
  isMemory := range.isMemory
  isReadable := range.isReadable
  isWriteable := range.isWriteable

namespace HostMachine

variable (machine : HostMachine)

/-- What `state_access` gives a translation. -/
def mmu : Mmu where
  iprv := machine.shadowWord shadowIprvOffset
  mstatus := warlMstatus (machine.shadowWord shadowMstatusOffset)
  satp := warlSatp (machine.shadowWord shadowSatpOffset)
  pmas := (machine.ranges.pmas.filterMap (machine.ranges.all[·]?)).map HostRange.toPma

/-- This is `translate_virtual_address` in the access mode of reads, without an update of the entry. -/
def translate (vaddr : Word) : Option Word :=
  (machine.mmu.translateVirtualAddress false vaddr .read fun address =>
    machine.ranges.contents address.toNat).1

/-- A call that moves a chunk from or to a physical address, with the offset of the chunk in the data
and its length. It gives the bytes that it moves. -/
abbrev MoveChunk := Word → Word → Word → HostMachine → Except Failure (List Byte) × HostMachine

/-- The loop over the pages, with the bytes that it moves, cut off after a number of rounds. -/
def movePages (move : MoveChunk) (vaddrStart vaddrLimit vaddrPageLimit : Word) :
    Nat → Word → HostMachine → Except Failure (List Byte) × HostMachine
  | 0, _, machine => (.error .nonTermination, machine)
  | rounds + 1, vaddrPage, machine =>
      if vaddrPage < vaddrPageLimit then
        match machine.translate vaddrPage with
        | none => (.error .pageFault, machine)
        | some paddrPage =>
            let chunklen := if vaddrLimit - vaddrPage < 4096 then vaddrLimit - vaddrPage else 4096
            let off := if vaddrPage < vaddrStart then vaddrStart - vaddrPage else 0
            match move (paddrPage + off) (vaddrPage + off - vaddrStart) (chunklen - off) machine with
            | (.error failure, next) => (.error failure, next)
            | (.ok bytes, next) =>
                match movePages move vaddrStart vaddrLimit vaddrPageLimit rounds (vaddrPage + 4096)
                    next with
                | (.error failure, last) => (.error failure, last)
                | (.ok others, last) => (.ok (bytes ++ others), last)
      else (.ok [], machine)

/-- The bounds of the loop over the pages, and the loop. -/
def moveVirtualMemory (move : MoveChunk) (vaddrStart : Word) (dataIsNull : Bool) (length : Word) :
    Except Failure (List Byte) × HostMachine :=
  if length = 0 then (.ok [], machine)
  else if dataIsNull then (.error .invalidDataBuffer, machine)
  else
    let vaddrLimit := vaddrStart + length
    let vaddrPageStart := vaddrStart &&& ~~~pageMask
    let vaddrPageLimit := (vaddrLimit + 4096 - 1) &&& ~~~pageMask
    movePages move vaddrStart vaddrLimit vaddrPageLimit
      ((vaddrPageLimit.toNat - vaddrPageStart.toNat) / 4096 + 1) vaddrPageStart machine

/-- A chunk of `read_virtual_memory`. -/
def readChunk : MoveChunk := fun paddr _ chunklen machine =>
  (machine.readMemory paddr false chunklen, machine)

/-- This is `read_virtual_memory`, with the bytes that it writes at the pointer. -/
def readVirtualMemory (vaddrStart : Word) (dataIsNull : Bool) (length : Word) :
    Except Failure (List Byte) :=
  (machine.moveVirtualMemory readChunk vaddrStart dataIsNull length).1

/-- A chunk of `write_virtual_memory`. -/
def writeVirtualChunk (data : Nat → Byte) : MoveChunk := fun paddr chunkoff chunklen machine =>
  let src := fun index => data (chunkoff.toNat + index)
  match machine.writeMemory paddr (some src) chunklen with
  | (.error failure, next) => (.error failure, next)
  | (.ok (), next) => (.ok (Overlay.slice src 0 chunklen.toNat), next)

/-- This is `write_virtual_memory`, with a record of the bytes that it took from the pointer. -/
def writeVirtualMemory (vaddrStart : Word) (data : Option (Nat → Byte)) (length : Word) :
    Except Failure (List Byte) × HostMachine :=
  machine.moveVirtualMemory (writeVirtualChunk (data.getD fun _ => 0)) vaddrStart data.isNone length

end HostMachine

end MachineEmulator.Machine
