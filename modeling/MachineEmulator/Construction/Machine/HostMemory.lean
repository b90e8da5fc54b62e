/-
This file gives the address ranges of the machine with their memory in the host, and the functions that
read, write and fill the physical memory of the target from outside.
-/

import MachineEmulator.Construction.HashTree.PageTrees
import MachineEmulator.Construction.Machine.AddressRange
import MachineEmulator.Construction.Uarch.Direct
import MachineEmulator.Library.Overlay

namespace MachineEmulator.Machine

open HashTree (DirtyPageTree levelCount)

def arPageSize : Nat := 4096

/-- This is `AR_ADDRESSABLE_MASK`. -/
def arAddressableMask : Word := 0xffffffffffffff

def arShadowStateStart : Word := 0x0

def arShadowStateLength : Word := 0x8000

def arShadowRevertRootHashStart : Word := 0xfe0

def machineHashSize : Word := 32

def pmaMax : Nat := 32

/-- This is `pmas_flags`. -/
structure PmasFlags where
  isMemory : Bool
  isDevice : Bool
  isReadable : Bool
  isWriteable : Bool
  isExecutable : Bool
  isReadIdempotent : Bool
  isWriteIdempotent : Bool
  driverId : DriverId
deriving DecidableEq

/-- The flags of an empty range. -/
def PmasFlags.clear : PmasFlags := ⟨false, false, false, false, false, false, false, .empty⟩

/-- An `address_range` with the bytes of its memory in the host and its tree of dirty pages. The host
locks the files behind the ranges, so no two ranges share bytes. -/
structure HostRange extends AddressRange where
  isDevice : Bool
  isReadable : Bool
  isWriteable : Bool
  hostMemory : Nat → Byte
  dirty : DirtyPageTree
  ordered : start.toNat ≤ finish.toNat
  hosted : isMemory = true → hasHostMemory = true

namespace HostRange

/-- These are the constructors of an address range. Only ranges of memory have memory in the host. -/
def make (start length : Word) (flags : PmasFlags) (isHostReadOnly : Bool) (hostMemory : Nat → Byte) :
    Except Failure HostRange :=
  if bounds : ¬ start < 0xffffffffffffffff - length then .error .rangeOutOfBounds
  else if start &&& 0xfff ≠ 0 then .error .rangeNotPageAligned
  else if (start + length) &&& 0xfff ≠ 0 then .error .rangeLengthNotPageAligned
  else if length = 0 ∧ start ≠ 0 then .error .emptyRangeNotAtZero
  else if length = 0 ∧ flags ≠ .clear then .error .emptyRangeHasFlags
  else .ok {
    start
    finish := start + length
    isMemory := flags.isMemory
    driverId := flags.driverId
    hasHostMemory := flags.isMemory
    isHostReadOnly
    isDevice := flags.isDevice
    isReadable := flags.isReadable
    isWriteable := flags.isWriteable
    hostMemory
    dirty := fun _ => true
    ordered := by
      have small := Classical.not_not.mp bounds
      bv_omega
    hosted := id }

variable (range : HostRange)

/-- This is `mark_dirty_page_and_up`. -/
def markDirtyPageAndUp (offset : Nat) : HostRange :=
  let levels := levelCount range.getLength.toNat
  if offset / arPageSize < 2 ^ (levels - 1) then
    { range with dirty := range.dirty.markDirtyAndUp levels (2 ^ (levels - 1) + offset / arPageSize) }
  else range

/-- This is `memcpy` to the memory of the range. -/
def copyTo (offset : Nat) (bytes : List Byte) : HostRange :=
  { range with hostMemory := Overlay.put range.hostMemory offset bytes }

/-- This is `ar_host_memory_view`; a range without memory gives no view. -/
def hostMemoryView (offset length : Nat) : Except Failure (Option (List Byte)) := do
  check (range.containsRelative (BitVec.ofNat 64 offset) (BitVec.ofNat 64 length)) .invalidRangeAccess
  if range.isMemory then do
    check range.hasHostMemory .noHostMemory
    return some (Overlay.slice range.hostMemory offset length)
  else return none

def contains (address : Nat) : Bool :=
  range.start.toNat ≤ address ∧ address < range.finish.toNat

end HostRange

/-- This is `register_where`. -/
structure RegisterWhere where
  hashTree : Bool
  pmas : Bool

/-- This is `machine_address_ranges`. The subsets are lists of indices. -/
structure MachineAddressRanges where
  all : List HostRange
  pmas : List Nat
  hashTree : List Nat

namespace MachineAddressRanges

/-- This is `check`. -/
def check (ranges : MachineAddressRanges) (range : HostRange) (place : RegisterWhere) :
    Except Failure Unit := do
  MachineEmulator.check (place.pmas ∨ place.hashTree) .rangeNotRegistered
  MachineEmulator.check (range.start ≤ arAddressableMask ∧ range.finish ≤ arAddressableMask)
    .rangeNotAddressable
  MachineEmulator.check (∀ other ∈ ranges.all,
    ¬(range.start < other.finish ∧ other.start < range.finish)) .rangeOverlapsExisting

/-- This is `push_back`. -/
def pushBack (ranges : MachineAddressRanges) (range : HostRange) (place : RegisterWhere) :
    Except Failure MachineAddressRanges := do
  ranges.check range place
  MachineEmulator.check (place.pmas → ranges.pmas.length < pmaMax) .tooManyPmas
  return {
    all := ranges.all ++ [range]
    pmas := if place.pmas then ranges.pmas ++ [ranges.all.length] else ranges.pmas
    hashTree := if place.hashTree then ranges.hashTree ++ [ranges.all.length] else ranges.hashTree }

/-- The start of the range with an index. -/
def startOf (ranges : MachineAddressRanges) (index : Nat) : Nat :=
  match ranges.all[index]? with
  | some range => range.start.toNat
  | none => 0

def pushBackAll (ranges : MachineAddressRanges) :
    List (HostRange × RegisterWhere) → Except Failure MachineAddressRanges
  | [] => return ranges
  | (range, place) :: rest => do
      let next ← ranges.pushBack range place
      next.pushBackAll rest

/-- The constructor registers all ranges and sorts those that the hash tree sees. -/
def create (ranges : List (HostRange × RegisterWhere)) : Except Failure MachineAddressRanges := do
  let registered ← (MachineAddressRanges.mk [] [] []).pushBackAll ranges
  return { registered with
    hashTree := registered.hashTree.insertionSort fun first second =>
      registered.startOf first ≤ registered.startOf second }

variable (ranges : MachineAddressRanges)

/-- The ranges that the hash tree sees. -/
def hashTreeView : List HostRange := ranges.hashTree.filterMap (ranges.all[·]?)

/-- This is `find`, as the index of the range; none is the sentinel. -/
def findIndex (paddr length : Word) : Option Nat :=
  ranges.all.findIdx? fun range => range.containsAbsolute paddr length

/-- This is `read_pma`; none is the sentinel. -/
def readPma (index : Word) : Option Nat := ranges.pmas[index.toNat]?

/-- The ranges after a range has changed. -/
def change (index : Nat) (next : HostRange → HostRange) : MachineAddressRanges :=
  { ranges with all := ranges.all.modify index next }

end MachineAddressRanges

/-- The byte of the memory range that contains an address, and zero outside of all memory ranges. -/
def memoryAt (list : List HostRange) (address : Nat) : Byte :=
  match list.find? fun range => range.isMemory && range.contains address with
  | some range => range.hostMemory (address - range.start.toNat)
  | none => 0

/-- The physical memory of the target. -/
def MachineAddressRanges.contents (ranges : MachineAddressRanges) : Nat → Byte :=
  memoryAt ranges.all

/-- The machine, with the pages that the hot slots of the write TLB hold. -/
structure HostMachine where
  ranges : MachineAddressRanges
  hotTlbWrite : Nat → Word

section Chunks

variable {State : Type} (alignment : Nat) (f : Nat → Nat → State → State)

/-- The loop over the chunks that cover exactly the alignment, with the number of its rounds. -/
def wholeChunks : Nat → Nat → State → State
  | 0, _, state => state
  | rounds + 1, start, state => wholeChunks rounds (start + alignment) (f start alignment state)

/-- This is `foreach_aligned_chunk`. -/
def foreachAlignedChunk (start length : Nat) (state : State) : State :=
  let rem := start % alignment
  let firstLength := if rem ≠ 0 then min length (alignment - rem) else 0
  let state := if rem ≠ 0 then f start firstLength state else state
  let rest := length - firstLength
  let state := wholeChunks alignment f (rest / alignment) (start + firstLength) state
  if rest % alignment ≠ 0 then
    f (start + firstLength + rest / alignment * alignment) (rest % alignment) state
  else state

end Chunks

namespace HostMachine

section Read

/-- This is `drop_while` on the ranges that end before an address, with the start of the gap. -/
def dropEnded (paddr : Nat) : Nat → List HostRange → Nat × List HostRange
  | gapStart, [] => (gapStart, [])
  | gapStart, range :: rest =>
      if range.finish.toNat ≤ paddr then dropEnded paddr range.finish.toNat rest
      else (gapStart, range :: rest)

/-- The part of a round that reads from the range itself, with the rounds that follow. -/
def readRange (range : HostRange) (next : Nat → Nat → Except Failure (List Byte))
    (paddr length : Nat) : Except Failure (List Byte) :=
  if range.start.toNat ≤ paddr ∧ paddr < range.finish.toNat then do
    let fromRange := min (range.finish.toNat - paddr) length
    let view ← range.hostMemoryView (paddr - range.start.toNat) fromRange
    let bytes := view.getD (List.replicate fromRange 0)
    if length - fromRange = 0 then return bytes
    else do
      let others ← next (paddr + fromRange) (length - fromRange)
      return bytes ++ others
  else next paddr length

/-- The loop of `read_memory` with the bytes that it writes. -/
def readLoop : List HostRange → Nat → Nat → Nat → Except Failure (List Byte)
  | [], _, _, length => return List.replicate length 0
  | range :: rest, gapStart, paddr, length => do
      let fromGap := if gapStart ≤ paddr ∧ paddr < range.start.toNat then
        min (range.start.toNat - paddr) length else 0
      let others ← readRange range (readLoop rest range.finish.toNat) (paddr + fromGap)
        (length - fromGap)
      return List.replicate fromGap 0 ++ others

/-- This is `read_memory`, with the bytes that it writes at the pointer. -/
def readMemory (machine : HostMachine) (paddr : Word) (dataIsNull : Bool) (length : Word) :
    Except Failure (List Byte) :=
  if length = 0 then return []
  else if dataIsNull then .error .invalidDataBuffer
  else
    let (gapStart, view) := dropEnded paddr.toNat 0 machine.ranges.hashTreeView
    readLoop view gapStart paddr.toNat length.toNat

end Read

section WriteTlb

def tlbSetSize : Nat := 256

def tlbInvalidPage : Word := 0xffffffffffffffff

def tlbUnverifiedPage : Word := 0xfffffffffffffffe

def tlbWriteSet : Word := 2

variable (machine : HostMachine)

/-- This is `m_s`: the memory of the range of the shadow state. -/
def shadowIndex : Option Nat := machine.ranges.findIndex arShadowStateStart arShadowStateLength

/-- The word at an offset in the shadow state. -/
def shadowWord (offset : Nat) : Word :=
  match machine.shadowIndex.bind (machine.ranges.all[·]?) with
  | some range => wordOfBytes (Overlay.slice range.hostMemory offset 8)
  | none => 0

/-- The word at an offset in a shadow slot of the write TLB. -/
def shadowTlbWord (slotIndex offset : Nat) : Word :=
  machine.shadowWord
    ((Uarch.shadowTlbGetAbsAddr tlbWriteSet (BitVec.ofNat 64 slotIndex)).toNat + offset)

/-- This is `shadow_tlb_verify_slot`, for the range of the entry. -/
def shadowTlbVerifySlot (vaddrPage vpOffset zeroPadding : Word) (range : Option HostRange) : Word :=
  let paddrPage := vaddrPage + vpOffset
  if vaddrPage = tlbInvalidPage ∨ zeroPadding ≠ 0 ∨ vaddrPage &&& 0xfff ≠ 0 ∨
      paddrPage &&& 0xfff ≠ 0 then tlbInvalidPage
  else
    match range with
    | none => tlbInvalidPage
    | some range =>
        let pmasEnd := range.start + (range.getLength - 0x1000)
        if ¬range.isMemory ∨ paddrPage < range.start ∨ pmasEnd < paddrPage then tlbInvalidPage
        else vaddrPage

/-- This is `init_hot_tlb_slot` for the write TLB. -/
def initHotTlbSlot (slotIndex : Nat) : Word × HostMachine :=
  if machine.hotTlbWrite slotIndex ≠ tlbUnverifiedPage then (machine.hotTlbWrite slotIndex, machine)
  else
    let range := (machine.ranges.readPma (machine.shadowTlbWord slotIndex 16)).bind
      (machine.ranges.all[·]?)
    let vaddrPage := shadowTlbVerifySlot (machine.shadowTlbWord slotIndex 0)
      (machine.shadowTlbWord slotIndex 8) (machine.shadowTlbWord slotIndex 24) range
    (vaddrPage, { machine with hotTlbWrite := Function.update machine.hotTlbWrite slotIndex vaddrPage })

/-- This is `mark_write_tlb_dirty_page`. -/
def markWriteTlbDirtyPage (slotIndex : Nat) : Except Failure Unit × HostMachine :=
  let (vaddrPage, machine) := machine.initHotTlbSlot slotIndex
  if vaddrPage = tlbInvalidPage then (.ok (), machine)
  else
    let paddrPage := vaddrPage + machine.shadowTlbWord slotIndex 8
    match machine.ranges.readPma (machine.shadowTlbWord slotIndex 16) with
    | none => (.error .tlbCorrupt, machine)
    | some index =>
        match machine.ranges.all[index]? with
        | none => (.error .tlbCorrupt, machine)
        | some range =>
            if ¬range.isMemory ∨ ¬range.containsAbsolute paddrPage 0x1000 then
              (.error .tlbCorrupt, machine)
            else (.ok (), { machine with
              ranges := machine.ranges.change index fun range =>
                range.markDirtyPageAndUp (paddrPage - range.start).toNat })

/-- The loop of `mark_write_tlb_dirty_pages`. -/
def markWriteTlbDirtySlots (machine : HostMachine) : List Nat → Except Failure Unit × HostMachine
  | [] => (.ok (), machine)
  | slotIndex :: rest =>
      match machine.markWriteTlbDirtyPage slotIndex with
      | (.error failure, next) => (.error failure, next)
      | (.ok (), next) => markWriteTlbDirtySlots next rest

/-- This is `mark_write_tlb_dirty_pages`. -/
def markWriteTlbDirtyPages : Except Failure Unit × HostMachine :=
  machine.markWriteTlbDirtySlots (List.range tlbSetSize)

/-- This is `init_hot_tlb_contents`. -/
def initHotTlbContents : HostMachine :=
  { machine with hotTlbWrite := fun slotIndex =>
    if slotIndex < tlbSetSize then tlbUnverifiedPage else machine.hotTlbWrite slotIndex }

end WriteTlb

section Write

variable (machine : HostMachine)

/-- A chunk of `write_memory`. -/
def writeChunk (paddr : Nat) (data : Nat → Byte) (chunkStart chunkLength : Nat) (range : HostRange) :
    HostRange :=
  let src := Overlay.slice data (chunkStart - paddr) chunkLength
  let offset := chunkStart - range.start.toNat
  if Overlay.slice range.hostMemory offset chunkLength ≠ src then
    (range.copyTo offset src).markDirtyPageAndUp offset
  else range

/-- The branch of `write_memory` for the whole shadow state. -/
def writeShadowState (data : Nat → Byte) : Except Failure Unit × HostMachine :=
  match machine.markWriteTlbDirtyPages with
  | (.error failure, next) => (.error failure, next)
  | (.ok (), next) =>
      let written := match next.shadowIndex with
        | some index => next.ranges.change index fun range =>
            range.copyTo 0 (Overlay.slice data 0 arShadowStateLength.toNat)
        | none => next.ranges
      (.ok (), { next with ranges := written }.initHotTlbContents)

/-- This is `write_memory`. -/
def writeMemory (paddr : Word) (data : Option (Nat → Byte)) (length : Word) :
    Except Failure Unit × HostMachine :=
  if length = 0 then (.ok (), machine)
  else
    match data with
    | none => (.error .invalidDataBuffer, machine)
    | some data =>
        match machine.ranges.findIndex paddr length with
        | none => (.error .notSingleMemoryRange, machine)
        | some index =>
            match machine.ranges.all[index]? with
            | none => (.error .notSingleMemoryRange, machine)
            | some range =>
                if range.isDevice then (.error .deviceMemoryRange, machine)
                else if ¬range.isMemory then (.error .notSingleMemoryRange, machine)
                else if range.isHostReadOnly then (.error .hostReadOnly, machine)
                else if paddr = arShadowStateStart ∧ length = arShadowStateLength then
                  machine.writeShadowState data
                else if ¬(paddr = arShadowRevertRootHashStart ∧ length = machineHashSize) ∧
                    pmasIsProtected range.driverId then (.error .protectedRange, machine)
                else (.ok (), { machine with
                  ranges := machine.ranges.change index fun range =>
                    foreachAlignedChunk arPageSize (writeChunk paddr.toNat data) paddr.toNat
                      length.toNat range })

/-- This is `is_pristine`. -/
def isPristine (bytes : List Byte) : Bool := bytes.all (· = 0)

/-- A chunk of `fill_memory`. -/
def fillChunk (val : Byte) (chunkStart chunkLength : Nat) (range : HostRange) : HostRange :=
  let offset := chunkStart - range.start.toNat
  if val ≠ 0 ∨ ¬isPristine (Overlay.slice range.hostMemory offset chunkLength) then
    (range.copyTo offset (List.replicate chunkLength val)).markDirtyPageAndUp offset
  else range

/-- This is `fill_memory`. -/
def fillMemory (paddr : Word) (val : Byte) (length : Word) : Except Failure Unit × HostMachine :=
  if length = 0 then (.ok (), machine)
  else
    match machine.ranges.findIndex paddr length with
    | none => (.error .notSingleMemoryRange, machine)
    | some index =>
        match machine.ranges.all[index]? with
        | none => (.error .notSingleMemoryRange, machine)
        | some range =>
            if range.isDevice then (.error .deviceMemoryRange, machine)
            else if ¬range.isMemory then (.error .notSingleMemoryRange, machine)
            else if range.isHostReadOnly then (.error .hostReadOnly, machine)
            else if pmasIsProtected range.driverId then (.error .protectedRange, machine)
            else (.ok (), { machine with
              ranges := machine.ranges.change index fun range =>
                foreachAlignedChunk arPageSize (fillChunk val) paddr.toNat length.toNat range })

end Write

end HostMachine

end MachineEmulator.Machine
