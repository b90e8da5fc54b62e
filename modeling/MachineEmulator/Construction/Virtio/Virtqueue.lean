/-
This file gives the split virtqueue: the rings and the descriptor chains in the memory of the guest.
-/

import MachineEmulator.Construction.Failure
import MachineEmulator.Construction.Memory

namespace MachineEmulator.Virtio

/-- The memory of the guest as a device reaches it; an access that the machine refuses gives none. -/
structure GuestMemory (Ram : Type) where
  readMemory : Ram → Word → Nat → Option (List Byte)
  writeMemory : Ram → Word → List Byte → Option Ram

/-- This is `virtq`. -/
structure Virtq where
  descAddr : Word
  availAddr : Word
  usedAddr : Word
  num : BitVec 32
  lastUsedIdx : BitVec 16
  ready : BitVec 16
deriving DecidableEq

/-- This is `virtq_desc`. -/
structure VirtqDesc where
  paddr : Word
  len : BitVec 32
  flags : BitVec 16
  next : BitVec 16
deriving DecidableEq

/-- This is `VIRTQ_DESC_F_NEXT`. -/
def VirtqDesc.hasNext (desc : VirtqDesc) : Bool := desc.flags &&& 1 ≠ 0

/-- This is `VIRTQ_DESC_F_WRITE`. -/
def VirtqDesc.isWrite (desc : VirtqDesc) : Bool := desc.flags &&& 2 ≠ 0

def VirtqDesc.ofBytes (data : List Byte) : VirtqDesc where
  paddr := wordOfBytes (data.take 8)
  len := (wordOfBytes ((data.drop 8).take 4)).setWidth 32
  flags := (wordOfBytes ((data.drop 12).take 2)).setWidth 16
  next := (wordOfBytes ((data.drop 14).take 2)).setWidth 16

/-- The low bytes of a value in the order of the host. -/
def lowBytes (count : Nat) (value : Word) : List Byte := (wordToBytes value).take count

namespace Virtq

variable {Ram : Type} (guest : GuestMemory Ram) (vq : Virtq)

/-- The place of a ring index in a table; `num` is a power of two. -/
def slot (index : BitVec 16) : Word := (index.setWidth 32 &&& (vq.num - 1)).setWidth 64

/-- The index of the next entry that the driver makes available. -/
def getAvailIdx (ram : Ram) : Option (BitVec 16) := do
  let data ← guest.readMemory ram vq.availAddr 4
  return (wordOfBytes ((data.drop 2).take 2)).setWidth 16

def getRingAvailElemDescIdx (ram : Ram) (ringIdx : BitVec 16) : Option (BitVec 16) := do
  let data ← guest.readMemory ram (vq.availAddr + 4 + vq.slot ringIdx * 2) 2
  return (wordOfBytes (data.take 2)).setWidth 16

def getDesc (ram : Ram) (descIdx : BitVec 16) : Option VirtqDesc := do
  let data ← guest.readMemory ram (vq.descAddr + vq.slot descIdx * 16) 16
  return .ofBytes data

def setRingUsedElem (ram : Ram) (ringIdx : BitVec 16) (id len : BitVec 32) : Option Ram :=
  guest.writeMemory ram (vq.usedAddr + 4 + vq.slot ringIdx * 8)
    (lowBytes 4 (id.setWidth 64) ++ lowBytes 4 (len.setWidth 64))

def setUsedHeader (ram : Ram) (flags idx : BitVec 16) : Option Ram :=
  guest.writeMemory ram vq.usedAddr
    (lowBytes 2 (flags.setWidth 64) ++ lowBytes 2 (idx.setWidth 64))

/-- This is the loop of `get_desc_rw_avail_len`, cut off after a number of descriptors. -/
def rwAvailLen (ram : Ram) : Nat → BitVec 16 → BitVec 32 → BitVec 32 → Bool →
    Except Failure (Bool × BitVec 32 × BitVec 32)
  | 0, _, _, _, _ => .error .nonTermination
  | fuel + 1, descIdx, readLen, writeLen, writePart =>
      match vq.getDesc guest ram descIdx with
      | none => .ok (false, readLen, writeLen)
      | some desc =>
          if desc.isWrite then
            if desc.hasNext then
              rwAvailLen ram fuel desc.next readLen (writeLen + desc.len) true
            else .ok (true, readLen, writeLen + desc.len)
          else if writePart then .ok (false, readLen, writeLen)
          else if desc.hasNext then
            rwAvailLen ram fuel desc.next (readLen + desc.len) writeLen writePart
          else .ok (true, readLen + desc.len, writeLen)

def getDescRwAvailLen (fuel : Nat) (ram : Ram) (descIdx : BitVec 16) :
    Except Failure (Bool × BitVec 32 × BitVec 32) :=
  vq.rwAvailLen guest ram fuel descIdx 0 0 false

/-- The part of a buffer that an access from one offset to another meets. -/
structure Chunk where
  paddrOff : BitVec 32
  dataOff : BitVec 32
  length : BitVec 32
  reachesEnd : Bool

/-- The end of a chunk is at most the end of its buffer, which may wrap around. -/
def chunk (bufStartOff startOff endOff : BitVec 32) (desc : VirtqDesc) : Chunk :=
  let chunkStartOff := if bufStartOff < startOff then startOff else bufStartOff
  let chunkEndOff := if endOff < bufStartOff + desc.len then endOff else bufStartOff + desc.len
  ⟨chunkStartOff - bufStartOff, chunkStartOff - startOff,
    if chunkStartOff < chunkEndOff then chunkEndOff - chunkStartOff else 0, endOff ≤ chunkEndOff⟩

/-- A read of a chunk replaces its part of the buffer. -/
def readChunk (ram : Ram) (desc : VirtqDesc) (part : Chunk) (data : List Byte) :
    Option (List Byte) :=
  if part.length = 0 then some data
  else do
    let bytes ← guest.readMemory ram (desc.paddr + part.paddrOff.setWidth 64) part.length.toNat
    return data.take part.dataOff.toNat ++ bytes ++
      data.drop (part.dataOff.toNat + part.length.toNat)

/-- This is the loop of `read_desc_mem`; no data means that the access failed. -/
def readDescLoop (ram : Ram) (startOff endOff : BitVec 32) : Nat → BitVec 16 → BitVec 32 →
    List Byte → Except Failure (Option (List Byte))
  | 0, _, _, _ => .error .nonTermination
  | fuel + 1, descIdx, bufStartOff, data =>
      match vq.getDesc guest ram descIdx with
      | none => .ok none
      | some desc =>
          if desc.isWrite then
            if desc.hasNext then readDescLoop ram startOff endOff fuel desc.next bufStartOff data
            else .ok none
          else
            let part := chunk bufStartOff startOff endOff desc
            match readChunk guest ram desc part data with
            | none => .ok none
            | some data =>
                if part.reachesEnd then .ok (some data)
                else if desc.hasNext then
                  readDescLoop ram startOff endOff fuel desc.next (bufStartOff + desc.len) data
                else .ok none

def readDescMem (fuel : Nat) (ram : Ram) (descIdx : BitVec 16) (startOff len : BitVec 32) :
    Except Failure (Option (List Byte)) :=
  if len = 0 then .ok (some [])
  else vq.readDescLoop guest ram startOff (startOff + len) fuel descIdx 0
    (List.replicate len.toNat 0)

def writeChunk (ram : Ram) (desc : VirtqDesc) (part : Chunk) (data : List Byte) : Option Ram :=
  if part.length = 0 then some ram
  else guest.writeMemory ram (desc.paddr + part.paddrOff.setWidth 64)
    ((data.drop part.dataOff.toNat).take part.length.toNat)

/-- This is the loop of `write_desc_mem`; a failed access leaves the chunks before it written. -/
def writeDescLoop (startOff endOff : BitVec 32) (data : List Byte) : Nat → BitVec 16 →
    BitVec 32 → Ram → Except Failure (Bool × Ram)
  | 0, _, _, _ => .error .nonTermination
  | fuel + 1, descIdx, bufStartOff, ram =>
      match vq.getDesc guest ram descIdx with
      | none => .ok (false, ram)
      | some desc =>
          if desc.isWrite then
            let part := chunk bufStartOff startOff endOff desc
            match writeChunk guest ram desc part data with
            | none => .ok (false, ram)
            | some written =>
                if part.reachesEnd then .ok (true, written)
                else if desc.hasNext then
                  writeDescLoop startOff endOff data fuel desc.next (bufStartOff + desc.len) written
                else .ok (false, written)
          else if desc.hasNext then
            writeDescLoop startOff endOff data fuel desc.next bufStartOff ram
          else .ok (false, ram)

def writeDescMem (fuel : Nat) (ram : Ram) (descIdx : BitVec 16) (startOff : BitVec 32)
    (data : List Byte) : Except Failure (Bool × Ram) :=
  let len := BitVec.ofNat 32 data.length
  if len = 0 then .ok (true, ram)
  else vq.writeDescLoop guest startOff (startOff + len) data fuel descIdx 0 ram

/-- This is `consume_desc`; a failure of the second write leaves the first one written. -/
def consumeDesc (ram : Ram) (descIdx : BitVec 16) (writtenLen : BitVec 32) (usedFlags : BitVec 16) :
    Bool × Virtq × Ram :=
  match vq.setRingUsedElem guest ram vq.lastUsedIdx (descIdx.setWidth 32) writtenLen with
  | none => (false, vq, ram)
  | some ram =>
      match vq.setUsedHeader guest ram usedFlags (vq.lastUsedIdx + 1) with
      | none => (false, vq, ram)
      | some ram => (true, { vq with lastUsedIdx := vq.lastUsedIdx + 1 }, ram)

end Virtq

end MachineEmulator.Virtio
