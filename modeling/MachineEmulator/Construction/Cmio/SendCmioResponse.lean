/-
This file gives the response to a yielded machine and the two ways of applying it that matter to
a verifier: on a memory and on an access log.
-/

import MachineEmulator.Construction.AccessLog
import MachineEmulator.Construction.Uarch.ResetState

namespace MachineEmulator.Cmio

open Effects
open Uarch (iflagsYAddress htifTohostAddress htifFromhostAddress revertRootHashStart
  isYieldedManualWith uint32Log2 uint32ShiftLeft uint64ShiftLeft htifYieldManualReasonRxAccepted
  htifYieldReasonAdvanceState)

def cmioRxBufferStart : Word := 0x60000000

def cmioRxBufferLog2Size : BitVec 32 := 21

/-- This is the part of `i_state_access` that the response uses. -/
inductive Op where
  | readIflagsY
  | writeIflagsY (value : Word)
  | readHtifTohost
  | writeHtifFromhost (value : Word)
  | writeRevertRootHash (revertRootHash : Vector Byte 32)
  | writeMemoryWithPadding (paddr : Word) (data : List Byte) (writeLengthLog2Size : BitVec 32)

abbrev Op.Answer : Op → Type
  | .readIflagsY => Word
  | .readHtifTohost => Word
  | _ => Unit

abbrev Action := Effects.Program Op Op.Answer Failure

def perform (op : Op) : Action op.Answer := Effects.Program.perform op

section Response

/-- The smallest power of two that holds the data and a tree word. -/
def getWriteLengthLog2Size (dataLength : BitVec 32) : BitVec 32 :=
  let log2 := uint32Log2 dataLength
  let atLeastWord := if log2 < 5 then 5 else log2
  if uint32ShiftLeft 1 atLeastWord < dataLength then atLeastWord + 1 else atLeastWord

/-- A response without data leaves the receive buffer as it is. -/
def writeResponseData (data : List Byte) (dataLength writeLengthLog2Size : BitVec 32) :
    Action Unit :=
  if 0 < dataLength then
    perform (.writeMemoryWithPadding cmioRxBufferStart (data.take dataLength.toNat)
      writeLengthLog2Size)
  else pure ()

/-- The writes of a response that is not a no-op. -/
def applyResponse (revertRootHash : Vector Byte 32) (reason : BitVec 16) (data : List Byte)
    (dataLength writeLengthLog2Size : BitVec 32) : Action Unit := do
  perform (.writeRevertRootHash revertRootHash)
  writeResponseData data dataLength writeLengthLog2Size
  let mask16 := uint64ShiftLeft 1 16 - 1
  let mask32 := uint64ShiftLeft 1 32 - 1
  let yieldData := uint64ShiftLeft (reason.setWidth 64 &&& mask16) 32 |||
    (dataLength.setWidth 64 &&& mask32)
  perform (.writeHtifFromhost yieldData)
  perform (.writeIflagsY 0)

/-- An input is only for a machine that waits on an accepted manual yield. -/
def isWaiting (reason : BitVec 16) : Action Bool :=
  if reason = htifYieldReasonAdvanceState then do
    let tohost ← perform .readHtifTohost
    return isYieldedManualWith tohost htifYieldManualReasonRxAccepted
  else return true

/-- The caller's 64-bit length is narrowed to 32 bits when it is passed. A failure that is
detected makes the response a no-op. -/
def sendCmioResponse (revertRootHash : Vector Byte 32) (reason : BitVec 16) (data : List Byte)
    (length : Word) : Action Unit := do
  let dataLength : BitVec 32 := length.setWidth 32
  let iflagsY ← perform .readIflagsY
  if iflagsY = 0 then pure ()
  else do
    let waiting ← isWaiting reason
    if waiting = false then pure ()
    else if 0 < dataLength ∧ cmioRxBufferLog2Size < getWriteLengthLog2Size dataLength then pure ()
    else applyResponse revertRootHash reason data dataLength (getWriteLengthLog2Size dataLength)

end Response

section Direct

/-- The data and the zeros that fill its power of two. -/
def paddedData (data : List Byte) (log2Size : Nat) : List Byte :=
  data ++ List.replicate (2 ^ log2Size - data.length) 0

/-- This is `state_access`: the data is copied and the rest of the block is filled with zeros. -/
def directAccess : Handler Op Op.Answer Failure Memory
  | .readIflagsY, memory => .ok (memory.loadWord iflagsYAddress, memory)
  | .writeIflagsY value, memory => .ok ((), memory.storeWord iflagsYAddress value)
  | .readHtifTohost, memory => .ok (memory.loadWord htifTohostAddress, memory)
  | .writeHtifFromhost value, memory => .ok ((), memory.storeWord htifFromhostAddress value)
  | .writeRevertRootHash revertRootHash, memory =>
      .ok ((), memory.store revertRootHashStart revertRootHash.toList)
  | .writeMemoryWithPadding paddr data writeLengthLog2Size, memory => do
      check (data.length ≤ 2 ^ writeLengthLog2Size.toNat) .writeLengthTooSmall
      let copied := memory.store paddr data
      return ((), copied.store (paddr + BitVec.ofNat 64 data.length)
        (List.replicate (2 ^ writeLengthLog2Size.toNat - data.length) 0))

def respondMemory (revertRootHash : Vector Byte 32) (reason : BitVec 16) (data : List Byte)
    (memory : Memory) : Except Failure (Unit × Memory) :=
  (sendCmioResponse revertRootHash reason data (BitVec.ofNat 64 data.length)).run directAccess memory

end Direct

section Replay

variable {Hash : Type} [DecidableEq Hash] (platform : Word → Nat → Bool) (hasher : Hasher Hash)

/-- The read data of a word access must be there and hash to the read hash. -/
def checkLoggedRead (access : Access Hash) : Except Failure (List Byte) :=
  match access.read with
  | none => .error .missingReadData
  | some data => do
      check (data.length = hashTreeWordSize) .wrongReadDataSize
      let computedReadHash ← getAccessHash hasher data
      check (access.readHash = computedReadHash) .readDataMismatch
      return data

/-- The offset of an aligned word in its tree word. -/
def leafOffset (paligned : Word) : Nat :=
  (paligned - (paligned &&& ~~~ BitVec.ofNat 64 (hashTreeWordSize - 1))).toNat

def checkRead (paligned : Word) (context : ReplayContext Hash) :
    Except Failure (Word × ReplayContext Hash) := do
  check (paligned &&& 7 = 0) .addressNotAligned
  let access ← context.currentAccess
  check (access.type = .read) .wrongAccessType
  check (access.address = paligned) .wrongAccessAddress
  check (access.log2Size = 3) .wrongAccessSize
  let readData ← checkLoggedRead hasher access
  let _ ← checkAccessSiblingsAndReadHash platform hasher access context.rootHash
  let value ← getWordAccessData readData (leafOffset paligned)
  return (value, context.advance)

/-- The written data must be there and differ from the read data by the written word only. -/
def checkLoggedWritten (access : Access Hash) (readData : List Byte) (word : Word) (offset : Nat) :
    Except Failure Hash :=
  match access.writtenHash, access.written with
  | none, _ => .error .missingWrittenHash
  | some _, none => .error .missingWrittenData
  | some writtenHash, some writtenData => do
      check (writtenData.length = readData.length) .wrongWrittenDataSize
      let computedWrittenHash ← getAccessHash hasher writtenData
      check (writtenHash = computedWrittenHash) .writtenHashMismatch
      let loggedWord ← getWordAccessData writtenData offset
      check (word = loggedWord) .writtenWordMismatch
      let expectedWrittenData ← replaceWordAccessData word readData offset
      check (writtenData = expectedWrittenData) .writtenDataDiffers
      return writtenHash

def checkWrite (paligned word : Word) (context : ReplayContext Hash) :
    Except Failure (ReplayContext Hash) := do
  check (paligned &&& 7 = 0) .addressNotAligned
  let access ← context.currentAccess
  check (access.type = .write) .wrongAccessType
  check (access.address = paligned) .wrongAccessAddress
  check (access.log2Size = 3) .wrongAccessSize
  let readData ← checkLoggedRead hasher access
  let writtenHash ← checkLoggedWritten hasher access readData word (leafOffset paligned)
  let proof ← checkAccessSiblingsAndReadHash platform hasher access context.rootHash
  return (context.updateRootHash platform hasher proof writtenHash).advance

/-- The hash of logged data is checked only if the data is there. -/
def checkHashIfThere (data : Option (List Byte)) (hash : Hash) (failure : Failure) :
    Except Failure Unit :=
  match data with
  | none => .ok ()
  | some found => do
      let computedHash ← getAccessHash hasher found
      check (computedHash = hash) failure

def checkWriteMemoryWithPadding (paddr : Word) (data : List Byte) (writeLengthLog2Size : Nat)
    (context : ReplayContext Hash) : Except Failure (ReplayContext Hash) := do
  check (data.length ≤ 2 ^ writeLengthLog2Size) .writeLengthTooSmall
  let access ← context.currentAccess
  check (access.address = paddr) .wrongAccessAddress
  check (access.log2Size = writeLengthLog2Size) .wrongAccessSize
  check (access.type = .write) .wrongAccessType
  checkHashIfThere hasher access.read access.readHash .readDataMismatch
  match access.writtenHash with
  | none => .error .missingWrittenHash
  | some writtenHash => do
      let computedDataHash ← getAccessHash hasher (paddedData data writeLengthLog2Size)
      check (writtenHash = computedDataHash) .writtenHashMismatch
      checkHashIfThere hasher access.written writtenHash .writtenDataMismatch
      let proof ← checkAccessSiblingsAndReadHash platform hasher access context.rootHash
      return (context.updateRootHash platform hasher proof writtenHash).advance

/-- This is `replay_send_cmio_state_access`. -/
def replayAccess : Handler Op Op.Answer Failure (ReplayContext Hash)
  | .readIflagsY, context => checkRead platform hasher iflagsYAddress context
  | .writeIflagsY value, context => do
      let context ← checkWrite platform hasher iflagsYAddress value context
      return ((), context)
  | .readHtifTohost, context => checkRead platform hasher htifTohostAddress context
  | .writeHtifFromhost value, context => do
      let context ← checkWrite platform hasher htifFromhostAddress value context
      return ((), context)
  | .writeRevertRootHash revertRootHash, context => do
      let context ← checkWriteMemoryWithPadding platform hasher revertRootHashStart
        revertRootHash.toList hashTreeLog2WordSize context
      return ((), context)
  | .writeMemoryWithPadding paddr data writeLengthLog2Size, context => do
      let context ← checkWriteMemoryWithPadding platform hasher paddr data
        writeLengthLog2Size.toNat context
      return ((), context)

def verifySendCmioResponse (revertRootHash : Vector Byte 32) (reason : BitVec 16)
    (data : List Byte) (rootHashBefore : Hash) (log : List (Access Hash))
    (rootHashAfter : Option Hash) : Except Failure Hash := do
  check (log ≠ []) .emptyLog
  let code := sendCmioResponse revertRootHash reason data (BitVec.ofNat 64 data.length)
  let (_, context) ← code.run (replayAccess platform hasher) ⟨log, 0, rootHashBefore⟩
  let obtainedRootHash ← context.finish
  check (∀ expected ∈ rootHashAfter, obtainedRootHash = expected) .finalRootHashMismatch
  return obtainedRootHash

end Replay

end MachineEmulator.Cmio
