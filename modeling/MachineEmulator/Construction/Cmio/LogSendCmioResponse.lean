/-
This file gives the response that is logged while it is applied, and the response as the host sends
it.
-/

import MachineEmulator.Construction.Cmio.SendCmioResponse

namespace MachineEmulator.Cmio

open Effects
open Uarch (iflagsYAddress htifTohostAddress htifFromhostAddress revertRootHashStart
  isYieldedManualWith htifYieldManualReasonRxAccepted htifYieldReasonAdvanceState)

section Record

variable {Hash : Type} (hasher : Hasher Hash)

/-- The siblings that `get_proof` gives for a node, from a hash tree that is up to date. -/
def getSiblingHashes (memory : Memory) (address : Word) (log2Size : Nat) : List Hash :=
  Merkle.siblingsOf hasher.concatHash (hasher.wordHash memory) (log2Size - hashTreeLog2WordSize)
    (address.toNat / 2 ^ log2Size) (hashTreeLog2RootSize - log2Size)

/-- The tree word around an aligned word. -/
def leafAligned (paligned : Word) : Word :=
  paligned &&& ~~~ BitVec.ofNat 64 (hashTreeWordSize - 1)

/-- The machine and the log that grows beside it. -/
abbrev Recorder (Hash : Type) := Memory × List (Access Hash)

def logRead (paligned : Word) (recorder : Recorder Hash) : Except Failure (Recorder Hash) := do
  check (paligned &&& 7 = 0) .addressNotAligned
  let pleafAligned := leafAligned paligned
  let read := recorder.1.load pleafAligned hashTreeWordSize
  let readHash ← getAccessHash hasher read
  return (recorder.1, recorder.2 ++ [{
    type := .read
    address := paligned
    log2Size := 3
    read := some read
    readHash
    written := none
    writtenHash := none
    siblingHashes := some (getSiblingHashes hasher recorder.1 pleafAligned hashTreeLog2WordSize) }])

/-- This is `log_before_write_write_and_update`. -/
def logWrite (paligned value : Word) (recorder : Recorder Hash) :
    Except Failure (Recorder Hash) := do
  check (paligned &&& 7 = 0) .addressNotAligned
  let pleafAligned := leafAligned paligned
  let read := recorder.1.load pleafAligned hashTreeWordSize
  let readHash ← getAccessHash hasher read
  let written ← replaceWordAccessData value read (paligned - pleafAligned).toNat
  let writtenHash ← getAccessHash hasher written
  return (recorder.1.storeWord paligned value, recorder.2 ++ [{
    type := .write
    address := paligned
    log2Size := 3
    read := some read
    readHash
    written := some written
    writtenHash := some writtenHash
    siblingHashes := some (getSiblingHashes hasher recorder.1 pleafAligned hashTreeLog2WordSize) }])

/-- This is `log_write_memory_with_padding`; a log type with large data keeps the old and the new
bytes. Both places it writes to are memory of every machine. -/
def logWriteMemoryWithPadding (largeData : Bool) (paddr : Word) (data : List Byte)
    (writeLengthLog2Size : Nat) (recorder : Recorder Hash) : Except Failure (Recorder Hash) := do
  check (paddr &&& BitVec.ofNat 64 (hashTreeWordSize - 1) = 0) .addressNotAligned
  let writeLength := 2 ^ writeLengthLog2Size
  check (data.length ≤ writeLength) .writeLengthTooSmall
  let copied := recorder.1.store paddr data
  let filled := copied.store (paddr + BitVec.ofNat 64 data.length)
    (List.replicate (writeLength - data.length) 0)
  let writtenHash ← getAccessHash hasher (filled.load paddr writeLength)
  return (filled, recorder.2 ++ [{
    type := .write
    address := paddr
    log2Size := writeLengthLog2Size
    read := if largeData then some (recorder.1.load paddr writeLength) else none
    readHash := hasher.regionHash recorder.1 writeLengthLog2Size
      (paddr.toNat / 2 ^ writeLengthLog2Size)
    written := if largeData then some (filled.load paddr writeLength) else none
    writtenHash := some writtenHash
    siblingHashes := some (getSiblingHashes hasher recorder.1 paddr writeLengthLog2Size) }])

/-- This is `record_send_cmio_state_access`. -/
def recordAccess (largeData : Bool) : Handler Op Op.Answer Failure (Recorder Hash)
  | .readIflagsY, recorder => do
      let logged ← logRead hasher iflagsYAddress recorder
      return (recorder.1.loadWord iflagsYAddress, logged)
  | .writeIflagsY value, recorder => do
      let logged ← logWrite hasher iflagsYAddress value recorder
      return ((), logged)
  | .readHtifTohost, recorder => do
      let logged ← logRead hasher htifTohostAddress recorder
      return (recorder.1.loadWord htifTohostAddress, logged)
  | .writeHtifFromhost value, recorder => do
      let logged ← logWrite hasher htifFromhostAddress value recorder
      return ((), logged)
  | .writeRevertRootHash revertRootHash, recorder => do
      let logged ← logWriteMemoryWithPadding hasher largeData revertRootHashStart
        revertRootHash.toList hashTreeLog2WordSize recorder
      return ((), logged)
  | .writeMemoryWithPadding paddr data writeLengthLog2Size, recorder => do
      let logged ← logWriteMemoryWithPadding hasher largeData paddr data
        writeLengthLog2Size.toNat recorder
      return ((), logged)

variable [DecidableEq Hash] (platform : Word → Nat → Bool)

/-- This is `log_send_cmio_response`, which verifies its own log. -/
def logSendCmioResponse (largeData : Bool) (revertRootHash : Vector Byte 32) (reason : BitVec 16)
    (data : List Byte) (memory : Memory) : Except Failure (List (Access Hash) × Memory) := do
  let code := sendCmioResponse revertRootHash reason data (BitVec.ofNat 64 data.length)
  let (_, after, log) ← code.run (recordAccess hasher largeData) (memory, [])
  let _ ← verifySendCmioResponse platform hasher revertRootHash reason data
    (hasher.merkleRoot memory) log (some (hasher.merkleRoot after))
  return (log, after)

end Record

section Host

variable {Hash : Type} [DecidableEq Hash] (hasher : Hasher Hash)

def cmioRxBufferLength : Word := 2 ^ 21

/-- The host does not send a response that would be a no-op, and a new input only with the root hash
of the machine that gets it. -/
def checkPendingCmioRequest (revertRootHash : Vector Byte 32) (reason : BitVec 16) (length : Word)
    (memory : Memory) : Except Failure Unit := do
  check (memory.loadWord iflagsYAddress ≠ 0) .iflagsYNotSet
  check (length ≤ cmioRxBufferLength) .responseTooLarge
  if reason ≠ htifYieldReasonAdvanceState then return ()
  else do
    check (isYieldedManualWith (memory.loadWord htifTohostAddress) htifYieldManualReasonRxAccepted)
      .notWaitingForInput
    check (hasher.ofBytes revertRootHash.toList = hasher.merkleRoot memory) .revertRootHashMismatch

/-- This is `machine::send_cmio_response`. -/
def machineSendCmioResponse (revertRootHash : Vector Byte 32) (reason : BitVec 16)
    (data : List Byte) (memory : Memory) : Except Failure Memory := do
  checkPendingCmioRequest hasher revertRootHash reason (BitVec.ofNat 64 data.length) memory
  let (_, after) ← respondMemory revertRootHash reason data memory
  return after

end Host

end MachineEmulator.Cmio
