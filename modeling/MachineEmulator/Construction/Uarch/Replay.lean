/-
This file replays the microarchitecture code on an access log, as the log verifier does.
-/

import MachineEmulator.Construction.Uarch.Direct
import MachineEmulator.Construction.AccessLog

namespace MachineEmulator.Uarch

open Effects

variable {Hash : Type} [DecidableEq Hash]
variable (platform : Word → Nat → Bool) (hasher : Hasher Hash) (pristineRam : List Byte)

section Checks

def checkAccessType (access : Access Hash) (type : AccessType) : Except Failure Unit := do
  check (access.type = type) .wrongAccessType
  check (type = .read → access.written = none) .unexpectedWrittenData
  check (type = .read → access.writtenHash = none) .unexpectedWrittenHash

def checkAccessRange (access : Access Hash) (paddr : Word) (log2Size : Nat) :
    Except Failure Unit := do
  check (access.address = paddr) .wrongAccessAddress
  check (access.log2Size = log2Size) .wrongAccessSize

def checkWrittenHash (access : Access Hash) (expectedHash : Hash) : Except Failure Hash :=
  match access.writtenHash with
  | none => .error .missingWrittenHash
  | some writtenHash => do
      check (writtenHash = expectedHash) .writtenHashMismatch
      return writtenHash

def checkReadData (access : Access Hash) : Except Failure (List Byte) :=
  match access.read with
  | none => .error .missingReadData
  | some data => do
      let computedReadHash ← getAccessHash hasher data
      check (access.readHash = computedReadHash) .readDataMismatch
      return data

def checkWrittenDataIfThere (access : Access Hash) (writtenHash : Hash) : Except Failure Unit :=
  match access.written with
  | none => .ok ()
  | some data => do
      let computedHash ← getAccessHash hasher data
      check (writtenHash = computedHash) .writtenDataMismatch

def checkReadDataIfThere (access : Access Hash) : Except Failure Unit :=
  match access.read with
  | none => .ok ()
  | some data => do
      let computedHash ← getAccessHash hasher data
      check (access.readHash = computedHash) .readDataMismatch

end Checks

section Accesses

/-- The offset of a word in its tree word after `adjust_access`. -/
def wordOffset (paddr : Word) : Nat :=
  (((paddr >>> 3) <<< 3) - ((((paddr >>> 3) <<< 3) >>> 5) <<< 5)).toNat

/-- The old data of a write of whole nodes may be left out of the log. -/
def checkWriteAccess (paddr : Word) (log2Size : Nat) (expectedHash : Hash)
    (context : ReplayContext Hash) : Except Failure (ReplayContext Hash) := do
  let access ← context.currentAccess
  checkAccessType access .write
  checkAccessRange access paddr log2Size
  let proof ← checkAccessSiblingsAndReadHash platform hasher access context.rootHash
  let writtenHash ← checkWrittenHash access expectedHash
  checkReadDataIfThere hasher access
  checkWrittenDataIfThere hasher access writtenHash
  return (context.updateRootHash platform hasher proof writtenHash).advance

def checkWriteWordAccess (paddr value : Word) (context : ReplayContext Hash) :
    Except Failure (ReplayContext Hash) := do
  let access ← context.currentAccess
  checkAccessType access .write
  checkAccessRange access paddr 3
  let proof ← checkAccessSiblingsAndReadHash platform hasher access context.rootHash
  let readData ← checkReadData hasher access
  let writtenData ← replaceWordAccessData value readData (wordOffset paddr)
  let expectedHash ← getAccessHash hasher writtenData
  let writtenHash ← checkWrittenHash access expectedHash
  checkWrittenDataIfThere hasher access writtenHash
  return (context.updateRootHash platform hasher proof writtenHash).advance

def checkReadWordAccess (paddr : Word) (context : ReplayContext Hash) :
    Except Failure (Word × ReplayContext Hash) := do
  let access ← context.currentAccess
  checkAccessType access .read
  checkAccessRange access paddr 3
  let _ ← checkAccessSiblingsAndReadHash platform hasher access context.rootHash
  let readData ← checkReadData hasher access
  let value ← getWordAccessData readData (wordOffset paddr)
  return (value, context.advance)

def checkReadRevertRootHashAccess (context : ReplayContext Hash) :
    Except Failure (Hash × ReplayContext Hash) := do
  let access ← context.currentAccess
  checkAccessType access .read
  checkAccessRange access revertRootHashStart hashTreeLog2WordSize
  let _ ← checkAccessSiblingsAndReadHash platform hasher access context.rootHash
  let readData ← checkReadData hasher access
  check (readData.length = hashTreeWordSize) .wrongReadDataSize
  return (hasher.ofBytes readData, context.advance)

end Accesses

/-- This is `uarch_replay_state_access`. -/
def replayAccess : Handler Op Op.Answer Failure (ReplayContext Hash)
  | .readReg what, context => checkReadWordAccess platform hasher what.address context
  | .writeReg what value, context => do
      let context ← checkWriteWordAccess platform hasher what.address value context
      return ((), context)
  | .readWord paddr, context => checkReadWordAccess platform hasher paddr context
  | .writeWord paddr value, context => do
      let context ← checkWriteWordAccess platform hasher paddr value context
      return ((), context)
  | .putchar _, context => .ok ((), context)
  | .writeTlb setIndex slotIndex vaddrPage vpOffset pmaIndex, context => do
      let slotHash ← getAccessHash hasher (shadowTlbSlot vaddrPage vpOffset pmaIndex)
      let context ← checkWriteAccess platform hasher (shadowTlbGetAbsAddr setIndex slotIndex)
        shadowTlbSlotLog2Size slotHash context
      return ((), context)
  | .resetUarch, context => do
      let context ← checkWriteAccess platform hasher uarchStateStartAddress uarchStateLog2Size
        (getUarchPristineStateHash hasher pristineRam) context
      return ((), context)
  | .revertState, context => do
      let (rootHash, context) ← checkReadRevertRootHashAccess platform hasher context
      return ((), { context with rootHash })

/-- Both verifiers replay their code, consume the log and compare the root hash if one is given. -/
def verifyWith {A : Type} (code : Action A) (rootHashBefore : Hash) (log : List (Access Hash))
    (rootHashAfter : Option Hash) : Except Failure Hash := do
  let (_, context) ← code.run (replayAccess platform hasher pristineRam) ⟨log, 0, rootHashBefore⟩
  let obtainedRootHash ← context.finish
  check (∀ expected ∈ rootHashAfter, obtainedRootHash = expected) .finalRootHashMismatch
  return obtainedRootHash

def verifyStepUarch : Hash → List (Access Hash) → Option Hash → Except Failure Hash :=
  verifyWith platform hasher pristineRam uarchStep

def verifyResetUarch : Hash → List (Access Hash) → Option Hash → Except Failure Hash :=
  verifyWith platform hasher pristineRam uarchResetState

end MachineEmulator.Uarch
