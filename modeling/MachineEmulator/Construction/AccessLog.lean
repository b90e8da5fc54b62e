/-
This file gives the access log and the proof that one logged access carries.
-/

import MachineEmulator.Construction.Hasher
import MachineEmulator.Construction.Failure

namespace MachineEmulator

inductive AccessType where
  | read
  | write
deriving DecidableEq, Repr

/-- A logged access as the log types and the log parser admit it: every field is free. -/
structure Access (Hash : Type) where
  type : AccessType
  address : Word
  log2Size : Int
  read : Option (List Byte)
  readHash : Hash
  written : Option (List Byte)
  writtenHash : Option Hash
  siblingHashes : Option (List Hash)

/-- The replay of a log: the next access to be consumed and the root hash before it. -/
structure ReplayContext (Hash : Type) where
  accesses : List (Access Hash)
  nextAccess : Nat
  rootHash : Hash

/-- This is `hash_tree_proof`, with its siblings from the target up. -/
structure HashTreeProof (Hash : Type) where
  log2TargetSize : Nat
  log2RootSize : Nat
  targetAddress : Word
  targetHash : Hash
  rootHash : Hash
  siblingHashes : List Hash

/-- The code masks an address with `1 << log2_size`. A shift by 64 or more is undefined, so its
bit is whatever the platform makes of it. -/
def addressBit (platform : Word → Nat → Bool) (address : Word) (log2Size : Nat) : Bool :=
  if log2Size < 64 then address.getLsbD log2Size else platform address log2Size

section Proofs

variable {Hash : Type} [DecidableEq Hash] (platform : Word → Nat → Bool) (hasher : Hasher Hash)

namespace HashTreeProof

/-- This is `bubble_up`: the root hash that a new target hash gives with the same siblings. -/
def bubbleUp (proof : HashTreeProof Hash) (newTargetHash : Hash) : Hash :=
  Merkle.climb hasher.concatHash (addressBit platform proof.targetAddress) proof.log2TargetSize
    proof.siblingHashes newTargetHash

def verify (proof : HashTreeProof Hash) : Bool :=
  proof.bubbleUp platform hasher proof.targetHash = proof.rootHash

end HashTreeProof

/-- The size of a logged block is that of the proof's target node. -/
def Access.proofLog2Size (access : Access Hash) : Nat :=
  max access.log2Size.toNat hashTreeLog2WordSize

/-- This is `make_proof`: the size of the root is counted from the siblings at hand. -/
def Access.makeProof (access : Access Hash) (rootHash : Hash) :
    Except Failure (HashTreeProof Hash) :=
  match access.siblingHashes with
  | none => .error .noSiblingHashes
  | some siblings => do
      check (∀ data ∈ access.read, data.length = 2 ^ access.proofLog2Size) .readSizeInconsistent
      check (∀ data ∈ access.written, data.length = 2 ^ access.proofLog2Size)
        .writtenSizeInconsistent
      let log2RootSize := access.proofLog2Size + siblings.length
      check (0 < log2RootSize) .rootSizeNotPositive
      return {
        log2TargetSize := access.proofLog2Size
        log2RootSize
        targetAddress := access.address &&& ~~~ BitVec.ofNat 64 (hashTreeWordSize - 1)
        targetHash := access.readHash
        rootHash
        siblingHashes := siblings }

/-- The siblings and the read hash of an access must reach the root hash. -/
def checkAccessSiblingsAndReadHash (access : Access Hash) (rootHash : Hash) :
    Except Failure (HashTreeProof Hash) := do
  let proof ← access.makeProof rootHash
  check (proof.verify platform hasher) .rootHashMismatch
  return proof

/-- The hash of logged data is its tree hash. -/
def getAccessHash (data : List Byte) : Except Failure Hash :=
  match hasher.getMerkleTreeHash data with
  | some value => .ok value
  | none => .error .badMerkleDataSize

def ReplayContext.currentAccess (context : ReplayContext Hash) : Except Failure (Access Hash) :=
  match context.accesses[context.nextAccess]? with
  | some access => .ok access
  | none => .error .missingAccess

def ReplayContext.advance (context : ReplayContext Hash) : ReplayContext Hash :=
  { context with nextAccess := context.nextAccess + 1 }

def ReplayContext.updateRootHash (context : ReplayContext Hash) (proof : HashTreeProof Hash)
    (writtenHash : Hash) : ReplayContext Hash :=
  { context with rootHash := proof.bubbleUp platform hasher writtenHash }

def ReplayContext.finish (context : ReplayContext Hash) : Except Failure Hash := do
  check (context.nextAccess = context.accesses.length) .logNotConsumed
  return context.rootHash

end Proofs

/-- This is `get_word_access_data`, with its assertion. -/
def getWordAccessData (data : List Byte) (offset : Nat) : Except Failure Word := do
  check (offset + 8 ≤ data.length) .assertionFailed
  return wordOfBytes ((data.drop offset).take 8)

/-- This is `replace_word_access_data`, with its assertion. -/
def replaceWordAccessData (value : Word) (data : List Byte) (offset : Nat) :
    Except Failure (List Byte) := do
  check (offset + 8 ≤ data.length) .assertionFailed
  return data.take offset ++ wordToBytes value ++ data.drop (offset + 8)

end MachineEmulator
