/-
This file gives the proofs of hash tree nodes as a class with its own sizes: the walk to the root, and
the cut of a proof to a smaller one. A shift by the width of an address or more has no meaning.
-/

import MachineEmulator.Construction.AccessLog

namespace MachineEmulator

/-- A `hash_tree_proof` as the constructor and the setters leave it. -/
structure SizedProof (Hash : Type) extends HashTreeProof Hash where
  positive : 0 < log2RootSize
  ordered : log2TargetSize ≤ log2RootSize
  siblings : siblingHashes.length = log2RootSize - log2TargetSize

namespace SizedProof

variable {Hash : Type}

/-- This is the constructor. The hashes start as `blank`. -/
def make (blank : Hash) (log2RootSize log2TargetSize : Int) : Except Failure (SizedProof Hash) :=
  if small : log2RootSize ≤ 0 then .error .rootSizeNotPositive
  else if negative : log2TargetSize < 0 then .error .log2TargetSizeNegative
  else if greater : log2RootSize < log2TargetSize then .error .log2TargetSizeGreaterThanRoot
  else .ok {
    log2TargetSize := log2TargetSize.toNat
    log2RootSize := log2RootSize.toNat
    targetAddress := 0
    targetHash := blank
    rootHash := blank
    siblingHashes := List.replicate (log2RootSize.toNat - log2TargetSize.toNat) blank
    positive := by omega
    ordered := by omega
    siblings := by simp }

section Walk

variable (proof : SizedProof Hash)

/-- This is `log2_size_to_index`. -/
def log2SizeToIndex (log2Size : Nat) : Except Failure Nat := do
  check (proof.log2TargetSize ≤ log2Size ∧
    log2Size - proof.log2TargetSize < proof.siblingHashes.length) .log2SizeOutOfRange
  return log2Size - proof.log2TargetSize

def getSiblingHash (log2Size : Nat) : Except Failure Hash := do
  let index ← proof.log2SizeToIndex log2Size
  return proof.siblingHashes.getD index proof.targetHash

def setSiblingHash (hash : Hash) (log2Size : Nat) : Except Failure (SizedProof Hash) := do
  let index ← proof.log2SizeToIndex log2Size
  return { proof with
    siblingHashes := proof.siblingHashes.set index hash
    siblings := by rw [List.length_set, proof.siblings] }

def setTargetHash (hash : Hash) : SizedProof Hash := { proof with targetHash := hash }

def setRootHash (hash : Hash) : SizedProof Hash := { proof with rootHash := hash }

def setTargetAddress (address : Word) : SizedProof Hash := { proof with targetAddress := address }

/-- This is the bit that the loops read from the address. -/
def getBit (log2Size : Nat) : Except Failure Bool := do
  check (log2Size < 64) .undefinedBehavior
  return proof.targetAddress.getLsbD log2Size

/-- This is `(target_address >> log2_size) << log2_size`. -/
def alignAddress (log2Size : Nat) : Except Failure Word := do
  check (log2Size < 64) .undefinedBehavior
  return proof.targetAddress >>> log2Size <<< log2Size

variable (hasher : Hasher Hash)

/-- The hash of a node and its sibling, on the side that the bit says. -/
def concatSibling (bit : Bool) (sibling hash : Hash) : Hash :=
  if bit then hasher.concatHash sibling hash else hasher.concatHash hash sibling

/-- The loop of `bubble_up`, and the first loop of `slice`. -/
def bubbleLoop : Nat → Nat → Hash → Except Failure Hash
  | 0, _, hash => return hash
  | count + 1, log2Size, hash => do
      let bit ← proof.getBit log2Size
      let sibling ← proof.getSiblingHash log2Size
      bubbleLoop count (log2Size + 1) (concatSibling hasher bit sibling hash)

/-- This is `bubble_up`. -/
def bubbleUp (newTargetHash : Hash) : Except Failure Hash :=
  proof.bubbleLoop hasher (proof.log2RootSize - proof.log2TargetSize) proof.log2TargetSize
    newTargetHash

/-- The second loop of `slice`. -/
def sliceLoop : Nat → Nat → Hash → SizedProof Hash → Except Failure (Hash × SizedProof Hash)
  | 0, _, hash, sliced => return (hash, sliced)
  | count + 1, log2Size, hash, sliced => do
      let bit ← proof.getBit log2Size
      let sibling ← proof.getSiblingHash log2Size
      let next ← sliced.setSiblingHash sibling log2Size
      sliceLoop count (log2Size + 1) (concatSibling hasher bit sibling hash) next

variable [DecidableEq Hash]

/-- This is `verify`. -/
def verify : Except Failure Bool := do
  let hash ← proof.bubbleUp hasher proof.targetHash
  return hash = proof.rootHash

/-- This is `slice`. -/
def slice (newLog2RootSize newLog2TargetSize : Int) : Except Failure (SizedProof Hash) := do
  check (0 < newLog2RootSize) .rootSizeNotPositive
  check (0 ≤ newLog2TargetSize) .log2TargetSizeNegative
  check (newLog2TargetSize ≤ newLog2RootSize) .log2TargetSizeGreaterThanRoot
  check (newLog2RootSize ≤ proof.log2RootSize) .log2RootSizeTooLarge
  check (proof.log2TargetSize ≤ newLog2TargetSize) .log2TargetSizeTooSmall
  let blank ← make (hasher.ofBytes (List.replicate 32 0)) newLog2RootSize newLog2TargetSize
  let targetHash ← proof.bubbleLoop hasher (newLog2TargetSize.toNat - proof.log2TargetSize)
    proof.log2TargetSize proof.targetHash
  let (rootHash, sliced) ← proof.sliceLoop hasher
    (newLog2RootSize.toNat - newLog2TargetSize.toNat) newLog2TargetSize.toNat targetHash
    (blank.setTargetHash targetHash)
  let address ← proof.alignAddress newLog2TargetSize.toNat
  let aligned := (sliced.setRootHash rootHash).setTargetAddress address
  let verified ← aligned.verify hasher
  check verified .slicedProofInvalid
  return aligned

end Walk

end SizedProof

end MachineEmulator
