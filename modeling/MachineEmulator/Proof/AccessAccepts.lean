/-
This file gives the accesses that an honest party logs and says which proofs of accesses pass.
-/

import MachineEmulator.Proof.AccessChecks

namespace MachineEmulator

section Honest

variable {Hash : Type} (hasher : Hasher Hash) (memory : Memory) (paddr : Word)

/-- The read of a word that a party with the whole memory logs. -/
def wordReadAccess : Access Hash where
  type := .read
  address := paddr
  log2Size := 3
  read := some (memory.load (BitVec.ofNat 64 (32 * (paddr.toNat / 32))) 32)
  readHash := hasher.wordHash memory (paddr.toNat / 32)
  written := none
  writtenHash := none
  siblingHashes := some
    (Merkle.siblingsOf hasher.concatHash (hasher.wordHash memory) 0 (paddr.toNat / 32) 59)

/-- The write of a whole node that a party with the whole memory logs without its old data. -/
def nodeWriteAccess (level : Nat) (writtenHash : Hash) : Access Hash where
  type := .write
  address := paddr
  log2Size := (level + 5 : Nat)
  read := none
  readHash := Merkle.nodeHash hasher.concatHash (hasher.wordHash memory) level
    (paddr.toNat / 2 ^ (level + 5))
  written := none
  writtenHash := some writtenHash
  siblingHashes := some (Merkle.siblingsOf hasher.concatHash (hasher.wordHash memory) level
    (paddr.toNat / 2 ^ (level + 5)) (59 - level))

/-- The write of a word that a party with the whole memory logs, with its old and new data. -/
def wordWriteAccess (value : Word) : Access Hash where
  type := .write
  address := paddr
  log2Size := 3
  read := some (memory.load (BitVec.ofNat 64 (32 * (paddr.toNat / 32))) 32)
  readHash := hasher.wordHash memory (paddr.toNat / 32)
  written := some ((memory.storeWord paddr value).load
    (BitVec.ofNat 64 (32 * (paddr.toNat / 32))) 32)
  writtenHash := some (hasher.wordHash (memory.storeWord paddr value) (paddr.toNat / 32))
  siblingHashes := some
    (Merkle.siblingsOf hasher.concatHash (hasher.wordHash memory) 0 (paddr.toNat / 32) 59)

/-- The siblings of a node of a memory reach its root. -/
theorem siblingRoot_siblingsOf (platform : Word → Nat → Bool) (level : Nat) (inside : level ≤ 59) :
    siblingRoot platform hasher paddr level
      (Merkle.siblingsOf hasher.concatHash (hasher.wordHash memory) level
        (paddr.toNat / 2 ^ (level + 5)) (59 - level))
      (Merkle.nodeHash hasher.concatHash (hasher.wordHash memory) level
        (paddr.toNat / 2 ^ (level + 5))) = hasher.merkleRoot memory := by
  have whole : level + (59 - level) = 59 := by omega
  have climbed := Merkle.climb_siblingsOf hasher.concatHash (hasher.wordHash memory) (level + 5)
    level (paddr.toNat / 2 ^ (level + 5)) (59 - level)
    (addressBit_follows platform paddr (by omega))
  rw [whole, root_index paddr whole] at climbed
  exact climbed

/-- The siblings of a node carry a change of the node to the root of the changed memory. -/
theorem siblingRoot_siblingsOf_changed (platform : Word → Nat → Bool) (level : Nat)
    (inside : level ≤ 59) (changed : Memory)
    (outside : ∀ position < 2 ^ 59,
      (position < paddr.toNat / 2 ^ (level + 5) * 2 ^ level ∨
        (paddr.toNat / 2 ^ (level + 5) + 1) * 2 ^ level ≤ position) →
      hasher.wordHash changed position = hasher.wordHash memory position) :
    siblingRoot platform hasher paddr level
      (Merkle.siblingsOf hasher.concatHash (hasher.wordHash memory) level
        (paddr.toNat / 2 ^ (level + 5)) (59 - level))
      (Merkle.nodeHash hasher.concatHash (hasher.wordHash changed) level
        (paddr.toNat / 2 ^ (level + 5))) = hasher.merkleRoot changed := by
  have whole : level + (59 - level) = 59 := by omega
  rw [← siblingRoot_siblingsOf hasher changed paddr platform level inside]
  congr 1
  apply Merkle.siblingsOf_congr
  intro position below away
  rw [whole, root_index paddr whole, zero_add, one_mul] at below
  exact (outside position below away).symm

/-- The siblings of a tree word of a memory reach its root. -/
theorem siblingRoot_siblingsOf_word (platform : Word → Nat → Bool) :
    siblingRoot platform hasher paddr 0
      (Merkle.siblingsOf hasher.concatHash (hasher.wordHash memory) 0 (paddr.toNat / 32) 59)
      (hasher.hash (memory.load (BitVec.ofNat 64 (32 * (paddr.toNat / 32))) 32)) =
        hasher.merkleRoot memory :=
  siblingRoot_siblingsOf hasher memory paddr platform 0 (Nat.zero_le 59)

/-- The siblings of a tree word carry a written word to the root of the written memory. -/
theorem siblingRoot_storeWord (platform : Word → Nat → Bool) (aligned : paddr.toNat % 8 = 0)
    (value : Word) :
    siblingRoot platform hasher paddr 0
      (Merkle.siblingsOf hasher.concatHash (hasher.wordHash memory) 0 (paddr.toNat / 32) 59)
      (hasher.hash ((memory.storeWord paddr value).load
        (BitVec.ofNat 64 (32 * (paddr.toNat / 32))) 32)) =
        hasher.merkleRoot (memory.storeWord paddr value) := by
  apply siblingRoot_siblingsOf_changed hasher memory paddr platform 0 (Nat.zero_le 59)
  intro position inside away
  have bound := paddr.isLt
  have disjoint : 32 * position + 32 ≤ paddr.toNat ∨ paddr.toNat + 8 ≤ 32 * position := by
    rcases away with before | after <;> omega
  exact wordHash_store_of_disjoint (by simp; omega) inside (by simpa using disjoint)

/-- The siblings of a node carry a write of the whole node to the root of the written memory. -/
theorem siblingRoot_store_whole (platform : Word → Nat → Bool) {level : Nat} {data : List Byte}
    {value : Hash} (inside : level ≤ 59) (aligned : paddr.toNat % 2 ^ (level + 5) = 0)
    (size : data.length = 2 ^ (level + 5)) (fits : paddr.toNat + 2 ^ (level + 5) ≤ 2 ^ 64)
    (hashed : hasher.getMerkleTreeHash data = some value) :
    siblingRoot platform hasher paddr level
      (Merkle.siblingsOf hasher.concatHash (hasher.wordHash memory) level
        (paddr.toNat / 2 ^ (level + 5)) (59 - level)) value =
        hasher.merkleRoot (memory.store paddr data) := by
  rw [← nodeHash_store_whole memory aligned size (size ▸ fits) hashed]
  apply siblingRoot_siblingsOf_changed hasher memory paddr platform level inside
  intro position within away
  exact wordHash_store_outside aligned size (size ▸ fits) within away

end Honest

section Proofs

variable {Hash : Type} [DecidableEq Hash] {platform : Word → Nat → Bool} {hasher : Hasher Hash}
  {context : ReplayContext Hash} {access : Access Hash} {siblings : List Hash}

/-- Siblings that reach the root pass with data of the right size. -/
theorem checkAccessSiblingsAndReadHash_accepts {rootHash : Hash} {level : Nat}
    (node : access.proofLog2Size = level + 5) (present : access.siblingHashes = some siblings)
    (readSize : ∀ data ∈ access.read, data.length = 2 ^ (level + 5))
    (writtenSize : ∀ data ∈ access.written, data.length = 2 ^ (level + 5))
    (reached : siblingRoot platform hasher access.address level siblings access.readHash =
      rootHash) :
    ∃ proof, checkAccessSiblingsAndReadHash platform hasher access rootHash = .ok proof ∧
      ∀ hash, proof.bubbleUp platform hasher hash =
        siblingRoot platform hasher access.address level siblings hash := by
  rw [← node] at readSize writtenSize
  refine ⟨⟨access.proofLog2Size, access.proofLog2Size + siblings.length,
    access.address &&& ~~~ BitVec.ofNat 64 (hashTreeWordSize - 1), access.readHash, rootHash,
    siblings⟩, ?_, ?_⟩
  · simp only [checkAccessSiblingsAndReadHash, Access.makeProof, present, bind_ok, check_ok]
    refine ⟨_, ⟨(), readSize, (), writtenSize, (), by omega, rfl⟩, (), ?_, rfl⟩
    rw [HashTreeProof.verify, decide_eq_true_iff]
    simp only [HashTreeProof.bubbleUp, node]
    exact reached
  · intro hash
    simp only [HashTreeProof.bubbleUp, node]
    rfl

end Proofs

end MachineEmulator
