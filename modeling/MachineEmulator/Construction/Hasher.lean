/-
This file gives the hash interface and the hash tree of the whole address space.
The hash values stay abstract, because no function to 32 bytes is free of collisions.
-/

import MachineEmulator.Construction.Memory
import MachineEmulator.Library.MerkleTree

namespace MachineEmulator

def hashTreeLog2RootSize : Nat := 64

def hashTreeLog2WordSize : Nat := 5

def hashTreeWordSize : Nat := 2 ^ hashTreeLog2WordSize

def hashTreeLog2PageSize : Nat := 12

def hashTreePageSize : Nat := 2 ^ hashTreeLog2PageSize

/-- This is `i_hasher`; `ofBytes` reads 32 bytes of data as a `machine_hash`. -/
structure Hasher (Hash : Type) where
  hash : List Byte → Hash
  concatHash : Hash → Hash → Hash
  ofBytes : List Byte → Hash

namespace Hasher

variable {Hash : Type} (hasher : Hasher Hash)

/-- A leaf hash is the hash of 32 bytes. -/
def IsLeaf (value : Hash) : Prop := ∃ data : List Byte, data.length = 32 ∧ hasher.hash data = value

/-- Tree words and pairs of hashes have different hashes unless they are the same input. -/
structure CollisionFree : Prop where
  word : ∀ first second : List Byte, first.length = 32 → second.length = 32 →
    hasher.hash first = hasher.hash second → first = second
  pair : Merkle.Binding hasher.concatHash
  apart : Merkle.Separated hasher.concatHash hasher.IsLeaf

/-- This is `get_merkle_tree_hash` with the tree word as leaf; it throws on any other data size. -/
def getMerkleTreeHash (data : List Byte) : Option Hash :=
  if 32 < data.length then
    if data.length % 2 = 1 then none
    else do
      let left ← getMerkleTreeHash (data.take (data.length / 2))
      let right ← getMerkleTreeHash (data.drop (data.length / 2))
      return hasher.concatHash left right
  else if data.length ≠ 32 then none
  else some (hasher.hash data)
termination_by data.length
decreasing_by
  · simp only [List.length_take]
    omega
  · simp only [List.length_drop]
    omega

/-- The tree word at an index is the 32 bytes that start at 32 times the index. -/
def wordHash (memory : Memory) (index : Nat) : Hash :=
  hasher.hash (memory.load (BitVec.ofNat 64 (32 * index)) 32)

/-- The reference hash of the node that spans `2^log2Size` bytes. -/
def regionHash (memory : Memory) (log2Size index : Nat) : Hash :=
  Merkle.nodeHash hasher.concatHash (hasher.wordHash memory) (log2Size - 5) index

/-- The reference hash of the whole 2^64-byte space. -/
def merkleRoot (memory : Memory) : Hash :=
  Merkle.nodeHash hasher.concatHash (hasher.wordHash memory) 59 0

theorem isLeaf_hash {data : List Byte} (size : data.length = 32) : hasher.IsLeaf (hasher.hash data) :=
  ⟨data, size, rfl⟩

theorem isLeaf_wordHash (memory : Memory) (index : Nat) :
    hasher.IsLeaf (hasher.wordHash memory index) :=
  hasher.isLeaf_hash (Memory.length_load _ _ _)

theorem getMerkleTreeHash_word {data : List Byte} (size : data.length = 32) :
    hasher.getMerkleTreeHash data = some (hasher.hash data) := by
  rw [getMerkleTreeHash, if_neg (by omega), if_neg (by simpa using size)]

/-- The data of a power of two tree words hashes to the node over its words. -/
theorem getMerkleTreeHash_eq (level : Nat) (data : List Byte) (size : data.length = 32 * 2 ^ level)
    (leaf : Nat → Hash) (index : Nat)
    (leaves : ∀ position < 2 ^ level,
      leaf (index * 2 ^ level + position) = hasher.hash ((data.drop (32 * position)).take 32)) :
    hasher.getMerkleTreeHash data = some (Merkle.nodeHash hasher.concatHash leaf level index) := by
  induction level generalizing data index with
  | zero =>
      have first := leaves 0 (by simp)
      rw [hasher.getMerkleTreeHash_word (by simpa using size)]
      have whole : data.take 32 = data := List.take_of_length_le (by omega)
      simp only [pow_zero, mul_one, add_zero, mul_zero, List.drop_zero, whole] at first
      rw [Merkle.nodeHash_zero, first]
  | succ level ih =>
      have positive : 0 < 2 ^ level := by positivity
      have total : data.length = 2 * (32 * 2 ^ level) := by rw [size, pow_succ]; ring
      have half : data.length / 2 = 32 * 2 ^ level := by omega
      rw [getMerkleTreeHash, if_pos (by omega), if_neg (by omega), half]
      have left := ih (data.take (32 * 2 ^ level)) (by simp; omega) (2 * index) (by
        intro position inside
        have start : 2 * index * 2 ^ level + position = index * 2 ^ (level + 1) + position := by
          rw [pow_succ]; ring
        rw [start, leaves position (by rw [pow_succ]; omega), List.drop_take, List.take_take]
        congr 2
        omega)
      have right := ih (data.drop (32 * 2 ^ level)) (by simp; omega) (2 * index + 1) (by
        intro position inside
        have start : (2 * index + 1) * 2 ^ level + position =
            index * 2 ^ (level + 1) + (2 ^ level + position) := by
          rw [pow_succ]; ring
        rw [start, leaves _ (by rw [pow_succ]; omega), List.drop_drop]
        congr 3
        ring)
      rw [left, right]
      rfl

end Hasher

end MachineEmulator
