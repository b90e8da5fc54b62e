/-
This file relates one replayed access to the same access on the memory behind the root hash.
-/

import MachineEmulator.Proof.Uarch.ReplayChecks

namespace MachineEmulator.Uarch

open Effects

variable {Hash : Type} {platform : Word → Nat → Bool} {hasher : Hasher Hash}
  {pristineRam : List Byte}

section Words

variable {memory : Memory} {paddr : Word}

theorem wordOffset_aligned (aligned : paddr.toNat % 8 = 0) : wordOffset paddr = paddr.toNat % 32 := by
  have bound := paddr.isLt
  have kept : (paddr >>> 3) <<< 3 = paddr := by
    apply BitVec.eq_of_toNat_eq
    rw [BitVec.toNat_shiftLeft, BitVec.toNat_ushiftRight, Nat.shiftRight_eq_div_pow,
      Nat.shiftLeft_eq]
    omega
  have lowered : ((paddr >>> 5) <<< 5).toNat = 32 * (paddr.toNat / 32) := by
    rw [BitVec.toNat_shiftLeft, BitVec.toNat_ushiftRight, Nat.shiftRight_eq_div_pow,
      Nat.shiftLeft_eq]
    omega
  rw [wordOffset, kept, BitVec.toNat_sub, lowered]
  omega

end Words

section Reset

variable {memory : Memory}

/-- The reset leaves the words outside the microarchitecture state as they were. -/
theorem wordHash_resetUarch_outside {position : Nat} (inside : position < 2 ^ 59)
    (away : position < 2 ^ 17 ∨ 2 * 2 ^ 17 ≤ position) :
    hasher.wordHash (resetUarch pristineRam memory) position = hasher.wordHash memory position := by
  rw [Hasher.wordHash, Hasher.wordHash]
  congr 1
  apply List.map_congr_left
  intro offset member
  have small : offset < 32 := List.mem_range.mp member
  rw [resetUarch, if_neg]
  simp only [uarchStateStartAddress, uarchStateLog2Size, BitVec.ofNat_eq_ofNat, BitVec.toNat_sub,
    BitVec.toNat_add, BitVec.toNat_ofNat]
  omega

/-- The reset installs the same words in every memory. -/
theorem wordHash_resetUarch_inside (other : Memory) {position : Nat} (lower : 2 ^ 17 ≤ position)
    (upper : position < 2 * 2 ^ 17) :
    hasher.wordHash (resetUarch pristineRam memory) position =
      hasher.wordHash (resetUarch pristineRam other) position := by
  rw [Hasher.wordHash, Hasher.wordHash]
  congr 1
  apply List.map_congr_left
  intro offset member
  have small : offset < 32 := List.mem_range.mp member
  have within : (BitVec.ofNat 64 (32 * position) + BitVec.ofNat 64 offset -
      uarchStateStartAddress).toNat < 2 ^ uarchStateLog2Size := by
    simp only [uarchStateStartAddress, uarchStateLog2Size, BitVec.ofNat_eq_ofNat, BitVec.toNat_sub,
      BitVec.toNat_add, BitVec.toNat_ofNat]
    omega
  simp only [resetUarch, within, if_true]

theorem uarchStateIndex : uarchStateStartAddress.toNat / 2 ^ (17 + 5) = 1 := by decide

/-- The build's constant is the hash of the reset node of any memory. -/
theorem getUarchPristineStateHash_eq (memory : Memory) :
    getUarchPristineStateHash hasher pristineRam =
      Merkle.nodeHash hasher.concatHash (hasher.wordHash (resetUarch pristineRam memory)) 17
        (uarchStateStartAddress.toNat / 2 ^ (17 + 5)) := by
  apply Merkle.nodeHash_congr
  intro position lower upper
  rw [uarchStateLog2Size] at lower upper
  exact wordHash_resetUarch_inside memory (by omega) (by omega)

end Reset

section Nodes

variable [DecidableEq Hash] {context next : ReplayContext Hash} {memory : Memory} {paddr : Word}

/-- A write of a node is a write of the memory when its siblings have the right number, and
misplaces its leaves otherwise. -/
theorem write_node (collisionFree : hasher.CollisionFree) (level : Nat) (changed : Memory)
    (outside : ∀ position < 2 ^ 59,
      (position < paddr.toNat / 2 ^ (level + 5) * 2 ^ level ∨
        (paddr.toNat / 2 ^ (level + 5) + 1) * 2 ^ level ≤ position) →
      hasher.wordHash changed position = hasher.wordHash memory position)
    (root : context.rootHash = hasher.merkleRoot memory)
    (passed : checkWriteAccess platform hasher paddr (level + 5)
      (Merkle.nodeHash hasher.concatHash (hasher.wordHash changed) level
        (paddr.toNat / 2 ^ (level + 5))) context = .ok next) :
    ∃ access, context.accesses[context.nextAccess]? = some access ∧
      next.accesses = context.accesses ∧ next.nextAccess = context.nextAccess + 1 ∧
      ((access.Bound ∧ next.rootHash = hasher.merkleRoot changed) ∨
        (¬ access.Bound ∧ Misplaced hasher next.rootHash)) := by
  obtain ⟨access, siblings, here, type, size, present, readData, reached, rfl⟩ :=
    checkWriteAccess_ok passed
  rw [root] at reached
  exact ⟨access, here, rfl, rfl,
    node_outcome collisionFree level changed outside type size present readData reached⟩

end Nodes

end MachineEmulator.Uarch
