/-
This file shows what the siblings of one access bind when they reach the root of a memory.
-/

import MachineEmulator.Construction.AccessLog

namespace MachineEmulator

section Addresses

theorem toNat_aligned {paddr : Word} (aligned : paddr &&& 7 = 0) : paddr.toNat % 8 = 0 := by
  have bits : (paddr &&& 7).toNat = 0 := by rw [aligned]; rfl
  rw [BitVec.toNat_and] at bits
  have mask : paddr.toNat &&& 2 ^ 3 - 1 = paddr.toNat % 2 ^ 3 := Nat.and_two_pow_sub_one_eq_mod _ 3
  have seven : (7 : Word).toNat = 2 ^ 3 - 1 := rfl
  rw [seven, mask] at bits
  exact bits

/-- The bits above the tree word name the ancestors of a node. -/
theorem addressBit_follows (platform : Word → Nat → Bool) (address : Word) {level count : Nat}
    (inside : level + count ≤ 59) :
    Merkle.Follows
      (addressBit platform (address &&& ~~~ BitVec.ofNat 64 (hashTreeWordSize - 1)))
      (level + 5) (address.toNat / 2 ^ (level + 5)) count := by
  intro step within
  have small : level + 5 + step < 64 := by omega
  have low : (BitVec.ofNat 64 (hashTreeWordSize - 1)).getLsbD (level + 5 + step) = false := by
    apply Nat.testBit_lt_two_pow
    calc (BitVec.ofNat 64 (hashTreeWordSize - 1)).toNat < 2 ^ 5 := by decide
      _ ≤ 2 ^ (level + 5 + step) := Nat.pow_le_pow_right (by decide) (by omega)
  rw [addressBit, if_pos small, BitVec.getLsbD_and, BitVec.getLsbD_not, low, BitVec.getLsbD,
    Nat.testBit_eq_decide_div_mod_eq, Nat.div_div_eq_div_mul, ← pow_add]
  simp [small]

/-- An address is its tree word and the offset inside it. -/
theorem word_add_offset (address : Word) :
    BitVec.ofNat 64 (32 * (address.toNat / 32)) + BitVec.ofNat 64 (address.toNat % 32) = address := by
  apply BitVec.eq_of_toNat_eq
  have bound := address.isLt
  rw [BitVec.toNat_add, BitVec.toNat_ofNat, BitVec.toNat_ofNat]
  omega

theorem toNat_word (address : Word) :
    (BitVec.ofNat 64 (32 * (address.toNat / 32))).toNat = 32 * (address.toNat / 32) := by
  have bound := address.isLt
  rw [BitVec.toNat_ofNat]
  omega

/-- The mask of the tree words leaves the tree word around an address. -/
theorem and_not_word (address : Word) :
    address &&& ~~~ BitVec.ofNat 64 (hashTreeWordSize - 1) =
      BitVec.ofNat 64 (32 * (address.toNat / 32)) := by
  have bound := address.isLt
  have lowered : (address &&& ~~~ BitVec.ofNat 64 (hashTreeWordSize - 1)) =
      (address >>> 5) <<< 5 := by
    apply BitVec.eq_of_getLsbD_eq
    intro position inside
    have mask : (BitVec.ofNat 64 (hashTreeWordSize - 1)).getLsbD position = decide (position < 5) := by
      rw [BitVec.getLsbD_ofNat]
      have ones : hashTreeWordSize - 1 = 2 ^ 5 - 1 := rfl
      rw [ones, Nat.testBit_two_pow_sub_one]
      simp [inside]
    rw [BitVec.getLsbD_and, BitVec.getLsbD_not, mask, BitVec.getLsbD_shiftLeft,
      BitVec.getLsbD_ushiftRight]
    by_cases low : position < 5
    · simp [low]
    · have back : 5 + (position - 5) = position := by omega
      simp [low, inside, back]
  apply BitVec.eq_of_toNat_eq
  rw [lowered, toNat_word, BitVec.toNat_shiftLeft, BitVec.toNat_ushiftRight,
    Nat.shiftRight_eq_div_pow, Nat.shiftLeft_eq]
  omega

end Addresses

section Nodes

variable {Hash : Type} {platform : Word → Nat → Bool} {hasher : Hasher Hash} {memory : Memory}
  {address : Word} {siblings : List Hash}

/-- The root that siblings reach when an access hangs a hash below them. -/
def siblingRoot (platform : Word → Nat → Bool) (hasher : Hasher Hash) (address : Word)
    (level : Nat) (siblings : List Hash) (hash : Hash) : Hash :=
  Merkle.climb hasher.concatHash
    (addressBit platform (address &&& ~~~ BitVec.ofNat 64 (hashTreeWordSize - 1))) (level + 5)
    siblings hash

theorem root_index (address : Word) {level count : Nat} (whole : level + count = 59) :
    address.toNat / 2 ^ (level + 5) / 2 ^ count = 0 := by
  rw [Nat.div_div_eq_div_mul, ← pow_add]
  apply Nat.div_eq_of_lt
  have exponent : level + 5 + count = 64 := by omega
  rw [exponent]
  exact address.isLt

/-- The right number of siblings binds the hash to the node at the address. -/
theorem siblingRoot_reaches (collisionFree : hasher.CollisionFree) (level : Nat) {hash : Hash}
    (whole : level + siblings.length = 59)
    (reached : siblingRoot platform hasher address level siblings hash = hasher.merkleRoot memory) :
    hash = Merkle.nodeHash hasher.concatHash (hasher.wordHash memory) level
      (address.toNat / 2 ^ (level + 5)) := by
  apply Merkle.climb_reaches collisionFree.pair siblings (level + 5) level
    (address.toNat / 2 ^ (level + 5)) hash (addressBit_follows platform address (by omega))
  rw [whole, root_index address whole]
  exact reached

/-- The right number of siblings carries a change of the node to the root. -/
theorem siblingRoot_replaces (collisionFree : hasher.CollisionFree) (level : Nat) {hash : Hash}
    (changed : Memory) (whole : level + siblings.length = 59)
    (outside : ∀ position < 2 ^ 59,
      (position < address.toNat / 2 ^ (level + 5) * 2 ^ level ∨
        (address.toNat / 2 ^ (level + 5) + 1) * 2 ^ level ≤ position) →
      hasher.wordHash changed position = hasher.wordHash memory position)
    (reached : siblingRoot platform hasher address level siblings hash = hasher.merkleRoot memory) :
    siblingRoot platform hasher address level siblings
      (Merkle.nodeHash hasher.concatHash (hasher.wordHash changed) level
        (address.toNat / 2 ^ (level + 5))) = hasher.merkleRoot changed := by
  have ancestor : siblingRoot platform hasher address level siblings hash =
      Merkle.nodeHash hasher.concatHash (hasher.wordHash memory) (level + siblings.length)
        (address.toNat / 2 ^ (level + 5) / 2 ^ siblings.length) := by
    rw [whole, root_index address whole]
    exact reached
  have replaced := Merkle.climb_replaces collisionFree.pair (hasher.wordHash changed) siblings
    (level + 5) level (address.toNat / 2 ^ (level + 5)) hash
    (addressBit_follows platform address (by omega))
    (by
      intro position away bounded
      rw [whole, root_index address whole] at bounded
      exact outside position (by omega) away)
    ancestor
  rw [whole, root_index address whole] at replaced
  exact replaced

/-- A tree word below the root of a memory is a word of the memory, at any claimed depth. -/
theorem siblingRoot_word (collisionFree : hasher.CollisionFree) {data : List Byte}
    (size : data.length = 32)
    (reached : siblingRoot platform hasher address 0 siblings (hasher.hash data) =
      hasher.merkleRoot memory) :
    siblings.length = 59 ∧
      data = memory.load (BitVec.ofNat 64 (32 * (address.toNat / 32))) 32 := by
  have depth := Merkle.climb_length collisionFree.pair collisionFree.apart
    (hasher.isLeaf_wordHash memory) (.here (hasher.isLeaf_hash size)) reached
  have count : siblings.length = 59 := by omega
  have bound := siblingRoot_reaches collisionFree 0 (by omega) reached
  exact ⟨count, collisionFree.word _ _ size (Memory.length_load _ _ _) bound⟩

/-- Whole data below the root of a memory fixes the number of siblings. -/
theorem siblingRoot_length (collisionFree : hasher.CollisionFree) {level : Nat} {hash : Hash}
    (deep : Merkle.LeafAt hasher.concatHash hasher.IsLeaf level hash)
    (reached : siblingRoot platform hasher address level siblings hash = hasher.merkleRoot memory) :
    level + siblings.length = 59 :=
  Merkle.climb_length collisionFree.pair collisionFree.apart (hasher.isLeaf_wordHash memory) deep
    reached

end Nodes

section Words

variable {Hash : Type} {hasher : Hasher Hash} {memory : Memory} {paddr : Word}

/-- The logged data of a word read holds the word of the memory. -/
theorem loadWord_eq (aligned : paddr.toNat % 8 = 0) :
    wordOfBytes (((memory.load (BitVec.ofNat 64 (32 * (paddr.toNat / 32))) 32).drop
      (paddr.toNat % 32)).take 8) = memory.loadWord paddr := by
  rw [Memory.load_drop_take _ _ (by omega), word_add_offset]
  rfl

/-- The logged data with one word replaced is the tree word after the write. -/
theorem load_storeWord (memory : Memory) (value : Word) (aligned : paddr.toNat % 8 = 0) :
    (memory.storeWord paddr value).load (BitVec.ofNat 64 (32 * (paddr.toNat / 32))) 32 =
      (memory.load (BitVec.ofNat 64 (32 * (paddr.toNat / 32))) 32).take (paddr.toNat % 32) ++
        wordToBytes value ++
        (memory.load (BitVec.ofNat 64 (32 * (paddr.toNat / 32))) 32).drop (paddr.toNat % 32 + 8) := by
  have bound := paddr.isLt
  have covers := Memory.load_store_of_covers memory (BitVec.ofNat 64 (32 * (paddr.toNat / 32)))
    (wordToBytes value) 32 (paddr.toNat % 32) (by simp; omega)
    (by
      rw [toNat_word]
      omega)
  rw [word_add_offset] at covers
  exact covers

/-- A write changes no tree word that it does not meet. -/
theorem wordHash_store_of_disjoint {start : Word} {data : List Byte} {position : Nat}
    (fits : start.toNat + data.length ≤ 2 ^ 64) (inside : position < 2 ^ 59)
    (apart : 32 * position + 32 ≤ start.toNat ∨ start.toNat + data.length ≤ 32 * position) :
    hasher.wordHash (memory.store start data) position = hasher.wordHash memory position := by
  have address : (BitVec.ofNat 64 (32 * position)).toNat = 32 * position := by
    rw [BitVec.toNat_ofNat]
    omega
  rw [Hasher.wordHash, Hasher.wordHash,
    Memory.load_store_of_disjoint _ _ _ _ _ fits (by omega) (by omega)]

/-- A tree word that is written whole has the hash of what is written. -/
theorem wordHash_store_whole (memory : Memory) {start : Word} {data : List Byte} (aligned : start.toNat % 32 = 0)
    (size : data.length = 32) :
    hasher.wordHash (memory.store start data) (start.toNat / 32) = hasher.hash data := by
  have bound := start.isLt
  have whole := Memory.load_store_of_covers memory start data 32 0 (by omega) (by omega)
  have here : start + 0#64 = start := by simp
  rw [here] at whole
  have address : BitVec.ofNat 64 (32 * (start.toNat / 32)) = start := by
    apply BitVec.eq_of_toNat_eq
    rw [toNat_word]
    omega
  rw [Hasher.wordHash, address, whole, List.drop_eq_nil_of_le (by simp [size])]
  simp

/-- The bytes of a node hash to the node. -/
theorem getMerkleTreeHash_load (memory : Memory) {start : Word} {level : Nat}
    (aligned : start.toNat % 2 ^ (level + 5) = 0) :
    hasher.getMerkleTreeHash (memory.load start (2 ^ (level + 5))) =
      some (Merkle.nodeHash hasher.concatHash (hasher.wordHash memory) level
        (start.toNat / 2 ^ (level + 5))) := by
  have whole : start.toNat = 32 * (start.toNat / 2 ^ (level + 5) * 2 ^ level) := by
    have divided := Nat.div_add_mod start.toNat (2 ^ (level + 5))
    rw [aligned, add_zero, pow_add] at divided
    rw [pow_add]
    nlinarith
  apply hasher.getMerkleTreeHash_eq
  · rw [Memory.length_load, pow_add]
    ring
  · intro position inside
    have room : 32 * position + 32 ≤ 2 ^ (level + 5) := by
      rw [pow_add]
      omega
    rw [Memory.load_drop_take _ _ room, Hasher.wordHash, Nat.mul_add, ← whole,
      BitVec.ofNat_add, BitVec.ofNat_toNat, BitVec.setWidth_eq]

/-- A node that is written whole has the tree hash of what is written. -/
theorem nodeHash_store_whole (memory : Memory) {start : Word} {data : List Byte} {level : Nat}
    {value : Hash} (aligned : start.toNat % 2 ^ (level + 5) = 0)
    (size : data.length = 2 ^ (level + 5)) (fits : start.toNat + data.length ≤ 2 ^ 64)
    (hashed : hasher.getMerkleTreeHash data = some value) :
    Merkle.nodeHash hasher.concatHash (hasher.wordHash (memory.store start data)) level
      (start.toNat / 2 ^ (level + 5)) = value := by
  have total : data.length = 32 * 2 ^ level := by rw [size, pow_add]; ring
  have whole : start.toNat = start.toNat / 2 ^ (level + 5) * 2 ^ level * 32 := by
    have divided := Nat.div_add_mod start.toNat (2 ^ (level + 5))
    rw [aligned, add_zero, pow_add] at divided
    rw [pow_add]
    nlinarith
  have node := hasher.getMerkleTreeHash_eq level data total
    (hasher.wordHash (memory.store start data)) (start.toNat / 2 ^ (level + 5)) (by
      intro position inside
      have address : BitVec.ofNat 64
          (32 * (start.toNat / 2 ^ (level + 5) * 2 ^ level + position)) =
          start + BitVec.ofNat 64 (32 * position) := by
        apply BitVec.eq_of_toNat_eq
        rw [BitVec.toNat_add, BitVec.toNat_ofNat, BitVec.toNat_ofNat]
        omega
      rw [Hasher.wordHash, address, Memory.load_store_part _ _ _ (by omega) fits])
  rw [hashed] at node
  exact (Option.some.inj node).symm

/-- A write of a whole node changes no tree word outside it. -/
theorem wordHash_store_outside {start : Word} {data : List Byte} {level position : Nat}
    (aligned : start.toNat % 2 ^ (level + 5) = 0) (size : data.length = 2 ^ (level + 5))
    (fits : start.toNat + data.length ≤ 2 ^ 64) (inside : position < 2 ^ 59)
    (away : position < start.toNat / 2 ^ (level + 5) * 2 ^ level ∨
      (start.toNat / 2 ^ (level + 5) + 1) * 2 ^ level ≤ position) :
    hasher.wordHash (memory.store start data) position = hasher.wordHash memory position := by
  have whole : start.toNat = start.toNat / 2 ^ (level + 5) * 2 ^ level * 32 := by
    have divided := Nat.div_add_mod start.toNat (2 ^ (level + 5))
    rw [aligned, add_zero, pow_add] at divided
    rw [pow_add]
    nlinarith
  have total : data.length = 2 ^ level * 32 := by rw [size, pow_add]; rfl
  refine wordHash_store_of_disjoint fits inside ?_
  rcases away with before | after
  · left
    omega
  · right
    rw [Nat.add_mul, one_mul] at after
    omega

end Words

section Condition

variable {Hash : Type} {hasher : Hasher Hash}

/-- A write that leaves its old data out of the log names a node of the 2^64-byte tree. -/
def Access.Bound (access : Access Hash) : Prop :=
  access.type = .write → access.read = none →
    ∀ siblings ∈ access.siblingHashes, access.proofLog2Size + siblings.length = 64

/-- Some leaf hangs at a wrong depth below the root hash. -/
def Misplaced (hasher : Hasher Hash) (rootHash : Hash) : Prop :=
  ∃ depth, depth ≠ 59 ∧ Merkle.LeafAt hasher.concatHash hasher.IsLeaf depth rootHash

/-- No memory has a misplaced leaf below its root. -/
theorem Misplaced.ne_merkleRoot (collisionFree : hasher.CollisionFree) {rootHash : Hash}
    (misplaced : Misplaced hasher rootHash) (memory : Memory) :
    rootHash ≠ hasher.merkleRoot memory := by
  rintro rfl
  obtain ⟨depth, wrong, found⟩ := misplaced
  exact wrong (Merkle.nodeHash_depth collisionFree.pair collisionFree.apart
    (hasher.isLeaf_wordHash memory) found)

/-- Logged data of a node hides leaves only at the depth of its words. -/
theorem leafAt_data {level : Nat} {data : List Byte} {value : Hash}
    (size : data.length = 2 ^ (level + 5)) (hashed : hasher.getMerkleTreeHash data = some value) :
    Merkle.LeafAt hasher.concatHash hasher.IsLeaf level value := by
  have total : data.length = 32 * 2 ^ level := by rw [size, pow_add]; ring
  let leaf : Nat → Hash := fun position =>
    if position < 2 ^ level then hasher.hash ((data.drop (32 * position)).take 32)
    else hasher.hash (List.replicate 32 0)
  have node := hasher.getMerkleTreeHash_eq level data total leaf 0 (by
    intro position inside
    simp [leaf, inside])
  rw [node] at hashed
  rw [← Option.some.inj hashed]
  refine Merkle.nodeHash_leafAt (fun position => ?_) level 0
  by_cases inside : position < 2 ^ level
  · simp only [leaf, inside, if_true]
    exact hasher.isLeaf_hash (by simp; omega)
  · simp only [leaf, inside, if_false]
    exact hasher.isLeaf_hash (by simp)

theorem bound_of_read {access : Access Hash} {data : List Byte} (found : access.read = some data) :
    access.Bound := by
  intro _ missing
  rw [found] at missing
  cases missing

end Condition

end MachineEmulator
