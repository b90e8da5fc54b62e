/-
This file relates every operation of the replay to the same operation on the memory.
-/

import MachineEmulator.Proof.Uarch.ReplaySound

namespace MachineEmulator.Uarch

open Effects

variable {Hash : Type} [DecidableEq Hash] {platform : Word → Nat → Bool} {hasher : Hasher Hash}
  {pristineRam : List Byte} {context next : ReplayContext Hash} {memory : Memory}

section Operations

/-- The operations on one aligned word, whose old data the log must hold. -/
def Op.IsWordAccess : Op → Prop
  | .readReg _ => True
  | .writeReg _ _ => True
  | .readWord paddr => paddr &&& 7 = 0
  | .writeWord paddr _ => paddr &&& 7 = 0
  | .putchar _ => True
  | _ => False

/-- The operations after which the root hash is that of the memory. -/
def Op.IsStateAccess : Op → Prop
  | .readWord paddr => paddr &&& 7 = 0
  | .writeWord paddr _ => paddr &&& 7 = 0
  | .revertState => False
  | _ => True

theorem Op.IsWordAccess.isStateAccess {op : Op} (word : op.IsWordAccess) : op.IsStateAccess := by
  cases op <;> first | exact word | trivial

theorem toNat_address (what : ShadowUarchStateWhat) : what.address.toNat % 8 = 0 := by
  cases what with
  | haltFlag => decide
  | cycle => decide
  | pc => decide
  | x index =>
      have bound := index.isLt
      simp only [ShadowUarchStateWhat.address, shadowUarchStateStart, BitVec.ofNat_eq_ofNat,
        BitVec.toNat_add, BitVec.toNat_mul, BitVec.toNat_setWidth, BitVec.toNat_ofNat]
      omega

end Operations

section Words

variable {paddr : Word}

theorem checkReadWordAccess_sound (collisionFree : hasher.CollisionFree)
    (aligned : paddr.toNat % 8 = 0) (root : context.rootHash = hasher.merkleRoot memory)
    {value : Word}
    (passed : checkReadWordAccess platform hasher paddr context = .ok (value, next)) :
    value = memory.loadWord paddr ∧ next.rootHash = hasher.merkleRoot memory ∧
      next.accesses = context.accesses ∧ (context.BoundSoFar → next.BoundSoFar) := by
  obtain ⟨access, siblings, data, here, _, found, size, _, reached, rfl, rfl⟩ :=
    checkReadWordAccess_ok passed
  rw [root] at reached
  rw [wordOffset_aligned aligned]
  exact ⟨read_word collisionFree aligned size reached, root, rfl,
    fun bound => bound.next here rfl rfl (bound_of_read found)⟩

theorem checkWriteWordAccess_sound (collisionFree : hasher.CollisionFree)
    (aligned : paddr.toNat % 8 = 0) (root : context.rootHash = hasher.merkleRoot memory)
    {value : Word}
    (passed : checkWriteWordAccess platform hasher paddr value context = .ok next) :
    next.rootHash = hasher.merkleRoot (memory.storeWord paddr value) ∧
      next.accesses = context.accesses ∧ (context.BoundSoFar → next.BoundSoFar) := by
  obtain ⟨access, siblings, data, here, found, size, _, _, reached, rfl⟩ :=
    checkWriteWordAccess_ok passed
  rw [root] at reached
  rw [wordOffset_aligned aligned]
  exact ⟨write_word collisionFree aligned value size reached, rfl,
    fun bound => bound.next here rfl rfl (bound_of_read found)⟩

/-- A word operation does the same on the replay and on the memory. -/
theorem replayAccess_word (collisionFree : hasher.CollisionFree) {op : Op}
    (word : op.IsWordAccess) (root : context.rootHash = hasher.merkleRoot memory)
    {answer : op.Answer}
    (passed : replayAccess platform hasher pristineRam op context = .ok (answer, next)) :
    ∃ after, directAccess pristineRam op memory = .ok (answer, after) ∧
      next.rootHash = hasher.merkleRoot after ∧ next.accesses = context.accesses ∧
      (context.BoundSoFar → next.BoundSoFar) := by
  cases op with
  | readReg what =>
      obtain ⟨rfl, kept⟩ := checkReadWordAccess_sound collisionFree (toNat_address what) root passed
      exact ⟨memory, rfl, kept⟩
  | writeReg what value =>
      simp only [replayAccess, bind_ok] at passed
      obtain ⟨moved, written, done⟩ := passed
      cases done
      exact ⟨_, rfl, checkWriteWordAccess_sound collisionFree (toNat_address what) root written⟩
  | readWord paddr =>
      obtain ⟨rfl, kept⟩ := checkReadWordAccess_sound collisionFree (toNat_aligned word) root passed
      exact ⟨memory, bind_ok.mpr ⟨(), check_ok.mpr word, rfl⟩, kept⟩
  | writeWord paddr value =>
      simp only [replayAccess, bind_ok] at passed
      obtain ⟨moved, written, done⟩ := passed
      cases done
      exact ⟨_, bind_ok.mpr ⟨(), check_ok.mpr word, rfl⟩,
        checkWriteWordAccess_sound collisionFree (toNat_aligned word) root written⟩
  | putchar character =>
      cases passed
      exact ⟨memory, rfl, root, rfl, id⟩
  | writeTlb setIndex slotIndex vaddrPage vpOffset pmaIndex => cases word
  | resetUarch => cases word
  | revertState => cases word

theorem checkWriteWordAccess_misplaced (collisionFree : hasher.CollisionFree) {value : Word}
    (misplaced : Misplaced hasher context.rootHash)
    (passed : checkWriteWordAccess platform hasher paddr value context = .ok next) :
    Misplaced hasher next.rootHash := by
  obtain ⟨access, siblings, data, _, _, size, _, inside, reached, rfl⟩ :=
    checkWriteWordAccess_ok passed
  obtain ⟨depth, wrong, found⟩ := misplaced
  rw [← reached] at found
  refine ⟨depth, wrong, ?_⟩
  exact Merkle.LeafAt.replace collisionFree.pair collisionFree.apart siblings
    (hasher.isLeaf_hash size) (hasher.isLeaf_hash (by simp [size]; omega)) found

/-- No word operation moves a misplaced leaf back. -/
theorem replayAccess_misplaced (collisionFree : hasher.CollisionFree) {op : Op}
    (word : op.IsWordAccess) (misplaced : Misplaced hasher context.rootHash) {answer : op.Answer}
    (passed : replayAccess platform hasher pristineRam op context = .ok (answer, next)) :
    Misplaced hasher next.rootHash := by
  cases op with
  | readReg what =>
      obtain ⟨_, _, _, _, _, _, _, _, _, _, rfl⟩ := checkReadWordAccess_ok passed
      exact misplaced
  | writeReg what value =>
      simp only [replayAccess, bind_ok] at passed
      obtain ⟨moved, written, done⟩ := passed
      cases done
      exact checkWriteWordAccess_misplaced collisionFree misplaced written
  | readWord paddr =>
      obtain ⟨_, _, _, _, _, _, _, _, _, _, rfl⟩ := checkReadWordAccess_ok passed
      exact misplaced
  | writeWord paddr value =>
      simp only [replayAccess, bind_ok] at passed
      obtain ⟨moved, written, done⟩ := passed
      cases done
      exact checkWriteWordAccess_misplaced collisionFree misplaced written
  | putchar character =>
      cases passed
      exact misplaced
  | writeTlb setIndex slotIndex vaddrPage vpOffset pmaIndex => cases word
  | resetUarch => cases word
  | revertState => cases word

end Words

section Nodes

theorem toNat_shadowTlbGetAbsAddr (setIndex slotIndex : Word) :
    (shadowTlbGetAbsAddr setIndex slotIndex).toNat % 32 = 0 := by
  simp only [shadowTlbGetAbsAddr, shadowTlbStart, BitVec.ofNat_eq_ofNat, BitVec.toNat_add,
    BitVec.toNat_mul, BitVec.toNat_ofNat]
  omega

theorem length_shadowTlbSlot (vaddrPage vpOffset pmaIndex : Word) :
    (shadowTlbSlot vaddrPage vpOffset pmaIndex).length = 32 := by
  simp [shadowTlbSlot]

/-- Every operation but the revert does the same on the replay and on the memory, or it consumes
an access that is not bound and misplaces a leaf. -/
theorem replayAccess_state (collisionFree : hasher.CollisionFree) {op : Op}
    (state : op.IsStateAccess) (root : context.rootHash = hasher.merkleRoot memory)
    {answer : op.Answer}
    (passed : replayAccess platform hasher pristineRam op context = .ok (answer, next)) :
    next.accesses = context.accesses ∧
      ∃ after, directAccess pristineRam op memory = .ok (answer, after) ∧
        ((next.rootHash = hasher.merkleRoot after ∧ (context.BoundSoFar → next.BoundSoFar)) ∨
          ((∃ access ∈ context.accesses, ¬ access.Bound) ∧ Misplaced hasher next.rootHash)) := by
  by_cases word : op.IsWordAccess
  · obtain ⟨after, same, moved, log, bound⟩ := replayAccess_word collisionFree word root passed
    exact ⟨log, after, same, Or.inl ⟨moved, bound⟩⟩
  cases op with
  | writeTlb setIndex slotIndex vaddrPage vpOffset pmaIndex =>
      have aligned := toNat_shadowTlbGetAbsAddr setIndex slotIndex
      have size := length_shadowTlbSlot vaddrPage vpOffset pmaIndex
      have bound := (shadowTlbGetAbsAddr setIndex slotIndex).isLt
      simp only [replayAccess, bind_ok] at passed
      obtain ⟨slotHash, hashed, moved, written, done⟩ := passed
      cases done
      rw [getAccessHash_word size hashed, ← wordHash_store_whole memory aligned size] at written
      obtain ⟨access, here, log, advanced, outcome⟩ := write_node collisionFree 0
        (memory.store (shadowTlbGetAbsAddr setIndex slotIndex)
          (shadowTlbSlot vaddrPage vpOffset pmaIndex))
        (by
          intro position inside away
          refine wordHash_store_of_disjoint (by omega) inside ?_
          rcases away with before | after <;> omega)
        root written
      exact ⟨log, _, rfl, write_node_state here log advanced outcome⟩
  | resetUarch =>
      simp only [replayAccess, bind_ok] at passed
      obtain ⟨moved, written, done⟩ := passed
      cases done
      rw [getUarchPristineStateHash_eq memory] at written
      obtain ⟨access, here, log, advanced, outcome⟩ := write_node collisionFree 17
        (resetUarch pristineRam memory)
        (by
          intro position inside away
          rw [uarchStateIndex] at away
          exact wordHash_resetUarch_outside inside (by omega))
        root written
      exact ⟨log, _, rfl, write_node_state here log advanced outcome⟩
  | revertState => cases state
  | readReg what => exact absurd trivial word
  | writeReg what value => exact absurd trivial word
  | readWord paddr => exact absurd state word
  | writeWord paddr value => exact absurd state word
  | putchar character => exact absurd trivial word

end Nodes

end MachineEmulator.Uarch
