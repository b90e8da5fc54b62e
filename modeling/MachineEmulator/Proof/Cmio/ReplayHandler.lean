/-
This file relates every operation of a replayed response to the same operation on the memory.
-/

import MachineEmulator.Proof.Cmio.ReplayChecks

namespace MachineEmulator.Cmio

open Effects
open Uarch (iflagsYAddress htifTohostAddress htifFromhostAddress revertRootHashStart)

variable {Hash : Type} [DecidableEq Hash] {platform : Word → Nat → Bool} {hasher : Hasher Hash}
  {context next : ReplayContext Hash} {memory : Memory}

section Operations

/-- The operations on one register, whose old data the log must hold. -/
def Op.IsWordAccess : Op → Prop
  | .readIflagsY => True
  | .writeIflagsY _ => True
  | .readHtifTohost => True
  | .writeHtifFromhost _ => True
  | _ => False

/-- The operations of a response: its padded write starts the receive buffer and fits in it. -/
def Op.IsStateAccess : Op → Prop
  | .writeMemoryWithPadding paddr _ writeLengthLog2Size =>
      paddr = cmioRxBufferStart ∧ 5 ≤ writeLengthLog2Size.toNat ∧ writeLengthLog2Size.toNat ≤ 21
  | _ => True

theorem Op.IsWordAccess.isStateAccess {op : Op} (word : op.IsWordAccess) : op.IsStateAccess := by
  cases op with
  | writeMemoryWithPadding => cases word
  | _ => trivial

end Operations

section Words

variable {paddr : Word}

theorem checkRead_sound (collisionFree : hasher.CollisionFree) (aligned : paddr.toNat % 8 = 0)
    (root : context.rootHash = hasher.merkleRoot memory) {value : Word}
    (passed : checkRead platform hasher paddr context = .ok (value, next)) :
    value = memory.loadWord paddr ∧ next.rootHash = hasher.merkleRoot memory ∧
      next.accesses = context.accesses ∧ (context.BoundSoFar → next.BoundSoFar) := by
  obtain ⟨access, siblings, data, here, found, size, reached, rfl, rfl⟩ := checkRead_ok passed
  rw [root] at reached
  exact ⟨read_word collisionFree aligned size reached, root, rfl,
    fun bound => bound.next here rfl rfl (bound_of_read found)⟩

theorem checkWrite_sound (collisionFree : hasher.CollisionFree) (aligned : paddr.toNat % 8 = 0)
    (root : context.rootHash = hasher.merkleRoot memory) {word : Word}
    (passed : checkWrite platform hasher paddr word context = .ok next) :
    next.rootHash = hasher.merkleRoot (memory.storeWord paddr word) ∧
      next.accesses = context.accesses ∧ (context.BoundSoFar → next.BoundSoFar) := by
  obtain ⟨access, siblings, data, here, found, size, _, reached, rfl⟩ := checkWrite_ok passed
  rw [root] at reached
  exact ⟨write_word collisionFree aligned word size reached, rfl,
    fun bound => bound.next here rfl rfl (bound_of_read found)⟩

theorem checkWrite_misplaced (collisionFree : hasher.CollisionFree) {word : Word}
    (misplaced : Misplaced hasher context.rootHash)
    (passed : checkWrite platform hasher paddr word context = .ok next) :
    Misplaced hasher next.rootHash := by
  obtain ⟨access, siblings, data, _, _, size, inside, reached, rfl⟩ := checkWrite_ok passed
  obtain ⟨depth, wrong, found⟩ := misplaced
  rw [← reached] at found
  refine ⟨depth, wrong, ?_⟩
  exact Merkle.LeafAt.replace collisionFree.pair collisionFree.apart siblings
    (hasher.isLeaf_hash size) (hasher.isLeaf_hash (by simp [size]; omega)) found

/-- A register operation does the same on the replay and on the memory. -/
theorem replayAccess_word (collisionFree : hasher.CollisionFree) {op : Op}
    (word : op.IsWordAccess) (root : context.rootHash = hasher.merkleRoot memory)
    {answer : op.Answer}
    (passed : replayAccess platform hasher op context = .ok (answer, next)) :
    ∃ after, directAccess op memory = .ok (answer, after) ∧
      next.rootHash = hasher.merkleRoot after ∧ next.accesses = context.accesses ∧
      (context.BoundSoFar → next.BoundSoFar) := by
  cases op with
  | readIflagsY =>
      obtain ⟨rfl, kept⟩ := checkRead_sound collisionFree (by decide) root passed
      exact ⟨memory, rfl, kept⟩
  | readHtifTohost =>
      obtain ⟨rfl, kept⟩ := checkRead_sound collisionFree (by decide) root passed
      exact ⟨memory, rfl, kept⟩
  | writeIflagsY value =>
      simp only [replayAccess, bind_ok] at passed
      obtain ⟨moved, written, done⟩ := passed
      cases done
      exact ⟨_, rfl, checkWrite_sound collisionFree (by decide) root written⟩
  | writeHtifFromhost value =>
      simp only [replayAccess, bind_ok] at passed
      obtain ⟨moved, written, done⟩ := passed
      cases done
      exact ⟨_, rfl, checkWrite_sound collisionFree (by decide) root written⟩
  | writeRevertRootHash revertRootHash => cases word
  | writeMemoryWithPadding paddr data writeLengthLog2Size => cases word

/-- No register operation moves a misplaced leaf back. -/
theorem replayAccess_misplaced (collisionFree : hasher.CollisionFree) {op : Op}
    (word : op.IsWordAccess) (misplaced : Misplaced hasher context.rootHash) {answer : op.Answer}
    (passed : replayAccess platform hasher op context = .ok (answer, next)) :
    Misplaced hasher next.rootHash := by
  cases op with
  | readIflagsY =>
      obtain ⟨_, _, _, _, _, _, _, _, rfl⟩ := checkRead_ok passed
      exact misplaced
  | readHtifTohost =>
      obtain ⟨_, _, _, _, _, _, _, _, rfl⟩ := checkRead_ok passed
      exact misplaced
  | writeIflagsY value =>
      simp only [replayAccess, bind_ok] at passed
      obtain ⟨moved, written, done⟩ := passed
      cases done
      exact checkWrite_misplaced collisionFree misplaced written
  | writeHtifFromhost value =>
      simp only [replayAccess, bind_ok] at passed
      obtain ⟨moved, written, done⟩ := passed
      cases done
      exact checkWrite_misplaced collisionFree misplaced written
  | writeRevertRootHash revertRootHash => cases word
  | writeMemoryWithPadding paddr data writeLengthLog2Size => cases word

end Words

section Nodes

theorem length_paddedData {data : List Byte} {log2Size : Nat} (fits : data.length ≤ 2 ^ log2Size) :
    (paddedData data log2Size).length = 2 ^ log2Size := by
  simp [paddedData]
  omega

theorem paddedData_whole {data : List Byte} {log2Size : Nat} (whole : data.length = 2 ^ log2Size) :
    paddedData data log2Size = data := by
  simp [paddedData, whole]

/-- A padded write of a node does what a write of the padded data does, or misplaces its leaves. -/
theorem checkWriteMemoryWithPadding_sound (collisionFree : hasher.CollisionFree) {paddr : Word}
    {data : List Byte} (level : Nat) (aligned : paddr.toNat % 2 ^ (level + 5) = 0)
    (fits : paddr.toNat + 2 ^ (level + 5) ≤ 2 ^ 64)
    (root : context.rootHash = hasher.merkleRoot memory)
    (passed : checkWriteMemoryWithPadding platform hasher paddr data (level + 5) context =
      .ok next) :
    next.accesses = context.accesses ∧ data.length ≤ 2 ^ (level + 5) ∧
      ((next.rootHash = hasher.merkleRoot (memory.store paddr (paddedData data (level + 5))) ∧
          (context.BoundSoFar → next.BoundSoFar)) ∨
        ((∃ access ∈ context.accesses, ¬ access.Bound) ∧ Misplaced hasher next.rootHash)) := by
  obtain ⟨access, siblings, written, here, type, size, present, room, readData, hashed, reached,
    rfl⟩ := checkWriteMemoryWithPadding_ok passed
  have length := length_paddedData room
  rw [root] at reached
  have node := nodeHash_store_whole memory aligned length (length ▸ fits) hashed
  have outcome := node_outcome collisionFree level
    (memory.store paddr (paddedData data (level + 5)))
    (fun position inside away => wordHash_store_outside aligned length (length ▸ fits) inside away)
    type size present readData reached
  rw [node] at outcome
  exact ⟨rfl, room, write_node_state here rfl rfl outcome⟩

theorem cmioRxBufferStart_aligned {level : Nat} (small : level + 5 ≤ 21) :
    cmioRxBufferStart.toNat % 2 ^ (level + 5) = 0 := by
  have divides : 2 ^ (level + 5) ∣ 2 ^ 21 := pow_dvd_pow 2 small
  exact Nat.mod_eq_zero_of_dvd (divides.trans (by decide))

theorem cmioRxBuffer_fits {level : Nat} (small : level + 5 ≤ 21) :
    cmioRxBufferStart.toNat + 2 ^ (level + 5) < 2 ^ 64 := by
  have bound : 2 ^ (level + 5) ≤ 2 ^ 21 := Nat.pow_le_pow_right (by decide) small
  have start : cmioRxBufferStart.toNat = 0x60000000 := rfl
  omega

/-- The copy and the fill of the receive buffer are one write of the padded data. -/
theorem store_padding {data : List Byte} {level : Nat} (small : level + 5 ≤ 21)
    (room : data.length ≤ 2 ^ (level + 5)) :
    (memory.store cmioRxBufferStart data).store
        (cmioRxBufferStart + BitVec.ofNat 64 data.length)
        (List.replicate (2 ^ (level + 5) - data.length) 0) =
      memory.store cmioRxBufferStart (paddedData data (level + 5)) := by
  apply Memory.store_append
  have fits := cmioRxBuffer_fits small
  rw [List.length_replicate]
  omega

/-- Every operation of a response does the same on the replay and on the memory, or it consumes an
access that is not bound and misplaces a leaf. -/
theorem replayAccess_state (collisionFree : hasher.CollisionFree) {op : Op}
    (state : op.IsStateAccess) (root : context.rootHash = hasher.merkleRoot memory)
    {answer : op.Answer}
    (passed : replayAccess platform hasher op context = .ok (answer, next)) :
    next.accesses = context.accesses ∧
      ∃ after, directAccess op memory = .ok (answer, after) ∧
        ((next.rootHash = hasher.merkleRoot after ∧ (context.BoundSoFar → next.BoundSoFar)) ∨
          ((∃ access ∈ context.accesses, ¬ access.Bound) ∧ Misplaced hasher next.rootHash)) := by
  by_cases word : op.IsWordAccess
  · obtain ⟨after, same, moved, log, bound⟩ := replayAccess_word collisionFree word root passed
    exact ⟨log, after, same, Or.inl ⟨moved, bound⟩⟩
  cases op with
  | writeRevertRootHash revertRootHash =>
      simp only [replayAccess, bind_ok] at passed
      obtain ⟨moved, written, done⟩ := passed
      cases done
      obtain ⟨log, _, outcome⟩ := checkWriteMemoryWithPadding_sound collisionFree 0
        (by decide) (by decide) root written
      have whole : paddedData revertRootHash.toList (0 + 5) = revertRootHash.toList :=
        paddedData_whole (by simp)
      rw [whole] at outcome
      exact ⟨log, _, rfl, outcome⟩
  | writeMemoryWithPadding paddr data writeLengthLog2Size =>
      obtain ⟨rfl, lower, upper⟩ := state
      obtain ⟨level, size⟩ := Nat.exists_eq_add_of_le' lower
      simp only [replayAccess, bind_ok, size] at passed
      obtain ⟨moved, written, done⟩ := passed
      cases done
      rw [size] at upper
      obtain ⟨log, room, outcome⟩ := checkWriteMemoryWithPadding_sound collisionFree level
        (cmioRxBufferStart_aligned upper) (cmioRxBuffer_fits upper).le root written
      refine ⟨log, _, ?_, outcome⟩
      simp only [directAccess, size, bind_ok, check_ok]
      exact ⟨(), room, by rw [store_padding upper room]; rfl⟩
  | readIflagsY => exact absurd trivial word
  | writeIflagsY value => exact absurd trivial word
  | readHtifTohost => exact absurd trivial word
  | writeHtifFromhost value => exact absurd trivial word

end Nodes

end MachineEmulator.Cmio
