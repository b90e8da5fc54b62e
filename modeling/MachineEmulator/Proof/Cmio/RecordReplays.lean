/-
This file shows that the log of a response leads its replay through the same writes.
-/

import MachineEmulator.Construction.Cmio.LogSendCmioResponse
import MachineEmulator.Proof.Cmio.VerifySound

namespace MachineEmulator.Cmio

open Effects
open Uarch (iflagsYAddress htifTohostAddress htifFromhostAddress revertRootHashStart)

variable {Hash : Type} {hasher : Hasher Hash} {memory : Memory} {log : List (Access Hash)}
  {paddr : Word}

section Entries

theorem leafAligned_eq (paddr : Word) :
    leafAligned paddr = BitVec.ofNat 64 (32 * (paddr.toNat / 32)) := and_not_word paddr

theorem getSiblingHashes_leafAligned (memory : Memory) (paddr : Word) :
    getSiblingHashes hasher memory (leafAligned paddr) hashTreeLog2WordSize =
      Merkle.siblingsOf hasher.concatHash (hasher.wordHash memory) 0 (paddr.toNat / 32) 59 := by
  have index : 32 * (paddr.toNat / 32) / 2 ^ 5 = paddr.toNat / 32 :=
    Nat.mul_div_cancel_left _ (by decide)
  rw [getSiblingHashes, leafAligned_eq, toNat_word, hashTreeLog2WordSize, index]
  rfl

/-- A recorded read logs the honest read of the memory. -/
theorem logRead_eq (aligned : paddr &&& 7 = 0) :
    logRead hasher paddr (memory, log) =
      .ok (memory, log ++ [wordReadAccess hasher memory paddr]) := by
  simp only [logRead, bind_ok]
  refine ⟨(), check_pos aligned, _, getAccessHash_accepts (Memory.length_load _ _ _), ?_⟩
  rw [getSiblingHashes_leafAligned, leafAligned_eq]
  rfl

/-- A recorded write logs the honest write of the memory. -/
theorem logWrite_eq (aligned : paddr &&& 7 = 0) (value : Word) :
    logWrite hasher paddr value (memory, log) =
      .ok (memory.storeWord paddr value, log ++ [wordWriteAccess hasher memory paddr value]) := by
  have offset := toNat_aligned aligned
  have place : (paddr - leafAligned paddr).toNat = paddr.toNat % 32 := leafOffset_eq paddr
  have size : (memory.load (leafAligned paddr) hashTreeWordSize).length = 32 :=
    Memory.length_load _ _ _
  have inside : paddr.toNat % 32 + 8 ≤ (memory.load (leafAligned paddr) hashTreeWordSize).length := by
    omega
  have replaced := load_storeWord memory value offset
  rw [← leafAligned_eq] at replaced
  simp only [logWrite, bind_ok]
  refine ⟨(), check_pos aligned, _, getAccessHash_accepts size,
    (memory.storeWord paddr value).load (leafAligned paddr) 32, ?_, _,
    getAccessHash_accepts (Memory.length_load _ _ _), ?_⟩
  · rw [place, replaced]
    exact bind_ok.mpr ⟨(), check_pos inside, rfl⟩
  · rw [getSiblingHashes_leafAligned, leafAligned_eq]
    rfl

/-- The padded write that a party with the whole memory logs. -/
def paddedWriteAccess (hasher : Hasher Hash) (memory : Memory) (largeData : Bool) (paddr : Word)
    (data : List Byte) (level : Nat) : Access Hash where
  type := .write
  address := paddr
  log2Size := (level + 5 : Nat)
  read := if largeData then some (memory.load paddr (2 ^ (level + 5))) else none
  readHash := Merkle.nodeHash hasher.concatHash (hasher.wordHash memory) level
    (paddr.toNat / 2 ^ (level + 5))
  written := if largeData then
    some ((memory.store paddr (paddedData data (level + 5))).load paddr (2 ^ (level + 5))) else none
  writtenHash := some (Merkle.nodeHash hasher.concatHash
    (hasher.wordHash (memory.store paddr (paddedData data (level + 5)))) level
    (paddr.toNat / 2 ^ (level + 5)))
  siblingHashes := some (Merkle.siblingsOf hasher.concatHash (hasher.wordHash memory) level
    (paddr.toNat / 2 ^ (level + 5)) (59 - level))

variable {level : Nat} {data : List Byte} {largeData : Bool}

/-- A recorded padded write is one write of the padded data. -/
theorem logWriteMemoryWithPadding_eq (room : data.length ≤ 2 ^ (level + 5))
    (aligned : paddr.toNat % 2 ^ (level + 5) = 0) (fits : paddr.toNat + 2 ^ (level + 5) < 2 ^ 64) :
    logWriteMemoryWithPadding hasher largeData paddr data (level + 5) (memory, log) =
      .ok (memory.store paddr (paddedData data (level + 5)),
        log ++ [paddedWriteAccess hasher memory largeData paddr data level]) := by
  have leaf : paddr.toNat % 32 = 0 := by
    have divides : 32 ∣ 2 ^ (level + 5) := ⟨2 ^ level, by rw [pow_add]; ring⟩
    exact Nat.mod_eq_zero_of_dvd (divides.trans (Nat.dvd_of_mod_eq_zero aligned))
  have whole : paddr &&& BitVec.ofNat 64 (hashTreeWordSize - 1) = 0 := by
    apply BitVec.eq_of_toNat_eq
    have mask : (BitVec.ofNat 64 (hashTreeWordSize - 1)).toNat = 2 ^ 5 - 1 := rfl
    rw [BitVec.toNat_and, mask, Nat.and_two_pow_sub_one_eq_mod]
    exact leaf
  have filled : (memory.store paddr data).store (paddr + BitVec.ofNat 64 data.length)
      (List.replicate (2 ^ (level + 5) - data.length) 0) =
      memory.store paddr (paddedData data (level + 5)) := by
    apply Memory.store_append
    rw [List.length_replicate]
    omega
  have count : hashTreeLog2RootSize - (level + 5) = 59 - level := by
    rw [hashTreeLog2RootSize]
    omega
  simp only [logWriteMemoryWithPadding, bind_ok, filled, getSiblingHashes, count]
  refine ⟨(), check_pos whole, (), check_pos room, _,
    getAccessHash_ok.mpr (getMerkleTreeHash_load _ aligned), ?_⟩
  rfl

variable [DecidableEq Hash] {platform : Word → Nat → Bool} {context : ReplayContext Hash}

/-- The logged padded write passes and moves to the root of the written memory. -/
theorem checkWriteMemoryWithPadding_logged (inside : level ≤ 59)
    (room : data.length ≤ 2 ^ (level + 5)) (aligned : paddr.toNat % 2 ^ (level + 5) = 0)
    (fits : paddr.toNat + 2 ^ (level + 5) < 2 ^ 64)
    (here : context.accesses[context.nextAccess]? =
      some (paddedWriteAccess hasher memory largeData paddr data level))
    (root : context.rootHash = hasher.merkleRoot memory) :
    checkWriteMemoryWithPadding platform hasher paddr data (level + 5) context =
      .ok ⟨context.accesses, context.nextAccess + 1,
        hasher.merkleRoot (memory.store paddr (paddedData data (level + 5)))⟩ := by
  have size := length_paddedData room
  have reached := siblingRoot_siblingsOf hasher memory paddr platform level inside
  have read : hasher.getMerkleTreeHash (memory.load paddr (2 ^ (level + 5))) = _ :=
    getMerkleTreeHash_load memory aligned
  have written : hasher.getMerkleTreeHash
      ((memory.store paddr (paddedData data (level + 5))).load paddr (2 ^ (level + 5))) = _ :=
    getMerkleTreeHash_load _ aligned
  have hashed := written
  rw [Memory.load_store_whole _ _ size (by omega)] at hashed
  rw [← siblingRoot_store_whole hasher memory paddr platform inside aligned size fits.le hashed]
  apply checkWriteMemoryWithPadding_accepts room here rfl rfl rfl
  · intro found member
    simp only [paddedWriteAccess, Option.mem_ite_none_right, Option.mem_some_iff] at member
    rw [← member.2, Memory.length_load]
  · intro found member
    simp only [paddedWriteAccess, Option.mem_ite_none_right, Option.mem_some_iff] at member
    rw [← member.2, read]
    rfl
  · intro found member
    simp only [paddedWriteAccess, Option.mem_ite_none_right, Option.mem_some_iff] at member
    rw [← member.2, Memory.length_load]
  · intro found member
    simp only [paddedWriteAccess, Option.mem_ite_none_right, Option.mem_some_iff] at member
    rw [← member.2, written]
  · rfl
  · exact hashed
  · rfl
  · exact reached.trans root.symm

end Entries

section Run

variable {platform : Word → Nat → Bool} {largeData : Bool}

/-- The replay stands before a memory, with a part of its log still to come. -/
def Stands (hasher : Hasher Hash) (memory : Memory) (rest : List (Access Hash))
    (context : ReplayContext Hash) : Prop :=
  context.accesses.drop context.nextAccess = rest ∧ context.nextAccess ≤ context.accesses.length ∧
    context.rootHash = hasher.merkleRoot memory

theorem Stands.here {access : Access Hash} {rest : List (Access Hash)}
    {context : ReplayContext Hash} (stands : Stands hasher memory ([access] ++ rest) context) :
    context.accesses[context.nextAccess]? = some access := by
  have first := congrArg (fun entries => entries[0]?) stands.1
  simpa [List.getElem?_drop] using first

/-- The replay moves on by one access. -/
theorem Stands.move {access : Access Hash} {rest : List (Access Hash)}
    {context : ReplayContext Hash} (next : Memory)
    (stands : Stands hasher memory ([access] ++ rest) context) :
    Stands hasher next rest
      ⟨context.accesses, context.nextAccess + 1, hasher.merkleRoot next⟩ := by
  refine ⟨?_, ?_, rfl⟩
  · have later := congrArg List.tail stands.1
    simpa [List.tail_drop] using later
  · have some := List.getElem?_eq_some_iff.mp stands.here
    exact some.1

theorem Stands.advance {access : Access Hash} {rest : List (Access Hash)}
    {context : ReplayContext Hash} (stands : Stands hasher memory ([access] ++ rest) context) :
    Stands hasher memory rest context.advance := by
  have moved := stands.move memory
  rw [← stands.2.2] at moved
  exact moved

variable [DecidableEq Hash]

/-- A logged read is replayed with the word of the memory. -/
theorem read_records (aligned : paddr &&& 7 = 0) (rest : List (Access Hash))
    (context : ReplayContext Hash)
    (stands : Stands hasher memory ([wordReadAccess hasher memory paddr] ++ rest) context) :
    ∃ moved, checkRead platform hasher paddr context = .ok (memory.loadWord paddr, moved) ∧
      Stands hasher memory rest moved :=
  ⟨_, checkRead_honest aligned stands.here stands.2.2, stands.advance⟩

/-- A logged write is replayed with the root of the written memory. -/
theorem write_records (aligned : paddr &&& 7 = 0) (value : Word) (rest : List (Access Hash))
    (context : ReplayContext Hash)
    (stands : Stands hasher memory ([wordWriteAccess hasher memory paddr value] ++ rest) context) :
    ∃ moved, checkWrite platform hasher paddr value context = .ok moved ∧
      Stands hasher (memory.storeWord paddr value) rest moved :=
  ⟨_, checkWrite_honest aligned stands.here stands.2.2, stands.move _⟩

/-- A logged padded write is replayed with the root of the written memory. -/
theorem padded_records {level : Nat} {data : List Byte} (inside : level ≤ 59)
    (room : data.length ≤ 2 ^ (level + 5)) (aligned : paddr.toNat % 2 ^ (level + 5) = 0)
    (fits : paddr.toNat + 2 ^ (level + 5) < 2 ^ 64) (rest : List (Access Hash))
    (context : ReplayContext Hash)
    (stands : Stands hasher memory
      ([paddedWriteAccess hasher memory largeData paddr data level] ++ rest) context) :
    ∃ moved, checkWriteMemoryWithPadding platform hasher paddr data (level + 5) context =
        .ok moved ∧
      Stands hasher (memory.store paddr (paddedData data (level + 5))) rest moved :=
  ⟨_, checkWriteMemoryWithPadding_logged inside room aligned fits stands.here stands.2.2,
    stands.move _⟩

/-- Every operation of a response logs the access with which its replay does the same. -/
theorem recordAccess_records (hasher : Hasher Hash) (platform : Word → Nat → Bool)
    (largeData : Bool) :
    Records Op.IsStateAccess directAccess (recordAccess hasher largeData)
      (replayAccess platform hasher) (Stands hasher) := by
  intro op memory answer next state ran
  cases op with
  | readIflagsY =>
      cases ran
      refine ⟨_, fun log => bind_ok.mpr ⟨_, logRead_eq (by decide), rfl⟩, ?_⟩
      intro rest context stands
      exact read_records (by decide) rest context stands
  | readHtifTohost =>
      cases ran
      refine ⟨_, fun log => bind_ok.mpr ⟨_, logRead_eq (by decide), rfl⟩, ?_⟩
      intro rest context stands
      exact read_records (by decide) rest context stands
  | writeIflagsY value =>
      cases ran
      refine ⟨_, fun log => bind_ok.mpr ⟨_, logWrite_eq (by decide) value, rfl⟩, ?_⟩
      intro rest context stands
      obtain ⟨moved, written, stays⟩ := write_records (by decide) value rest context stands
      exact ⟨moved, bind_ok.mpr ⟨moved, written, rfl⟩, stays⟩
  | writeHtifFromhost value =>
      cases ran
      refine ⟨_, fun log => bind_ok.mpr ⟨_, logWrite_eq (by decide) value, rfl⟩, ?_⟩
      intro rest context stands
      obtain ⟨moved, written, stays⟩ := write_records (by decide) value rest context stands
      exact ⟨moved, bind_ok.mpr ⟨moved, written, rfl⟩, stays⟩
  | writeRevertRootHash revertRootHash =>
      cases ran
      have room : revertRootHash.toList.length ≤ 2 ^ (0 + 5) := by simp
      have whole : paddedData revertRootHash.toList (0 + 5) = revertRootHash.toList :=
        paddedData_whole (by simp)
      refine ⟨[paddedWriteAccess hasher memory largeData revertRootHashStart
        revertRootHash.toList 0], fun log => bind_ok.mpr ⟨_, ?_, rfl⟩, ?_⟩
      · have logged : logWriteMemoryWithPadding hasher largeData revertRootHashStart
            revertRootHash.toList (0 + 5) (memory, log) = _ :=
          logWriteMemoryWithPadding_eq room (by decide) (by decide)
        rw [whole] at logged
        exact logged
      · intro rest context stands
        obtain ⟨moved, written, stays⟩ := padded_records (by decide) room (by decide) (by decide)
          rest context stands
        rw [whole] at stays
        exact ⟨moved, bind_ok.mpr ⟨moved, written, rfl⟩, stays⟩
  | writeMemoryWithPadding paddr data writeLengthLog2Size =>
      obtain ⟨rfl, lower, upper⟩ := state
      obtain ⟨level, size⟩ := Nat.exists_eq_add_of_le' lower
      rw [size] at upper
      simp only [directAccess, size, bind_ok, check_ok] at ran
      obtain ⟨_, room, ran⟩ := ran
      rw [store_padding upper room] at ran
      cases ran
      have aligned := cmioRxBufferStart_aligned upper
      have fits := cmioRxBuffer_fits upper
      refine ⟨[paddedWriteAccess hasher memory largeData cmioRxBufferStart data level],
        fun log => ?_, ?_⟩
      · simp only [recordAccess, size, bind_ok]
        exact ⟨_, logWriteMemoryWithPadding_eq room aligned fits, rfl⟩
      · intro rest context stands
        obtain ⟨moved, written, stays⟩ := padded_records (by omega) room aligned fits rest context
          stands
        refine ⟨moved, ?_, stays⟩
        simp only [replayAccess, size, bind_ok]
        exact ⟨moved, written, rfl⟩

end Run

end MachineEmulator.Cmio
