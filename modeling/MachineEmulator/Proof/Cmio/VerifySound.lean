/-
This file shows when the accepted logs of a response are sound.
-/

import MachineEmulator.Construction.SymbolicHasher
import MachineEmulator.Proof.Cmio.ReplayAccepts

namespace MachineEmulator.Cmio

open Effects
open Uarch (iflagsYAddress htifTohostAddress htifFromhostAddress revertRootHashStart uint32Log2
  uint32ShiftLeft)

section Length

theorem uint32Log2_lt (value : BitVec 32) : (uint32Log2 value).toNat < 32 := by
  have small : value.toNat.log2 < 32 := by
    rcases Nat.eq_zero_or_pos value.toNat with zero | positive
    · rw [zero]
      decide
    · exact (Nat.log2_lt positive.ne').mpr value.isLt
  rw [uint32Log2, BitVec.toNat_ofNat]
  omega

/-- A padded write has at least the size of a tree word. -/
theorem le_getWriteLengthLog2Size (dataLength : BitVec 32) :
    5 ≤ (getWriteLengthLog2Size dataLength).toNat := by
  have bound := uint32Log2_lt dataLength
  have five : (5 : BitVec 32).toNat = 5 := rfl
  have one : (1 : BitVec 32).toNat = 1 := rfl
  simp only [getWriteLengthLog2Size]
  split <;> split <;> simp only [BitVec.lt_def, BitVec.toNat_add, five, one] at * <;> omega

end Length

section Calls

/-- The data of a response that is not a no-op fits in the receive buffer. -/
theorem writeResponseData_calls (data : List Byte) (dataLength : BitVec 32)
    (fits : ¬ (0 < dataLength ∧ cmioRxBufferLog2Size < getWriteLengthLog2Size dataLength)) :
    (writeResponseData data dataLength (getWriteLengthLog2Size dataLength)).Calls
      Op.IsStateAccess := by
  unfold writeResponseData
  split
  · next positive =>
      have upper : ¬ cmioRxBufferLog2Size < getWriteLengthLog2Size dataLength :=
        fun large => fits ⟨positive, large⟩
      rw [BitVec.lt_def, Nat.not_lt] at upper
      exact .perform ⟨rfl, le_getWriteLengthLog2Size dataLength, upper⟩
  · trivial

theorem applyResponse_calls (revertRootHash : Vector Byte 32) (reason : BitVec 16)
    (data : List Byte) (dataLength : BitVec 32)
    (fits : ¬ (0 < dataLength ∧ cmioRxBufferLog2Size < getWriteLengthLog2Size dataLength)) :
    (applyResponse revertRootHash reason data dataLength
      (getWriteLengthLog2Size dataLength)).Calls Op.IsStateAccess := by
  refine Program.Calls.bind (.perform trivial) fun _ => ?_
  refine (writeResponseData_calls data dataLength fits).bind fun _ => ?_
  refine Program.Calls.bind (.perform trivial) fun _ => ?_
  exact .perform trivial

theorem isWaiting_calls (reason : BitVec 16) : (isWaiting reason).Calls Op.IsWordAccess := by
  unfold isWaiting
  split
  · exact Program.Calls.bind (.perform trivial) fun _ => trivial
  · trivial

theorem sendCmioResponse_calls (revertRootHash : Vector Byte 32) (reason : BitVec 16)
    (data : List Byte) (length : Word) :
    (sendCmioResponse revertRootHash reason data length).Calls Op.IsStateAccess := by
  refine Program.Calls.bind (.perform trivial) fun iflagsY => ?_
  split
  · trivial
  refine ((isWaiting_calls reason).mono fun op word => word.isStateAccess).bind fun waiting => ?_
  split
  · trivial
  split
  · trivial
  · next fits => exact applyResponse_calls revertRootHash reason data _ fits

end Calls

variable {Hash : Type} {platform : Word → Nat → Bool} {hasher : Hasher Hash}
  {context next : ReplayContext Hash} {memory : Memory} {log : List (Access Hash)}
  {revertRootHash : Vector Byte 32} {reason : BitVec 16} {data : List Byte}
  {rootHashAfter : Option Hash} {rootHash : Hash}

section Paths

/-- The bits of an address as the walk from its tree word to the root reads them. -/
abbrev turnsOf (platform : Word → Nat → Bool) (address : Word) : Nat → Bool :=
  addressBit platform (address &&& ~~~ BitVec.ofNat 64 (hashTreeWordSize - 1))

/-- A leaf lies too high on the way to the revert root hash. -/
def Stray (platform : Word → Nat → Bool) (hasher : Hasher Hash) (rootHash : Hash) : Prop :=
  ∃ count < 59, Merkle.LeafAlong hasher.concatHash hasher.IsLeaf
    (Merkle.walkPath (turnsOf platform revertRootHashStart) 5 count) rootHash

theorem Stray.misplaced (stray : Stray platform hasher rootHash) : Misplaced hasher rootHash := by
  obtain ⟨count, short, along⟩ := stray
  refine ⟨count, by omega, ?_⟩
  have found := along.leafAt
  rwa [Merkle.length_walkPath] at found

theorem revertRootHashStart_bit {position : Nat} (lower : 14 ≤ position) (upper : position < 30) :
    turnsOf platform revertRootHashStart position = false := by
  rw [turnsOf, addressBit, if_pos (by omega)]
  interval_cases position <;> decide

theorem cmioRxBufferStart_bit : turnsOf platform cmioRxBufferStart 30 = true := by
  rw [turnsOf, addressBit, if_pos (by omega)]
  decide

/-- The way to the receive buffer leaves the way to the revert root hash above both. -/
theorem cmioRxBuffer_path {level length count : Nat} (whole : level + length = 59)
    (small : level + 5 ≤ 21) (short : count < 59) :
    ¬ Merkle.walkPath (turnsOf platform cmioRxBufferStart) (level + 5) length <+:
      Merkle.walkPath (turnsOf platform revertRootHashStart) 5 count := by
  intro prefixed
  have longer := prefixed.length_le
  rw [Merkle.length_walkPath, Merkle.length_walkPath] at longer
  have here : (Merkle.walkPath (turnsOf platform cmioRxBufferStart) (level + 5) length)[33]? =
      some (turnsOf platform cmioRxBufferStart (level + 5 + (length - 1 - 33))) :=
    Merkle.getElem?_walkPath (by omega)
  have there : (Merkle.walkPath (turnsOf platform revertRootHashStart) 5 count)[33]? =
      some (turnsOf platform revertRootHashStart (5 + (count - 1 - 33))) :=
    Merkle.getElem?_walkPath (by omega)
  have above : level + 5 + (length - 1 - 33) = 30 := by omega
  rw [above, cmioRxBufferStart_bit] at here
  rw [revertRootHashStart_bit (by omega) (by omega)] at there
  obtain ⟨rest, same⟩ := prefixed
  rw [← same, List.getElem?_append_left (by rw [Merkle.length_walkPath]; omega), here] at there
  cases there

end Paths

section Writes

variable [DecidableEq Hash]

/-- The write of the revert root hash stays faithful or leaves its leaf too high. -/
theorem writeRevertRootHash_faithful_or_stray (collisionFree : hasher.CollisionFree)
    (faithful : Faithful hasher log context) {answer : Unit}
    (passed : replayAccess platform hasher (.writeRevertRootHash revertRootHash) context =
      .ok (answer, next)) :
    Faithful hasher log next ∨ Stray platform hasher next.rootHash := by
  obtain ⟨rfl, bound, memory, root⟩ := faithful
  have state : (Op.writeRevertRootHash revertRootHash).IsStateAccess := trivial
  obtain ⟨same, after, _, ⟨moved, kept⟩ | ⟨_, misplaced⟩⟩ :=
    replayAccess_state collisionFree state root passed
  · exact Or.inl ⟨same, kept bound, after, moved⟩
  · simp only [replayAccess, bind_ok] at passed
    obtain ⟨middle, written, done⟩ := passed
    cases done
    have node : checkWriteMemoryWithPadding platform hasher revertRootHashStart
      revertRootHash.toList (0 + 5) context = .ok next := written
    obtain ⟨access, siblings, writtenHash, _, _, _, _, room, _, hashed, reached, rfl⟩ :=
      checkWriteMemoryWithPadding_ok node
    have leaf : hasher.IsLeaf writtenHash := by
      have size := length_paddedData room
      rw [hasher.getMerkleTreeHash_word size] at hashed
      rw [← Option.some.inj hashed]
      exact hasher.isLeaf_hash size
    have along : Merkle.LeafAlong hasher.concatHash hasher.IsLeaf
        (Merkle.walkPath (turnsOf platform revertRootHashStart) 5 siblings.length)
        (siblingRoot platform hasher revertRootHashStart 0 siblings writtenHash) :=
      Merkle.leafAlong_climb siblings 5 leaf
    rw [root] at reached
    have short := Merkle.climb_length_le collisionFree.pair collisionFree.apart
      (hasher.isLeaf_wordHash memory) siblings reached
    refine Or.inr ⟨siblings.length, lt_of_le_of_ne short ?_, along⟩
    intro whole
    have old := siblingRoot_reaches collisionFree 0 (by omega) reached
    have leaf' : hasher.IsLeaf access.readHash := old ▸ hasher.isLeaf_wordHash memory _
    obtain ⟨depth, wrong, found⟩ := misplaced
    have back := Merkle.LeafAt.replace collisionFree.pair collisionFree.apart siblings leaf leaf'
      found
    exact Misplaced.ne_merkleRoot collisionFree ⟨depth, wrong, back⟩ memory reached

/-- A padded write of the receive buffer moves no stray leaf back. -/
theorem writeMemoryWithPadding_stray (collisionFree : hasher.CollisionFree) {paddr : Word}
    {size : BitVec 32} (state : (Op.writeMemoryWithPadding paddr data size).IsStateAccess)
    (stray : Stray platform hasher context.rootHash) {answer : Unit}
    (passed : replayAccess platform hasher (.writeMemoryWithPadding paddr data size) context =
      .ok (answer, next)) :
    Misplaced hasher next.rootHash := by
  obtain ⟨rfl, lower, upper⟩ := state
  obtain ⟨level, same⟩ := Nat.exists_eq_add_of_le' lower
  simp only [replayAccess, bind_ok, same] at passed
  obtain ⟨moved, written, done⟩ := passed
  cases done
  rw [same] at upper
  obtain ⟨access, siblings, writtenHash, _, _, _, _, room, _, hashed, reached, rfl⟩ :=
    checkWriteMemoryWithPadding_ok written
  by_cases whole : level + siblings.length = 59
  · obtain ⟨count, short, along⟩ := stray
    rw [← reached] at along
    have kept : Stray platform hasher
        (siblingRoot platform hasher cmioRxBufferStart level siblings writtenHash) :=
      ⟨count, short, along.climb_other collisionFree.pair collisionFree.apart siblings
        (cmioRxBuffer_path whole upper short)⟩
    exact kept.misplaced
  · exact ⟨level + siblings.length, whole,
      (leafAt_data (length_paddedData room) hashed).climb _ _ siblings⟩

end Writes

section Runs

variable [DecidableEq Hash] {A : Type} {code : Action A} {result : A}

theorem replayAccess_simulates (collisionFree : hasher.CollisionFree) :
    Simulates Op.IsStateAccess (replayAccess platform hasher) directAccess (Tracks hasher) := by
  intro op context memory answer next state tracks passed
  obtain ⟨log, after, same, ⟨root, _⟩ | ⟨⟨access, member, wrong⟩, _⟩⟩ :=
    replayAccess_state collisionFree state tracks.1 passed
  · exact ⟨after, same, root, log ▸ tracks.2⟩
  · exact absurd (tracks.2 access member) wrong

theorem replay_words_faithful (collisionFree : hasher.CollisionFree)
    (calls : code.Calls Op.IsWordAccess) (start : Faithful hasher log context)
    (ran : code.run (replayAccess platform hasher) context = .ok (result, next)) :
    Faithful hasher log next := by
  refine Program.run_invariant (Faithful hasher log) ?_ calls start ran
  rintro op state answer moved word ⟨rfl, bound, memory, root⟩ passed
  obtain ⟨after, _, root, log, kept⟩ := replayAccess_word collisionFree word root passed
  exact ⟨log, kept bound, after, root⟩

theorem replay_words_misplaced (collisionFree : hasher.CollisionFree)
    (calls : code.Calls Op.IsWordAccess) (start : Misplaced hasher context.rootHash)
    (ran : code.run (replayAccess platform hasher) context = .ok (result, next)) :
    Misplaced hasher next.rootHash := by
  refine Program.run_invariant (fun context => Misplaced hasher context.rootHash) ?_ calls start ran
  intro op state answer moved word misplaced passed
  exact replayAccess_misplaced collisionFree word misplaced passed

/-- The data write of a response, after a faithful replay or after a stray revert root hash. -/
theorem writeResponseData_outcome (collisionFree : hasher.CollisionFree) {dataLength : BitVec 32}
    (fits : ¬ (0 < dataLength ∧ cmioRxBufferLog2Size < getWriteLengthLog2Size dataLength))
    (start : Faithful hasher log context ∨ Stray platform hasher context.rootHash) {answer : Unit}
    (ran : (writeResponseData data dataLength (getWriteLengthLog2Size dataLength)).run
      (replayAccess platform hasher) context = .ok (answer, next)) :
    Faithful hasher log next ∨ Misplaced hasher next.rootHash := by
  have calls := writeResponseData_calls data dataLength fits
  unfold writeResponseData at ran calls
  split at ran
  · next positive =>
      rw [if_pos positive] at calls
      rw [perform, Program.run_perform] at ran
      rcases start with ⟨rfl, bound, memory, root⟩ | stray
      · obtain ⟨same, after, _, ⟨moved, kept⟩ | ⟨_, misplaced⟩⟩ :=
          replayAccess_state collisionFree calls.1 root ran
        · exact Or.inl ⟨same, kept bound, after, moved⟩
        · exact Or.inr misplaced
      · exact Or.inr (writeMemoryWithPadding_stray collisionFree calls.1 stray ran)
  · cases ran
    exact start.imp_right Stray.misplaced

theorem applyResponse_outcome (collisionFree : hasher.CollisionFree) {dataLength : BitVec 32}
    (fits : ¬ (0 < dataLength ∧ cmioRxBufferLog2Size < getWriteLengthLog2Size dataLength))
    (start : Faithful hasher log context) {answer : Unit}
    (ran : (applyResponse revertRootHash reason data dataLength
      (getWriteLengthLog2Size dataLength)).run (replayAccess platform hasher) context =
        .ok (answer, next)) :
    Faithful hasher log next ∨ Misplaced hasher next.rootHash := by
  obtain ⟨_, first, reverts, rest⟩ := (Program.run_bind_ok _).mp ran
  obtain ⟨_, second, writes, rest⟩ := (Program.run_bind_ok _).mp rest
  rw [perform, Program.run_perform] at reverts
  have recorded := writeRevertRootHash_faithful_or_stray collisionFree start reverts
  have written := writeResponseData_outcome collisionFree fits recorded writes
  have words : ∀ yieldData, (perform (.writeHtifFromhost yieldData) >>= fun _ =>
      perform (.writeIflagsY 0)).Calls Op.IsWordAccess :=
    fun _ => Program.Calls.bind (.perform trivial) fun _ => .perform trivial
  rcases written with faithful | misplaced
  · exact Or.inl (replay_words_faithful collisionFree (words _) faithful rest)
  · exact Or.inr (replay_words_misplaced collisionFree (words _) misplaced rest)

/-- A replayed response stays faithful or ends at a hash of no memory. -/
theorem sendCmioResponse_outcome (collisionFree : hasher.CollisionFree) {length : Word}
    (start : Faithful hasher log context) {answer : Unit}
    (ran : (sendCmioResponse revertRootHash reason data length).run (replayAccess platform hasher)
      context = .ok (answer, next)) :
    Faithful hasher log next ∨ Misplaced hasher next.rootHash := by
  obtain ⟨iflagsY, first, reads, rest⟩ := (Program.run_bind_ok _).mp ran
  have word : Op.readIflagsY.IsWordAccess := trivial
  have read : Faithful hasher log first :=
    replay_words_faithful collisionFree (.perform word) start reads
  split at rest
  · cases rest
    exact Or.inl read
  obtain ⟨waiting, second, waits, rest⟩ := (Program.run_bind_ok _).mp rest
  have waited := replay_words_faithful collisionFree (isWaiting_calls reason) read waits
  split at rest
  · cases rest
    exact Or.inl waited
  split at rest
  · cases rest
    exact Or.inl waited
  · next fits => exact applyResponse_outcome collisionFree fits waited rest

end Runs

section Verification

variable [DecidableEq Hash]

theorem verifySendCmioResponse_ok {rootHashBefore : Hash}
    (accepted : verifySendCmioResponse platform hasher revertRootHash reason data rootHashBefore log
      rootHashAfter = .ok rootHash) :
    ∃ context, (sendCmioResponse revertRootHash reason data (BitVec.ofNat 64 data.length)).run
        (replayAccess platform hasher) ⟨log, 0, rootHashBefore⟩ = .ok ((), context) ∧
      context.nextAccess = context.accesses.length ∧ context.rootHash = rootHash := by
  simp only [verifySendCmioResponse, ReplayContext.finish, bind_ok, check_ok] at accepted
  obtain ⟨_, _, ⟨_, context⟩, ran, obtained, ⟨_, consumed, finished⟩, _, _, done⟩ := accepted
  cases finished
  cases done
  exact ⟨context, ran, consumed, rfl⟩

/-- An accepted log of a response gives the root of the memory that received it exactly when each
of its writes without old data carries the siblings of a node of the 2^64-byte tree. -/
theorem verifySendCmioResponse_sound (collisionFree : hasher.CollisionFree)
    (accepted : verifySendCmioResponse platform hasher revertRootHash reason data
      (hasher.merkleRoot memory) log rootHashAfter = .ok rootHash) :
    (∃ after, respondMemory revertRootHash reason data memory = .ok ((), after) ∧
      rootHash = hasher.merkleRoot after) ↔ ∀ access ∈ log, access.Bound := by
  obtain ⟨context, ran, consumed, rfl⟩ := verifySendCmioResponse_ok accepted
  constructor
  · rintro ⟨after, _, root⟩
    rcases sendCmioResponse_outcome collisionFree (Faithful.start memory log) ran with
      faithful | misplaced
    · exact faithful.all_bound consumed
    · exact absurd root (misplaced.ne_merkleRoot collisionFree after)
  · intro bound
    obtain ⟨after, responded, root, _⟩ := (replayAccess_simulates collisionFree).run
      (sendCmioResponse_calls revertRootHash reason data _) ⟨rfl, bound⟩ ran
    exact ⟨after, responded, root⟩

end Verification

section Instances

/-- A memory whose machine waits on a manual yield. -/
def yieldedMemory : Memory := zeroMemory.storeWord iflagsYAddress 1

def noRootHash : Vector Byte 32 := Vector.replicate 32 0

/-- What the host finds after a response of reason 1 without data. -/
def emptyResponse : Word := 0x100000000

def revertedMemory : Memory := yieldedMemory.store revertRootHashStart (paddedData noRootHash.toList 5)

def answeredMemory : Memory := revertedMemory.storeWord htifFromhostAddress emptyResponse

/-- The honest log of a response of reason 1 without data. -/
def responseLog : List (Access Digest) :=
  [wordReadAccess symbolicHasher yieldedMemory iflagsYAddress,
    nodeWriteAccess symbolicHasher yieldedMemory revertRootHashStart 0 (.word noRootHash.toList),
    wordWriteAccess symbolicHasher revertedMemory htifFromhostAddress emptyResponse,
    wordWriteAccess symbolicHasher answeredMemory iflagsYAddress 0]

/-- A word write below a root that is one leaf. -/
def leafWriteAccess (paddr : Word) (old new : List Byte) : Access Digest where
  type := .write
  address := paddr
  log2Size := 3
  read := some old
  readHash := .word old
  written := some new
  writtenHash := some (.word new)
  siblingHashes := some []

def forgedAnswer : List Byte := List.replicate 16 0 ++ wordToBytes emptyResponse ++ List.replicate 8 0

/-- A log of a response whose revert root hash replaces the whole memory. -/
def forgedResponseLog : List (Access Digest) :=
  [wordReadAccess symbolicHasher yieldedMemory iflagsYAddress,
    { type := .write
      address := revertRootHashStart
      log2Size := 5
      read := none
      readHash := symbolicHasher.merkleRoot yieldedMemory
      written := none
      writtenHash := some (.word noRootHash.toList)
      siblingHashes := some [] },
    leafWriteAccess htifFromhostAddress noRootHash.toList forgedAnswer,
    leafWriteAccess iflagsYAddress forgedAnswer forgedAnswer]

/-- A response of reason 1 without data is a read and three writes. -/
theorem verifySendCmioResponse_accepts {rootHashBefore : Digest} {log : List (Access Digest)}
    {first second third fourth : ReplayContext Digest} (filled : log ≠ [])
    (reads : checkRead noBits symbolicHasher iflagsYAddress ⟨log, 0, rootHashBefore⟩ =
      .ok (1, first))
    (reverts : checkWriteMemoryWithPadding noBits symbolicHasher revertRootHashStart
      noRootHash.toList 5 first = .ok second)
    (answers : checkWrite noBits symbolicHasher htifFromhostAddress emptyResponse second = .ok third)
    (clears : checkWrite noBits symbolicHasher iflagsYAddress 0 third = .ok fourth)
    (consumed : fourth.nextAccess = fourth.accesses.length) :
    verifySendCmioResponse noBits symbolicHasher noRootHash 1 [] rootHashBefore log none =
      .ok fourth.rootHash := by
  have reverted : (perform (.writeRevertRootHash noRootHash)).run
      (replayAccess noBits symbolicHasher) first = .ok ((), second) := by
    rw [perform, Program.run_perform]
    exact bind_ok.mpr ⟨second, reverts, rfl⟩
  have answered : (perform (.writeHtifFromhost emptyResponse)).run
      (replayAccess noBits symbolicHasher) second = .ok ((), third) := by
    rw [perform, Program.run_perform]
    exact bind_ok.mpr ⟨third, answers, rfl⟩
  have cleared : (perform (.writeIflagsY 0)).run (replayAccess noBits symbolicHasher) third =
      .ok ((), fourth) := by
    rw [perform, Program.run_perform]
    exact bind_ok.mpr ⟨fourth, clears, rfl⟩
  have applied : (applyResponse noRootHash 1 [] 0 (getWriteLengthLog2Size 0)).run
      (replayAccess noBits symbolicHasher) first = .ok ((), fourth) :=
    (Program.run_bind_ok _).mpr ⟨(), second, reverted,
      (Program.run_bind_ok _).mpr ⟨(), second, rfl,
        (Program.run_bind_ok _).mpr ⟨(), third, answered, cleared⟩⟩⟩
  have flags : (perform .readIflagsY).run (replayAccess noBits symbolicHasher)
      ⟨log, 0, rootHashBefore⟩ = .ok (1, first) := by
    rw [perform, Program.run_perform]
    exact reads
  have ran : (sendCmioResponse noRootHash 1 [] 0).run (replayAccess noBits symbolicHasher)
      ⟨log, 0, rootHashBefore⟩ = .ok ((), fourth) :=
    (Program.run_bind_ok _).mpr ⟨1, first, flags,
      (Program.run_bind_ok _).mpr ⟨true, first, rfl, applied⟩⟩
  simp only [verifySendCmioResponse, ReplayContext.finish, bind_ok, check_ok]
  exact ⟨(), filled, ((), fourth), ran, fourth.rootHash, ⟨(), consumed, rfl⟩, (), by simp, rfl⟩

theorem noRootHash_hashed :
    symbolicHasher.getMerkleTreeHash (paddedData noRootHash.toList (0 + 5)) =
      some (.word noRootHash.toList) :=
  symbolicHasher.getMerkleTreeHash_word rfl

theorem responseLog_accepted :
    verifySendCmioResponse noBits symbolicHasher noRootHash 1 []
      (symbolicHasher.merkleRoot yieldedMemory) responseLog none =
      .ok (symbolicHasher.merkleRoot (answeredMemory.storeWord iflagsYAddress 0)) := by
  have flag : yieldedMemory.loadWord iflagsYAddress = 1 := by decide
  have reads : checkRead noBits symbolicHasher iflagsYAddress
      ⟨responseLog, 0, symbolicHasher.merkleRoot yieldedMemory⟩ = _ :=
    checkRead_honest (by decide) rfl rfl
  rw [flag] at reads
  have reverts : checkWriteMemoryWithPadding noBits symbolicHasher revertRootHashStart
      noRootHash.toList (0 + 5) ⟨responseLog, 1, symbolicHasher.merkleRoot yieldedMemory⟩ = _ :=
    checkWriteMemoryWithPadding_honest (by decide) (by decide)
      (by decide) (by decide) noRootHash_hashed rfl rfl
  have answers : checkWrite noBits symbolicHasher htifFromhostAddress emptyResponse
      ⟨responseLog, 2, symbolicHasher.merkleRoot revertedMemory⟩ = _ :=
    checkWrite_honest (by decide) rfl rfl
  have clears : checkWrite noBits symbolicHasher iflagsYAddress 0
      ⟨responseLog, 3, symbolicHasher.merkleRoot answeredMemory⟩ = _ :=
    checkWrite_honest (by decide) rfl rfl
  exact verifySendCmioResponse_accepts (by simp [responseLog]) reads reverts answers clears rfl

theorem forgedResponseLog_accepted :
    verifySendCmioResponse noBits symbolicHasher noRootHash 1 []
      (symbolicHasher.merkleRoot yieldedMemory) forgedResponseLog none =
      .ok (.word forgedAnswer) := by
  have flag : yieldedMemory.loadWord iflagsYAddress = 1 := by decide
  have reads : checkRead noBits symbolicHasher iflagsYAddress
      ⟨forgedResponseLog, 0, symbolicHasher.merkleRoot yieldedMemory⟩ = _ :=
    checkRead_honest (by decide) rfl rfl
  rw [flag] at reads
  have reverts : checkWriteMemoryWithPadding noBits symbolicHasher revertRootHashStart
      noRootHash.toList (0 + 5)
      ⟨forgedResponseLog, 1, symbolicHasher.merkleRoot yieldedMemory⟩ = _ :=
    checkWriteMemoryWithPadding_accepts (by decide) rfl rfl rfl rfl nofun nofun nofun nofun rfl
      noRootHash_hashed rfl rfl
  have answers : checkWrite noBits symbolicHasher htifFromhostAddress emptyResponse
      ⟨forgedResponseLog, 2, .word noRootHash.toList⟩ = _ :=
    checkWrite_accepts (by decide) rfl rfl rfl rfl rfl (by decide) rfl rfl rfl rfl rfl
  have clears : checkWrite noBits symbolicHasher iflagsYAddress 0
      ⟨forgedResponseLog, 3, .word forgedAnswer⟩ = _ :=
    checkWrite_accepts (by decide) rfl rfl rfl rfl rfl (by decide) rfl rfl rfl rfl rfl
  exact verifySendCmioResponse_accepts (by simp [forgedResponseLog]) reads reverts answers clears rfl

/-- The verifier accepts a log after which no memory is left behind the returned hash. -/
theorem verifySendCmioResponse_forged :
    verifySendCmioResponse noBits symbolicHasher noRootHash 1 []
        (symbolicHasher.merkleRoot yieldedMemory) forgedResponseLog none =
        .ok (.word forgedAnswer) ∧
      ∃ after, respondMemory noRootHash 1 [] yieldedMemory = .ok ((), after) ∧
        Digest.word forgedAnswer ≠ symbolicHasher.merkleRoot after := by
  refine ⟨forgedResponseLog_accepted, _, rfl, ?_⟩
  have misplaced : Misplaced symbolicHasher (.word forgedAnswer) :=
    ⟨0, by decide, .here (symbolicHasher.isLeaf_hash rfl)⟩
  exact misplaced.ne_merkleRoot symbolicHasher_collisionFree _

/-- The honest log of a response is accepted. -/
theorem verifySendCmioResponse_sound_honest :
    verifySendCmioResponse noBits symbolicHasher noRootHash 1 []
        (symbolicHasher.merkleRoot yieldedMemory) responseLog none =
        .ok (symbolicHasher.merkleRoot (answeredMemory.storeWord iflagsYAddress 0)) ∧
      ((∃ after, respondMemory noRootHash 1 [] yieldedMemory = .ok ((), after) ∧
        symbolicHasher.merkleRoot (answeredMemory.storeWord iflagsYAddress 0) =
          symbolicHasher.merkleRoot after) ↔ ∀ access ∈ responseLog, access.Bound) :=
  ⟨responseLog_accepted,
    verifySendCmioResponse_sound symbolicHasher_collisionFree responseLog_accepted⟩

end Instances

end MachineEmulator.Cmio
