/-
This file says what a response does to the machine, and when the three ways of applying it do what
they should.
-/

import Mathlib.Data.Nat.Log
import MachineEmulator.Proof.Cmio.RecordReplays

namespace MachineEmulator.Cmio

open Effects
open Uarch (iflagsYAddress htifTohostAddress htifFromhostAddress revertRootHashStart uint32Log2
  uint32ShiftLeft uint64ShiftLeft isYieldedManualWith htifYieldManualReasonRxAccepted
  htifYieldReasonAdvanceState)

section Effect

/-- The size of the block that a response writes: none without data, else the smallest power of two
that holds the data and a tree word. -/
def writeLength (length : Nat) : Nat := if length = 0 then 0 else 2 ^ Nat.clog 2 (max length 32)

theorem writeLength_isLeast {length : Nat} (positive : 0 < length) :
    IsLeast {size | (∃ exponent, size = 2 ^ exponent) ∧ max length 32 ≤ size}
      (writeLength length) := by
  rw [writeLength, if_neg (by omega)]
  constructor
  · exact ⟨⟨_, rfl⟩, Nat.le_pow_clog (by decide) _⟩
  · rintro size ⟨⟨exponent, rfl⟩, holds⟩
    exact Nat.pow_le_pow_right (by decide) ((Nat.clog_le_iff_le_pow (by decide)).mpr holds)

/-- The machine waits for the response on a manual yield of the right kind. -/
def Waits (memory : Memory) (reason : BitVec 16) : Prop :=
  memory.loadWord iflagsYAddress ≠ 0 ∧ (reason = htifYieldReasonAdvanceState →
    isYieldedManualWith (memory.loadWord htifTohostAddress) htifYieldManualReasonRxAccepted)

/-- The response is for no machine that waits for it, or its data is too large. -/
def Refused (memory : Memory) (reason : BitVec 16) (length : Nat) : Prop :=
  ¬Waits memory reason ∨ 2 ^ 21 < length

/-- The machine after a response that is not refused. -/
def responded (revertRootHash : Vector Byte 32) (reason : BitVec 16) (data : List Byte)
    (memory : Memory) : Memory :=
  (((memory.store revertRootHashStart revertRootHash.toList).store cmioRxBufferStart
    (data ++ List.replicate (writeLength data.length - data.length) 0)).storeWord
    htifFromhostAddress (BitVec.ofNat 64 (reason.toNat * 2 ^ 32 + data.length))).storeWord
    iflagsYAddress 0

end Effect

section Length

theorem toNat_shiftLeft_one {count : BitVec 32} (small : count.toNat < 32) :
    (uint32ShiftLeft 1 count).toNat = 2 ^ count.toNat := by
  have masked : (count &&& 0x1f).toNat = count.toNat := by
    have mask : (0x1f : BitVec 32).toNat = 2 ^ 5 - 1 := rfl
    rw [BitVec.toNat_and, mask, Nat.and_two_pow_sub_one_eq_mod]
    omega
  have one : (1 : BitVec 32).toNat = 1 := rfl
  have fits : 2 ^ count.toNat < 2 ^ 32 := Nat.pow_lt_pow_right (by decide) small
  rw [uint32ShiftLeft, BitVec.toNat_shiftLeft, masked, one, Nat.one_shiftLeft, Nat.mod_eq_of_lt fits]

/-- The write length of the code is the smallest power of two. -/
theorem toNat_getWriteLengthLog2Size {dataLength : BitVec 32} (positive : 0 < dataLength) :
    (getWriteLengthLog2Size dataLength).toNat = Nat.clog 2 (max dataLength.toNat 32) := by
  have number : dataLength.toNat ≠ 0 := (BitVec.lt_def.mp positive).ne'
  have bound := uint32Log2_lt dataLength
  have logarithm : (uint32Log2 dataLength).toNat = dataLength.toNat.log2 := by
    have small : dataLength.toNat.log2 < 32 := (Nat.log2_lt number).mpr dataLength.isLt
    rw [uint32Log2, BitVec.toNat_ofNat]
    omega
  have below : 2 ^ (uint32Log2 dataLength).toNat ≤ dataLength.toNat := by
    rw [logarithm]
    exact Nat.log2_self_le number
  have above : dataLength.toNat < 2 ^ ((uint32Log2 dataLength).toNat + 1) := by
    rw [logarithm]
    exact Nat.lt_log2_self
  have five : (5 : BitVec 32).toNat = 5 := rfl
  simp only [getWriteLengthLog2Size]
  by_cases short : uint32Log2 dataLength < 5
  · have small : (uint32Log2 dataLength).toNat + 1 ≤ 5 := BitVec.lt_def.mp short
    have power : 2 ^ ((uint32Log2 dataLength).toNat + 1) ≤ 2 ^ 5 :=
      Nat.pow_le_pow_right (by decide) small
    have enough : ¬uint32ShiftLeft 1 5 < dataLength := by
      rw [BitVec.lt_def, toNat_shiftLeft_one (by decide), five]
      omega
    rw [if_pos short, if_neg enough, max_eq_right (by omega), five]
    exact (Nat.clog_pow 2 5 (by decide)).symm
  · have large : 5 ≤ (uint32Log2 dataLength).toNat := by
      rw [BitVec.lt_def, five] at short
      omega
    have power : 2 ^ 5 ≤ 2 ^ (uint32Log2 dataLength).toNat :=
      Nat.pow_le_pow_right (by decide) large
    rw [if_neg short, max_eq_left (by omega)]
    by_cases enough : uint32ShiftLeft 1 (uint32Log2 dataLength) < dataLength
    · have one : (1 : BitVec 32).toNat = 1 := rfl
      rw [if_pos enough, BitVec.toNat_add, one, Nat.mod_eq_of_lt (by omega)]
      rw [BitVec.lt_def, toNat_shiftLeft_one bound] at enough
      apply le_antisymm
      · exact (Nat.lt_clog_iff_pow_lt (by decide)).mpr enough
      · exact (Nat.clog_le_iff_le_pow (by decide)).mpr above.le
    · rw [if_neg enough]
      rw [BitVec.lt_def, toNat_shiftLeft_one bound] at enough
      have exact_ : dataLength.toNat = 2 ^ (uint32Log2 dataLength).toNat := by omega
      rw [exact_]
      exact (Nat.clog_pow 2 _ (by decide)).symm

/-- The response encodes its reason and the length of its data. -/
theorem yieldData_eq (reason : BitVec 16) (dataLength : BitVec 32) :
    uint64ShiftLeft (reason.setWidth 64 &&& (uint64ShiftLeft 1 16 - 1)) 32 |||
        (dataLength.setWidth 64 &&& (uint64ShiftLeft 1 32 - 1)) =
      BitVec.ofNat 64 (reason.toNat * 2 ^ 32 + dataLength.toNat) := by
  have reasonBound := reason.isLt
  have lengthBound := dataLength.isLt
  have mask16 : (uint64ShiftLeft 1 16 - 1).toNat = 2 ^ 16 - 1 := rfl
  have mask32 : (uint64ShiftLeft 1 32 - 1).toNat = 2 ^ 32 - 1 := rfl
  have shift : ((32 : BitVec 32) &&& 0x3f).toNat = 32 := rfl
  apply BitVec.eq_of_toNat_eq
  rw [BitVec.toNat_or, BitVec.toNat_and, mask32, Nat.and_two_pow_sub_one_eq_mod, uint64ShiftLeft,
    BitVec.toNat_shiftLeft, shift, BitVec.toNat_and, mask16, Nat.and_two_pow_sub_one_eq_mod,
    BitVec.toNat_setWidth, BitVec.toNat_setWidth, BitVec.toNat_ofNat, Nat.shiftLeft_eq]
  have high : reason.toNat % 2 ^ 64 % 2 ^ 16 * 2 ^ 32 % 2 ^ 64 = reason.toNat <<< 32 := by
    rw [Nat.shiftLeft_eq]
    omega
  have low : dataLength.toNat % 2 ^ 64 % 2 ^ 32 = dataLength.toNat := by omega
  rw [high, low, ← Nat.shiftLeft_add_eq_or_of_lt lengthBound, Nat.shiftLeft_eq]
  omega

end Length

section Plain

variable {memory : Memory} {revertRootHash : Vector Byte 32} {reason : BitVec 16}
  {data : List Byte}

/-- The check of the waiting machine reads the memory and leaves it. -/
theorem isWaiting_run (memory : Memory) (reason : BitVec 16) :
    ∃ waiting, (isWaiting reason).run directAccess memory = .ok (waiting, memory) ∧
      (waiting = true ↔ (reason = htifYieldReasonAdvanceState →
        isYieldedManualWith (memory.loadWord htifTohostAddress)
          htifYieldManualReasonRxAccepted)) := by
  unfold isWaiting
  split
  · next advance =>
      refine ⟨isYieldedManualWith (memory.loadWord htifTohostAddress)
        htifYieldManualReasonRxAccepted, rfl, ?_⟩
      simp [advance]
  · next other => exact ⟨true, rfl, by simp [other]⟩

theorem toNat_dataLength (data : List Byte) :
    ((BitVec.ofNat 64 data.length).setWidth 32).toNat = data.length % 2 ^ 32 := by
  rw [BitVec.toNat_setWidth, BitVec.toNat_ofNat]
  omega

/-- The length check of the code compares the narrowed length with the receive buffer. -/
theorem tooLarge_iff (dataLength : BitVec 32) :
    (0 < dataLength ∧ cmioRxBufferLog2Size < getWriteLengthLog2Size dataLength) ↔
      2 ^ 21 < dataLength.toNat := by
  have buffer : cmioRxBufferLog2Size.toNat = 21 := rfl
  constructor
  · rintro ⟨positive, large⟩
    rw [BitVec.lt_def, toNat_getWriteLengthLog2Size positive, buffer,
      Nat.lt_clog_iff_pow_lt (by decide)] at large
    omega
  · intro large
    have positive : 0 < dataLength := by
      rw [BitVec.lt_def]
      show 0 < dataLength.toNat
      omega
    refine ⟨positive, ?_⟩
    rw [BitVec.lt_def, toNat_getWriteLengthLog2Size positive, buffer,
      Nat.lt_clog_iff_pow_lt (by decide)]
    omega

/-- A refused response leaves the machine as it is. -/
theorem respondMemory_refused (refused : Refused memory reason (data.length % 2 ^ 32)) :
    respondMemory revertRootHash reason data memory = .ok ((), memory) := by
  obtain ⟨waiting, ran, waits⟩ := isWaiting_run memory reason
  rw [respondMemory, sendCmioResponse, Program.run_bind]
  simp only [perform, Program.run_perform, directAccess]
  by_cases yielded : memory.loadWord iflagsYAddress = 0
  · rw [if_pos yielded]
    rfl
  rw [if_neg yielded, Program.run_bind, ran]
  dsimp only
  by_cases ready : waiting = true
  · have large : 2 ^ 21 < data.length % 2 ^ 32 := by
      refine refused.resolve_left fun deaf => deaf ⟨yielded, waits.mp ready⟩
    rw [if_neg (by simp [ready]), if_pos]
    · rfl
    · rw [tooLarge_iff, toNat_dataLength]
      exact large
  · rw [if_pos (by simpa using ready)]
    rfl

/-- The data goes to the start of the receive buffer, with zeros up to the write length. -/
theorem writeResponseData_run (memory : Memory) {dataLength : BitVec 32}
    (there : dataLength.toNat ≤ data.length) (fits : dataLength.toNat ≤ 2 ^ 21) :
    (writeResponseData data dataLength (getWriteLengthLog2Size dataLength)).run directAccess memory =
      .ok ((), memory.store cmioRxBufferStart (data.take dataLength.toNat ++
        List.replicate (writeLength dataLength.toNat - dataLength.toNat) 0)) := by
  unfold writeResponseData
  split
  · next positive =>
      have number : dataLength.toNat ≠ 0 := (BitVec.lt_def.mp positive).ne'
      have size : (data.take dataLength.toNat).length = dataLength.toNat := List.length_take_of_le there
      have exponent := toNat_getWriteLengthLog2Size positive
      obtain ⟨level, above⟩ := Nat.exists_eq_add_of_le' (le_getWriteLengthLog2Size dataLength)
      have small : level + 5 ≤ 21 := by
        rw [← above, exponent]
        exact (Nat.clog_le_iff_le_pow (by decide)).mpr (by omega)
      have power : writeLength dataLength.toNat = 2 ^ (level + 5) := by
        rw [writeLength, if_neg number, ← exponent, above]
      have room : (data.take dataLength.toNat).length ≤ 2 ^ (level + 5) := by
        rw [size, ← power]
        exact le_trans (le_max_left _ _) (writeLength_isLeast (Nat.pos_of_ne_zero number)).1.2
      simp only [perform, Program.run_perform, directAccess, bind_ok, above]
      refine ⟨(), check_pos room, ?_⟩
      rw [store_padding small room, paddedData, size, power]
      rfl
  · next zero =>
      have none : dataLength.toNat = 0 := by
        rw [BitVec.lt_def, Nat.not_lt] at zero
        exact Nat.le_zero.mp zero
      rw [none]
      rfl

/-- A response that is not refused writes the revert root hash, the data, its encoding and the flag,
and nothing else. The code sees the low 32 bits of the length. -/
theorem respondMemory_applied (applies : ¬Refused memory reason (data.length % 2 ^ 32)) :
    respondMemory revertRootHash reason data memory =
      .ok ((), responded revertRootHash reason (data.take (data.length % 2 ^ 32)) memory) := by
  obtain ⟨waiting, ran, waits⟩ := isWaiting_run memory reason
  rw [Refused, not_or, not_not, Nat.not_lt] at applies
  obtain ⟨⟨yielded, accepted⟩, fits⟩ := applies
  have length := toNat_dataLength data
  have there : data.length % 2 ^ 32 ≤ data.length := Nat.mod_le _ _
  have size : (data.take (data.length % 2 ^ 32)).length = data.length % 2 ^ 32 :=
    List.length_take_of_le there
  have small : ¬(0 < (BitVec.ofNat 64 data.length).setWidth 32 ∧ cmioRxBufferLog2Size <
      getWriteLengthLog2Size ((BitVec.ofNat 64 data.length).setWidth 32)) := by
    rw [tooLarge_iff, length]
    omega
  rw [respondMemory, sendCmioResponse, Program.run_bind]
  simp only [perform, Program.run_perform, directAccess]
  rw [if_neg yielded, Program.run_bind, ran]
  dsimp only
  rw [if_neg (by simp [waits.mpr accepted]), if_neg small, applyResponse, Program.run_bind]
  simp only [perform, Program.run_perform, directAccess]
  rw [Program.run_bind, writeResponseData_run _ (by omega) (by omega)]
  dsimp only
  rw [Program.run_bind, Program.run_perform, yieldData_eq, length]
  simp only [directAccess, Program.run_perform]
  rw [responded, size]

theorem loadWord_responded :
    (responded revertRootHash reason data memory).loadWord iflagsYAddress = 0 :=
  Memory.loadWord_storeWord _ _ _ (by decide)

end Plain

section Agreement

variable {Hash : Type} [DecidableEq Hash] {platform : Word → Nat → Bool} {hasher : Hasher Hash}
  {largeData : Bool} {revertRootHash : Vector Byte 32} {reason : BitVec 16} {data : List Byte}
  {memory after : Memory}

/-- A replay without a log stops at the first read. -/
theorem replay_empty_fails {rootHash : Hash} {length : Word} {result : Unit × ReplayContext Hash} :
    (sendCmioResponse revertRootHash reason data length).run (replayAccess platform hasher)
      ⟨[], 0, rootHash⟩ ≠ .ok result := by
  rw [sendCmioResponse, Program.run_bind]
  exact nofun

/-- The log of a response holds its writes, and the verifier reaches the root of the machine. -/
theorem logSendCmioResponse_verifies
    (ran : respondMemory revertRootHash reason data memory = .ok ((), after)) :
    ∃ log, logSendCmioResponse hasher platform largeData revertRootHash reason data memory =
        .ok (log, after) ∧
      verifySendCmioResponse platform hasher revertRootHash reason data (hasher.merkleRoot memory)
        log (some (hasher.merkleRoot after)) = .ok (hasher.merkleRoot after) := by
  obtain ⟨log, recorded, replayed⟩ := (recordAccess_records hasher platform largeData).run
    (sendCmioResponse_calls revertRootHash reason data _) ran
  obtain ⟨context, replays, consumed, within, root⟩ := replayed [] ⟨log, 0, hasher.merkleRoot memory⟩
    ⟨by simp, Nat.zero_le _, rfl⟩
  have nonempty : log ≠ [] := by
    rintro rfl
    exact replay_empty_fails replays
  have finished : context.nextAccess = context.accesses.length :=
    le_antisymm within (List.drop_eq_nil_iff.mp consumed)
  have verifies : verifySendCmioResponse platform hasher revertRootHash reason data
      (hasher.merkleRoot memory) log (some (hasher.merkleRoot after)) =
      .ok (hasher.merkleRoot after) := by
    simp only [verifySendCmioResponse, ReplayContext.finish, bind_ok]
    refine ⟨(), check_pos nonempty, _, replays, _, ⟨(), check_pos finished, rfl⟩, (),
      check_pos ?_, by rw [root]; rfl⟩
    rintro expected ⟨rfl⟩
    exact root
  refine ⟨log, ?_, verifies⟩
  simp only [logSendCmioResponse, bind_ok]
  exact ⟨_, recorded [], _, verifies, rfl⟩

/-- What a response has to do: its three ways agree, it leaves the machine unchanged exactly when it
is refused, and otherwise it writes its data, its encoding, the revert root hash and the flag. -/
structure Responds (platform : Word → Nat → Bool) (hasher : Hasher Hash) (largeData : Bool)
    (revertRootHash : Vector Byte 32) (reason : BitVec 16) (data : List Byte)
    (memory after : Memory) : Prop where
  plain : respondMemory revertRootHash reason data memory = .ok ((), after)
  host : ∀ sent, machineSendCmioResponse hasher revertRootHash reason data memory = .ok sent →
    sent = after
  logged : ∃ log, logSendCmioResponse hasher platform largeData revertRootHash reason data memory =
      .ok (log, after) ∧
    verifySendCmioResponse platform hasher revertRootHash reason data (hasher.merkleRoot memory)
      log (some (hasher.merkleRoot after)) = .ok (hasher.merkleRoot after)
  unchanged : after = memory ↔ Refused memory reason data.length
  changed : ¬Refused memory reason data.length →
    after = responded revertRootHash reason data memory

theorem responded_ne (waits : Waits memory reason) :
    responded revertRootHash reason data memory ≠ memory := by
  intro same
  apply waits.1
  rw [← same]
  exact loadWord_responded

theorem machineSendCmioResponse_agrees
    (ran : respondMemory revertRootHash reason data memory = .ok ((), after)) (sent : Memory)
    (sends : machineSendCmioResponse hasher revertRootHash reason data memory = .ok sent) :
    sent = after := by
  simp only [machineSendCmioResponse, bind_ok, ran] at sends
  obtain ⟨_, _, _, same, done⟩ := sends
  cases same
  cases done
  rfl

/-- The response does what it has to do unless its length has more than 32 bits and its low 32 bits
pass for the length of data that fits. -/
theorem sendCmioResponse_responds_iff (platform : Word → Nat → Bool) (hasher : Hasher Hash)
    (largeData : Bool) (revertRootHash : Vector Byte 32) (reason : BitVec 16) (data : List Byte)
    (memory : Memory) :
    (∃ after, Responds platform hasher largeData revertRootHash reason data memory after) ↔
      ¬(Waits memory reason ∧ 2 ^ 32 ≤ data.length ∧ data.length % 2 ^ 32 ≤ 2 ^ 21) := by
  constructor
  · rintro ⟨after, responds⟩ ⟨waits, long, narrowed⟩
    have applies : ¬Refused memory reason (data.length % 2 ^ 32) := by
      rintro (deaf | large)
      · exact deaf waits
      · omega
    have ran := responds.plain
    rw [respondMemory_applied applies] at ran
    cases ran
    exact responded_ne waits (responds.unchanged.mpr (Or.inr (by omega)))
  · intro sound
    by_cases refused : Refused memory reason (data.length % 2 ^ 32)
    · have ran : respondMemory revertRootHash reason data memory = _ :=
        respondMemory_refused refused
      have whole : Refused memory reason data.length := by
        refine refused.imp_right fun large => ?_
        have less : data.length % 2 ^ 32 ≤ data.length := Nat.mod_le _ _
        omega
      exact ⟨memory, ran, machineSendCmioResponse_agrees ran, logSendCmioResponse_verifies ran,
        ⟨fun _ => whole, fun _ => rfl⟩, fun applies => absurd whole applies⟩
    · have ran : respondMemory revertRootHash reason data memory = _ :=
        respondMemory_applied refused
      have parts := refused
      rw [Refused, not_or, not_not, Nat.not_lt] at parts
      have short : data.length < 2 ^ 32 := by
        by_contra long
        exact sound ⟨parts.1, by omega, parts.2⟩
      rw [Nat.mod_eq_of_lt short] at refused
      rw [Nat.mod_eq_of_lt short, List.take_length] at ran
      exact ⟨_, ran, machineSendCmioResponse_agrees ran, logSendCmioResponse_verifies ran,
        ⟨fun same => absurd same (responded_ne parts.1), fun stays => absurd stays refused⟩,
        fun _ => rfl⟩

end Agreement

section Narrowed

/-- A response whose length is 2^32. -/
def hugeResponse : List Byte := List.replicate (2 ^ 32) 0

theorem length_hugeResponse : hugeResponse.length = 2 ^ 32 := List.length_replicate

theorem yieldedMemory_waits : Waits yieldedMemory 1 := ⟨by decide, by decide⟩

theorem narrowed_hugeResponse : hugeResponse.length % 2 ^ 32 = 0 := by
  rw [length_hugeResponse, Nat.mod_self]

theorem respondMemory_hugeResponse :
    respondMemory noRootHash 1 hugeResponse yieldedMemory =
      .ok ((), responded noRootHash 1 [] yieldedMemory) := by
  rw [respondMemory_applied, narrowed_hugeResponse, List.take_zero]
  rw [narrowed_hugeResponse]
  rintro (deaf | large)
  · exact deaf yieldedMemory_waits
  · omega

/-- The response of 2^32 bytes is applied as one without data, and the host refuses to send it. -/
theorem hugeResponse_applied :
    (¬∃ after, Responds noBits symbolicHasher false noRootHash 1 hugeResponse yieldedMemory after) ∧
      respondMemory noRootHash 1 hugeResponse yieldedMemory =
        .ok ((), responded noRootHash 1 [] yieldedMemory) ∧
      machineSendCmioResponse symbolicHasher noRootHash 1 hugeResponse yieldedMemory =
        .error .responseTooLarge := by
  refine ⟨?_, respondMemory_hugeResponse, ?_⟩
  · rintro ⟨after, responds⟩
    have ran := responds.plain
    rw [respondMemory_hugeResponse] at ran
    cases ran
    apply responded_ne yieldedMemory_waits (responds.unchanged.mpr (Or.inr _))
    rw [length_hugeResponse]
    norm_num
  · have large : ¬BitVec.ofNat 64 (2 ^ 32) ≤ cmioRxBufferLength := by decide
    have yielded : yieldedMemory.loadWord iflagsYAddress ≠ 0 := yieldedMemory_waits.1
    simp only [machineSendCmioResponse, checkPendingCmioRequest, length_hugeResponse]
    rw [check_pos yielded, check, if_neg large]
    rfl

end Narrowed

end MachineEmulator.Cmio
