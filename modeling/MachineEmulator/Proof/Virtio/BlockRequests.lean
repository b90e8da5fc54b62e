/-
This file says which requests the block device exports and where it puts the status of an answer.
-/

import MachineEmulator.Construction.Virtio.Block
import MachineEmulator.Proof.Virtio.Registers
import MachineEmulator.Proof.Virtio.ScatterGather

namespace MachineEmulator.Virtio

open BlockState (rejectRequest exportRequest takeRequestId handleRequest doOnDeviceQueueAvailable
  complete finishCompletion writeCompletionData)

variable {Ram : Type} (guest : GuestMemory Ram)

/-- The sectors of a request are sectors of the disk. -/
def InCapacity (capacity : Word) (request : HostRequest) : Prop :=
  request.sector.toNat * 512 + request.length.toNat ≤ capacity.toNat * 512

/-- The sector behind a request is still a number of 64 bits. -/
def SectorFits (request : HostRequest) : Prop :=
  request.sector.toNat + (request.length.toNat + 511) / 512 < 2 ^ 64

instance (capacity : Word) (request : HostRequest) : Decidable (InCapacity capacity request) :=
  inferInstanceAs (Decidable (_ ≤ _))

instance (request : HostRequest) : Decidable (SectorFits request) :=
  inferInstanceAs (Decidable (_ < _))

/-- The status is written at an offset of the buffers to write, and then the descriptor is used with
a written length. -/
def Answers (vq : Virtq) (ram : Ram) (descIdx : BitVec 16) (offset : BitVec 32) (status : Byte)
    (writtenLen : BitVec 32) (used : Ram) : Prop :=
  ∃ fuel written after, vq.writeDescMem guest fuel ram descIdx offset [status] = .ok (true, written) ∧
    vq.consumeDesc guest written descIdx writtenLen 0 = (true, after, used)

/-- An offset is that of the last byte to write. -/
def AtEnd (offset : BitVec 32) (descs : List VirtqDesc) : Prop :=
  offset.toNat + 1 = bufferSize (writable descs)

/-- A completion writes its data, if it has some, and then its status. -/
def Completes (vq : Virtq) (ram : Ram) (request : PendingRequest) (data : Option (List Byte))
    (status : Byte) : Prop :=
  ∃ bytes sent writtenLen used,
    (if status = virtioBlkSOk ∧ request.type = virtioBlkTIn then
      data = some bytes ∧ ∃ fuel, vq.writeDescMem guest fuel ram request.descIdx 0 bytes =
        .ok (true, sent)
    else bytes = [] ∧ sent = ram) ∧
    Answers guest vq sent request.descIdx request.statusOffset status writtenLen used ∧
    writtenLen.toNat = bytes.length + 1

section Steps

variable {guest : GuestMemory Ram} {fuel : Nat} {state next : BlockState Ram} {descIdx : BitVec 16}
  {continues flushes : Bool} {readAvailLen writeAvailLen : BitVec 32}

theorem consumeQueue_used {written : VirtioState BlockDevice Ram} {writtenLen : BitVec 32}
    {after : VirtioState BlockDevice Ram}
    (ran : written.consumeQueue guest virtioBlockQueue descIdx writtenLen 0 = .ok (true, after)) :
    ∃ vq, (written.queue virtioBlockQueue.toNat).consumeDesc guest written.ram descIdx writtenLen 0 =
      (true, vq, after.ram) := by
  rw [VirtioState.consumeQueue] at ran
  obtain ⟨_, _, ran⟩ := bind_ok.mp ran
  obtain ⟨_, _, ran⟩ := bind_ok.mp ran
  cases consumed : (written.queue virtioBlockQueue.toNat).consumeDesc guest written.ram descIdx
      writtenLen 0 with
  | mk done rest =>
      rw [consumed] at ran
      cases ran
      exact ⟨rest.1, rfl⟩

/-- A request that the device answers itself has its status at the end of what the device found. -/
theorem rejectRequest_answers {status : Byte}
    (ran : state.rejectRequest guest fuel descIdx writeAvailLen status =
      .ok (continues, flushes, next)) :
    next.device.hostRequests = state.device.hostRequests ∧
    next.device.pendingRequests = state.device.pendingRequests ∧
    (continues = true → Answers guest (state.queue virtioBlockQueue.toNat) state.ram descIdx
      (writeAvailLen - virtioBlockStatusSize) status 1 next.ram) := by
  unfold BlockState.rejectRequest at ran
  obtain ⟨⟨written, ram⟩, wrote, ran⟩ := bind_ok.mp ran
  dsimp only at ran
  split at ran
  · cases ran
    simp
  rename_i sent
  obtain ⟨⟨consumed, used⟩, consumes, ran⟩ := bind_ok.mp ran
  have same : used.device = state.device := (consumeQueue_ring guest consumes).1
  dsimp only at ran
  split at ran
  · cases ran
    simp [same]
  rename_i done
  cases ran
  simp only [notifyQueueUsed_device, BlockState.observe, same, true_and, notifyQueueUsed_ram]
  intro _
  rw [not_not.mp done] at consumes
  obtain ⟨after, consumes⟩ := consumeQueue_used consumes
  rw [not_not.mp sent] at wrote
  exact ⟨fuel, ram, after, wrote, consumes⟩

/-- What the checks of a request come to: an answer of the device, a failed read of the data, or a
request for the host. -/
theorem handleRequest_cases {header : List Byte}
    (ran : state.handleRequest guest fuel descIdx readAvailLen writeAvailLen header =
      .ok (continues, flushes, next)) :
    (next.device.hostRequests = state.device.hostRequests ∧
      next.device.pendingRequests = state.device.pendingRequests ∧
      (continues = true → ∃ status, Answers guest (state.queue virtioBlockQueue.toNat) state.ram
        descIdx (writeAvailLen - virtioBlockStatusSize) status 1 next.ram)) ∨
    ∃ request : HostRequest, continues = false ∧
      next = state.takeRequestId.exportRequest descIdx request ∧
      request.length = (if request.type = virtioBlkTIn then writeAvailLen - virtioBlockStatusSize
        else readAvailLen - virtioBlockHeaderSize) ∧
      ¬state.capacity < request.sector +
        (request.length.setWidth 64 + virtioBlockSectorSize - 1) / virtioBlockSectorSize ∧
      (request.type = virtioBlkTOut →
        (state.queue virtioBlockQueue.toNat).readDescMem guest fuel state.ram descIdx
          virtioBlockHeaderSize request.length = .ok (some request.data)) := by
  unfold BlockState.handleRequest at ran
  extract_lets type sector dataLen endSector request at ran
  split at ran
  · obtain ⟨requests, pending, answers⟩ := rejectRequest_answers ran
    exact .inl ⟨requests, pending, fun goes => ⟨_, answers goes⟩⟩
  rename_i inside
  split at ran
  · rename_i out
    obtain ⟨read, reads, ran⟩ := bind_ok.mp ran
    cases read with
    | none =>
        cases ran
        left
        simp [takeRequestId]
    | some data =>
        cases ran
        exact .inr ⟨{ request with data := data }, rfl, rfl, rfl, inside, fun _ => reads⟩
  · rename_i notOut
    split at ran
    · cases ran
      exact .inr ⟨request, rfl, rfl, rfl, inside, fun out => absurd out notOut⟩
    · obtain ⟨requests, pending, answers⟩ := rejectRequest_answers ran
      exact .inl ⟨requests, pending, fun goes => ⟨_, answers goes⟩⟩

theorem doOnDeviceQueueAvailable_cases {queueIdx : BitVec 32}
    (ran : state.doOnDeviceQueueAvailable guest fuel queueIdx descIdx readAvailLen writeAvailLen =
      .ok (continues, flushes, next)) :
    (next.device.hostRequests = state.device.hostRequests ∧
      next.device.pendingRequests = state.device.pendingRequests ∧
      (continues = true → 1 ≤ writeAvailLen.toNat ∧ ∃ status,
        Answers guest (state.queue virtioBlockQueue.toNat) state.ram
          descIdx (writeAvailLen - virtioBlockStatusSize) status 1 next.ram)) ∨
    ∃ request : HostRequest, continues = false ∧ state.device.pendingRequests = [] ∧
      virtioBlockHeaderSize ≤ readAvailLen ∧ 1 ≤ writeAvailLen.toNat ∧
      next = state.takeRequestId.exportRequest descIdx request ∧
      request.length = (if request.type = virtioBlkTIn then writeAvailLen - virtioBlockStatusSize
        else readAvailLen - virtioBlockHeaderSize) ∧
      ¬state.capacity < request.sector +
        (request.length.setWidth 64 + virtioBlockSectorSize - 1) / virtioBlockSectorSize ∧
      (request.type = virtioBlkTOut →
        (state.queue virtioBlockQueue.toNat).readDescMem guest fuel state.ram descIdx
          virtioBlockHeaderSize request.length = .ok (some request.data)) := by
  simp only [BlockState.doOnDeviceQueueAvailable] at ran
  split at ran
  · cases ran
    left
    simp
  rename_i accepted
  simp only [not_or, not_not] at accepted
  obtain ⟨_, headerThere, statusThere⟩ := accepted
  have room : 1 ≤ writeAvailLen.toNat := by
    rw [BitVec.lt_def] at statusThere
    exact Nat.not_lt.mp statusThere
  have header : virtioBlockHeaderSize ≤ readAvailLen := by
    rw [BitVec.le_def]
    rw [BitVec.lt_def] at headerThere
    exact Nat.not_lt.mp headerThere
  split at ran
  · cases ran
    left
    simp
  rename_i idle
  obtain ⟨read, _, ran⟩ := bind_ok.mp ran
  cases read with
  | none =>
      cases ran
      left
      simp
  | some data =>
      rcases handleRequest_cases ran with ⟨requests, pending, answers⟩ | ⟨request, rest⟩
      · exact .inl ⟨requests, pending, fun goes => ⟨room, answers goes⟩⟩
      · exact .inr ⟨request, rest.1, List.isEmpty_iff.mp (not_not.mp idle), header, room, rest.2⟩

/-- A request that passed the check is inside the capacity if the sector behind it does not wrap
around, and only then. -/
theorem inCapacity_iff {capacity : Word} {request : HostRequest}
    (inside : ¬capacity < request.sector +
      (request.length.setWidth 64 + virtioBlockSectorSize - 1) / virtioBlockSectorSize) :
    InCapacity capacity request ↔ SectorFits request := by
  have bound := capacity.isLt
  have length := request.length.isLt
  have sectors : ((request.length.setWidth 64 + virtioBlockSectorSize - 1) /
      virtioBlockSectorSize).toNat = (request.length.toNat + 511) / 512 := by
    have sum : (request.length.setWidth 64 + virtioBlockSectorSize - 1).toNat =
        request.length.toNat + 511 := by
      rw [virtioBlockSectorSize]
      bv_omega
    rw [BitVec.toNat_udiv, sum]
    rfl
  rw [BitVec.lt_def, BitVec.toNat_add, sectors] at inside
  rw [InCapacity, SectorFits]
  omega

end Steps

section Answers

variable {guest : GuestMemory Ram} {fuel : Nat} {descIdx : BitVec 16}

theorem finishCompletion_answers {request : PendingRequest} {writtenLen : BitVec 32} {status : Byte}
    {state next : BlockState Ram}
    (ran : state.finishCompletion guest fuel request writtenLen status = .ok (true, next)) :
    ∃ used, Answers guest (state.queue virtioBlockQueue.toNat) state.ram request.descIdx
      request.statusOffset status writtenLen used := by
  unfold BlockState.finishCompletion at ran
  obtain ⟨⟨written, ram⟩, wrote, ran⟩ := bind_ok.mp ran
  dsimp only at ran
  split at ran
  · cases ran
  rename_i sent
  obtain ⟨⟨consumed, used⟩, consumes, ran⟩ := bind_ok.mp ran
  dsimp only at ran
  split at ran
  · cases ran
  rename_i done
  rw [not_not.mp done] at consumes
  obtain ⟨after, consumes⟩ := consumeQueue_used consumes
  rw [not_not.mp sent] at wrote
  exact ⟨used.ram, fuel, ram, after, wrote, consumes⟩

/-- A completion that succeeds writes its data and then its status, and counts them. -/
theorem complete_completes {request : PendingRequest} {rest : List PendingRequest} {id : Word}
    {data : Option (List Byte)} {status : Byte} {state next : BlockState Ram}
    (waiting : state.device.pendingRequests = request :: rest)
    (small : ∀ bytes ∈ data, bytes.length < 2 ^ 32)
    (counts : request.type = virtioBlkTIn → request.dataLen.toNat + 1 < 2 ^ 32)
    (ran : state.complete guest fuel id data status = .ok (true, next)) :
    Completes guest (state.queue virtioBlockQueue.toNat) state.ram request data status := by
  unfold BlockState.complete at ran
  rw [waiting] at ran
  dsimp only at ran
  split at ran
  · cases ran
  split at ran
  · cases ran
  rename_i accepts
  obtain ⟨⟨written, sent⟩, wrote, ran⟩ := bind_ok.mp ran
  dsimp only at ran
  split at ran
  · cases ran
  rename_i done
  rw [not_not.mp done] at wrote
  obtain ⟨used, answers⟩ := finishCompletion_answers ran
  by_cases reads : status = virtioBlkSOk ∧ request.type = virtioBlkTIn
  · rw [if_pos reads] at answers
    have accepts := not_not.mp accepts
    rw [BlockState.acceptsData, if_pos reads] at accepts
    cases data with
    | none => cases accepts
    | some bytes =>
        have length : bytes.length = request.dataLen.toNat := by
          have same := of_decide_eq_true accepts
          rw [← same, BitVec.toNat_ofNat, Nat.mod_eq_of_lt (small bytes rfl)]
        rw [BlockState.writeCompletionData, if_pos reads] at wrote
        obtain ⟨⟨whole, ram⟩, writes, wrote⟩ := bind_ok.mp wrote
        cases wrote
        refine ⟨bytes, ram, _, used, ?_, answers, ?_⟩
        · rw [if_pos reads]
          exact ⟨rfl, fuel, writes⟩
        · have fits := counts reads.2
          rw [length, virtioBlockStatusSize]
          bv_omega
  · rw [if_neg reads] at answers
    have same : sent = state := by
      cases data with
      | none =>
          cases wrote
          rfl
      | some bytes =>
          rw [BlockState.writeCompletionData, if_neg reads] at wrote
          cases wrote
          rfl
    subst same
    refine ⟨[], sent.ram, _, used, ?_, answers, rfl⟩
    rw [if_neg reads]
    exact ⟨rfl, rfl⟩

end Answers

section Requests

/-- Two descriptors at the start of this memory ask to read 512 bytes of a sector. -/
def requestGuest (sector : Word) : GuestMemory Unit where
  readMemory _ address length :=
    some ((List.range length).map fun offset =>
      let place := address.toNat + offset
      if 0x108 ≤ place ∧ place < 0x110 then (wordToBytes sector).getD (place - 0x108) 0
      else ([(1, 1), (8, 16), (12, 1), (14, 1), (17, 2), (24, 1), (25, 2), (28, 2)].lookup place).getD 0)
  writeMemory _ _ _ := some ()

theorem requestGuest_sized (sector : Word) : (requestGuest sector).Sized := by
  rintro ram address length data ⟨⟩
  simp

/-- A disk of eight sectors whose queue has two descriptors. -/
def requestState : BlockState Unit :=
  (BlockState.initial 0 8 ()).setQueue 0 ⟨0, 0, 0, 2, 0, 1⟩

theorem requestState_parsed :
    (requestState.queue virtioBlockQueue.toNat).getDescRwAvailLen (requestGuest 3) 2
      requestState.ram 0 = .ok (true, 16, 513) := by
  decide

end Requests

end MachineEmulator.Virtio
