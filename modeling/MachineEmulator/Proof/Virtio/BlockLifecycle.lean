/-
This file proves the lifecycle of block requests over all interleavings of the guest and the host.
-/

import MachineEmulator.Proof.Virtio.BlockLedger
import MachineEmulator.Proof.Virtio.Registers

namespace MachineEmulator.Virtio

variable {Ram : Type}

section Invariant

/-- The device agrees with its accounts, and only a started device has a request in flight. -/
structure Tracks (state : BlockState Ram) : Prop where
  legal : Ledger.AllLegal state.device.observations
  ring : state.ringIdx = BitVec.ofNat 16 (Ledger.after state.device.observations).consumed
  inFlight : (Ledger.after state.device.observations).inFlight =
    state.device.pendingRequests.head?.map fun request => (request.id, request.descIdx)
  single : state.device.pendingRequests.length ≤ 1
  started : state.device.pendingRequests ≠ [] → state.driverOk = true

variable {state next : BlockState Ram}

theorem Tracks.frame (tracks : Tracks state) (device : next.device = state.device)
    (ring : next.ringIdx = state.ringIdx) (driverOk : next.driverOk = state.driverOk) :
    Tracks next where
  legal := device ▸ tracks.legal
  ring := by rw [ring, device, tracks.ring]
  inFlight := by rw [device, tracks.inFlight]
  single := device ▸ tracks.single
  started := by
    rw [device, driverOk]
    exact tracks.started

theorem Tracks.needsReset (tracks : Tracks state) : Tracks state.notifyDeviceNeedsReset :=
  tracks.frame (by simp) (by simp [BlockState.ringIdx]) (by simp)

theorem Tracks.queueUsed (tracks : Tracks state) : Tracks state.notifyQueueUsed :=
  tracks.frame (by simp) (by simp [BlockState.ringIdx]) (by simp)

theorem tracks_initial (virtioIdx : BitVec 32) (capacity : Word) (ram : Ram) :
    Tracks (BlockState.initial virtioIdx capacity ram) where
  legal := Ledger.allLegal_nil
  ring := rfl
  inFlight := rfl
  single := Nat.zero_le _
  started nonempty := absurd rfl nonempty

variable (guest : GuestMemory Ram)

/-- A consumed element moves the ring index by one, and nothing else of the device changes. -/
theorem consumeQueue_spec {descIdx : BitVec 16} {writtenLen : BitVec 32} {consumed : Bool}
    (ran : state.consumeQueue guest virtioBlockQueue descIdx writtenLen 0 = .ok (consumed, next)) :
    next.device = state.device ∧ next.driverOk = state.driverOk ∧
      next.ringIdx = if consumed then state.ringIdx + 1 else state.ringIdx := by
  obtain ⟨device, driverOk, rings⟩ := consumeQueue_ring guest ran
  refine ⟨device, driverOk, ?_⟩
  simpa [BlockState.ringIdx] using rings virtioBlockQueue.toNat

/-- The device goes on after it has used the element at the ring index. -/
theorem Tracks.used (tracks : Tracks state) (event : Observation)
    (legal : (Ledger.after state.device.observations).Legal event)
    (counted : ((Ledger.after state.device.observations).next event).consumed =
      (Ledger.after state.device.observations).consumed + 1)
    (free : ((Ledger.after state.device.observations).next event).inFlight = none)
    (observed : next.device.observations = state.device.observations ++ [event])
    (idle : next.device.pendingRequests = []) (ring : next.ringIdx = state.ringIdx + 1) :
    Tracks next where
  legal := observed ▸ tracks.legal.append legal
  ring := by
    rw [observed, Ledger.after_append, counted, ring, tracks.ring, BitVec.ofNat_add]
    rfl
  inFlight := by
    rw [observed, Ledger.after_append, free, idle]
    rfl
  single := by simp [idle]
  started busy := absurd idle busy

theorem Tracks.free (tracks : Tracks state) (idle : state.device.pendingRequests = []) :
    (Ledger.after state.device.observations).inFlight = none := by
  rw [tracks.inFlight, idle]
  rfl

theorem Tracks.takeRequestId (tracks : Tracks state) : Tracks state.takeRequestId where
  legal := tracks.legal
  ring := tracks.ring
  inFlight := tracks.inFlight
  single := tracks.single
  started := tracks.started

theorem Tracks.exportRequest (tracks : Tracks state) (idle : state.device.pendingRequests = [])
    (driverOk : state.driverOk = true) (descIdx : BitVec 16) (request : HostRequest) :
    Tracks (state.exportRequest descIdx request) where
  legal := tracks.legal.append ⟨tracks.free idle, tracks.ring⟩
  ring := by
    show state.ringIdx = _
    rw [tracks.ring]
    simp [BlockState.exportRequest, Ledger.next]
  inFlight := by simp [BlockState.exportRequest, Ledger.next, idle]
  single := by simp [BlockState.exportRequest, idle]
  started _ := driverOk

end Invariant

section Elements

variable (guest : GuestMemory Ram) {state next : BlockState Ram} {fuel : Nat} {descIdx : BitVec 16}
  {readAvailLen writeAvailLen : BitVec 32} {continues flushes : Bool}

theorem rejectRequest_tracks {status : Byte} (tracks : Tracks state)
    (idle : state.device.pendingRequests = [])
    (ran : state.rejectRequest guest fuel descIdx writeAvailLen status =
      .ok (continues, flushes, next)) :
    Tracks next ∧ next.driverOk = state.driverOk := by
  obtain ⟨⟨written, ram⟩, _, ran⟩ := bind_ok.mp ran
  have answered : Tracks { state with ram := ram } := tracks.frame rfl rfl rfl
  dsimp only at ran
  split at ran
  · cases ran
    exact ⟨answered.needsReset, by simp⟩
  obtain ⟨⟨consumed, used⟩, consumes, ran⟩ := bind_ok.mp ran
  obtain ⟨device, driverOk, ring⟩ := consumeQueue_spec guest consumes
  dsimp only at ran
  split at ran
  · rename_i failed
    cases ran
    rw [if_neg failed] at ring
    exact ⟨(answered.frame device ring driverOk).needsReset, by simpa using driverOk⟩
  · rename_i succeeded
    cases ran
    rw [if_pos (not_not.mp succeeded)] at ring
    have observed : Tracks (BlockState.observe (.rejected state.ringIdx descIdx) used) := by
      apply answered.used (.rejected state.ringIdx descIdx) ⟨tracks.free idle, tracks.ring⟩
      · rfl
      · exact tracks.free idle
      · simp [BlockState.observe, device]
      · simpa [BlockState.observe, device] using idle
      · exact ring
    exact ⟨observed.queueUsed, by simpa [BlockState.observe] using driverOk⟩

theorem handleRequest_tracks {header : List Byte} (tracks : Tracks state)
    (idle : state.device.pendingRequests = []) (driverOk : state.driverOk = true)
    (ran : state.handleRequest guest fuel descIdx readAvailLen writeAvailLen header =
      .ok (continues, flushes, next)) :
    Tracks next ∧ next.driverOk = true := by
  rw [← driverOk]
  unfold BlockState.handleRequest at ran
  extract_lets type sector dataLen endSector request at ran
  split at ran
  · exact rejectRequest_tracks guest tracks idle ran
  split at ran
  · obtain ⟨read, _, ran⟩ := bind_ok.mp ran
    cases read with
    | none =>
        cases ran
        exact ⟨tracks.takeRequestId.needsReset, by simp [BlockState.takeRequestId]⟩
    | some data =>
        cases ran
        exact ⟨tracks.takeRequestId.exportRequest idle driverOk _ _, rfl⟩
  split at ran
  · cases ran
    exact ⟨tracks.takeRequestId.exportRequest idle driverOk _ _, rfl⟩
  · have kept := rejectRequest_tracks guest tracks.takeRequestId idle ran
    exact kept

theorem doOnDeviceQueueAvailable_tracks {queueIdx : BitVec 32} (tracks : Tracks state)
    (driverOk : state.driverOk = true)
    (ran : state.doOnDeviceQueueAvailable guest fuel queueIdx descIdx readAvailLen writeAvailLen =
      .ok (continues, flushes, next)) :
    Tracks next ∧ next.driverOk = true := by
  simp only [BlockState.doOnDeviceQueueAvailable] at ran
  split at ran
  · cases ran
    exact ⟨tracks.needsReset, by simpa using driverOk⟩
  split at ran
  · cases ran
    exact ⟨tracks, driverOk⟩
  rename_i empty
  have idle : state.device.pendingRequests = [] := List.isEmpty_iff.mp (not_not.mp empty)
  obtain ⟨read, _, ran⟩ := bind_ok.mp ran
  cases read with
  | none =>
      cases ran
      exact ⟨tracks.needsReset, by simpa using driverOk⟩
  | some header => exact handleRequest_tracks guest tracks idle driverOk ran

/-- A run of the queue keeps the accounts, however many elements it finds. -/
theorem notifyLoop_tracks {queueIdx : BitVec 32} {lastAvailIdx : BitVec 16} (rounds : Nat)
    {flush answer : Bool} (tracks : Tracks state) (driverOk : state.driverOk = true)
    (ran : VirtioState.notifyLoop guest (BlockState.blockCallbacks guest) fuel queueIdx lastAvailIdx
      rounds flush state = .ok (answer, next)) :
    Tracks next ∧ next.driverOk = true := by
  induction rounds generalizing flush state with
  | zero => cases ran
  | succ rounds ih =>
      simp only [VirtioState.notifyLoop] at ran
      split at ran
      · cases ran
        exact ⟨tracks, driverOk⟩
      split at ran
      · cases ran
        exact ⟨tracks.needsReset, by simpa using driverOk⟩
      obtain ⟨⟨parsed, readAvailLen, writeAvailLen⟩, _, ran⟩ := bind_ok.mp ran
      split at ran
      · cases ran
        exact ⟨tracks.needsReset, by simpa using driverOk⟩
      obtain ⟨⟨continues, flushes, handled⟩, handles, ran⟩ := bind_ok.mp ran
      obtain ⟨kept, keptOk⟩ := doOnDeviceQueueAvailable_tracks guest tracks driverOk handles
      split at ran
      · cases ran
        exact ⟨kept, keptOk⟩
      obtain ⟨_, _, ran⟩ := bind_ok.mp ran
      exact ih kept keptOk ran

theorem onDeviceQueueNotify_tracks {queueIdx : BitVec 32} {answer : Bool} (tracks : Tracks state)
    (ran : state.onDeviceQueueNotify guest (BlockState.blockCallbacks guest) fuel queueIdx =
      .ok (answer, next)) :
    Tracks next := by
  simp only [VirtioState.onDeviceQueueNotify] at ran
  split at ran
  · cases ran
    exact tracks
  rename_i started
  split at ran
  · cases ran
    exact tracks
  split at ran
  · cases ran
    exact tracks.needsReset
  · exact (notifyLoop_tracks guest _ tracks (by simpa using started) ran).1

end Elements

section Completions

/-- A completion for the request in flight comes while the queue is ready, and its identifier is not
one that the host got before the last reset. -/
def TimelyCompletion (id : Word) (data : Option (List Byte)) (status : Byte)
    (state : BlockState Ram) : Prop :=
  ∀ request rest, state.device.pendingRequests = request :: rest → request.id = id →
    BlockState.acceptsData request data status →
    (state.queue virtioBlockQueue.toNat).ready ≠ 0 ∧
      id ∉ (Ledger.after state.device.observations).handedOutBefore

variable (guest : GuestMemory Ram) {state next : BlockState Ram} {fuel : Nat}
  {request : PendingRequest} {answer : Bool}

theorem writeCompletionData_frame {data : Option (List Byte)} {status : Byte}
    (ran : state.writeCompletionData guest fuel request data status = .ok (answer, next)) :
    next.device = state.device ∧ next.queue = state.queue ∧ next.driverOk = state.driverOk := by
  simp only [BlockState.writeCompletionData] at ran
  split at ran
  · split at ran
    · obtain ⟨_, _, ran⟩ := bind_ok.mp ran
      cases ran
      exact ⟨rfl, rfl, rfl⟩
    · cases ran
      exact ⟨rfl, rfl, rfl⟩
  · cases ran
    exact ⟨rfl, rfl, rfl⟩

/-- The answer to the request in flight is for the element at the ring index. -/
theorem finishCompletion_tracks {writtenLen : BitVec 32} {status : Byte} (tracks : Tracks state)
    (pending : state.device.pendingRequests = [request])
    (fresh : request.id ∉ (Ledger.after state.device.observations).handedOutBefore)
    (ran : state.finishCompletion guest fuel request writtenLen status = .ok (answer, next)) :
    Tracks next := by
  obtain ⟨⟨written, ram⟩, _, ran⟩ := bind_ok.mp ran
  have answered : Tracks { state with ram := ram } := tracks.frame rfl rfl rfl
  dsimp only at ran
  split at ran
  · cases ran
    exact answered.needsReset
  obtain ⟨⟨consumed, used⟩, consumes, ran⟩ := bind_ok.mp ran
  obtain ⟨device, driverOk, ring⟩ := consumeQueue_spec guest consumes
  dsimp only at ran
  split at ran
  · rename_i failed
    cases ran
    rw [if_neg failed] at ring
    exact (answered.frame device ring driverOk).needsReset
  rename_i succeeded
  rw [if_pos (not_not.mp succeeded)] at ring
  obtain ⟨⟨_, notified⟩, notifies, ran⟩ := bind_ok.mp ran
  cases ran
  refine (onDeviceQueueNotify_tracks guest ?_ notifies).queueUsed
  have inFlight : (Ledger.after state.device.observations).inFlight =
      some (request.id, request.descIdx) := by
    rw [tracks.inFlight, pending]
    rfl
  apply answered.used (.completed state.ringIdx request.id request.descIdx)
    ⟨inFlight, tracks.ring, fresh⟩
  · rfl
  · rfl
  · simp [device]
  · simp [device, pending]
  · exact ring

theorem complete_tracks {id : Word} {data : Option (List Byte)} {status : Byte}
    (tracks : Tracks state) (timely : TimelyCompletion id data status state)
    (ran : state.complete guest fuel id data status = .ok (answer, next)) : Tracks next := by
  unfold BlockState.complete at ran
  split at ran
  · cases ran
    exact tracks
  rename_i request rest pending
  split at ran
  · cases ran
    exact tracks
  rename_i same
  split at ran
  · cases ran
    exact tracks
  rename_i accepted
  have rest_nil : rest = [] := by
    have single := tracks.single
    rw [pending, List.length_cons] at single
    exact List.eq_nil_of_length_eq_zero (by omega)
  subst rest_nil
  have fresh := (timely request [] pending (not_not.mp same) (not_not.mp accepted)).2
  obtain ⟨⟨written, sent⟩, sends, ran⟩ := bind_ok.mp ran
  obtain ⟨device, queue, driverOk⟩ := writeCompletionData_frame guest sends
  have kept : Tracks sent := tracks.frame device (by simp [BlockState.ringIdx, queue]) driverOk
  dsimp only at ran
  split at ran
  · cases ran
    exact kept.needsReset
  · apply finishCompletion_tracks guest kept (device ▸ pending) _ ran
    rw [device, not_not.mp same]
    exact fresh

/-- A completion that is not for the request in flight changes nothing. -/
theorem complete_quiet {id : Word} {data : Option (List Byte)} {status : Byte}
    (timely : TimelyCompletion id data status state)
    (notReady : (state.queue virtioBlockQueue.toNat).ready = 0)
    (ran : state.complete guest fuel id data status = .ok (answer, next)) :
    next.ram = state.ram := by
  unfold BlockState.complete at ran
  split at ran
  · cases ran
    rfl
  rename_i request rest pending
  split at ran
  · cases ran
    rfl
  rename_i same
  split at ran
  · cases ran
    rfl
  rename_i accepted
  exact absurd notReady (timely request rest pending (not_not.mp same) (not_not.mp accepted)).1

end Completions

section Registers

variable (guest : GuestMemory Ram) {state next : BlockState Ram} {fuel : Nat}

theorem Tracks.reset (tracks : Tracks state) :
    Tracks (state.reset (BlockState.blockCallbacks guest)) where
  legal := tracks.legal.append trivial
  ring := by
    show (0 : BitVec 16) = BitVec.ofNat 16 (Ledger.after (_ ++ [_])).consumed
    rw [Ledger.after_append]
    rfl
  inFlight := by
    show (Ledger.after (_ ++ [_])).inFlight = none
    rw [Ledger.after_append]
    rfl
  single := Nat.zero_le _
  started busy := absurd rfl busy

/-- Nothing but the code of the device touches its accounts. -/
theorem tracks_keptBy : KeptBy guest (BlockState.blockCallbacks guest) Tracks where
  frame {state changed} tracks same :=
    { legal := same.device ▸ tracks.legal
      ring := by
        rw [BlockState.ringIdx, same.rings, same.device]
        exact tracks.ring
      inFlight := same.device ▸ tracks.inFlight
      single := same.device ▸ tracks.single
      started := fun busy => same.driverOk (tracks.started (same.device ▸ busy)) }
  reset tracks := tracks.reset guest
  deviceOk {fuel state next} tracks ran := by
    cases ran
    exact tracks
  notify tracks ran := onDeviceQueueNotify_tracks guest tracks ran

end Registers

section Runs

variable (guest : GuestMemory Ram) {state next : BlockState Ram} {fuel : Nat}

theorem Tracks.takeHostRequest (tracks : Tracks state) : Tracks state.takeHostRequest.2 := by
  unfold BlockState.takeHostRequest
  split
  · exact tracks
  · constructor
    · exact tracks.legal.append trivial
    · show state.ringIdx = _
      rw [tracks.ring]
      simp [Ledger.next]
    · simpa [Ledger.next] using tracks.inFlight
    · exact tracks.single
    · exact tracks.started

/-- The completions of the host are timely; nothing is asked of the other events. -/
def Timely (state : BlockState Ram) : BlockState.Event Ram → Prop
  | .completeRead id data => TimelyCompletion id data virtioBlkSOk state
  | .completeOperation id => TimelyCompletion id none virtioBlkSOk state
  | .failOperation id => TimelyCompletion id none virtioBlkSIoerr state
  | _ => True

/-- The event is an answer of the host. -/
def IsCompletion : BlockState.Event Ram → Prop
  | .completeRead _ _ => True
  | .completeOperation _ => True
  | .failOperation _ => True
  | _ => False

theorem step_tracks {event : BlockState.Event Ram} (tracks : Tracks state)
    (timely : Timely state event) (ran : state.step guest fuel event = .ok next) :
    Tracks next := by
  cases event with
  | guestStores ram =>
      cases ran
      exact tracks.frame rfl rfl rfl
  | mmioWrite offset value log2Size =>
      obtain ⟨⟨status, written⟩, writes, rfl⟩ := except_map_ok ran
      exact mmioWrite_keeps (tracks_keptBy guest) tracks status written writes
  | takeHostRequest =>
      cases ran
      exact tracks.takeHostRequest
  | completeRead id data =>
      obtain ⟨⟨answer, completed⟩, completes, rfl⟩ := except_map_ok ran
      exact complete_tracks guest tracks timely completes
  | completeOperation id =>
      obtain ⟨⟨answer, completed⟩, completes, rfl⟩ := except_map_ok ran
      exact complete_tracks guest tracks timely completes
  | failOperation id =>
      obtain ⟨⟨answer, completed⟩, completes, rfl⟩ := except_map_ok ran
      exact complete_tracks guest tracks timely completes

theorem step_quiet {event : BlockState.Event Ram} (timely : Timely state event)
    (completion : IsCompletion event)
    (notReady : (state.queue virtioBlockQueue.toNat).ready = 0)
    (ran : state.step guest fuel event = .ok next) : next.ram = state.ram := by
  cases event with
  | guestStores ram => cases completion
  | mmioWrite offset value log2Size => cases completion
  | takeHostRequest => cases completion
  | completeRead id data =>
      obtain ⟨⟨answer, completed⟩, completes, rfl⟩ := except_map_ok ran
      exact complete_quiet guest timely notReady completes
  | completeOperation id =>
      obtain ⟨⟨answer, completed⟩, completes, rfl⟩ := except_map_ok ran
      exact complete_quiet guest timely notReady completes
  | failOperation id =>
      obtain ⟨⟨answer, completed⟩, completes, rfl⟩ := except_map_ok ran
      exact complete_quiet guest timely notReady completes

end Runs

end MachineEmulator.Virtio