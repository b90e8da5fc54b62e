/-
This file proves what the queues of the network device keep over all interleavings of the guest and
the host.
-/

import MachineEmulator.Proof.Virtio.DescriptorChain
import MachineEmulator.Proof.Virtio.NetLedger
import MachineEmulator.Proof.Virtio.Registers

namespace MachineEmulator.Virtio

open NetState (netCallbacks queueCallbacks)

variable {Ram : Type}

/-- A transmitted frame has exactly the bytes of its chain behind the header if and only if the
buffers of the chain have less than 2^32 bytes to read. -/
def ExactIffShort (guest : GuestMemory Ram) : NetObservation Ram → Prop
  | .transmitted _ descIdx vq ram packet =>
      ExactFrame guest vq ram descIdx virtioNetHeaderSize.toNat packet.data ↔
        ShortChain guest vq ram descIdx
  | _ => True

section Invariant

variable (guest : GuestMemory Ram)

/-- The device agrees with its accounts. -/
structure NetTracks (state : NetState Ram) : Prop where
  legal : (netAccounts Ram).AllLegal state.device.observations
  pending : state.device.receivePackets =
    ((netAccounts Ram).after state.device.observations).pending
  waiting : state.device.transmitPackets =
    ((netAccounts Ram).after state.device.observations).waiting
  pushes : state.device.pushes = ((netAccounts Ram).after state.device.observations).pushes
  transmissions : state.device.transmissions =
    ((netAccounts Ram).after state.device.observations).transmissions
  receiveRing : (state.queue virtioNetReceiveq.toNat).lastUsedIdx =
    BitVec.ofNat 16 ((netAccounts Ram).after state.device.observations).received
  sendRing : (state.queue virtioNetTransmitq.toNat).lastUsedIdx =
    BitVec.ofNat 16 ((netAccounts Ram).after state.device.observations).sent
  frames : ∀ event ∈ state.device.observations, ExactIffShort guest event

variable {guest} {state next : NetState Ram}

theorem NetTracks.frame (tracks : NetTracks guest state) (same : SameRings state next) :
    NetTracks guest next where
  legal := same.device ▸ tracks.legal
  pending := same.device ▸ tracks.pending
  waiting := same.device ▸ tracks.waiting
  pushes := same.device ▸ tracks.pushes
  transmissions := same.device ▸ tracks.transmissions
  receiveRing := by
    rw [same.rings, same.device]
    exact tracks.receiveRing
  sendRing := by
    rw [same.rings, same.device]
    exact tracks.sendRing
  frames := same.device ▸ tracks.frames

/-- A failed access asks for a reset, with what it wrote before. -/
theorem NetTracks.failed (tracks : NetTracks guest state) (ram : Ram) :
    NetTracks guest (VirtioState.notifyDeviceNeedsReset { state with ram := ram }) := by
  have changed : NetTracks guest { state with ram := ram } := tracks.frame (.of_queue rfl rfl id)
  exact changed.frame (sameRings_needsReset _)

/-- A new event keeps the accounts if it is legal and the device does what they say. -/
theorem NetTracks.observed (tracks : NetTracks guest state) (event : NetObservation Ram)
    (observations : next.device.observations = state.device.observations ++ [event])
    (legal : ((netAccounts Ram).after state.device.observations).Legal event)
    (exactly : ExactIffShort guest event)
    (pending : next.device.receivePackets =
      (((netAccounts Ram).after state.device.observations).next event).pending)
    (waiting : next.device.transmitPackets =
      (((netAccounts Ram).after state.device.observations).next event).waiting)
    (pushes : next.device.pushes =
      (((netAccounts Ram).after state.device.observations).next event).pushes)
    (transmissions : next.device.transmissions =
      (((netAccounts Ram).after state.device.observations).next event).transmissions)
    (receiveRing : (next.queue virtioNetReceiveq.toNat).lastUsedIdx =
      BitVec.ofNat 16 (((netAccounts Ram).after state.device.observations).next event).received)
    (sendRing : (next.queue virtioNetTransmitq.toNat).lastUsedIdx =
      BitVec.ofNat 16 (((netAccounts Ram).after state.device.observations).next event).sent) :
    NetTracks guest next := by
  have after : (netAccounts Ram).after next.device.observations =
      ((netAccounts Ram).after state.device.observations).next event := by
    rw [observations, Accounts.after_append]
    rfl
  constructor
  · rw [observations]
    exact tracks.legal.append legal
  · rw [after, pending]
  · rw [after, waiting]
  · rw [after, pushes]
  · rw [after, transmissions]
  · rw [after, receiveRing]
  · rw [after, sendRing]
  · intro other member
    rw [observations, List.mem_append, List.mem_singleton] at member
    rcases member with member | rfl
    · exact tracks.frames other member
    · exact exactly

theorem netTracks_initial (ram : Ram) : NetTracks guest (NetState.initial ram) where
  legal := Accounts.allLegal_nil
  pending := rfl
  waiting := rfl
  pushes := rfl
  transmissions := rfl
  receiveRing := rfl
  sendRing := rfl
  frames _ member := absurd member (List.not_mem_nil)

end Invariant

section Elements

variable {guest : GuestMemory Ram} {state next : NetState Ram} {fuel : Nat} {descIdx : BitVec 16}
  {readAvailLen writeAvailLen : BitVec 32} {continues flushes : Bool}

theorem receiveOne_tracks (tracks : NetTracks guest state)
    (ran : state.receiveOne guest fuel descIdx writeAvailLen = .ok (continues, flushes, next)) :
    NetTracks guest next := by
  unfold NetState.receiveOne at ran
  split at ran
  · cases ran
    exact tracks
  rename_i packet rest waiting
  extract_lets vq writtenLen at ran
  split at ran
  · cases ran
    exact tracks.frame (sameRings_needsReset state)
  obtain ⟨⟨headed, ram⟩, _, ran⟩ := bind_ok.mp ran
  dsimp only at ran
  split at ran
  · cases ran
    exact tracks.failed ram
  obtain ⟨⟨written, ram'⟩, _, ran⟩ := bind_ok.mp ran
  dsimp only at ran
  split at ran
  · cases ran
    exact tracks.failed ram'
  obtain ⟨⟨consumed, used⟩, consumes, ran⟩ := bind_ok.mp ran
  obtain ⟨device, driverOk, rings⟩ := consumeQueue_ring guest consumes
  dsimp only at ran
  split at ran
  · rename_i failed
    cases ran
    have kept : SameRings state used :=
      ⟨device, fun index => by simpa [failed] using rings index, fun started => driverOk.trans started⟩
    exact (tracks.frame kept).frame (sameRings_needsReset _)
  · rename_i succeeded
    cases ran
    have head : ((netAccounts Ram).after state.device.observations).pending.head? = some packet := by
      rw [← tracks.pending, waiting]
      rfl
    have moved := rings virtioNetReceiveq.toNat
    have still := rings virtioNetTransmitq.toNat
    rw [if_pos ⟨rfl, not_not.mp succeeded⟩] at moved
    rw [if_neg fun both => absurd both.1 (by decide)] at still
    have popped : NetTracks guest (NetState.popReceived vq.lastUsedIdx packet used) := by
      apply tracks.observed (.completed vq.lastUsedIdx packet)
      · simp [NetState.popReceived, NetState.observe, device]
      · exact ⟨head, tracks.receiveRing⟩
      · trivial
      · simp [NetState.popReceived, NetState.observe, device, NetLedger.next, tracks.pending]
      · simpa [NetState.popReceived, NetState.observe, device, NetLedger.next] using tracks.waiting
      · simpa [NetState.popReceived, NetState.observe, device, NetLedger.next] using tracks.pushes
      · simpa [NetState.popReceived, NetState.observe, device, NetLedger.next] using
          tracks.transmissions
      · show (used.queue virtioNetReceiveq.toNat).lastUsedIdx = BitVec.ofNat 16 (_ + 1)
        rw [moved, BitVec.ofNat_add, ← tracks.receiveRing]
        rfl
      · show (used.queue virtioNetTransmitq.toNat).lastUsedIdx = _
        rw [still, tracks.sendRing]
        rfl
    exact popped.frame (sameRings_queueUsed _)

/-- The frame of a used element is the last one transmitted. -/
theorem pushTransmitted_tracks (tracks : NetTracks guest state) {used : NetState Ram}
    {data : List Byte} {ram : Ram} (device : used.device = state.device)
    (receiveRing : (used.queue virtioNetReceiveq.toNat).lastUsedIdx =
      (state.queue virtioNetReceiveq.toNat).lastUsedIdx)
    (sendRing : (used.queue virtioNetTransmitq.toNat).lastUsedIdx =
      (state.queue virtioNetTransmitq.toNat).lastUsedIdx + 1)
    (exactly : ExactFrame guest (state.queue virtioNetTransmitq.toNat) ram descIdx
        virtioNetHeaderSize.toNat data ↔
      ShortChain guest (state.queue virtioNetTransmitq.toNat) ram descIdx) :
    NetTracks guest (NetState.pushTransmitted descIdx (state.queue virtioNetTransmitq.toNat) ram
      data used) := by
  have bounded := NetLedger.bounded_after tracks.legal
  have counted : used.device.transmissions =
      ((netAccounts Ram).after state.device.observations).transmissions := by
    rw [device]
    exact tracks.transmissions
  have received : (used.queue virtioNetReceiveq.toNat).lastUsedIdx =
      BitVec.ofNat 16 ((netAccounts Ram).after state.device.observations).received := by
    rw [receiveRing]
    exact tracks.receiveRing
  have sent : (used.queue virtioNetTransmitq.toNat).lastUsedIdx =
      BitVec.ofNat 16 (((netAccounts Ram).after state.device.observations).sent + 1) := by
    rw [sendRing, tracks.sendRing, BitVec.ofNat_add]
    rfl
  unfold NetState.pushTransmitted
  extract_lets packet before counted' queued
  split
  · rename_i room
    rw [device, tracks.waiting] at room
    apply tracks.observed (.transmitted (state.queue virtioNetTransmitq.toNat).lastUsedIdx descIdx
      (state.queue virtioNetTransmitq.toNat) ram packet)
    · simp [NetState.observe, queued, counted', before, device]
    · exact ⟨counted, tracks.sendRing, room⟩
    · exact exactly
    · simpa [NetState.observe, queued, counted', before, device, NetLedger.next] using tracks.pending
    · simp [NetState.observe, queued, counted', before, device, NetLedger.next, tracks.waiting]
    · simpa [NetState.observe, queued, counted', before, device, NetLedger.next] using tracks.pushes
    · simp [NetState.observe, queued, counted', before, NetLedger.next, counted]
    · exact received
    · exact sent
  · rename_i full
    rw [device, tracks.waiting] at full
    apply tracks.observed (.droppedNewest (state.queue virtioNetTransmitq.toNat).lastUsedIdx descIdx
      (state.queue virtioNetTransmitq.toNat) ram packet)
    · simp [NetState.observe, counted', before, device]
    · exact ⟨counted, tracks.sendRing, le_antisymm bounded.waitingSize (not_lt.mp full)⟩
    · trivial
    · simpa [NetState.observe, counted', before, device, NetLedger.next] using tracks.pending
    · simpa [NetState.observe, counted', before, device, NetLedger.next] using tracks.waiting
    · simpa [NetState.observe, counted', before, device, NetLedger.next] using tracks.pushes
    · simp [NetState.observe, counted', before, NetLedger.next, counted]
    · exact received
    · exact sent

theorem transmitOne_tracks (sized : guest.Sized) (tracks : NetTracks guest state)
    (parsed : (state.queue virtioNetTransmitq.toNat).getDescRwAvailLen guest fuel state.ram descIdx =
      .ok (true, readAvailLen, writeAvailLen))
    (ran : state.transmitOne guest fuel descIdx readAvailLen = .ok (continues, flushes, next)) :
    NetTracks guest next := by
  unfold NetState.transmitOne at ran
  split at ran
  · cases ran
    exact tracks.frame (sameRings_needsReset state)
  rename_i fits
  have enough : virtioNetHeaderSize ≤ readAvailLen := by
    rw [BitVec.le_def]
    rw [not_or, BitVec.lt_def] at fits
    omega
  obtain ⟨read, reads, ran⟩ := bind_ok.mp ran
  cases read with
  | none =>
      cases ran
      exact tracks.frame (sameRings_needsReset state)
  | some data =>
      obtain ⟨⟨consumed, used⟩, consumes, ran⟩ := bind_ok.mp ran
      obtain ⟨device, driverOk, rings⟩ := consumeQueue_ring guest consumes
      dsimp only at ran
      split at ran
      · rename_i failed
        cases ran
        have kept : SameRings state used :=
          ⟨device, fun index => by simpa [failed] using rings index,
            fun started => driverOk.trans started⟩
        exact (tracks.frame kept).frame (sameRings_needsReset _)
      · rename_i succeeded
        cases ran
        have moved := rings virtioNetTransmitq.toNat
        have still := rings virtioNetReceiveq.toNat
        rw [if_pos ⟨rfl, not_not.mp succeeded⟩] at moved
        rw [if_neg fun both => absurd both.1 (by decide)] at still
        have pushed := pushTransmitted_tracks tracks device still moved
          (exactFrame_iff_short sized parsed enough reads)
        exact pushed.frame (sameRings_queueUsed _)

theorem netQueueAvailable_tracks (sized : guest.Sized) {queueIdx : BitVec 32}
    (tracks : NetTracks guest state)
    (parsed : (state.queue queueIdx.toNat).getDescRwAvailLen guest fuel state.ram descIdx =
      .ok (true, readAvailLen, writeAvailLen))
    (ran : state.doOnDeviceQueueAvailable guest fuel queueIdx descIdx readAvailLen writeAvailLen =
      .ok (continues, flushes, next)) : NetTracks guest next := by
  unfold NetState.doOnDeviceQueueAvailable at ran
  split at ran
  · exact receiveOne_tracks tracks ran
  split at ran
  · rename_i transmits
    rw [transmits] at parsed
    exact transmitOne_tracks sized tracks parsed ran
  · cases ran
    exact tracks.frame (sameRings_needsReset state)

/-- A run of a queue keeps the accounts, whatever starts it. -/
theorem netNotifyLoop_tracks (sized : guest.Sized) {callbacks : Callbacks (NetDevice Ram) Ram}
    (device : callbacks.onDeviceQueueAvailable = NetState.doOnDeviceQueueAvailable guest)
    {queueIdx : BitVec 32} {lastAvailIdx : BitVec 16} (rounds : Nat) {flush answer : Bool}
    (tracks : NetTracks guest state)
    (ran : VirtioState.notifyLoop guest callbacks fuel queueIdx lastAvailIdx rounds flush state =
      .ok (answer, next)) : NetTracks guest next := by
  induction rounds generalizing flush state with
  | zero => cases ran
  | succ rounds ih =>
      simp only [VirtioState.notifyLoop] at ran
      split at ran
      · cases ran
        exact tracks
      split at ran
      · cases ran
        exact tracks.frame (sameRings_needsReset state)
      obtain ⟨⟨parsed, readLen, writeLen⟩, parses, ran⟩ := bind_ok.mp ran
      split at ran
      · cases ran
        exact tracks.frame (sameRings_needsReset state)
      rename_i complete
      obtain rfl : parsed = true := by simpa using complete
      obtain ⟨⟨continues, flushes, handled⟩, handles, ran⟩ := bind_ok.mp ran
      rw [device] at handles
      have kept := netQueueAvailable_tracks sized tracks parses handles
      split at ran
      · cases ran
        exact kept
      obtain ⟨_, _, ran⟩ := bind_ok.mp ran
      exact ih kept ran

theorem netQueueNotify_tracks (sized : guest.Sized) {callbacks : Callbacks (NetDevice Ram) Ram}
    (device : callbacks.onDeviceQueueAvailable = NetState.doOnDeviceQueueAvailable guest)
    {queueIdx : BitVec 32} {answer : Bool} (tracks : NetTracks guest state)
    (ran : state.onDeviceQueueNotify guest callbacks fuel queueIdx = .ok (answer, next)) :
    NetTracks guest next := by
  simp only [VirtioState.onDeviceQueueNotify] at ran
  split at ran
  · cases ran
    exact tracks
  split at ran
  · cases ran
    exact tracks
  split at ran
  · cases ran
    exact tracks.frame (sameRings_needsReset state)
  · exact netNotifyLoop_tracks sized device _ tracks ran

theorem deliver_tracks (sized : guest.Sized) (tracks : NetTracks guest state)
    (ran : state.deliverReceivePackets guest fuel = .ok next) : NetTracks guest next := by
  unfold NetState.deliverReceivePackets at ran
  split at ran
  · cases ran
    exact tracks
  · obtain ⟨⟨_, notified⟩, notifies, ran⟩ := bind_ok.mp ran
    cases ran
    exact netQueueNotify_tracks sized rfl tracks notifies

end Elements

section Events

variable {guest : GuestMemory Ram} {state next : NetState Ram} {fuel : Nat}

/-- A reset and the host empty both queues. -/
theorem NetTracks.clear (tracks : NetTracks guest state) :
    NetTracks guest { state with device := NetState.clearPackets .cleared state.device } := by
  apply tracks.observed (.cleared)
  · rfl
  · trivial
  · trivial
  · rfl
  · rfl
  · exact tracks.pushes
  · exact tracks.transmissions
  · exact tracks.receiveRing
  · exact tracks.sendRing

theorem NetTracks.reset (tracks : NetTracks guest state) (callbacks : Callbacks (NetDevice Ram) Ram)
    (device : callbacks.onDeviceReset = NetState.doOnDeviceReset) :
    NetTracks guest (state.reset callbacks) := by
  apply tracks.observed (.deviceReset)
  · simp [VirtioState.reset, VirtioState.resetIrq, device, NetState.doOnDeviceReset,
      NetState.clearPackets, NetState.observe]
  · trivial
  · trivial
  · simp [VirtioState.reset, VirtioState.resetIrq, device, NetState.doOnDeviceReset,
      NetState.clearPackets, NetState.observe, NetLedger.next]
  · simp [VirtioState.reset, VirtioState.resetIrq, device, NetState.doOnDeviceReset,
      NetState.clearPackets, NetState.observe, NetLedger.next]
  · simpa [VirtioState.reset, VirtioState.resetIrq, device, NetState.doOnDeviceReset,
      NetState.clearPackets, NetState.observe, NetLedger.next] using tracks.pushes
  · simpa [VirtioState.reset, VirtioState.resetIrq, device, NetState.doOnDeviceReset,
      NetState.clearPackets, NetState.observe, NetLedger.next] using tracks.transmissions
  · rfl
  · rfl

/-- Nothing but the code of the device touches its accounts. -/
theorem netTracks_keptBy (sized : guest.Sized) :
    KeptBy guest (netCallbacks guest) (NetTracks guest) where
  frame tracks same := tracks.frame same
  reset tracks := tracks.reset (netCallbacks guest) rfl
  deviceOk tracks ran := deliver_tracks sized tracks ran
  notify tracks ran := netQueueNotify_tracks sized rfl tracks ran

/-- A frame is pushed behind the others while there is room. -/
theorem NetTracks.push (tracks : NetTracks guest state) (data : List Byte)
    (room : state.device.receivePackets.length < virtioNetMaxQueuedPackets)
    {device : NetDevice Ram}
    (pushed : device = NetState.observe (.pushed ⟨state.device.pushes, data⟩)
      { state.device with
        receivePackets := state.device.receivePackets ++ [⟨state.device.pushes, data⟩]
        pushes := state.device.pushes + 1 }) :
    NetTracks guest { state with device := device } := by
  subst pushed
  apply tracks.observed (.pushed ⟨state.device.pushes, data⟩)
  · rfl
  · rw [tracks.pending] at room
    exact ⟨tracks.pushes, room⟩
  · trivial
  · simp [NetState.observe, NetLedger.next, tracks.pending]
  · exact tracks.waiting
  · simp [NetState.observe, NetLedger.next, tracks.pushes]
  · exact tracks.transmissions
  · exact tracks.receiveRing
  · exact tracks.sendRing

/-- The oldest frame of a full queue makes room. -/
theorem NetTracks.dropOldest (tracks : NetTracks guest state) {oldest : Packet} {rest : List Packet}
    (queue : state.device.receivePackets = oldest :: rest)
    (full : (oldest :: rest).length = virtioNetMaxQueuedPackets) {device : NetDevice Ram}
    (dropped : device = NetState.observe (.droppedOldest oldest)
      { state.device with receivePackets := rest }) :
    NetTracks guest { state with device := device } := by
  subst dropped
  apply tracks.observed (.droppedOldest oldest)
  · rfl
  · constructor
    · rw [← tracks.pending, queue]
      rfl
    · rw [← tracks.pending, queue]
      exact full
  · trivial
  · simp [NetState.observe, NetLedger.next, ← tracks.pending, queue]
  · exact tracks.waiting
  · exact tracks.pushes
  · exact tracks.transmissions
  · exact tracks.receiveRing
  · exact tracks.sendRing

theorem NetTracks.enqueue (tracks : NetTracks guest state) (data : List Byte) :
    NetTracks guest { state with device := NetState.enqueueReceived data state.device } := by
  have bounded := NetLedger.bounded_after tracks.legal
  cases queue : state.device.receivePackets with
  | nil =>
      apply tracks.push data
      · rw [queue]
        decide
      · simp [NetState.enqueueReceived, queue]
  | cons oldest rest =>
      by_cases full : (oldest :: rest).length = virtioNetMaxQueuedPackets
      · refine NetTracks.push (tracks.dropOldest queue full rfl) data ?_ ?_
        · rw [List.length_cons] at full
          show rest.length < virtioNetMaxQueuedPackets
          omega
        · simp only [NetState.enqueueReceived, queue]
          rw [if_pos full]
          rfl
      · apply tracks.push data
        · rw [queue]
          apply lt_of_le_of_ne _ full
          rw [← queue, tracks.pending]
          exact bounded.pendingSize
        · simp only [NetState.enqueueReceived, queue]
          rw [if_neg full, queue]

theorem pushReceivePacket_tracks (sized : guest.Sized) {data : Option (List Byte)} {answer : Bool}
    (tracks : NetTracks guest state)
    (ran : state.pushReceivePacket guest fuel data = .ok (answer, next)) :
    NetTracks guest next := by
  unfold NetState.pushReceivePacket at ran
  split at ran
  · cases ran
    exact tracks
  split at ran
  · cases ran
    exact tracks
  · obtain ⟨delivered, delivers, ran⟩ := bind_ok.mp ran
    cases ran
    exact deliver_tracks sized (tracks.enqueue _) delivers

theorem NetTracks.takeTransmitPacket (tracks : NetTracks guest state) :
    NetTracks guest state.takeTransmitPacket.2 := by
  unfold NetState.takeTransmitPacket
  split
  · exact tracks
  · rename_i packet rest queue
    apply tracks.observed (.taken packet)
    · rfl
    · show ((netAccounts Ram).after state.device.observations).waiting.head? = some packet
      rw [← tracks.waiting, queue]
      rfl
    · trivial
    · exact tracks.pending
    · simp [NetState.observe, NetLedger.next, ← tracks.waiting, queue]
    · exact tracks.pushes
    · exact tracks.transmissions
    · exact tracks.receiveRing
    · exact tracks.sendRing

theorem netStep_tracks (sized : guest.Sized) {event : NetState.Event Ram}
    (tracks : NetTracks guest state) (ran : state.step guest fuel event = .ok next) :
    NetTracks guest next := by
  cases event with
  | guestStores ram =>
      cases ran
      exact tracks.frame (.of_queue rfl rfl id)
  | mmioWrite offset value log2Size =>
      obtain ⟨⟨status, written⟩, writes, rfl⟩ := except_map_ok ran
      exact mmioWrite_keeps (netTracks_keptBy sized) tracks status written writes
  | pushReceivePacket data =>
      obtain ⟨⟨answer, pushed⟩, pushes, rfl⟩ := except_map_ok ran
      exact pushReceivePacket_tracks sized tracks pushes
  | takeTransmitPacket =>
      cases ran
      exact tracks.takeTransmitPacket
  | clearPackets =>
      cases ran
      exact tracks.clear

end Events

end MachineEmulator.Virtio
