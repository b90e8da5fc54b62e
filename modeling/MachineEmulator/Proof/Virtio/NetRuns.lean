/-
This file proves what the network device keeps in every run, and shows a chain that the device takes
for a shorter one.
-/

import MachineEmulator.Proof.Virtio.BlockRuns
import MachineEmulator.Proof.Virtio.NetQueues

namespace MachineEmulator.Virtio

variable {Ram : Type}

/-- The states that a network device reaches through events of the guest and the host. -/
inductive NetReaches (guest : GuestMemory Ram) (start : NetState Ram) : NetState Ram → Prop
  | start : NetReaches guest start start
  | step {state next : NetState Ram} {event : NetState.Event Ram} (fuel : Nat)
      (reached : NetReaches guest start state) (ran : state.step guest fuel event = .ok next) :
      NetReaches guest start next

theorem NetReaches.tracks {guest : GuestMemory Ram} (sized : guest.Sized) {start state : NetState Ram}
    (tracks : NetTracks guest start) (reached : NetReaches guest start state) :
    NetTracks guest state := by
  induction reached with
  | start => exact tracks
  | step fuel _ ran ih => exact netStep_tracks sized ih ran

/-- Both queues are bounded and drop frames only by their rule, frames reach the guest at most once,
in the order of their pushes and not across a reset, and frames reach the host at most once, in the
order of the transmitted elements. -/
structure QueuesKept (state : NetState Ram) : Prop where
  receiveBound : state.device.receivePackets.length ≤ virtioNetMaxQueuedPackets
  transmitBound : state.device.transmitPackets.length ≤ virtioNetMaxQueuedPackets
  inOrder : (netAccounts Ram).AllLegal state.device.observations
  completedPushed : ∀ earlier later ringIdx packet,
    state.device.observations = earlier ++ .completed ringIdx packet :: later →
    .pushed packet ∈ earlier
  completedInOrder : ∀ earlier between later ringIdx ringIdx' packet packet',
    state.device.observations = earlier ++ .completed ringIdx packet ::
      (between ++ .completed ringIdx' packet' :: later) → packet.serial < packet'.serial
  completedSinceReset : ∀ earlier between later ringIdx packet,
    state.device.observations = earlier ++ .deviceReset ::
      (between ++ .completed ringIdx packet :: later) → .pushed packet ∉ earlier
  takenTransmitted : ∀ earlier later packet,
    state.device.observations = earlier ++ .taken packet :: later →
    ∃ ringIdx descIdx vq ram, .transmitted ringIdx descIdx vq ram packet ∈ earlier
  takenInOrder : ∀ earlier between later packet packet',
    state.device.observations = earlier ++ .taken packet ::
      (between ++ .taken packet' :: later) → packet.serial < packet'.serial

theorem NetTracks.queuesKept {guest : GuestMemory Ram} {state : NetState Ram}
    (tracks : NetTracks guest state) : QueuesKept state where
  receiveBound := by
    rw [tracks.pending]
    exact (NetLedger.bounded_after tracks.legal).pendingSize
  transmitBound := by
    rw [tracks.waiting]
    exact (NetLedger.bounded_after tracks.legal).waitingSize
  inOrder := tracks.legal
  completedPushed := by
    intro earlier later ringIdx packet same
    exact NetLedger.pushed_of_completed (same ▸ tracks.legal)
  completedInOrder := by
    intro earlier between later ringIdx ringIdx' packet packet' same
    exact NetLedger.completed_lt (same ▸ tracks.legal)
  completedSinceReset := by
    intro earlier between later ringIdx packet same
    exact NetLedger.not_completed_of_reset (same ▸ tracks.legal)
  takenTransmitted := by
    intro earlier later packet same
    exact NetLedger.transmitted_of_taken (same ▸ tracks.legal)
  takenInOrder := by
    intro earlier between later packet packet' same
    exact NetLedger.taken_lt (same ▸ tracks.legal)

section LongChain

theorem flatGuest_sized : flatGuest.Sized := by
  intro memory address length data read
  cases read
  simp [Memory.load]

/-- A transmitted element of two buffers, with 20 bytes and almost 2^32 bytes. -/
def longRing : Memory :=
  let blank : Memory := fun _ => 0
  let first := blank.store 0x1000 (wordToBytes 0x5000 ++ wordToBytes 0x0001000100000014)
  let second := first.store 0x1010 (wordToBytes 0x6000 ++ wordToBytes 0x00000000fffffffc)
  second.store 0x2002 [1, 0]

/-- The driver starts the device with the transmit queue and notifies it, and the host takes what
there is. -/
def transmitEvents : List (NetState.Event Memory) :=
  [.mmioWrite 0x030 1 2, .mmioWrite 0x038 2 2, .mmioWrite 0x080 0x1000 2,
    .mmioWrite 0x090 0x2000 2, .mmioWrite 0x0a0 0x3000 2, .mmioWrite 0x044 1 2,
    .mmioWrite 0x070 4 2, .mmioWrite 0x050 1 2]

def runNetEvents (events : List (NetState.Event Memory)) : Except Failure (NetState Memory) :=
  events.foldlM (fun state event => state.step flatGuest 4 event) (.initial longRing)

theorem netReaches_run {guest : GuestMemory Ram} {start state finish : NetState Ram} {fuel : Nat}
    (events : List (NetState.Event Ram)) (reached : NetReaches guest start state)
    (ran : events.foldlM (fun state event => state.step guest fuel event) state = .ok finish) :
    NetReaches guest start finish := by
  induction events generalizing state with
  | nil =>
      cases ran
      exact reached
  | cons event events ih =>
      obtain ⟨next, steps, ran⟩ := bind_ok.mp ran
      exact ih (.step fuel reached steps) ran

/-- The first two descriptors of the element that was transmitted last, and its frame. -/
def lastTransmission (state : NetState Memory) :
    Option (Option VirtqDesc × Option VirtqDesc × List Byte) :=
  match state.device.observations.getLast? with
  | some (.transmitted _ descIdx vq ram packet) =>
      some (vq.getDesc flatGuest ram descIdx, vq.getDesc flatGuest ram 1, packet.data)
  | _ => none

theorem transmitted_of_last {state : NetState Memory} {first second : Option VirtqDesc}
    {data : List Byte} (last : lastTransmission state = some (first, second, data)) :
    ∃ ringIdx descIdx vq ram packet,
      .transmitted ringIdx descIdx vq ram packet ∈ state.device.observations ∧
        vq.getDesc flatGuest ram descIdx = first ∧ vq.getDesc flatGuest ram 1 = second ∧
        packet.data = data := by
  rw [lastTransmission] at last
  split at last
  · rename_i ringIdx descIdx vq ram packet final
    simp only [Option.some.injEq, Prod.mk.injEq] at last
    exact ⟨ringIdx, descIdx, vq, ram, packet, List.mem_of_getLast? final, last⟩
  · cases last

theorem longRing_transmitted : ∃ state, NetReaches flatGuest (NetState.initial longRing) state ∧
    lastTransmission state = some (some ⟨0x5000, 20, 1, 1⟩, some ⟨0x6000, 0xfffffffc, 0, 0⟩,
      [0, 0, 0, 0]) := by
  have ran : (runNetEvents transmitEvents).toOption.map lastTransmission =
      some (some (some ⟨0x5000, 20, 1, 1⟩, some ⟨0x6000, 0xfffffffc, 0, 0⟩, [0, 0, 0, 0])) := by
    decide
  obtain ⟨state, ran, view⟩ := ok_of_toOption ran
  exact ⟨state, netReaches_run transmitEvents .start ran, view⟩

end LongChain

end MachineEmulator.Virtio
