/-
This file proves what a block device keeps in every run, and shows what a late answer of the host
can do.
-/

import MachineEmulator.Proof.Virtio.BlockLifecycle

namespace MachineEmulator.Virtio

variable {Ram : Type}

/-- The states that a device reaches through events of the guest and the host, all of them timely. -/
inductive Reaches (guest : GuestMemory Ram) (start : BlockState Ram) : BlockState Ram → Prop
  | start : Reaches guest start start
  | step {state next : BlockState Ram} {event : BlockState.Event Ram} (fuel : Nat)
      (reached : Reaches guest start state) (timely : Timely state event)
      (ran : state.step guest fuel event = .ok next) : Reaches guest start next

theorem Reaches.tracks {guest : GuestMemory Ram} {start state : BlockState Ram}
    (tracks : Tracks start) (reached : Reaches guest start state) : Tracks state := by
  induction reached with
  | start => exact tracks
  | step fuel _ timely ran ih => exact step_tracks guest ih timely ran

/-- At most one request is in flight, and each element of the ring is exported at most once and
completed at most once, in the order of the ring, by an answer from after the last reset. -/
structure Orderly (state : BlockState Ram) : Prop where
  oneInFlight : state.device.pendingRequests.length ≤ 1
  inOrder : Ledger.AllLegal state.device.observations
  exportedOnce : ∀ earlier between later ringIdx ringIdx' id id' descIdx descIdx',
    state.device.observations = earlier ++ .exported ringIdx id descIdx ::
      (between ++ .exported ringIdx' id' descIdx' :: later) →
    .deviceReset ∉ between →
    (Ledger.after earlier).consumed <
      (Ledger.after (earlier ++ .exported ringIdx id descIdx :: between)).consumed
  completedOnce : ∀ earlier between later ringIdx ringIdx' id id' descIdx descIdx',
    state.device.observations = earlier ++ .completed ringIdx id descIdx ::
      (between ++ .completed ringIdx' id' descIdx' :: later) →
    .deviceReset ∉ between →
    (Ledger.after earlier).consumed <
      (Ledger.after (earlier ++ .completed ringIdx id descIdx :: between)).consumed

theorem Tracks.orderly {state : BlockState Ram} (tracks : Tracks state) : Orderly state where
  oneInFlight := tracks.single
  inOrder := tracks.legal
  exportedOnce := by
    intro earlier between later ringIdx ringIdx' id id' descIdx descIdx' same kept
    exact Ledger.exported_once (same ▸ tracks.legal) kept
  completedOnce := by
    intro earlier between later ringIdx ringIdx' id id' descIdx descIdx' same kept
    exact Ledger.completed_once kept

section LateAnswer

/-- A guest whose whole address space is memory. -/
def flatGuest : GuestMemory Memory where
  readMemory memory address length := some (memory.load address length)
  writeMemory memory address data := some (memory.store address data)

/-- A flush request at descriptor 0, with its status byte at descriptor 1. -/
def flushRing : Memory :=
  let blank : Memory := fun _ => 0
  let header := blank.store 0x1000 (wordToBytes 0x4000 ++ wordToBytes 0x0001000100000010)
  let status := header.store 0x1010 (wordToBytes 0x5000 ++ wordToBytes 0x0000000200000001)
  let avail := status.store 0x2002 [1, 0]
  avail.store 0x4000 [4, 0, 0, 0]

/-- The driver starts the device and notifies the first queue. -/
def startEvents : List (BlockState.Event Memory) :=
  [.mmioWrite 0x038 2 2, .mmioWrite 0x080 0x1000 2, .mmioWrite 0x090 0x2000 2,
    .mmioWrite 0x0a0 0x3000 2, .mmioWrite 0x044 1 2, .mmioWrite 0x070 4 2, .mmioWrite 0x050 0 2]

/-- The host takes the request, and answers after the driver has started the device anew. -/
def lateEvents : List (BlockState.Event Memory) :=
  startEvents ++ [.takeHostRequest, .mmioWrite 0x070 0 2] ++ startEvents ++ [.completeOperation 1]

/-- The driver takes the queue back while a request is in flight. -/
def withdrawEvents : List (BlockState.Event Memory) :=
  startEvents ++ [.takeHostRequest, .mmioWrite 0x044 0 2]

def runEvents (events : List (BlockState.Event Memory)) : Except Failure (BlockState Memory) :=
  events.foldlM (fun state event => state.step flatGuest 4 event) (.initial 0 8 flushRing)

/-- A run without answers of the host is timely. -/
theorem reaches_run {guest : GuestMemory Ram} {start state finish : BlockState Ram} {fuel : Nat}
    (events : List (BlockState.Event Ram)) (unanswered : ∀ event ∈ events, ∀ reached, Timely reached event)
    (reached : Reaches guest start state)
    (ran : events.foldlM (fun state event => state.step guest fuel event) state = .ok finish) :
    Reaches guest start finish := by
  induction events generalizing state with
  | nil =>
      cases ran
      exact reached
  | cons event events ih =>
      obtain ⟨next, steps, ran⟩ := bind_ok.mp ran
      have timely := unanswered event List.mem_cons_self state
      apply ih (fun event member => unanswered event (List.mem_cons_of_mem _ member)) _ ran
      exact .step fuel reached timely steps

end LateAnswer

end MachineEmulator.Virtio
