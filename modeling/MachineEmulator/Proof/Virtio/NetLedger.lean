/-
This file gives the accounts of the network device as the guest and the host see it.
-/

import MachineEmulator.Construction.Virtio.NetHost
import MachineEmulator.Library.Accounts

namespace MachineEmulator.Virtio

variable {Ram : Type}

/-- The frames that wait for the guest and for the host, the numbers of frames pushed and transmitted,
and the elements of both queues used since the last device reset. -/
structure NetLedger where
  pending : List Packet
  waiting : List Packet
  pushes : Nat
  transmissions : Nat
  received : Nat
  sent : Nat

namespace NetLedger

def initial : NetLedger := ⟨[], [], 0, 0, 0, 0⟩

def next (ledger : NetLedger) : NetObservation Ram → NetLedger
  | .pushed packet =>
      { ledger with pending := ledger.pending ++ [packet], pushes := ledger.pushes + 1 }
  | .droppedOldest _ => { ledger with pending := ledger.pending.tail }
  | .completed _ _ => { ledger with pending := ledger.pending.tail, received := ledger.received + 1 }
  | .transmitted _ _ _ _ packet =>
      { ledger with
        waiting := ledger.waiting ++ [packet]
        transmissions := ledger.transmissions + 1
        sent := ledger.sent + 1 }
  | .droppedNewest _ _ _ _ _ =>
      { ledger with transmissions := ledger.transmissions + 1, sent := ledger.sent + 1 }
  | .taken _ => { ledger with waiting := ledger.waiting.tail }
  | .cleared => { ledger with pending := [], waiting := [] }
  | .deviceReset => { ledger with pending := [], waiting := [], received := 0, sent := 0 }

/-- The rules: frames leave both queues from the front, elements are used in the order of their ring,
the oldest frame for the guest and the newest one for the host are dropped, and only from a full
queue. -/
def Legal (ledger : NetLedger) : NetObservation Ram → Prop
  | .pushed packet =>
      packet.serial = ledger.pushes ∧ ledger.pending.length < virtioNetMaxQueuedPackets
  | .droppedOldest packet =>
      ledger.pending.head? = some packet ∧ ledger.pending.length = virtioNetMaxQueuedPackets
  | .completed ringIdx packet =>
      ledger.pending.head? = some packet ∧ ringIdx = BitVec.ofNat 16 ledger.received
  | .transmitted ringIdx _ _ _ packet =>
      packet.serial = ledger.transmissions ∧ ringIdx = BitVec.ofNat 16 ledger.sent ∧
        ledger.waiting.length < virtioNetMaxQueuedPackets
  | .droppedNewest ringIdx _ _ _ packet =>
      packet.serial = ledger.transmissions ∧ ringIdx = BitVec.ofNat 16 ledger.sent ∧
        ledger.waiting.length = virtioNetMaxQueuedPackets
  | .taken packet => ledger.waiting.head? = some packet
  | .cleared => True
  | .deviceReset => True

end NetLedger

def netAccounts (Ram : Type) : Accounts NetLedger (NetObservation Ram) where
  start := .initial
  next := NetLedger.next
  Legal := NetLedger.Legal

namespace NetLedger

open Accounts (AllLegal)

/-- The frames of a queue are numbered upwards, below the number of all so far. -/
def Numbered (queue : List Packet) (count : Nat) : Prop :=
  queue.Pairwise (fun first second => first.serial < second.serial) ∧
    ∀ packet ∈ queue, packet.serial < count

theorem Numbered.tail {queue : List Packet} {count : Nat} (numbered : Numbered queue count) :
    Numbered queue.tail count :=
  ⟨numbered.1.tail, fun packet member => numbered.2 packet (List.mem_of_mem_tail member)⟩

theorem Numbered.append {queue : List Packet} {count : Nat} (numbered : Numbered queue count)
    {packet : Packet} (serial : packet.serial = count) :
    Numbered (queue ++ [packet]) (count + 1) := by
  constructor
  · rw [List.pairwise_append]
    refine ⟨numbered.1, List.pairwise_singleton _ _, ?_⟩
    intro other member fresh single
    rw [List.mem_singleton.mp single, serial]
    exact numbered.2 other member
  · intro other member
    rcases List.mem_append.mp member with member | member
    · exact (numbered.2 other member).trans (Nat.lt_succ_self count)
    · rw [List.mem_singleton.mp member, serial]
      exact Nat.lt_succ_self count

theorem Numbered.more {queue : List Packet} {count : Nat} (numbered : Numbered queue count) :
    Numbered queue (count + 1) :=
  ⟨numbered.1, fun packet member => (numbered.2 packet member).trans (Nat.lt_succ_self count)⟩

theorem numbered_nil (count : Nat) : Numbered [] count := ⟨.nil, by simp⟩

/-- Behind the first frame all numbers are greater. -/
theorem Numbered.lt_of_tail {queue : List Packet} {count : Nat} (numbered : Numbered queue count)
    {first : Packet} (head : queue.head? = some first) :
    first.serial < count ∧ ∀ packet ∈ queue.tail, first.serial < packet.serial := by
  cases queue with
  | nil => cases head
  | cons oldest rest =>
      obtain rfl := Option.some.inj head
      exact ⟨numbered.2 oldest (by simp), fun packet member =>
        (List.pairwise_cons.mp numbered.1).1 packet member⟩

/-- Both queues are numbered and hold no more frames than they may. -/
structure Bounded (ledger : NetLedger) : Prop where
  pending : Numbered ledger.pending ledger.pushes
  waiting : Numbered ledger.waiting ledger.transmissions
  pendingSize : ledger.pending.length ≤ virtioNetMaxQueuedPackets
  waitingSize : ledger.waiting.length ≤ virtioNetMaxQueuedPackets

theorem Bounded.next {ledger : NetLedger} {event : NetObservation Ram} (legal : ledger.Legal event)
    (bounded : ledger.Bounded) : (ledger.next event).Bounded := by
  obtain ⟨pending, waiting, pendingSize, waitingSize⟩ := bounded
  cases event with
  | pushed packet =>
      refine ⟨pending.append legal.1, waiting, ?_, waitingSize⟩
      rw [NetLedger.next, List.length_append]
      exact legal.2
  | droppedOldest packet =>
      refine ⟨pending.tail, waiting, ?_, waitingSize⟩
      rw [NetLedger.next, List.length_tail]
      omega
  | completed ringIdx packet =>
      refine ⟨pending.tail, waiting, ?_, waitingSize⟩
      rw [NetLedger.next, List.length_tail]
      omega
  | transmitted ringIdx descIdx vq ram packet =>
      refine ⟨pending, waiting.append legal.1, pendingSize, ?_⟩
      rw [NetLedger.next, List.length_append]
      exact legal.2.2
  | droppedNewest ringIdx descIdx vq ram packet =>
      exact ⟨pending, waiting.more, pendingSize, waitingSize⟩
  | taken packet =>
      refine ⟨pending, waiting.tail, pendingSize, ?_⟩
      rw [NetLedger.next, List.length_tail]
      omega
  | cleared => exact ⟨numbered_nil _, numbered_nil _, Nat.zero_le _, Nat.zero_le _⟩
  | deviceReset => exact ⟨numbered_nil _, numbered_nil _, Nat.zero_le _, Nat.zero_le _⟩

theorem bounded_after {events : List (NetObservation Ram)}
    (legal : (netAccounts Ram).AllLegal events) : ((netAccounts Ram).after events).Bounded := by
  apply legal.holds Bounded
  · exact ⟨numbered_nil 0, numbered_nil 0, Nat.zero_le _, Nat.zero_le _⟩
  · exact fun _ _ rule bounded => bounded.next rule

/-- All frames that wait for the guest, now and later, have a number from some point on. -/
structure PendingFrom (bound : Nat) (ledger : NetLedger) : Prop where
  pending : ∀ packet ∈ ledger.pending, bound ≤ packet.serial
  pushes : bound ≤ ledger.pushes

theorem PendingFrom.next {bound : Nat} {ledger : NetLedger} {event : NetObservation Ram}
    (legal : ledger.Legal event) (pending : ledger.PendingFrom bound) :
    (ledger.next event).PendingFrom bound := by
  obtain ⟨pending, pushes⟩ := pending
  cases event with
  | pushed packet =>
      constructor
      · intro other member
        rcases List.mem_append.mp member with member | member
        · exact pending other member
        · rw [List.mem_singleton.mp member, legal.1]
          exact pushes
      · exact pushes.trans (Nat.le_succ _)
  | droppedOldest packet =>
      exact ⟨fun other member => pending other (List.mem_of_mem_tail member), pushes⟩
  | completed ringIdx packet =>
      exact ⟨fun other member => pending other (List.mem_of_mem_tail member), pushes⟩
  | transmitted ringIdx descIdx vq ram packet => exact ⟨pending, pushes⟩
  | droppedNewest ringIdx descIdx vq ram packet => exact ⟨pending, pushes⟩
  | taken packet => exact ⟨pending, pushes⟩
  | cleared => exact ⟨by simp [NetLedger.next], pushes⟩
  | deviceReset => exact ⟨by simp [NetLedger.next], pushes⟩

/-- All frames that wait for the host, now and later, have a number from some point on. -/
structure WaitingFrom (bound : Nat) (ledger : NetLedger) : Prop where
  waiting : ∀ packet ∈ ledger.waiting, bound ≤ packet.serial
  transmissions : bound ≤ ledger.transmissions

theorem WaitingFrom.next {bound : Nat} {ledger : NetLedger} {event : NetObservation Ram}
    (legal : ledger.Legal event) (waiting : ledger.WaitingFrom bound) :
    (ledger.next event).WaitingFrom bound := by
  obtain ⟨waiting, transmissions⟩ := waiting
  cases event with
  | pushed packet => exact ⟨waiting, transmissions⟩
  | droppedOldest packet => exact ⟨waiting, transmissions⟩
  | completed ringIdx packet => exact ⟨waiting, transmissions⟩
  | transmitted ringIdx descIdx vq ram packet =>
      constructor
      · intro other member
        rcases List.mem_append.mp member with member | member
        · exact waiting other member
        · rw [List.mem_singleton.mp member, legal.1]
          exact transmissions
      · exact transmissions.trans (Nat.le_succ _)
  | droppedNewest ringIdx descIdx vq ram packet =>
      exact ⟨waiting, transmissions.trans (Nat.le_succ _)⟩
  | taken packet =>
      exact ⟨fun other member => waiting other (List.mem_of_mem_tail member), transmissions⟩
  | cleared => exact ⟨by simp [NetLedger.next], transmissions⟩
  | deviceReset => exact ⟨by simp [NetLedger.next], transmissions⟩

theorem le_of_head {bound : Nat} {queue : List Packet} {packet : Packet}
    (all : ∀ other ∈ queue, bound ≤ other.serial) (head : queue.head? = some packet) :
    bound ≤ packet.serial := by
  cases queue with
  | nil => cases head
  | cons oldest rest =>
      obtain rfl := Option.some.inj head
      exact all oldest (by simp)

section Orders

variable {earlier between later : List (NetObservation Ram)} {packet packet' : Packet}
  {ringIdx ringIdx' : BitVec 16}

/-- What is completed later was pushed later. -/
theorem completed_lt (legal : (netAccounts Ram).AllLegal
      (earlier ++ .completed ringIdx packet :: (between ++ .completed ringIdx' packet' :: later))) :
    packet.serial < packet'.serial := by
  have first := legal earlier (.completed ringIdx packet) _ rfl
  have second := legal (earlier ++ .completed ringIdx packet :: between)
    (.completed ringIdx' packet') later (by simp)
  have whole : earlier ++ .completed ringIdx packet :: between =
      (earlier ++ [.completed ringIdx packet]) ++ between := by simp
  have start : (netAccounts Ram).AllLegal
      ((earlier ++ [.completed ringIdx packet]) ++ between) := by
    apply @AllLegal.of_append _ _ _ _ (.completed ringIdx' packet' :: later)
    simpa using legal
  have before := bounded_after (@AllLegal.of_append _ _ _ earlier _ legal)
  obtain ⟨below, above⟩ := before.pending.lt_of_tail first.1
  have bound := start.keeps (PendingFrom (packet.serial + 1))
    (fun _ _ rule kept => kept.next rule) (by
      rw [Accounts.after_append]
      exact ⟨above, below⟩)
  rw [whole] at second
  exact le_of_head bound.pending second.1

/-- What the host takes later was transmitted later. -/
theorem taken_lt (legal : (netAccounts Ram).AllLegal
      (earlier ++ .taken packet :: (between ++ .taken packet' :: later))) :
    packet.serial < packet'.serial := by
  have first := legal earlier (.taken packet) _ rfl
  have second := legal (earlier ++ .taken packet :: between) (.taken packet') later (by simp)
  have whole : earlier ++ .taken packet :: between = (earlier ++ [.taken packet]) ++ between := by
    simp
  have start : (netAccounts Ram).AllLegal ((earlier ++ [.taken packet]) ++ between) := by
    apply @AllLegal.of_append _ _ _ _ (.taken packet' :: later)
    simpa using legal
  have before := bounded_after (@AllLegal.of_append _ _ _ earlier _ legal)
  obtain ⟨below, above⟩ := before.waiting.lt_of_tail first
  have bound := start.keeps (WaitingFrom (packet.serial + 1))
    (fun _ _ rule kept => kept.next rule) (by
      rw [Accounts.after_append]
      exact ⟨above, below⟩)
  rw [whole] at second
  exact le_of_head bound.waiting second

/-- Every frame that waits for the guest was pushed. -/
theorem pushed_of_pending {events : List (NetObservation Ram)} :
    ∀ packet ∈ ((netAccounts Ram).after events).pending, .pushed packet ∈ events := by
  induction events using List.reverseRecOn with
  | nil => simp [netAccounts, Accounts.after, NetLedger.initial]
  | append_singleton events event ih =>
      intro packet member
      rw [Accounts.after_append] at member
      rw [List.mem_append]
      cases event with
      | pushed other =>
          rcases List.mem_append.mp member with member | member
          · exact .inl (ih packet member)
          · rw [List.mem_singleton.mp member]
            exact .inr (by simp)
      | droppedOldest other => exact .inl (ih packet (List.mem_of_mem_tail member))
      | completed ringIdx other => exact .inl (ih packet (List.mem_of_mem_tail member))
      | transmitted ringIdx descIdx vq ram other => exact .inl (ih packet member)
      | droppedNewest ringIdx descIdx vq ram other => exact .inl (ih packet member)
      | taken other => exact .inl (ih packet member)
      | cleared => exact absurd member (List.not_mem_nil)
      | deviceReset => exact absurd member (List.not_mem_nil)

/-- Every frame that waits for the host was transmitted. -/
theorem transmitted_of_waiting {events : List (NetObservation Ram)} :
    ∀ packet ∈ ((netAccounts Ram).after events).waiting,
      ∃ ringIdx descIdx vq ram, .transmitted ringIdx descIdx vq ram packet ∈ events := by
  induction events using List.reverseRecOn with
  | nil => simp [netAccounts, Accounts.after, NetLedger.initial]
  | append_singleton events event ih =>
      intro packet member
      rw [Accounts.after_append] at member
      have earlier : packet ∈ ((netAccounts Ram).after events).waiting →
          ∃ ringIdx descIdx vq ram,
            .transmitted ringIdx descIdx vq ram packet ∈ events ++ [event] := by
        intro member
        obtain ⟨ringIdx, descIdx, vq, ram, there⟩ := ih packet member
        exact ⟨ringIdx, descIdx, vq, ram, List.mem_append.mpr (.inl there)⟩
      cases event with
      | pushed other => exact earlier member
      | droppedOldest other => exact earlier member
      | completed ringIdx other => exact earlier member
      | transmitted ringIdx descIdx vq ram other =>
          rcases List.mem_append.mp member with member | member
          · exact earlier member
          · rw [List.mem_singleton.mp member]
            exact ⟨ringIdx, descIdx, vq, ram, by simp⟩
      | droppedNewest ringIdx descIdx vq ram other => exact earlier member
      | taken other => exact earlier (List.mem_of_mem_tail member)
      | cleared => exact absurd member (List.not_mem_nil)
      | deviceReset => exact absurd member (List.not_mem_nil)

theorem mem_of_head {queue : List Packet} (head : queue.head? = some packet) : packet ∈ queue :=
  List.mem_of_mem_head? head

/-- A frame that is completed was pushed before. -/
theorem pushed_of_completed (legal : (netAccounts Ram).AllLegal
      (earlier ++ .completed ringIdx packet :: later)) : .pushed packet ∈ earlier :=
  pushed_of_pending packet (mem_of_head (legal earlier _ later rfl).1)

/-- A frame that the host takes was transmitted before. -/
theorem transmitted_of_taken (legal : (netAccounts Ram).AllLegal
      (earlier ++ .taken packet :: later)) :
    ∃ ringIdx descIdx vq ram, .transmitted ringIdx descIdx vq ram packet ∈ earlier :=
  transmitted_of_waiting packet (mem_of_head (legal earlier _ later rfl))

theorem pushes_of_pushed (legal : (netAccounts Ram).AllLegal earlier)
    (pushed : .pushed packet ∈ earlier) :
    packet.serial < ((netAccounts Ram).after earlier).pushes := by
  obtain ⟨before, rest, rfl⟩ := List.append_of_mem pushed
  have rule := legal before (.pushed packet) rest rfl
  have whole : before ++ .pushed packet :: rest = (before ++ [.pushed packet]) ++ rest := by simp
  rw [whole] at legal ⊢
  have kept := legal.keeps (fun ledger => packet.serial < ledger.pushes) (by
      intro ledger event _ below
      cases event with
      | pushed other => exact below.trans (Nat.lt_succ_self _)
      | _ => exact below) (by
      rw [Accounts.after_append]
      show packet.serial < ((netAccounts Ram).after before).pushes + 1
      rw [rule.1]
      exact Nat.lt_succ_self _)
  exact kept

/-- No frame from before a device reset is completed after it. -/
theorem not_completed_of_reset (legal : (netAccounts Ram).AllLegal
      (earlier ++ .deviceReset :: (between ++ .completed ringIdx packet :: later))) :
    .pushed packet ∉ earlier := by
  intro pushed
  have below := pushes_of_pushed (@AllLegal.of_append _ _ _ earlier _ legal) pushed
  have rule := legal (earlier ++ .deviceReset :: between) (.completed ringIdx packet) later (by simp)
  have whole : earlier ++ .deviceReset :: between = (earlier ++ [.deviceReset]) ++ between := by simp
  have start : (netAccounts Ram).AllLegal ((earlier ++ [.deviceReset]) ++ between) := by
    apply @AllLegal.of_append _ _ _ _ (.completed ringIdx packet :: later)
    simpa using legal
  have bound := start.keeps (PendingFrom ((netAccounts Ram).after earlier).pushes)
    (fun _ _ rule kept => kept.next rule) (by
      rw [Accounts.after_append]
      exact ⟨by simp [netAccounts, NetLedger.next], le_refl _⟩)
  rw [whole] at rule
  have above := le_of_head bound.pending rule.1
  omega

end Orders

end NetLedger

end MachineEmulator.Virtio
