/-
This file gives the accounts of a block device as the guest and the host see it, and the rules that
its events keep.
-/

import MachineEmulator.Construction.Virtio.Block

namespace MachineEmulator.Virtio

/-- The accounts since the last device reset: the elements that the device has used, the request in
flight and the identifiers that the host got, together with those that it got before the reset. -/
structure Ledger where
  consumed : Nat
  inFlight : Option (Word × BitVec 16)
  handedOut : List Word
  handedOutBefore : List Word

namespace Ledger

def initial : Ledger := ⟨0, none, [], []⟩

def next (ledger : Ledger) : Observation → Ledger
  | .exported _ id descIdx => { ledger with inFlight := some (id, descIdx) }
  | .rejected _ _ => { ledger with consumed := ledger.consumed + 1 }
  | .completed _ _ _ => { ledger with consumed := ledger.consumed + 1, inFlight := none }
  | .handedOut id => { ledger with handedOut := id :: ledger.handedOut }
  | .deviceReset => ⟨0, none, [], ledger.handedOut ++ ledger.handedOutBefore⟩

/-- The accounts after a list of events. -/
def after (events : List Observation) : Ledger := events.foldl next initial

/-- The rules: only one request is in flight, elements are used in the order of the ring, and a
completion is for the request in flight, with an identifier that is not from before the reset. -/
def Legal (ledger : Ledger) : Observation → Prop
  | .exported ringIdx _ _ =>
      ledger.inFlight = none ∧ ringIdx = BitVec.ofNat 16 ledger.consumed
  | .rejected ringIdx _ =>
      ledger.inFlight = none ∧ ringIdx = BitVec.ofNat 16 ledger.consumed
  | .completed ringIdx id descIdx =>
      ledger.inFlight = some (id, descIdx) ∧ ringIdx = BitVec.ofNat 16 ledger.consumed ∧
        id ∉ ledger.handedOutBefore
  | .handedOut _ => True
  | .deviceReset => True

@[simp] theorem after_append (events : List Observation) (event : Observation) :
    after (events ++ [event]) = (after events).next event := by
  simp [after]

/-- Every event was legal when it happened. -/
def AllLegal (events : List Observation) : Prop :=
  ∀ earlier event later, events = earlier ++ event :: later → (after earlier).Legal event

theorem allLegal_nil : AllLegal [] := by
  intro earlier event later split
  exact absurd split (by simp)

theorem AllLegal.append {events : List Observation} {event : Observation}
    (legal : AllLegal events) (new : (after events).Legal event) : AllLegal (events ++ [event]) := by
  intro earlier other later split
  rcases List.eq_nil_or_concat later with rfl | ⟨init, last, rfl⟩
  · obtain ⟨rfl, same⟩ := List.append_inj' split rfl
    cases same
    exact new
  · rw [List.concat_eq_append, ← List.cons_append, ← List.append_assoc] at split
    obtain ⟨rfl, _⟩ := List.append_inj' split rfl
    exact legal earlier other init rfl

theorem AllLegal.of_append {first second : List Observation}
    (legal : AllLegal (first ++ second)) : AllLegal first := by
  intro earlier event later split
  exact legal earlier event (later ++ second) (by simp [split])

/-- Without a reset the number of used elements does not go down. -/
theorem consumed_mono (events later : List Observation) (kept : .deviceReset ∉ later) :
    (after events).consumed ≤ (after (events ++ later)).consumed := by
  induction later generalizing events with
  | nil => simp
  | cons event later ih =>
      rw [List.mem_cons, not_or] at kept
      have onwards := ih (events ++ [event]) kept.2
      rw [List.append_assoc, List.singleton_append, after_append] at onwards
      refine le_trans ?_ onwards
      cases event with
      | deviceReset => exact absurd rfl kept.1
      | _ => simp [next]

/-- A request stays in flight until its completion or a reset. -/
theorem consumed_lt_of_released {events later : List Observation}
    (legal : AllLegal (events ++ later)) (kept : .deviceReset ∉ later)
    (busy : (after events).inFlight ≠ none) (free : (after (events ++ later)).inFlight = none) :
    (after events).consumed < (after (events ++ later)).consumed := by
  induction later generalizing events with
  | nil => exact absurd (by simpa using free) busy
  | cons event later ih =>
      rw [List.mem_cons, not_or] at kept
      have whole : events ++ event :: later = events ++ [event] ++ later := by simp
      have rule := legal events event later rfl
      rw [whole] at legal free ⊢
      by_cases still : (after (events ++ [event])).inFlight = none
      · have mono := consumed_mono (events ++ [event]) later kept.2
        refine lt_of_lt_of_le ?_ mono
        rw [after_append] at still ⊢
        cases event with
        | exported ringIdx id descIdx => exact absurd rule.1 busy
        | rejected ringIdx descIdx => exact absurd rule.1 busy
        | completed ringIdx id descIdx => simp [next]
        | handedOut id => exact absurd still busy
        | deviceReset => exact absurd rfl kept.1
      · refine lt_of_le_of_lt ?_ (ih legal kept.2 still free)
        exact consumed_mono events [event] (by simpa using kept.1)

/-- Two exports since the same reset are for different elements of the ring. -/
theorem exported_once {earlier between later : List Observation}
    {ringIdx ringIdx' descIdx descIdx' : BitVec 16} {id id' : Word}
    (legal : AllLegal (earlier ++ .exported ringIdx id descIdx ::
      (between ++ .exported ringIdx' id' descIdx' :: later)))
    (kept : .deviceReset ∉ between) :
    (after earlier).consumed <
      (after (earlier ++ .exported ringIdx id descIdx :: between)).consumed := by
  have whole : earlier ++ .exported ringIdx id descIdx :: between =
      earlier ++ [.exported ringIdx id descIdx] ++ between := by simp
  have rule := legal (earlier ++ .exported ringIdx id descIdx :: between)
    (.exported ringIdx' id' descIdx') later (by simp)
  have start : AllLegal (earlier ++ .exported ringIdx id descIdx :: between) := by
    apply @AllLegal.of_append _ (.exported ringIdx' id' descIdx' :: later)
    simpa using legal
  rw [whole] at rule start ⊢
  have released := consumed_lt_of_released start kept (by simp [next]) rule.1
  rwa [after_append] at released

/-- Two completions since the same reset are for different elements of the ring. -/
theorem completed_once {earlier between : List Observation}
    {ringIdx descIdx : BitVec 16} {id : Word} (kept : .deviceReset ∉ between) :
    (after earlier).consumed <
      (after (earlier ++ .completed ringIdx id descIdx :: between)).consumed := by
  have mono := consumed_mono (earlier ++ [.completed ringIdx id descIdx]) between kept
  rw [after_append, List.append_assoc, List.singleton_append] at mono
  exact lt_of_lt_of_le (by simp [next]) mono

end Ledger

end MachineEmulator.Virtio
