/-
This file gives accounts that are kept of a list of events: what the events so far amount to, and
which event may come next.
-/

import Mathlib.Tactic

namespace MachineEmulator

/-- What an event does to the accounts, and the rule that it has to keep. -/
structure Accounts (Ledger Event : Type) where
  start : Ledger
  next : Ledger → Event → Ledger
  Legal : Ledger → Event → Prop

namespace Accounts

variable {Ledger Event : Type} (accounts : Accounts Ledger Event)

/-- The accounts after a list of events. -/
def after (events : List Event) : Ledger := events.foldl accounts.next accounts.start

@[simp] theorem after_append (events : List Event) (event : Event) :
    accounts.after (events ++ [event]) = accounts.next (accounts.after events) event := by
  simp [after]

/-- Every event was legal when it happened. -/
def AllLegal (events : List Event) : Prop :=
  ∀ earlier event later, events = earlier ++ event :: later →
    accounts.Legal (accounts.after earlier) event

variable {accounts}

theorem allLegal_nil : accounts.AllLegal [] := by
  intro earlier event later split
  exact absurd split (by simp)

theorem AllLegal.append {events : List Event} {event : Event} (legal : accounts.AllLegal events)
    (new : accounts.Legal (accounts.after events) event) : accounts.AllLegal (events ++ [event]) := by
  intro earlier other later split
  rcases List.eq_nil_or_concat later with rfl | ⟨init, final, rfl⟩
  · obtain ⟨rfl, same⟩ := List.append_inj' split rfl
    cases same
    exact new
  · rw [List.concat_eq_append, ← List.cons_append, ← List.append_assoc] at split
    obtain ⟨rfl, _⟩ := List.append_inj' split rfl
    exact legal earlier other init rfl

/-- What every legal event keeps holds on, from any point of the events. -/
theorem AllLegal.keeps (Holds : Ledger → Prop)
    (step : ∀ ledger event, accounts.Legal ledger event → Holds ledger →
      Holds (accounts.next ledger event)) {events : List Event} :
    ∀ {later : List Event}, accounts.AllLegal (events ++ later) → Holds (accounts.after events) →
      Holds (accounts.after (events ++ later)) := by
  intro later
  induction later generalizing events with
  | nil => simp
  | cons event later ih =>
      intro legal holds
      have whole : events ++ event :: later = (events ++ [event]) ++ later := by simp
      have rule := legal events event later rfl
      rw [whole] at legal ⊢
      apply ih legal
      rw [after_append]
      exact step _ _ rule holds

/-- What holds at the start and is kept by every legal event holds after all of them. -/
theorem AllLegal.holds (Holds : Ledger → Prop) (start : Holds accounts.start)
    (step : ∀ ledger event, accounts.Legal ledger event → Holds ledger →
      Holds (accounts.next ledger event)) {events : List Event} (legal : accounts.AllLegal events) :
    Holds (accounts.after events) :=
  @keeps _ _ accounts Holds step [] events legal start

theorem AllLegal.of_append {first second : List Event} (legal : accounts.AllLegal (first ++ second)) :
    accounts.AllLegal first := by
  intro earlier event later split
  exact legal earlier event (later ++ second) (by simp [split])

end Accounts

end MachineEmulator
