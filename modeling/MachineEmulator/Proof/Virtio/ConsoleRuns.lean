/-
This file proves that the output of the guest reaches the console in every run in which each
notification of the guest fits the free room of the console.
-/

import MachineEmulator.Proof.Virtio.BlockRuns
import MachineEmulator.Proof.Virtio.ConsoleOutput

namespace MachineEmulator.Virtio

open Console ConsoleState

variable {Ram : Type}

/-- What a register write offers fits the free room of the console. -/
def OfferFits (guest : GuestMemory Ram) (fuel : Nat) (offset : Word) (value : BitVec 32)
    (log2Size : Nat) (state : ConsoleState Ram) : Prop :=
  ∀ chars, offeredBy guest fuel offset value log2Size state = .ok chars →
    chars.length ≤ outputRoom state

/-- The runs of the device with its guest and its host, with the characters that were delivered so far
and whether the guest waits for the host to flush the console. The guest goes on when the host has
flushed all, with a register write that is allowed. -/
inductive ConsoleReaches (guest : GuestMemory Ram)
    (Allowed : Nat → Word → BitVec 32 → Nat → ConsoleState Ram → Prop) (start : ConsoleState Ram) :
    ConsoleState Ram → List Byte → Bool → Prop where
  | start : ConsoleReaches guest Allowed start start [] false
  | guestStores {state delivered waits} (ram : Ram)
      (reached : ConsoleReaches guest Allowed start state delivered waits) :
      ConsoleReaches guest Allowed start { state with ram := ram } delivered waits
  | mmioWrite {state next : ConsoleState Ram} {delivered waits status} (fuel : Nat)
      (ttySize : BitVec 16 × BitVec 16) (offset : Word) (value : BitVec 32) (log2Size : Nat)
      (reached : ConsoleReaches guest Allowed start state delivered waits)
      (flushed : waits = true → state.device.console.output.content = [])
      (allowed : Allowed fuel offset value log2Size state)
      (ran : state.mmioWrite guest (consoleCallbacks guest ttySize) fuel offset value log2Size =
        .ok (status, next)) :
      ConsoleReaches guest Allowed start next delivered (decide (status = .successAndConsoleOutput))
  | prepareSelect {state delivered waits} (timeoutUs : Word)
      (reached : ConsoleReaches guest Allowed start state delivered waits) :
      ConsoleReaches guest Allowed start (doPrepareSelect timeoutUs state) delivered waits
  | pollSelected {state next : ConsoleState Ram} {delivered waits answer} (fuel : Nat)
      (ttySize : BitVec 16 × BitVec 16) (polled : Bool)
      (reached : ConsoleReaches guest Allowed start state delivered waits)
      (ran : doPollSelected guest fuel ttySize polled state = .ok (answer, next)) :
      ConsoleReaches guest Allowed start next delivered waits
  | host {state : ConsoleState Ram} {delivered waits effect later} (operation : Operation)
      (reached : ConsoleReaches guest Allowed start state delivered waits)
      (quiet : ∀ buf, operation ≠ .putchars buf)
      (open' : state.device.console.LosesNothing operation)
      (ran : state.device.console.step operation = .ok (effect, later)) :
      ConsoleReaches guest Allowed start { state with device := { state.device with console := later } }
        (delivered ++ effect.delivered) waits

/-- The characters that were delivered and those that wait are the ones that were there and the ones
that the guest sent. -/
structure OutputKept (start state : ConsoleState Ram) (delivered : List Byte) : Prop where
  sound : state.device.console.Sound
  shown : state.device.console.outputDestination ≠ .toNull
  kept : ∃ sent, state.device.sent = start.device.sent ++ sent ∧
    delivered ++ state.device.console.output.content =
      start.device.console.output.content ++ sent

variable {guest : GuestMemory Ram} {start state next : ConsoleState Ram} {delivered : List Byte}

/-- What a step of the device puts is kept when it fits. -/
theorem OutputKept.sends (kept : OutputKept start state delivered) {chars : List Byte}
    (sends : Sends state chars next) (fits : chars.length ≤ outputRoom state) :
    OutputKept start next delivered := by
  obtain ⟨sent, record, content⟩ := kept.kept
  refine ⟨sends.sound, sends.destination ▸ kept.shown, sent ++ chars, ?_, ?_⟩
  · rw [sends.sent, record, List.append_assoc]
  · rw [sends.content kept.shown fits, ← List.append_assoc, content, List.append_assoc]

/-- The host delivers the first characters. -/
theorem OutputKept.host (kept : OutputKept start state delivered) {operation : Operation}
    {effect : Effect} {later : MachineConsole} (quiet : ∀ buf, operation ≠ .putchars buf)
    (open' : state.device.console.LosesNothing operation)
    (ran : state.device.console.step operation = .ok (effect, later)) :
    OutputKept start { state with device := { state.device with console := later } }
      (delivered ++ effect.delivered) := by
  obtain ⟨sent, record, content⟩ := kept.kept
  obtain ⟨effect', later', done, moves, _, keeps⟩ := MachineConsole.step_ok kept.sound operation
  cases ran.symm.trans done
  have whole := keeps open'
  rw [MachineConsole.put_of_step quiet ran, List.append_nil] at whole
  refine ⟨moves.sound, ?_, sent, record, ?_⟩
  · show later.outputDestination ≠ .toNull
    rw [moves.destination]
    exact kept.shown
  · rw [List.append_assoc]
    show delivered ++ (effect.delivered ++ later.output.content) = _
    rw [whole, content]

theorem ConsoleReaches.outputKept {waits : Bool} (sound : start.device.console.Sound)
    (shown : start.device.console.outputDestination ≠ .toNull)
    (reached : ConsoleReaches guest (OfferFits guest) start state delivered waits) :
    OutputKept start state delivered := by
  induction reached with
  | start => exact ⟨sound, shown, [], (List.append_nil _).symm, (List.append_nil _).symm⟩
  | guestStores ram reached kept => exact ⟨kept.sound, kept.shown, kept.kept⟩
  | mmioWrite fuel ttySize offset value log2Size reached flushed fits ran kept =>
      obtain ⟨chars, offers, sends⟩ := mmioWrite_sends kept.sound ran
      exact kept.sends sends (fits chars offers)
  | prepareSelect timeoutUs reached kept =>
      refine kept.sends (?_ : Sends _ [] _) (Nat.zero_le _)
      rw [doPrepareSelect]
      split
      · exact (Sends.refl kept.sound).of_console rfl rfl
      · exact Sends.refl kept.sound
  | pollSelected fuel ttySize polled reached ran kept =>
      exact kept.sends (doPollSelected_sends kept.sound ran) (Nat.zero_le _)
  | host operation reached quiet open' ran kept => exact kept.host quiet open' ran

section OnePage

/-- A console that holds one page of characters for the program that runs the machine. -/
def pageConsole : MachineConsole :=
  { MachineConsole.initial with
    outputDestination := .toBuffer
    output := ⟨List.replicate 4096 0, 0, 0⟩
    input := ⟨[], 0, 0⟩ }

/-- The transmit queue has an element with as many zeros as given. -/
def textRing (length : Word) : Memory :=
  let blank : Memory := fun _ => 0
  let first := blank.store 0x1000 (wordToBytes 0x5000 ++ wordToBytes length)
  first.store 0x2002 [1, 0]

/-- The driver starts the device with the transmit queue and notifies it. -/
def consoleWrites : List (Word × BitVec 32) :=
  [(0x030, 1), (0x038, 2), (0x080, 0x1000), (0x090, 0x2000), (0x0a0, 0x3000), (0x044, 1),
    (0x070, 4), (0x050, 1)]

/-- A register write of a guest that need not wait. -/
def consoleWrite (allowed : Word × BitVec 32 → ConsoleState Memory → Bool)
    (state : ConsoleState Memory × Bool) (write : Word × BitVec 32) :
    Except Failure (ConsoleState Memory × Bool) := do
  check (state.2 = false ∧ allowed write state.1) .assertionFailed
  let (status, next) ← state.1.mmioWrite flatGuest (consoleCallbacks flatGuest (80, 25)) 4 write.1
    write.2 2
  return (next, status = .successAndConsoleOutput)

def runConsole (allowed : Word × BitVec 32 → ConsoleState Memory → Bool) (length : Word) :
    Except Failure (ConsoleState Memory × ConsoleState Memory × Bool) := do
  let start ← create pageConsole (textRing length)
  let finish ← consoleWrites.foldlM (consoleWrite allowed) (start, false)
  return (start, finish)

/-- This decides whether what a register write offers fits. -/
def offerFits (write : Word × BitVec 32) (state : ConsoleState Memory) : Bool :=
  match offeredBy flatGuest 4 write.1 write.2 2 state with
  | .ok chars => chars.length ≤ outputRoom state
  | .error _ => true

theorem offerFits_eq {write : Word × BitVec 32} {state : ConsoleState Memory}
    (fits : offerFits write state = true) : OfferFits flatGuest 4 write.1 write.2 2 state := by
  intro chars offers
  rw [offerFits, offers] at fits
  exact of_decide_eq_true fits

theorem consoleReaches_run {Allowed : Nat → Word → BitVec 32 → Nat → ConsoleState Memory → Prop}
    {allowed : Word × BitVec 32 → ConsoleState Memory → Bool}
    (means : ∀ write state, allowed write state = true → Allowed 4 write.1 write.2 2 state)
    {start : ConsoleState Memory} {state finish : ConsoleState Memory × Bool}
    (writes : List (Word × BitVec 32))
    (reached : ConsoleReaches flatGuest Allowed start state.1 [] state.2)
    (ran : writes.foldlM (consoleWrite allowed) state = .ok finish) :
    ConsoleReaches flatGuest Allowed start finish.1 [] finish.2 := by
  induction writes generalizing state with
  | nil =>
      cases ran
      exact reached
  | cons write writes ih =>
      obtain ⟨next, steps, ran⟩ := bind_ok.mp ran
      obtain ⟨_, checked, steps⟩ := bind_ok.mp steps
      obtain ⟨awake, permitted⟩ := check_ok.mp checked
      obtain ⟨⟨status, later⟩, written, steps⟩ := bind_ok.mp steps
      cases steps
      refine ih (.mmioWrite 4 (80, 25) write.1 write.2 2 reached ?_ (means _ _ permitted) written) ran
      intro waits
      cases awake.symm.trans waits

/-- The characters lie behind all that the driver writes. -/
theorem textRing_eq (length : Word) :
    textRing length = fun address =>
      if 0x5000 ≤ address.toNat then 0 else textRing length address := by
  funext address
  split
  next behind =>
    have bound := address.isLt
    have ring : 2 ≤ (address - 0x2002).toNat := by
      rw [BitVec.toNat_sub_of_le (by rw [BitVec.le_def]; exact le_trans (by decide) behind)]
      exact Nat.le_sub_of_add_le (le_trans (by decide) behind)
    have first : 16 ≤ (address - 0x1000).toNat := by
      rw [BitVec.toNat_sub_of_le (by rw [BitVec.le_def]; exact le_trans (by decide) behind)]
      exact Nat.le_sub_of_add_le (le_trans (by decide) behind)
    simp only [textRing, Memory.store]
    rw [List.getD_eq_default _ _ ring, List.getD_eq_default _ _ first]
  next => rfl

/-- The notifications of three and of 5000 characters, run to their ends. -/
theorem pageConsole_runs :
    (pageConsole.output.Sound ∧ pageConsole.input.Sound) ∧
    (runConsole offerFits 3).toOption.map (fun run => run.2.1.device.sent) = some [0, 0, 0] ∧
    (runConsole (fun _ _ => true) 5000).toOption.map (fun run =>
      (run.2.1.device.sent.length, run.2.1.device.console.output.content.length)) =
      some (5000, 4096) := by
  simp only [runConsole]
  rw [textRing_eq, textRing_eq]
  refine ⟨⟨⟨?_, ?_, ?_, ?_⟩, ⟨?_, ?_, ?_, ?_⟩⟩, ?_, ?_⟩ <;> decide +kernel

theorem pageConsole_sound : pageConsole.Sound :=
  ⟨pageConsole_runs.1.1, pageConsole_runs.1.2⟩

end OnePage

end MachineEmulator.Virtio
