/-
This file proves what the console device does with the characters that the guest sends, and when none
of them is lost.
-/

import MachineEmulator.Construction.Virtio.Console
import MachineEmulator.Proof.Console.Queues
import MachineEmulator.Proof.Virtio.Registers

namespace MachineEmulator.Virtio

open Console ConsoleState

variable {Ram : Type}

section Offered

variable (guest : GuestMemory Ram) (fuel : Nat)

/-- The characters of an element from an offset on, as far as the device can read them, and whether it
can read all. -/
def elementChars (vq : Virtq) (ram : Ram) (descIdx : BitVec 16) (readAvailLen : BitVec 32) :
    Nat → BitVec 32 → Except Failure (Bool × List Byte)
  | 0, _ => .error .nonTermination
  | rounds + 1, off =>
      if off < readAvailLen then do
        let chunkLen := if readAvailLen - off < virtioConsoleIoBufSize then readAvailLen - off
          else virtioConsoleIoBufSize
        match ← vq.readDescMem guest fuel ram descIdx off chunkLen with
        | none => return (false, [])
        | some data => do
            let (whole, rest) ← elementChars vq ram descIdx readAvailLen rounds
              (off + virtioConsoleIoBufSize)
            return (whole, (arraySpan data).bytes ++ rest)
      else return (true, [])

/-- The characters of all the elements up to an index of the ring of available elements, as far as the
device can go through them. -/
def offeredLoop (lastAvailIdx : BitVec 16) : Nat → Virtq → Ram → Except Failure (List Byte)
  | 0, _, _ => .error .nonTermination
  | rounds + 1, vq, ram =>
      if vq.lastUsedIdx = lastAvailIdx then return []
      else
        match vq.getRingAvailElemDescIdx guest ram vq.lastUsedIdx with
        | none => return []
        | some descIdx => do
            let (parsed, readAvailLen, _) ← vq.getDescRwAvailLen guest fuel ram descIdx
            if ¬parsed then return []
            else do
              let (whole, chars) ← elementChars guest fuel vq ram descIdx readAvailLen fuel 0
              if ¬whole then return chars
              else
                let (consumed, used, later) := vq.consumeDesc guest ram descIdx 0 0
                if ¬consumed then return chars
                else do
                  let rest ← offeredLoop lastAvailIdx rounds used later
                  return chars ++ rest

/-- The characters that the guest offers in the transmit queue when it notifies the device. -/
def offered (state : ConsoleState Ram) : Except Failure (List Byte) :=
  let vq := state.queue virtioConsoleTransmitq.toNat
  if ¬state.driverOk ∨ vq.ready = 0 then return []
  else
    match vq.getAvailIdx guest state.ram with
    | none => return []
    | some lastAvailIdx => offeredLoop guest fuel lastAvailIdx fuel vq state.ram

/-- A register write offers the characters of the transmit queue when it notifies that queue. -/
def offeredBy (offset : Word) (value : BitVec 32) (log2Size : Nat) (state : ConsoleState Ram) :
    Except Failure (List Byte) :=
  if offset = 0x050 ∧ log2Size = 2 ∧ value = virtioConsoleTransmitq then offered guest fuel state
  else return []

end Offered

section Sends

/-- The free room in the output buffer of the console. -/
def outputRoom (state : ConsoleState Ram) : Nat :=
  state.device.console.output.buffer.length - state.device.console.output.content.length

/-- The device has put characters, and the console has all of them when they fit. -/
structure Sends (state : ConsoleState Ram) (chars : List Byte) (next : ConsoleState Ram) : Prop where
  sent : next.device.sent = state.device.sent ++ chars
  sound : next.device.console.Sound
  destination : next.device.console.outputDestination = state.device.console.outputDestination
  length : next.device.console.output.buffer.length =
    state.device.console.output.buffer.length
  content : state.device.console.outputDestination ≠ .toNull → chars.length ≤ outputRoom state →
    next.device.console.output.content = state.device.console.output.content ++ chars

variable {state next last : ConsoleState Ram} {chars more : List Byte}

theorem Sends.refl (sound : state.device.console.Sound) : Sends state [] state :=
  ⟨(List.append_nil _).symm, sound, rfl, rfl, fun _ _ => (List.append_nil _).symm⟩

theorem Sends.of_device (sends : Sends state chars next) (same : last.device = next.device) :
    Sends state chars last := by
  constructor <;> rw [same]
  · exact sends.sent
  · exact sends.sound
  · exact sends.destination
  · exact sends.length
  · exact sends.content

/-- The stage of a device does not matter to the characters. -/
theorem Sends.of_console (sends : Sends state chars next)
    (console : last.device.console = next.device.console)
    (sent : last.device.sent = next.device.sent) : Sends state chars last := by
  constructor
  · rw [sent]
    exact sends.sent
  · rw [console]
    exact sends.sound
  · rw [console]
    exact sends.destination
  · rw [console]
    exact sends.length
  · rw [console]
    exact sends.content

theorem Sends.trans (first : Sends state chars next) (second : Sends next more last) :
    Sends state (chars ++ more) last := by
  constructor
  · rw [second.sent, first.sent, List.append_assoc]
  · exact second.sound
  · exact second.destination.trans first.destination
  · exact second.length.trans first.length
  · intro shown fits
    rw [List.length_append] at fits
    have before := first.content shown (by omega)
    have room : more.length ≤ outputRoom next := by
      rw [outputRoom, first.length, before, List.length_append]
      rw [outputRoom] at fits
      omega
    have shown' : next.device.console.outputDestination ≠ .toNull := first.destination ▸ shown
    rw [second.content shown' room, before, List.append_assoc]

theorem putChunk_sends (sound : state.device.console.Sound) {data : List Byte} {flush : Bool}
    (put : putChunk data state = .ok (flush, next)) :
    Sends state (arraySpan data).bytes next ∧ next.queue = state.queue ∧ next.ram = state.ram ∧
    next.driverOk = state.driverOk := by
  obtain ⟨shouldFlush, output, done, later, length, content⟩ :=
    MachineConsole.putchars_ok sound (arraySpan data)
  rw [putChunk, done] at put
  cases put
  refine ⟨⟨rfl, ⟨later, sound.input⟩, rfl, length, fun shown fits => ?_⟩, rfl, rfl, rfl⟩
  have within := sound.output.content_le
  rw [outputRoom] at fits
  have none : state.device.console.output.content.length + (arraySpan data).bytes.length -
      state.device.console.output.buffer.length = 0 := by omega
  show output.content = _
  rw [content, if_neg shown, none, List.drop_zero, List.take_of_length_le (by omega)]

variable {guest : GuestMemory Ram} {fuel : Nat}

theorem writeCharsLoop_sends {vq : Virtq} {descIdx : BitVec 16} {readAvailLen : BitVec 32}
    {rounds : Nat} {off : BitVec 32} {flush flushed written : Bool}
    (sound : state.device.console.Sound)
    (ran : writeCharsLoop guest fuel vq descIdx readAvailLen rounds off flush state =
      .ok (written, flushed, next)) : ∃ chars,
    elementChars guest fuel vq state.ram descIdx readAvailLen rounds off = .ok (written, chars) ∧
    Sends state chars next ∧ next.queue = state.queue ∧ next.ram = state.ram ∧
    next.driverOk = state.driverOk := by
  induction rounds generalizing off flush state with
  | zero => cases ran
  | succ rounds ih =>
      rw [writeCharsLoop] at ran
      rw [elementChars]
      by_cases more : off < readAvailLen
      · rw [if_pos more] at ran
        rw [if_pos more]
        obtain ⟨read, reads, ran⟩ := bind_ok.mp ran
        simp only [reads]
        cases read with
        | none =>
            cases ran
            exact ⟨[], rfl, (Sends.refl sound).of_device (by simp), by simp, by simp, by simp⟩
        | some data =>
            obtain ⟨⟨flushes, middle⟩, put, rest⟩ := bind_ok.mp ran
            obtain ⟨sends, queue, ram, driverOk⟩ := putChunk_sends sound put
            obtain ⟨others, element, follows, queue', ram', driverOk'⟩ := ih sends.sound rest
            rw [ram] at element
            refine ⟨(arraySpan data).bytes ++ others, ?_, sends.trans follows, queue'.trans queue,
              ram'.trans ram, driverOk'.trans driverOk⟩
            show (elementChars guest fuel vq state.ram descIdx readAvailLen rounds _ >>= _) = _
            rw [element]
            rfl
      · rw [if_neg more] at ran
        rw [if_neg more]
        cases ran
        exact ⟨[], rfl, Sends.refl sound, rfl, rfl, rfl⟩

theorem consumeQueue_ok {queueIdx : BitVec 32} {descIdx usedFlags : BitVec 16}
    {writtenLen : BitVec 32} {consumed : Bool}
    (ran : state.consumeQueue guest queueIdx descIdx writtenLen usedFlags = .ok (consumed, next)) :
    (consumed, next.queue queueIdx.toNat, next.ram) =
      (state.queue queueIdx.toNat).consumeDesc guest state.ram descIdx writtenLen usedFlags ∧
    next.device = state.device := by
  obtain ⟨_, _, ran⟩ := bind_ok.mp ran
  obtain ⟨_, _, ran⟩ := bind_ok.mp ran
  generalize (state.queue queueIdx.toNat).consumeDesc guest state.ram descIdx writtenLen usedFlags =
    result at ran
  obtain ⟨taken, vq, ram⟩ := result
  cases ran
  exact ⟨by simp [VirtioState.setQueue], rfl⟩

theorem writeNextCharsToHost_sends {descIdx : BitVec 16} {readAvailLen : BitVec 32}
    {continues flush : Bool} (sound : state.device.console.Sound)
    (ran : writeNextCharsToHost guest fuel virtioConsoleTransmitq descIdx readAvailLen state =
      .ok (continues, flush, next)) : ∃ whole chars,
    elementChars guest fuel (state.queue virtioConsoleTransmitq.toNat) state.ram descIdx
      readAvailLen fuel 0 = .ok (whole, chars) ∧
    Sends state chars next ∧ (whole = false → continues = false) ∧
    (whole = true → ∃ used later, (state.queue virtioConsoleTransmitq.toNat).consumeDesc guest
      state.ram descIdx 0 0 = (continues, used, later) ∧
      (continues = true → next.queue virtioConsoleTransmitq.toNat = used ∧ next.ram = later)) := by
  obtain ⟨⟨written, flushed, middle⟩, loop, ran⟩ := bind_ok.mp ran
  obtain ⟨chars, element, sends, queue, ram, driverOk⟩ := writeCharsLoop_sends sound loop
  refine ⟨written, chars, element, ?_⟩
  cases written with
  | false =>
      cases ran
      exact ⟨sends, fun _ => rfl, nofun⟩
  | true =>
      obtain ⟨⟨consumed, used⟩, consumes, ran⟩ := bind_ok.mp ran
      obtain ⟨result, device⟩ := consumeQueue_ok consumes
      rw [queue, ram] at result
      cases consumed with
      | false =>
          cases ran
          exact ⟨sends.of_device (by simp [device]), nofun, fun _ => ⟨_, _, result.symm, nofun⟩⟩
      | true =>
          cases ran
          exact ⟨sends.of_device device, nofun, fun _ => ⟨_, _, result.symm, fun _ => ⟨rfl, rfl⟩⟩⟩

variable {ttySize : BitVec 16 × BitVec 16}

theorem transmitLoop_sends {lastAvailIdx : BitVec 16} {rounds : Nat} {flush flushed : Bool}
    (sound : state.device.console.Sound)
    (ran : state.notifyLoop guest (consoleCallbacks guest ttySize) fuel virtioConsoleTransmitq
      lastAvailIdx rounds flush = .ok (flushed, next)) : ∃ chars,
    offeredLoop guest fuel lastAvailIdx rounds (state.queue virtioConsoleTransmitq.toNat) state.ram =
      .ok chars ∧ Sends state chars next := by
  induction rounds generalizing flush state with
  | zero => cases ran
  | succ rounds ih =>
      rw [VirtioState.notifyLoop] at ran
      rw [offeredLoop]
      simp only at ran
      by_cases done : (state.queue virtioConsoleTransmitq.toNat).lastUsedIdx = lastAvailIdx
      · rw [if_pos done] at ran
        rw [if_pos done]
        cases ran
        exact ⟨[], rfl, Sends.refl sound⟩
      · rw [if_neg done] at ran
        rw [if_neg done]
        cases found : (state.queue virtioConsoleTransmitq.toNat).getRingAvailElemDescIdx guest
            state.ram (state.queue virtioConsoleTransmitq.toNat).lastUsedIdx with
        | none =>
            rw [found] at ran
            cases ran
            exact ⟨[], rfl, (Sends.refl sound).of_device (by simp)⟩
        | some descIdx =>
            rw [found] at ran
            obtain ⟨⟨parsed, readAvailLen, writeAvailLen⟩, lengths, ran⟩ := bind_ok.mp ran
            simp only [lengths]
            cases parsed with
            | false =>
                cases ran
                exact ⟨[], rfl, (Sends.refl sound).of_device (by simp)⟩
            | true =>
                obtain ⟨⟨continues, flushes, middle⟩, taken, ran⟩ := bind_ok.mp ran
                obtain ⟨whole, chars, element, sends, stops, goes⟩ :=
                  writeNextCharsToHost_sends sound taken
                show ∃ chars, (elementChars _ _ _ _ _ _ _ _ >>= _) = _ ∧ _
                rw [element]
                cases whole with
                | false =>
                    obtain rfl := stops rfl
                    cases ran
                    exact ⟨chars, rfl, sends⟩
                | true =>
                    obtain ⟨used, later, consumes, onwards⟩ := goes rfl
                    simp only [consumes]
                    cases continues with
                    | false =>
                        cases ran
                        exact ⟨chars, rfl, sends⟩
                    | true =>
                        obtain ⟨queue, ram⟩ := onwards rfl
                        obtain ⟨_, _, ran⟩ := bind_ok.mp ran
                        obtain ⟨rest, offers, follows⟩ := ih sends.sound ran
                        rw [queue, ram] at offers
                        refine ⟨chars ++ rest, ?_, sends.trans follows⟩
                        show (offeredLoop _ _ _ _ _ _ >>= _) = _
                        rw [offers]
                        rfl

theorem receiveLoop_device {lastAvailIdx : BitVec 16} {rounds : Nat} {flush flushed : Bool}
    (ran : state.notifyLoop guest (consoleCallbacks guest ttySize) fuel virtioConsoleReceiveq
      lastAvailIdx rounds flush = .ok (flushed, next)) : next.device = state.device := by
  cases rounds with
  | zero => cases ran
  | succ rounds =>
      rw [VirtioState.notifyLoop] at ran
      simp only at ran
      split at ran
      · cases ran
        rfl
      · split at ran
        · cases ran
          simp
        · obtain ⟨⟨parsed, readAvailLen, writeAvailLen⟩, _, ran⟩ := bind_ok.mp ran
          cases parsed with
          | false =>
              cases ran
              simp
          | true =>
              cases ran
              rfl

theorem onDeviceQueueNotify_sends {queueIdx : BitVec 32} {flushed : Bool}
    (known : queueIdx = virtioConsoleReceiveq ∨ queueIdx = virtioConsoleTransmitq)
    (sound : state.device.console.Sound)
    (ran : state.onDeviceQueueNotify guest (consoleCallbacks guest ttySize) fuel queueIdx =
      .ok (flushed, next)) : ∃ chars,
    (if queueIdx = virtioConsoleTransmitq then offered guest fuel state else .ok []) = .ok chars ∧
    Sends state chars next := by
  rw [VirtioState.onDeviceQueueNotify] at ran
  rcases known with rfl | rfl
  · rw [if_neg (by decide)]
    refine ⟨[], rfl, ?_⟩
    split at ran
    · cases ran
      exact Sends.refl sound
    · split at ran
      · cases ran
        exact Sends.refl sound
      · split at ran
        · cases ran
          exact (Sends.refl sound).of_device (by simp)
        · exact (Sends.refl sound).of_device (receiveLoop_device ran)
  · rw [if_pos rfl, offered]
    by_cases started : state.driverOk = true
    · by_cases ready : (state.queue virtioConsoleTransmitq.toNat).ready = 0
      · simp only [started, ready] at ran
        cases ran
        refine ⟨[], ?_, Sends.refl sound⟩
        simp [ready]
        rfl
      · simp only [started, ready] at ran
        simp only [started, ready]
        cases found : (state.queue virtioConsoleTransmitq.toNat).getAvailIdx guest state.ram with
        | none =>
            rw [found] at ran
            cases ran
            exact ⟨[], rfl, (Sends.refl sound).of_device (by simp)⟩
        | some lastAvailIdx =>
            rw [found] at ran
            exact transmitLoop_sends sound ran
    · simp only [started] at ran
      cases ran
      refine ⟨[], ?_, Sends.refl sound⟩
      simp [started]
      rfl

theorem writeQueueNotify_sends {value : BitVec 32} {status : ExecuteStatus}
    (sound : state.device.console.Sound)
    (ran : state.writeQueueNotify guest (consoleCallbacks guest ttySize) fuel value =
      .ok (status, next)) : ∃ chars,
    (if value = virtioConsoleTransmitq then offered guest fuel state else .ok []) = .ok chars ∧
    Sends state chars next := by
  rw [VirtioState.writeQueueNotify] at ran
  by_cases inside : value < virtioQueueCount
  · rw [if_pos inside] at ran
    obtain ⟨⟨flush, notified⟩, notifies, ran⟩ := bind_ok.mp ran
    have known : value = virtioConsoleReceiveq ∨ value = virtioConsoleTransmitq := by
      have low : value.toNat < 2 := inside
      rcases Nat.lt_succ_iff_lt_or_eq.mp low with zero | one
      · exact Or.inl (BitVec.eq_of_toNat_eq (Nat.lt_one_iff.mp zero))
      · exact Or.inr (BitVec.eq_of_toNat_eq one)
    obtain ⟨chars, offers, sends⟩ := onDeviceQueueNotify_sends known sound notifies
    have same : next = notified := by
      dsimp only at ran
      split at ran <;> cases ran <;> rfl
    exact ⟨chars, offers, same ▸ sends⟩
  · rw [if_neg inside] at ran
    cases ran
    have other : value ≠ virtioConsoleTransmitq := by
      rintro rfl
      exact inside (by decide)
    rw [if_neg other]
    exact ⟨[], rfl, Sends.refl sound⟩

theorem notifyConsoleSizeToGuest_device :
    (notifyConsoleSizeToGuest ttySize state).2.device = state.device := by
  simp only [notifyConsoleSizeToGuest]
  split
  · rfl
  · simp

/-- A register write puts the characters that it offers and no others. -/
theorem mmioWrite_sends {offset : Word} {value : BitVec 32} {log2Size : Nat}
    {status : ExecuteStatus} (sound : state.device.console.Sound)
    (ran : state.mmioWrite guest (consoleCallbacks guest ttySize) fuel offset value log2Size =
      .ok (status, next)) : ∃ chars,
    offeredBy guest fuel offset value log2Size state = .ok chars ∧ Sends state chars next := by
  by_cases notifies : offset = 0x050 ∧ log2Size = 2
  · obtain ⟨rfl, rfl⟩ := notifies
    have notify : state.mmioWrite guest (consoleCallbacks guest ttySize) fuel 0x050 value 2 =
        state.writeQueueNotify guest (consoleCallbacks guest ttySize) fuel value := by
      simp [VirtioState.mmioWrite]
    rw [notify] at ran
    obtain ⟨chars, offers, sends⟩ := writeQueueNotify_sends sound ran
    refine ⟨chars, ?_, sends⟩
    rw [← offers, offeredBy]
    simp
    rfl
  · have nothing : offeredBy guest fuel offset value log2Size state = .ok [] :=
      if_neg fun both => notifies ⟨both.1, both.2.1⟩
    refine ⟨[], nothing, ?_⟩
    have frame {changed : ConsoleState Ram} (same : SameRings state changed) :
        Sends state [] changed := (Sends.refl sound).of_device same.device
    refine mmioWrite_keeps_of frame ?_ (fun place size => absurd
      ⟨place, size⟩ notifies) status next ran
    refine writeStatus_keeps_of frame ((Sends.refl sound).of_console rfl rfl) ?_
    intro started next same starts
    cases starts
    exact (frame same).of_device notifyConsoleSizeToGuest_device

theorem writeNextCharsToGuest_sends {written : Bool} (sound : state.device.console.Sound)
    (ran : writeNextCharsToGuest guest fuel state = .ok (written, next)) : Sends state [] next := by
  rw [writeNextCharsToGuest] at ran
  split at ran
  · cases ran
    exact Sends.refl sound
  obtain ⟨⟨prepared, descIdx, writeAvailLen⟩, _, ran⟩ := bind_ok.mp ran
  dsimp only at ran
  split at ran
  · cases ran
    exact (Sends.refl sound).of_device (by simp)
  split at ran
  · cases ran
    exact Sends.refl sound
  obtain ⟨⟨chars, refill, console⟩, got, ran⟩ := bind_ok.mp ran
  have small : min writeAvailLen.toNat virtioConsoleIoBufSize.toNat < 2 ^ 63 :=
    lt_of_le_of_lt (Nat.min_le_right _ _) (by decide)
  obtain ⟨taken, refill', input, done, later, _⟩ := MachineConsole.getchars_ok sound small
  cases got.symm.trans done
  have received {changed : ConsoleState Ram} (same : changed.device =
      { state.device with console := { state.device.console with input := input } }) :
      Sends state [] changed := by
    constructor <;> rw [same]
    · exact (List.append_nil _).symm
    · exact ⟨sound.output, later⟩
    · exact fun _ _ => (List.append_nil _).symm
  dsimp only at ran
  split at ran
  · cases ran
    exact received rfl
  obtain ⟨⟨stored, ram⟩, _, ran⟩ := bind_ok.mp ran
  dsimp only at ran
  split at ran
  · cases ran
    exact received (by simp)
  obtain ⟨⟨consumed, used⟩, consumes, ran⟩ := bind_ok.mp ran
  obtain ⟨_, device⟩ := consumeQueue_ok consumes
  dsimp only at ran
  split at ran
  · cases ran
    exact received (by simp [device])
  · cases ran
    exact received (by simp [device])

theorem forwardInput_sends {rounds : Nat} {requested answer : Bool}
    (sound : state.device.console.Sound)
    (ran : forwardInput guest fuel rounds requested state = .ok (answer, next)) :
    Sends state [] next := by
  induction rounds generalizing requested state with
  | zero => cases ran
  | succ rounds ih =>
      obtain ⟨⟨written, middle⟩, writes, ran⟩ := bind_ok.mp ran
      have sends := writeNextCharsToGuest_sends sound writes
      cases written with
      | false =>
          cases ran
          exact sends
      | true => exact sends.trans (ih sends.sound ran)

/-- A poll puts no characters. -/
theorem doPollSelected_sends {polled answer : Bool} (sound : state.device.console.Sound)
    (ran : doPollSelected guest fuel ttySize polled state = .ok (answer, next)) :
    Sends state [] next := by
  rw [doPollSelected] at ran
  split at ran
  · cases ran
    exact Sends.refl sound
  dsimp only at ran
  have resized : Sends state [] (notifyConsoleSizeToGuest ttySize state).2 :=
    (Sends.refl sound).of_device notifyConsoleSizeToGuest_device
  split at ran
  · obtain ⟨⟨requested, forwarded⟩, forwards, ran⟩ := bind_ok.mp ran
    cases ran
    exact resized.trans (forwardInput_sends resized.sound forwards)
  · cases ran
    exact resized

end Sends

end MachineEmulator.Virtio
