/-
This file gives the console device, which moves characters between the guest and the console of the
machine.
-/

import MachineEmulator.Construction.Console.MachineConsole
import MachineEmulator.Construction.Virtio.AddressRange

namespace MachineEmulator.Virtio

open Console

def virtioConsoleReceiveq : BitVec 32 := 0

def virtioConsoleTransmitq : BitVec 32 := 1

/-- The number of bytes of the arrays that characters go through. -/
def virtioConsoleIoBufSize : BitVec 32 := 4096

def virtqUsedFNoNotify : BitVec 16 := 1

/-- The state of `virtio_console_address_range` with the console of the machine, and a record of the
characters that the guest sent. -/
structure ConsoleDevice where
  console : MachineConsole
  stdinReady : Bool
  sent : List Byte

variable {Ram : Type}

abbrev ConsoleState (Ram : Type) := VirtioState ConsoleDevice Ram

namespace VirtioState

variable {Device : Type} (guest : GuestMemory Ram)

/-- This is `prepare_queue_write`, with the descriptor and the number of bytes that can be written. -/
def prepareQueueWrite (fuel : Nat) (queueIdx : BitVec 32) (state : VirtioState Device Ram) :
    Except Failure (Bool × BitVec 16 × BitVec 32) := do
  check state.driverOk .assertionFailed
  check (queueIdx < virtioQueueCount) .assertionFailed
  let vq := state.queue queueIdx.toNat
  if vq.ready = 0 then return (true, 0, 0)
  else
    match vq.getAvailIdx guest state.ram with
    | none => return (false, 0, 0)
    | some lastAvailIdx =>
        if vq.lastUsedIdx = lastAvailIdx then return (true, 0, 0)
        else
          match vq.getRingAvailElemDescIdx guest state.ram vq.lastUsedIdx with
          | none => return (false, 0, 0)
          | some descIdx => do
              let (parsed, _, writeAvailLen) ← vq.getDescRwAvailLen guest fuel state.ram descIdx
              return (parsed, descIdx, if parsed then writeAvailLen else 0)

end VirtioState

namespace ConsoleState

section Transmit

variable (guest : GuestMemory Ram)

/-- The part of the array that is given to the console. -/
def arraySpan (data : List Byte) : Span where
  bytes := data.take virtioConsoleIoBufSize.toNat
  fits := by
    rw [List.length_take]
    exact lt_of_le_of_lt (Nat.min_le_left _ _) (by decide)

/-- One round of the loop for the bytes that were read. It says whether to flush the console. -/
def putChunk (data : List Byte) (state : ConsoleState Ram) :
    Except Failure (Bool × ConsoleState Ram) := do
  let (shouldFlush, console) ← state.device.console.putchars (arraySpan data)
  return (shouldFlush || console.output.availableSpace < virtioConsoleIoBufSize.toNat,
    { state with device :=
      { state.device with
        console := console
        sent := state.device.sent ++ (arraySpan data).bytes } })

/-- The loop of `write_next_chars_to_host`, cut off after a number of rounds. -/
def writeCharsLoop (fuel : Nat) (vq : Virtq) (descIdx : BitVec 16) (readAvailLen : BitVec 32) :
    Nat → BitVec 32 → Bool → ConsoleState Ram → Except Failure (Bool × Bool × ConsoleState Ram)
  | 0, _, _, _ => .error .nonTermination
  | rounds + 1, off, flush, state =>
      if off < readAvailLen then do
        let chunkLen := if readAvailLen - off < virtioConsoleIoBufSize then readAvailLen - off
          else virtioConsoleIoBufSize
        match ← vq.readDescMem guest fuel state.ram descIdx off chunkLen with
        | none => return (false, flush, state.notifyDeviceNeedsReset)
        | some data => do
            let (flushes, next) ← putChunk data state
            writeCharsLoop fuel vq descIdx readAvailLen rounds (off + virtioConsoleIoBufSize)
              (flush || flushes) next
      else return (true, flush, state)

/-- This is `write_next_chars_to_host`. -/
def writeNextCharsToHost (fuel : Nat) (queueIdx : BitVec 32) (descIdx : BitVec 16)
    (readAvailLen : BitVec 32) (state : ConsoleState Ram) :
    Except Failure (Bool × Bool × ConsoleState Ram) := do
  let (written, flush, next) ← writeCharsLoop guest fuel (state.queue queueIdx.toNat) descIdx
    readAvailLen fuel 0 false state
  if ¬written then return (false, flush, next)
  else do
    let (consumed, used) ← next.consumeQueue guest queueIdx descIdx 0 0
    if ¬consumed then return (false, flush, used.notifyDeviceNeedsReset)
    else return (true, flush, used)

end Transmit

section Receive

variable (guest : GuestMemory Ram)

/-- This is `write_next_chars_to_guest`. -/
def writeNextCharsToGuest (fuel : Nat) (state : ConsoleState Ram) :
    Except Failure (Bool × ConsoleState Ram) :=
  if ¬state.driverOk then return (false, state)
  else do
    let (prepared, descIdx, writeAvailLen) ←
      state.prepareQueueWrite guest fuel virtioConsoleReceiveq
    if ¬prepared then return (false, state.notifyDeviceNeedsReset)
    else if writeAvailLen = 0 then return (false, state)
    else do
      let (chars, _, console) ← state.device.console.getchars
        (min writeAvailLen.toNat virtioConsoleIoBufSize.toNat)
      let taken := { state with device := { state.device with console := console } }
      if chars = [] then return (false, taken)
      else do
        let (written, ram) ← (taken.queue virtioConsoleReceiveq.toNat).writeDescMem guest fuel
          taken.ram descIdx 0 chars
        let stored := { taken with ram := ram }
        if ¬written then return (false, stored.notifyDeviceNeedsReset)
        else do
          let (consumed, used) ← stored.consumeQueue guest virtioConsoleReceiveq descIdx
            (BitVec.ofNat 32 chars.length) virtqUsedFNoNotify
          if ¬consumed then return (false, used.notifyDeviceNeedsReset)
          else return (true, used.notifyQueueUsed)

/-- This is `get_size`, with the size of the terminal of the host. -/
def getSize (console : MachineConsole) (ttySize : BitVec 16 × BitVec 16) : BitVec 16 × BitVec 16 :=
  if console.inputSource = .fromStdin then ttySize else (console.ttyCols, console.ttyRows)

/-- This is `notify_console_size_to_guest`. -/
def notifyConsoleSizeToGuest (ttySize : BitVec 16 × BitVec 16) (state : ConsoleState Ram) :
    Bool × ConsoleState Ram :=
  let (cols, rows) := getSize state.device.console ttySize
  let size := lowBytes 2 (cols.setWidth 64) ++ lowBytes 2 (rows.setWidth 64)
  if size = state.configSpace.take 4 then (false, state)
  else (true, { state with configSpace := size ++ state.configSpace.drop 4 }.notifyConfigChange)

/-- The loop of `do_poll_selected`, cut off after a number of rounds. -/
def forwardInput (fuel : Nat) : Nat → Bool → ConsoleState Ram →
    Except Failure (Bool × ConsoleState Ram)
  | 0, _, _ => .error .nonTermination
  | rounds + 1, requested, state => do
      let (written, next) ← writeNextCharsToGuest guest fuel state
      if written then forwardInput fuel rounds true next else return (requested, next)

/-- This is `is_input_ready`. -/
def isInputReady (console : MachineConsole) : Bool := 0 < console.input.size ∨ console.inputClosed

/-- This is `do_poll_selected`, with the size of the terminal and the answer of the console's own
poll. -/
def doPollSelected (fuel : Nat) (ttySize : BitVec 16 × BitVec 16) (polled : Bool)
    (state : ConsoleState Ram) : Except Failure (Bool × ConsoleState Ram) :=
  if ¬state.driverOk ∨ ¬state.device.stdinReady then return (false, state)
  else do
    let (resized, notified) := notifyConsoleSizeToGuest ttySize state
    let (requested, forwarded) ←
      if isInputReady notified.device.console then forwardInput guest fuel fuel resized notified
      else pure (resized, notified)
    return (requested || polled && !isInputReady forwarded.device.console, forwarded)

end Receive

section Device

variable (guest : GuestMemory Ram) (ttySize : BitVec 16 × BitVec 16)

/-- This is `do_on_device_queue_available`. -/
def doOnDeviceQueueAvailable (fuel : Nat) (queueIdx : BitVec 32) (descIdx : BitVec 16)
    (readAvailLen _writeAvailLen : BitVec 32) (state : ConsoleState Ram) :
    Except Failure (Bool × Bool × ConsoleState Ram) :=
  if queueIdx = virtioConsoleReceiveq then return (false, false, state)
  else if queueIdx = virtioConsoleTransmitq then
    writeNextCharsToHost guest fuel queueIdx descIdx readAvailLen state
  else return (false, false, state.notifyDeviceNeedsReset)

def consoleCallbacks : Callbacks ConsoleDevice Ram where
  onDeviceReset device := { device with stdinReady := false }
  onDeviceOk _ state := .ok (notifyConsoleSizeToGuest ttySize state).2
  onDeviceQueueAvailable := doOnDeviceQueueAvailable guest

/-- The part of `do_prepare_select` that waits for the guest to wait. -/
def doPrepareSelect (timeoutUs : Word) (state : ConsoleState Ram) : ConsoleState Ram :=
  if state.driverOk ∧ timeoutUs ≠ 0 then
    { state with device := { state.device with stdinReady := true } }
  else state

/-- This is the constructor. -/
def create (console : MachineConsole) (ram : Ram) : Except Failure (ConsoleState Ram) := do
  check (virtioConsoleIoBufSize.toNat ≤ console.output.availableSpace) .consoleOutputSpaceTooSmall
  return {
    intStatus := 0
    deviceFeatures := 1 ||| 1 <<< 32
    driverFeatures := 0
    deviceFeaturesSel := 0
    driverFeaturesSel := 0
    queueSel := 0
    shmSel := 0
    deviceStatus := 0
    configGeneration := 0
    configSpaceSize := 12
    driverOk := false
    configSpace := List.replicate 256 0
    queue := fun _ => VirtioState.emptyVirtq
    device := ⟨console, false, []⟩
    ram := ram }

end Device

end ConsoleState

end MachineEmulator.Virtio
