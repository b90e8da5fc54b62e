/-
This file gives the registers that all VirtIO devices share and the processing of their queues.
-/

import MachineEmulator.Construction.Virtio.Virtqueue

namespace MachineEmulator.Virtio

/-- The outcomes of `execute_status` that a device gives. -/
inductive ExecuteStatus where
  | success
  | failure
  | successAndServeInterrupts
  | successAndConsoleOutput
deriving DecidableEq, Repr

def virtioQueueCount : BitVec 32 := 2

def virtioQueueNumMax : BitVec 32 := 128

def virtioStatusDriverOk : BitVec 32 := 4

def virtioStatusFeaturesOk : BitVec 32 := 8

def virtioStatusDeviceNeedsReset : BitVec 32 := 64

def virtioIntStatusUsedBuffer : BitVec 32 := 1

def virtioIntStatusConfigChange : BitVec 32 := 2

/-- The state of `virtio_address_range` that its operations change, with the state of the device
behind it and the memory of the guest. The interrupt controller is left out. -/
structure VirtioState (Device Ram : Type) where
  intStatus : BitVec 32
  deviceFeatures : Word
  driverFeatures : Word
  deviceFeaturesSel : BitVec 32
  driverFeaturesSel : BitVec 32
  queueSel : BitVec 32
  shmSel : BitVec 32
  deviceStatus : BitVec 32
  configGeneration : BitVec 32
  configSpaceSize : Nat
  driverOk : Bool
  configSpace : List Byte
  queue : Nat → Virtq
  device : Device
  ram : Ram

/-- The virtual functions of a device. The answer of a queue element says whether the device goes on
with the queue, and whether the console output has to be flushed. -/
structure Callbacks (Device Ram : Type) where
  onDeviceReset : Device → Device
  onDeviceOk : Nat → VirtioState Device Ram → Except Failure (VirtioState Device Ram)
  onDeviceQueueAvailable : Nat → BitVec 32 → BitVec 16 → BitVec 32 → BitVec 32 →
    VirtioState Device Ram → Except Failure (Bool × Bool × VirtioState Device Ram)

def setLow32 (addr : Word) (value : BitVec 32) : Word :=
  (addr &&& ~~~ 0xffffffff) ||| value.setWidth 64

def setHigh32 (addr : Word) (value : BitVec 32) : Word :=
  (addr &&& 0xffffffff) ||| (value.setWidth 64 <<< 32)

def isPowerOf2 (value : BitVec 32) : Bool := value &&& (value - 1) = 0

namespace VirtioState

variable {Device Ram : Type}

section Interrupts

variable (state : VirtioState Device Ram)

def setIrq (addIntStatus : BitVec 32) : VirtioState Device Ram :=
  { state with intStatus := state.intStatus ||| addIntStatus }

def resetIrq (remIntStatus : BitVec 32) : VirtioState Device Ram :=
  { state with intStatus := state.intStatus &&& ~~~ remIntStatus }

def notifyQueueUsed : VirtioState Device Ram :=
  if state.driverOk then state.setIrq virtioIntStatusUsedBuffer else state

def notifyConfigChange : VirtioState Device Ram :=
  let changed := { state with configGeneration := state.configGeneration + 1 }
  if changed.driverOk then changed.setIrq virtioIntStatusConfigChange else changed

def notifyDeviceNeedsReset : VirtioState Device Ram :=
  notifyConfigChange
    { state with deviceStatus := state.deviceStatus ||| virtioStatusDeviceNeedsReset }

/-- The status of a register write that may have raised an interrupt. -/
def interruptStatus : ExecuteStatus :=
  if state.intStatus ≠ 0 then .successAndServeInterrupts else .success

end Interrupts

section Queues

def setQueue (state : VirtioState Device Ram) (index : Nat) (vq : Virtq) : VirtioState Device Ram :=
  { state with queue := Function.update state.queue index vq }

def emptyVirtq : Virtq := ⟨0, 0, 0, 0, 0, 0⟩

variable (guest : GuestMemory Ram)

/-- This is `consume_queue`. -/
def consumeQueue (queueIdx : BitVec 32) (descIdx : BitVec 16) (writtenLen : BitVec 32)
    (usedFlags : BitVec 16) (state : VirtioState Device Ram) :
    Except Failure (Bool × VirtioState Device Ram) := do
  check state.driverOk .assertionFailed
  check (queueIdx < virtioQueueCount) .assertionFailed
  let (consumed, vq, ram) :=
    (state.queue queueIdx.toNat).consumeDesc guest state.ram descIdx writtenLen usedFlags
  return (consumed, { state.setQueue queueIdx.toNat vq with ram := ram })

variable (callbacks : Callbacks Device Ram)

/-- This is `reset`; the features and the configuration of the device stay. -/
def reset (state : VirtioState Device Ram) : VirtioState Device Ram :=
  resetIrq
    { state with
      device := callbacks.onDeviceReset state.device
      deviceStatus := 0
      driverOk := false
      driverFeatures := 0
      queueSel := 0
      shmSel := 0
      deviceFeaturesSel := 0
      driverFeaturesSel := 0
      intStatus := 0
      queue := fun _ => emptyVirtq }
    (virtioIntStatusUsedBuffer ||| virtioIntStatusConfigChange)

/-- The loop of `on_device_queue_notify` up to the index that the driver has made available, cut off
after a number of rounds. -/
def notifyLoop (fuel : Nat) (queueIdx : BitVec 32) (lastAvailIdx : BitVec 16) :
    Nat → Bool → VirtioState Device Ram → Except Failure (Bool × VirtioState Device Ram)
  | 0, _, _ => .error .nonTermination
  | rounds + 1, flush, state => do
      let vq := state.queue queueIdx.toNat
      if vq.lastUsedIdx = lastAvailIdx then return (flush, state)
      else
        match vq.getRingAvailElemDescIdx guest state.ram vq.lastUsedIdx with
        | none => return (flush, state.notifyDeviceNeedsReset)
        | some descIdx => do
            let (parsed, readAvailLen, writeAvailLen) ←
              vq.getDescRwAvailLen guest fuel state.ram descIdx
            if ¬parsed then return (flush, state.notifyDeviceNeedsReset)
            else do
              let (continues, flushes, next) ← callbacks.onDeviceQueueAvailable fuel queueIdx descIdx
                readAvailLen writeAvailLen state
              if ¬continues then return (flush || flushes, next)
              else do
                check (vq.lastUsedIdx ≠ (next.queue queueIdx.toNat).lastUsedIdx) .assertionFailed
                notifyLoop fuel queueIdx lastAvailIdx rounds (flush || flushes) next

/-- This is `on_device_queue_notify`; the answer says whether to flush the console output. -/
def onDeviceQueueNotify (fuel : Nat) (queueIdx : BitVec 32) (state : VirtioState Device Ram) :
    Except Failure (Bool × VirtioState Device Ram) :=
  if ¬state.driverOk then .ok (false, state)
  else if (state.queue queueIdx.toNat).ready = 0 then .ok (false, state)
  else
    match (state.queue queueIdx.toNat).getAvailIdx guest state.ram with
    | none => .ok (false, state.notifyDeviceNeedsReset)
    | some lastAvailIdx => notifyLoop guest callbacks fuel queueIdx lastAvailIdx fuel false state

end Queues

section Registers

/-- This is `mmio_write_config`. -/
def mmioWriteConfig (offset : Word) (value : BitVec 32) (log2Size : Nat)
    (state : VirtioState Device Ram) : ExecuteStatus × VirtioState Device Ram :=
  let size := 2 ^ log2Size
  if offset.toNat % size ≠ 0 then (.failure, state)
  else if state.configSpaceSize < offset.toNat + size then (.failure, state)
  else if 2 < log2Size then (.failure, state)
  else
    (.success, { state with
      configSpace := state.configSpace.take offset.toNat ++ lowBytes size (value.setWidth 64) ++
        state.configSpace.drop (offset.toNat + size) })

/-- A write to a register of the selected queue; there is none behind the last queue. -/
def writeSelectedQueue (update : Virtq → Virtq) (state : VirtioState Device Ram) :
    VirtioState Device Ram :=
  if state.queueSel < virtioQueueCount then
    state.setQueue state.queueSel.toNat (update (state.queue state.queueSel.toNat))
  else state

variable (guest : GuestMemory Ram) (callbacks : Callbacks Device Ram)

def writeStatus (fuel : Nat) (value : BitVec 32) (state : VirtioState Device Ram) :
    Except Failure (ExecuteStatus × VirtioState Device Ram) :=
  if value = 0 then
    let cleared := state.reset callbacks
    .ok (cleared.interruptStatus, cleared)
  else
    let enablingStatus := (state.deviceStatus ^^^ value) &&& value
    if enablingStatus &&& virtioStatusFeaturesOk ≠ 0 ∧ state.driverFeatures ≠ state.deviceFeatures then
      .ok (.success, state)
    else
      let written := { state with deviceStatus := value }
      if enablingStatus &&& virtioStatusDriverOk ≠ 0 then
        if state.deviceStatus &&& virtioStatusDeviceNeedsReset ≠ 0 then
          let pending := written.setIrq virtioIntStatusConfigChange
          .ok (pending.interruptStatus, pending)
        else do
          let started ← callbacks.onDeviceOk fuel { written with driverOk := true }
          return (started.interruptStatus, started)
      else .ok (written.interruptStatus, written)

def writeDriverFeatures (value : BitVec 32) (state : VirtioState Device Ram) :
    VirtioState Device Ram :=
  if state.driverFeaturesSel = 0 then
    { state with driverFeatures := setLow32 state.driverFeatures value }
  else if state.driverFeaturesSel = 1 then
    { state with driverFeatures := setHigh32 state.driverFeatures value }
  else state

def writeQueueNotify (fuel : Nat) (value : BitVec 32) (state : VirtioState Device Ram) :
    Except Failure (ExecuteStatus × VirtioState Device Ram) :=
  if value < virtioQueueCount then do
    let (flush, notified) ← onDeviceQueueNotify guest callbacks fuel value state
    if flush then return (.successAndConsoleOutput, notified)
    else return (notified.interruptStatus, notified)
  else .ok (state.interruptStatus, state)

/-- This is `mmio_write`. -/
def mmioWrite (fuel : Nat) (offset : Word) (value : BitVec 32) (log2Size : Nat)
    (state : VirtioState Device Ram) : Except Failure (ExecuteStatus × VirtioState Device Ram) :=
  if 0x100 ≤ offset then .ok (state.mmioWriteConfig (offset - 0x100) value log2Size)
  else if offset &&& 3 ≠ 0 ∨ log2Size ≠ 2 then .ok (.failure, state)
  else if offset = 0x014 then .ok (.success, { state with deviceFeaturesSel := value })
  else if offset = 0x020 then .ok (.success, state.writeDriverFeatures value)
  else if offset = 0x024 then .ok (.success, { state with driverFeaturesSel := value })
  else if offset = 0x030 then .ok (.success, { state with queueSel := value })
  else if offset = 0x038 then
    .ok (.success, if value ≤ virtioQueueNumMax ∧ isPowerOf2 value then
      state.writeSelectedQueue fun vq => { vq with num := value } else state)
  else if offset = 0x044 then
    .ok (.success, state.writeSelectedQueue fun vq =>
      { vq with ready := if value = 1 then 1 else 0 })
  else if offset = 0x050 then writeQueueNotify guest callbacks fuel value state
  else if offset = 0x064 then
    .ok ((state.resetIrq value).interruptStatus, state.resetIrq value)
  else if offset = 0x070 then state.writeStatus callbacks fuel value
  else if offset = 0x080 then
    .ok (.success, state.writeSelectedQueue fun vq => { vq with descAddr := setLow32 vq.descAddr value })
  else if offset = 0x084 then
    .ok (.success, state.writeSelectedQueue fun vq =>
      { vq with descAddr := setHigh32 vq.descAddr value })
  else if offset = 0x090 then
    .ok (.success, state.writeSelectedQueue fun vq =>
      { vq with availAddr := setLow32 vq.availAddr value })
  else if offset = 0x094 then
    .ok (.success, state.writeSelectedQueue fun vq =>
      { vq with availAddr := setHigh32 vq.availAddr value })
  else if offset = 0x0a0 then
    .ok (.success, state.writeSelectedQueue fun vq => { vq with usedAddr := setLow32 vq.usedAddr value })
  else if offset = 0x0a4 then
    .ok (.success, state.writeSelectedQueue fun vq =>
      { vq with usedAddr := setHigh32 vq.usedAddr value })
  else if offset = 0x0ac then .ok (.success, { state with shmSel := value })
  else .ok (.failure, state)

end Registers

end VirtioState

end MachineEmulator.Virtio
