/-
This file gives the network device, whose frames the host takes and pushes at any time.
-/

import MachineEmulator.Construction.Virtio.AddressRange

namespace MachineEmulator.Virtio

def virtioNetReceiveq : BitVec 32 := 0

def virtioNetTransmitq : BitVec 32 := 1

def virtioNetMaxFrameLength : Nat := 2048

def virtioNetMaxQueuedPackets : Nat := 256

/-- The size of `virtio_net_header`. -/
def virtioNetHeaderSize : BitVec 32 := 12

/-- The bytes of a header with one buffer. -/
def virtioNetHeader : List Byte := List.replicate 10 0 ++ [1, 0]

/-- A frame with a number of its own; nothing the device does depends on the number. -/
structure Packet where
  serial : Nat
  data : List Byte
deriving DecidableEq

/-- What the guest and the host see of the device. A ring index says which element of the available
ring an event is about; a transmitted element comes with the queue and the memory it was read from. -/
inductive NetObservation (Ram : Type) where
  | pushed (packet : Packet)
  | droppedOldest (packet : Packet)
  | completed (ringIdx : BitVec 16) (packet : Packet)
  | transmitted (ringIdx descIdx : BitVec 16) (vq : Virtq) (ram : Ram) (packet : Packet)
  | droppedNewest (ringIdx descIdx : BitVec 16) (vq : Virtq) (ram : Ram) (packet : Packet)
  | taken (packet : Packet)
  | cleared
  | deviceReset

/-- The state of `virtio_net_host_address_range`, with the numbers of frames pushed and transmitted
and a record of what it showed to the outside. -/
structure NetDevice (Ram : Type) where
  receivePackets : List Packet
  transmitPackets : List Packet
  pushes : Nat
  transmissions : Nat
  observations : List (NetObservation Ram)

variable {Ram : Type}

abbrev NetState (Ram : Type) := VirtioState (NetDevice Ram) Ram

namespace NetState

def observe (event : NetObservation Ram) (device : NetDevice Ram) : NetDevice Ram :=
  { device with observations := device.observations ++ [event] }

/-- This is `clear_packets`. -/
def clearPackets (event : NetObservation Ram) (device : NetDevice Ram) : NetDevice Ram :=
  observe event { device with receivePackets := [], transmitPackets := [] }

def doOnDeviceReset (device : NetDevice Ram) : NetDevice Ram := clearPackets .deviceReset device

variable (guest : GuestMemory Ram)

/-- The first frame is in the guest, and its element is used. -/
def popReceived (ringIdx : BitVec 16) (packet : Packet) (state : NetState Ram) : NetState Ram :=
  let popped := { state.device with receivePackets := state.device.receivePackets.tail }
  { state with device := observe (.completed ringIdx packet) popped }

/-- This is `receive_one`. -/
def receiveOne (fuel : Nat) (descIdx : BitVec 16) (writeAvailLen : BitVec 32)
    (state : NetState Ram) : Except Failure (Bool × Bool × NetState Ram) :=
  match state.device.receivePackets with
  | [] => .ok (false, false, state)
  | packet :: _ =>
      let vq := state.queue virtioNetReceiveq.toNat
      let writtenLen := virtioNetHeaderSize + BitVec.ofNat 32 packet.data.length
      if virtioNetMaxFrameLength < packet.data.length ∨ writeAvailLen < writtenLen then
        .ok (false, false, state.notifyDeviceNeedsReset)
      else do
        let (headed, ram) ← vq.writeDescMem guest fuel state.ram descIdx 0 virtioNetHeader
        if ¬headed then return (false, false, { state with ram := ram }.notifyDeviceNeedsReset)
        else do
          let (written, ram) ← vq.writeDescMem guest fuel ram descIdx virtioNetHeaderSize packet.data
          if ¬written then return (false, false, { state with ram := ram }.notifyDeviceNeedsReset)
          else do
            let (consumed, used) ← { state with ram := ram }.consumeQueue guest virtioNetReceiveq
              descIdx writtenLen 0
            if ¬consumed then return (false, false, used.notifyDeviceNeedsReset)
            else return (true, false, (popReceived vq.lastUsedIdx packet used).notifyQueueUsed)

/-- The frame of a used element goes to the host, or nowhere if the host has enough of them. -/
def pushTransmitted (descIdx : BitVec 16) (vq : Virtq) (ram : Ram) (data : List Byte)
    (state : NetState Ram) : NetState Ram :=
  let packet : Packet := ⟨state.device.transmissions, data⟩
  let counted := { state.device with transmissions := state.device.transmissions + 1 }
  let queued := { counted with transmitPackets := state.device.transmitPackets ++ [packet] }
  if state.device.transmitPackets.length < virtioNetMaxQueuedPackets then
    { state with device := observe (.transmitted vq.lastUsedIdx descIdx vq ram packet) queued }
  else { state with device := observe (.droppedNewest vq.lastUsedIdx descIdx vq ram packet) counted }

/-- The bytes of an element behind the header, if there are any. -/
def readPacket (fuel : Nat) (descIdx : BitVec 16) (packetLen : BitVec 32) (state : NetState Ram) :
    Except Failure (Option (List Byte)) :=
  if 0 < packetLen then
    (state.queue virtioNetTransmitq.toNat).readDescMem guest fuel state.ram descIdx
      virtioNetHeaderSize packetLen
  else .ok (some [])

/-- This is `transmit_one`. -/
def transmitOne (fuel : Nat) (descIdx : BitVec 16) (readAvailLen : BitVec 32)
    (state : NetState Ram) : Except Failure (Bool × Bool × NetState Ram) :=
  if readAvailLen < virtioNetHeaderSize ∨
      BitVec.ofNat 32 virtioNetMaxFrameLength < readAvailLen - virtioNetHeaderSize then
    .ok (false, false, state.notifyDeviceNeedsReset)
  else do
    match ← readPacket guest fuel descIdx (readAvailLen - virtioNetHeaderSize) state with
    | none => return (false, false, state.notifyDeviceNeedsReset)
    | some data => do
        let (consumed, used) ← state.consumeQueue guest virtioNetTransmitq descIdx 0 0
        if ¬consumed then return (false, false, used.notifyDeviceNeedsReset)
        else
          return (true, false, (pushTransmitted descIdx (state.queue virtioNetTransmitq.toNat)
            state.ram data used).notifyQueueUsed)

def doOnDeviceQueueAvailable (fuel : Nat) (queueIdx : BitVec 32) (descIdx : BitVec 16)
    (readAvailLen writeAvailLen : BitVec 32) (state : NetState Ram) :
    Except Failure (Bool × Bool × NetState Ram) :=
  if queueIdx = virtioNetReceiveq then receiveOne guest fuel descIdx writeAvailLen state
  else if queueIdx = virtioNetTransmitq then transmitOne guest fuel descIdx readAvailLen state
  else .ok (false, false, state.notifyDeviceNeedsReset)

/-- Delivering frames runs the queue, which calls the device for each element. -/
def queueCallbacks : Callbacks (NetDevice Ram) Ram where
  onDeviceReset := doOnDeviceReset
  onDeviceOk := fun _ state => .ok state
  onDeviceQueueAvailable := doOnDeviceQueueAvailable guest

/-- This is `deliver_receive_packets`. -/
def deliverReceivePackets (fuel : Nat) (state : NetState Ram) : Except Failure (NetState Ram) :=
  if ¬state.driverOk ∨ state.device.receivePackets.isEmpty then .ok state
  else do
    let (_, notified) ← state.onDeviceQueueNotify guest (queueCallbacks guest) fuel virtioNetReceiveq
    return notified

def netCallbacks : Callbacks (NetDevice Ram) Ram where
  onDeviceReset := doOnDeviceReset
  onDeviceOk := deliverReceivePackets guest
  onDeviceQueueAvailable := doOnDeviceQueueAvailable guest

/-- The frame waits behind the others; the oldest one makes room if there is none. -/
def enqueueReceived (data : List Byte) (device : NetDevice Ram) : NetDevice Ram :=
  let packet : Packet := ⟨device.pushes, data⟩
  let roomy :=
    match device.receivePackets with
    | oldest :: rest =>
        if device.receivePackets.length = virtioNetMaxQueuedPackets then
          observe (.droppedOldest oldest) { device with receivePackets := rest }
        else device
    | [] => device
  observe (.pushed packet)
    { roomy with receivePackets := roomy.receivePackets ++ [packet], pushes := device.pushes + 1 }

/-- This is `push_receive_packet`; no data is the null pointer. -/
def pushReceivePacket (fuel : Nat) (data : Option (List Byte)) (state : NetState Ram) :
    Except Failure (Bool × NetState Ram) :=
  match data with
  | none => .ok (false, state)
  | some data =>
      if data.length = 0 ∨ virtioNetMaxFrameLength < data.length then .ok (false, state)
      else do
        let delivered ← deliverReceivePackets guest fuel
          { state with device := enqueueReceived data state.device }
        return (true, delivered)

/-- This is `take_transmit_packet`. -/
def takeTransmitPacket (state : NetState Ram) : Option (List Byte) × NetState Ram :=
  match state.device.transmitPackets with
  | [] => (none, state)
  | packet :: rest =>
      let popped := { state.device with transmitPackets := rest }
      (some packet.data, { state with device := observe (.taken packet) popped })

/-- What the guest and the host can do to the device. The guest may also store anything into its
memory between two accesses of the device. -/
inductive Event (Ram : Type) where
  | guestStores (ram : Ram)
  | mmioWrite (offset : Word) (value : BitVec 32) (log2Size : Nat)
  | pushReceivePacket (data : Option (List Byte))
  | takeTransmitPacket
  | clearPackets

/-- One event; the answers to the guest and the host are left out. -/
def step (fuel : Nat) : Event Ram → NetState Ram → Except Failure (NetState Ram)
  | .guestStores ram, state => .ok { state with ram := ram }
  | .mmioWrite offset value log2Size, state =>
      (state.mmioWrite guest (netCallbacks guest) fuel offset value log2Size).map Prod.snd
  | .pushReceivePacket data, state => (pushReceivePacket guest fuel data state).map Prod.snd
  | .takeTransmitPacket, state => .ok state.takeTransmitPacket.2
  | .clearPackets, state => .ok { state with device := clearPackets .cleared state.device }

/-- This is the constructor. -/
def initial (ram : Ram) : NetState Ram where
  intStatus := 0
  deviceFeatures := 1 <<< 5 ||| 1 <<< 32
  driverFeatures := 0
  deviceFeaturesSel := 0
  driverFeaturesSel := 0
  queueSel := 0
  shmSel := 0
  deviceStatus := 0
  configGeneration := 0
  configSpaceSize := 6
  driverOk := false
  configSpace := [0x02, 0x00, 0x00, 0x00, 0x00, 0x02] ++ List.replicate 250 0
  queue := fun _ => VirtioState.emptyVirtq
  device := ⟨[], [], 0, 0, []⟩
  ram := ram

end NetState

end MachineEmulator.Virtio
