/-
This file gives the block device, whose requests the host answers at any later time.
-/

import MachineEmulator.Construction.Virtio.AddressRange

namespace MachineEmulator.Virtio

def virtioBlockQueue : BitVec 32 := 0

def virtioBlockHeaderSize : BitVec 32 := 16

def virtioBlockStatusSize : BitVec 32 := 1

def virtioBlockSectorSize : Word := 512

def virtioBlkTIn : BitVec 32 := 0

def virtioBlkTOut : BitVec 32 := 1

def virtioBlkTFlush : BitVec 32 := 4

def virtioBlkSOk : Byte := 0

def virtioBlkSIoerr : Byte := 1

def virtioBlkSUnsupp : Byte := 2

/-- This is `virtio_block_host_request`. -/
structure HostRequest where
  id : Word
  type : BitVec 32
  sector : Word
  length : BitVec 32
  data : List Byte
deriving DecidableEq

/-- This is `pending_request`. -/
structure PendingRequest where
  id : Word
  descIdx : BitVec 16
  type : BitVec 32
  sector : Word
  dataLen : BitVec 32
  statusOffset : BitVec 32
deriving DecidableEq

/-- What the guest and the host see of the device. A ring index says which element of the available
ring an event is about. -/
inductive Observation where
  | exported (ringIdx : BitVec 16) (id : Word) (descIdx : BitVec 16)
  | rejected (ringIdx : BitVec 16) (descIdx : BitVec 16)
  | completed (ringIdx : BitVec 16) (id : Word) (descIdx : BitVec 16)
  | handedOut (id : Word)
  | deviceReset
deriving DecidableEq

/-- The state of `virtio_block_address_range`, with a record of what it showed to the outside. -/
structure BlockDevice where
  requestIdBase : Word
  nextRequestId : Word
  hostRequests : List HostRequest
  pendingRequests : List PendingRequest
  observations : List Observation

variable {Ram : Type}

abbrev BlockState (Ram : Type) := VirtioState BlockDevice Ram

namespace BlockState

def capacity (state : BlockState Ram) : Word := wordOfBytes (state.configSpace.take 8)

def observe (event : Observation) (state : BlockState Ram) : BlockState Ram :=
  { state with device :=
    { state.device with observations := state.device.observations ++ [event] } }

def doOnDeviceReset (device : BlockDevice) : BlockDevice :=
  { device with
    hostRequests := []
    pendingRequests := []
    nextRequestId := device.requestIdBase + 1
    observations := device.observations ++ [.deviceReset] }

variable (guest : GuestMemory Ram)

/-- The index of the element that the device looks at. -/
def ringIdx (state : BlockState Ram) : BitVec 16 :=
  (state.queue virtioBlockQueue.toNat).lastUsedIdx

/-- The device itself answers a request with a status and goes on with the queue. -/
def rejectRequest (fuel : Nat) (descIdx : BitVec 16) (writeAvailLen : BitVec 32) (status : Byte)
    (state : BlockState Ram) : Except Failure (Bool × Bool × BlockState Ram) := do
  let (written, ram) ← (state.queue virtioBlockQueue.toNat).writeDescMem guest fuel state.ram descIdx
    (writeAvailLen - virtioBlockStatusSize) [status]
  let answered := { state with ram := ram }
  if ¬written then return (false, false, answered.notifyDeviceNeedsReset)
  else do
    let (consumed, used) ← answered.consumeQueue guest virtioBlockQueue descIdx
      virtioBlockStatusSize 0
    if ¬consumed then return (false, false, used.notifyDeviceNeedsReset)
    else
      return (true, false, (observe (.rejected state.ringIdx descIdx) used).notifyQueueUsed)

/-- The request goes to the host, and the queue waits for its answer. -/
def exportRequest (descIdx : BitVec 16) (request : HostRequest) (state : BlockState Ram) :
    BlockState Ram :=
  { state with device :=
    { state.device with
      hostRequests := state.device.hostRequests ++ [request]
      pendingRequests := state.device.pendingRequests ++ [{
        id := request.id
        descIdx := descIdx
        type := request.type
        sector := request.sector
        dataLen := request.length
        statusOffset := if request.type = virtioBlkTIn then request.length else 0 }]
      observations := state.device.observations ++
        [.exported state.ringIdx request.id descIdx] } }

/-- The new identifier is taken before the data is read, and stays taken when the read fails. -/
def takeRequestId (state : BlockState Ram) : BlockState Ram :=
  { state with device := { state.device with nextRequestId := state.device.nextRequestId + 1 } }

/-- The part of `do_on_device_queue_available` behind the checks of the descriptor. -/
def handleRequest (fuel : Nat) (descIdx : BitVec 16) (readAvailLen writeAvailLen : BitVec 32)
    (header : List Byte) (state : BlockState Ram) :
    Except Failure (Bool × Bool × BlockState Ram) :=
  let type : BitVec 32 := (wordOfBytes (header.take 4)).setWidth 32
  let sector := wordOfBytes ((header.drop 8).take 8)
  let dataLen := if type = virtioBlkTIn then writeAvailLen - virtioBlockStatusSize
    else readAvailLen - virtioBlockHeaderSize
  let endSector := sector +
    (dataLen.setWidth 64 + virtioBlockSectorSize - 1) / virtioBlockSectorSize
  let request : HostRequest := ⟨state.device.nextRequestId, type, sector, dataLen, []⟩
  if state.capacity < endSector then
    rejectRequest guest fuel descIdx writeAvailLen virtioBlkSIoerr state
  else if type = virtioBlkTOut then do
    let read ← (state.queue virtioBlockQueue.toNat).readDescMem guest fuel state.ram descIdx
      virtioBlockHeaderSize dataLen
    match read with
    | none => return (false, false, state.takeRequestId.notifyDeviceNeedsReset)
    | some data =>
        return (false, false, state.takeRequestId.exportRequest descIdx { request with data := data })
  else if type = virtioBlkTIn ∨ type = virtioBlkTFlush then
    return (false, false, state.takeRequestId.exportRequest descIdx request)
  else
    rejectRequest guest fuel descIdx writeAvailLen virtioBlkSUnsupp state.takeRequestId

def doOnDeviceQueueAvailable (fuel : Nat) (queueIdx : BitVec 32) (descIdx : BitVec 16)
    (readAvailLen writeAvailLen : BitVec 32) (state : BlockState Ram) :
    Except Failure (Bool × Bool × BlockState Ram) :=
  if queueIdx ≠ virtioBlockQueue ∨ readAvailLen < virtioBlockHeaderSize ∨
      writeAvailLen < virtioBlockStatusSize then
    .ok (false, false, state.notifyDeviceNeedsReset)
  else if ¬state.device.pendingRequests.isEmpty then .ok (false, false, state)
  else do
    let read ← (state.queue virtioBlockQueue.toNat).readDescMem guest fuel state.ram descIdx 0 16
    match read with
    | none => return (false, false, state.notifyDeviceNeedsReset)
    | some header =>
        handleRequest guest fuel descIdx readAvailLen writeAvailLen header state

def blockCallbacks : Callbacks BlockDevice Ram where
  onDeviceReset := doOnDeviceReset
  onDeviceOk := fun _ state => .ok state
  onDeviceQueueAvailable := doOnDeviceQueueAvailable guest

/-- This is `take_host_request`. -/
def takeHostRequest (state : BlockState Ram) : Option HostRequest × BlockState Ram :=
  match state.device.hostRequests with
  | [] => (none, state)
  | request :: rest =>
      (some request, { state with device :=
        { state.device with
          hostRequests := rest
          observations := state.device.observations ++ [.handedOut request.id] } })

/-- A read that succeeded has data of the length that the guest asked for. -/
def acceptsData (request : PendingRequest) (data : Option (List Byte)) (status : Byte) : Bool :=
  if status = virtioBlkSOk ∧ request.type = virtioBlkTIn then
    data.any fun bytes => BitVec.ofNat 32 bytes.length = request.dataLen
  else true

/-- The data of a completion goes to the guest; other completions have none. -/
def writeCompletionData (fuel : Nat) (request : PendingRequest) (data : Option (List Byte))
    (status : Byte) (state : BlockState Ram) : Except Failure (Bool × BlockState Ram) :=
  match data with
  | some bytes =>
      if status = virtioBlkSOk ∧ request.type = virtioBlkTIn then do
        let (written, ram) ← (state.queue virtioBlockQueue.toNat).writeDescMem guest fuel state.ram
          request.descIdx 0 bytes
        return (written, { state with ram := ram })
      else .ok (true, state)
  | none => .ok (true, state)

/-- The status goes to the guest, the descriptor is used, and the queue goes on. -/
def finishCompletion (fuel : Nat) (request : PendingRequest) (writtenLen : BitVec 32) (status : Byte)
    (state : BlockState Ram) : Except Failure (Bool × BlockState Ram) := do
  let (written, ram) ← (state.queue virtioBlockQueue.toNat).writeDescMem guest fuel state.ram
    request.descIdx request.statusOffset [status]
  let answered := { state with ram := ram }
  if ¬written then return (false, answered.notifyDeviceNeedsReset)
  else do
    let (consumed, used) ← answered.consumeQueue guest virtioBlockQueue request.descIdx writtenLen 0
    if ¬consumed then return (false, used.notifyDeviceNeedsReset)
    else do
      let popped : BlockState Ram := { used with device :=
        { used.device with
          pendingRequests := used.device.pendingRequests.tail
          observations := used.device.observations ++
            [.completed state.ringIdx request.id request.descIdx] } }
      let (_, notified) ← popped.onDeviceQueueNotify guest (blockCallbacks guest) fuel
        virtioBlockQueue
      return (true, notified.notifyQueueUsed)

/-- This is `complete`; no data is the null pointer. -/
def complete (fuel : Nat) (id : Word) (data : Option (List Byte)) (status : Byte)
    (state : BlockState Ram) : Except Failure (Bool × BlockState Ram) :=
  match state.device.pendingRequests with
  | [] => .ok (false, state)
  | request :: _ =>
      if request.id ≠ id then .ok (false, state)
      else if ¬acceptsData request data status then .ok (false, state)
      else do
        let (written, sent) ← writeCompletionData guest fuel request data status state
        if ¬written then return (false, sent.notifyDeviceNeedsReset)
        else
          finishCompletion guest fuel request
            (if status = virtioBlkSOk ∧ request.type = virtioBlkTIn then
              virtioBlockStatusSize + request.dataLen else virtioBlockStatusSize) status sent

def completeRead (fuel : Nat) (id : Word) (data : Option (List Byte)) :=
  complete guest fuel id data virtioBlkSOk

def completeOperation (fuel : Nat) (id : Word) := complete guest fuel id none virtioBlkSOk

def failOperation (fuel : Nat) (id : Word) := complete guest fuel id none virtioBlkSIoerr

/-- What the guest and the host can do to the device. The guest may also store anything into its
memory between two accesses of the device. -/
inductive Event (Ram : Type) where
  | guestStores (ram : Ram)
  | mmioWrite (offset : Word) (value : BitVec 32) (log2Size : Nat)
  | takeHostRequest
  | completeRead (id : Word) (data : Option (List Byte))
  | completeOperation (id : Word)
  | failOperation (id : Word)

/-- One event; the answers to the guest and the host are left out. -/
def step (fuel : Nat) : Event Ram → BlockState Ram → Except Failure (BlockState Ram)
  | .guestStores ram, state => .ok { state with ram := ram }
  | .mmioWrite offset value log2Size, state =>
      (state.mmioWrite guest (blockCallbacks guest) fuel offset value log2Size).map Prod.snd
  | .takeHostRequest, state => .ok state.takeHostRequest.2
  | .completeRead id data, state => (completeRead guest fuel id data state).map Prod.snd
  | .completeOperation id, state => (completeOperation guest fuel id state).map Prod.snd
  | .failOperation id, state => (failOperation guest fuel id state).map Prod.snd

/-- This is the constructor. -/
def initial (virtioIdx : BitVec 32) (capacity : Word) (ram : Ram) : BlockState Ram where
  intStatus := 0
  deviceFeatures := 1 <<< 9 ||| 1 <<< 32
  driverFeatures := 0
  deviceFeaturesSel := 0
  driverFeaturesSel := 0
  queueSel := 0
  shmSel := 0
  deviceStatus := 0
  configGeneration := 0
  configSpaceSize := 8
  driverOk := false
  configSpace := wordToBytes capacity ++ List.replicate 248 0
  queue := fun _ => VirtioState.emptyVirtq
  device := ⟨virtioIdx.setWidth 64 <<< 32, (virtioIdx.setWidth 64 <<< 32) + 1, [], [], []⟩
  ram := ram

end BlockState

end MachineEmulator.Virtio
