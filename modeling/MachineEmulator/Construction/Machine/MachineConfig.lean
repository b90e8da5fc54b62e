/-
This file gives the configuration of a machine, its default values, and how its backing stores are
pointed to a directory.
-/

import MachineEmulator.Construction.Cmio.LogSendCmioResponse
import MachineEmulator.Construction.Machine.HostMemory
import MachineEmulator.Construction.StepLog.Replay

namespace MachineEmulator.Machine

open StepLog (HashFunctionType)

/-- This is `sharing_mode`. -/
inductive SharingMode where
  | none
  | config
  | all

/-- This is `backing_store_config`. -/
structure BackingStoreConfig where
  shared : Bool := false
  create : Bool := false
  truncate : Bool := false
  dataFilename : String := ""
  dhtFilename : String := ""
  dptFilename : String := ""

/-- This is `iflags_state`. -/
structure IflagsState where
  X : Word := 0
  Y : Word := 0
  H : Word := 0

/-- This is `clint_state`. -/
structure ClintState where
  mtimecmp : Word := 0

/-- This is `plic_state`. -/
structure PlicState where
  girqpend : Word := 0
  girqsrvd : Word := 0

/-- This is `htif_state`. -/
structure HtifState where
  tohost : Word := 0
  fromhost : Word := 0
  ihalt : Word := 1
  iconsole : Word := 2
  iyield : Word := 3

def arDtbStart : Word := 0x7ff00000

def arDtbLength : Word := 0x100000

def arRamStart : Word := 0x80000000

def arPmasStart : Word := 0x10000

def arPmasLength : Word := 0x1000

def arCmioTxBufferStart : Word := 0x60800000

def arCmioTxBufferLength : Word := 2 ^ 21

/-- This is `MSTATUS_INIT`: both widths are 64 bits. -/
def mstatusInit : Word := 2 <<< 32 ||| 2 <<< 34

/-- This is `MISA_INIT`: 64 bits and the extensions S, U, I, M, A, F, D and C. -/
def misaInit : Word :=
  2 <<< 62 ||| 1 <<< 18 ||| 1 <<< 20 ||| 1 <<< 8 ||| 1 <<< 12 ||| 1 <<< 0 ||| 1 <<< 5 ||| 1 <<< 3 |||
    1 <<< 2

/-- The registers hold the start of the device tree in `a1` and zeros. -/
def initialRegisters : Vector Word 32 := (Vector.replicate 32 0).set 11 arDtbStart

/-- This is `registers_state`. -/
structure RegistersState where
  x : Vector Word 32 := initialRegisters
  mcycle : Word := 0
  pc : Word := arRamStart
  fcsr : Word := 0
  f : Vector Word 32 := Vector.replicate 32 0
  iprv : Word := 3
  mstatus : Word := mstatusInit
  mtvec : Word := 0
  mscratch : Word := 0
  mepc : Word := 0
  mcause : Word := 0
  mtval : Word := 0
  misa : Word := misaInit
  mie : Word := 0
  mip : Word := 0
  medeleg : Word := 0
  mideleg : Word := 0
  mcounteren : Word := 0
  menvcfg : Word := 0
  mvendorid : Word := 0x6361727465736920
  marchid : Word := 20
  mimpid : Word := 20
  stvec : Word := 0
  sscratch : Word := 0
  sepc : Word := 0
  scause : Word := 0
  stval : Word := 0
  satp : Word := 0
  scounteren : Word := 0
  senvcfg : Word := 0
  ilrsc : Word := -1
  icycleinstret : Word := 0
  iunrep : Word := 0
  iflags : IflagsState := {}
  clint : ClintState := {}
  plic : PlicState := {}
  htif : HtifState := {}

/-- This is `processor_config`. -/
structure ProcessorConfig where
  registers : RegistersState := {}
  backingStore : BackingStoreConfig := {}

/-- This is `backing_store_config_only`. -/
structure BackingStoreConfigOnly where
  backingStore : BackingStoreConfig := {}

/-- This is `ram_config`. -/
structure RamConfig where
  length : Word := 0
  backingStore : BackingStoreConfig := {}

/-- This is `DTB_BOOTARGS_INIT`. -/
def dtbBootargsInit : String :=
  "quiet earlycon=sbi console=hvc0 " ++ "uio_pdrv_genirq.of_id=generic-uio " ++
    "root=/dev/pmem0 rw " ++ "init=/usr/sbin/cartesi-init"

/-- This is `dtb_config`. -/
structure DtbConfig where
  bootargs : String := dtbBootargsInit
  init : String := ""
  entrypoint : String := ""
  backingStore : BackingStoreConfig := {}

def memoryRangeAuto : Word := 0xffffffffffffffff

/-- This is `memory_range_config`. -/
structure MemoryRangeConfig where
  label : String := ""
  start : Word := memoryRangeAuto
  length : Word := memoryRangeAuto
  readOnly : Bool := false
  backingStore : BackingStoreConfig := {}

/-- This is `virtio_hostfwd_config`. -/
structure VirtioHostfwdConfig where
  isUdp : Bool := false
  hostIp : Word := 0
  guestIp : Word := 0
  hostPort : BitVec 16 := 0
  guestPort : BitVec 16 := 0

/-- This is `virtio_device_config`. -/
inductive VirtioDeviceConfig where
  | console
  | block (capacity : Word)
  | p9fs (tag hostDirectory : String)
  | netUser (hostfwd : List VirtioHostfwdConfig)
  | netTuntap (iface : String)
  | netHost

/-- This is `cmio_config`. -/
structure CmioConfig where
  rxBuffer : BackingStoreConfigOnly := {}
  txBuffer : BackingStoreConfigOnly := {}

/-- This is `uarch_registers_state`. -/
structure UarchRegistersState where
  haltFlag : Word := 0
  cycle : Word := 0
  pc : Word := Uarch.uarchRamStart
  x : Vector Word 32 := Vector.replicate 32 0

/-- This is `uarch_processor_config`. -/
structure UarchProcessorConfig where
  registers : UarchRegistersState := {}
  backingStore : BackingStoreConfig := {}

/-- This is `uarch_config`. -/
structure UarchConfig where
  processor : UarchProcessorConfig := {}
  ram : BackingStoreConfigOnly := {}

/-- This is `hash_tree_config`. -/
structure HashTreeConfig where
  shared : Bool := false
  create : Bool := false
  shtFilename : String := ""
  phtcFilename : String := ""
  phtcSize : Word := 4096
  hashFunction : HashFunctionType := .keccak256

/-- This is `machine_config`. -/
structure MachineConfig where
  processor : ProcessorConfig := {}
  ram : RamConfig := {}
  dtb : DtbConfig := {}
  flashDrive : List MemoryRangeConfig := []
  nvram : List MemoryRangeConfig := []
  virtio : List VirtioDeviceConfig := []
  cmio : CmioConfig := {}
  pmas : BackingStoreConfigOnly := {}
  uarch : UarchConfig := {}
  hashTree : HashTreeConfig := {}

section Filenames

/-- A number in base 16 with at least a number of digits. -/
def hexadecimal (width : Nat) (value : Word) : String :=
  let digits := Nat.toDigits 16 value.toNat
  String.ofList (List.replicate (width - digits.length) '0' ++ digits)

/-- The common part of the names of the files of a range. -/
def rangeFilename (dir : String) (start length : Word) : String :=
  dir ++ "/" ++ hexadecimal 16 start ++ "-" ++ hexadecimal 0 length

def getDataFilename (dir : String) (start length : Word) : String :=
  rangeFilename dir start length ++ ".bin"

def getDhtFilename (dir : String) (start length : Word) : String :=
  rangeFilename dir start length ++ ".dht"

def getDptFilename (dir : String) (start length : Word) : String :=
  rangeFilename dir start length ++ ".dpt"

def getShtFilename (dir : String) : String := dir ++ "/hash_tree.sht"

def getPhtcFilename (dir : String) : String := dir ++ "/hash_tree.phtc"

def getConfigFilename (dir : String) : String := dir ++ "/config.json"

end Filenames

/-- The conversion of the sharing mode. -/
def SharingMode.convert : SharingMode → Bool → Bool
  | .none, _ => false
  | .config, shared => shared
  | .all, _ => true

/-- This is `adjust_ar_backing_store_config`. -/
def BackingStoreConfig.adjustAr (config : BackingStoreConfig) (start length : Word) (dir : String)
    (sharing : SharingMode) : BackingStoreConfig where
  shared := sharing.convert config.shared
  create := false
  truncate := false
  dataFilename := getDataFilename dir start length
  dhtFilename := getDhtFilename dir start length
  dptFilename := getDptFilename dir start length

/-- This is `adjust_ht_backing_store_config`. -/
def HashTreeConfig.adjustHt (config : HashTreeConfig) (dir : String) (sharing : SharingMode) :
    HashTreeConfig :=
  { config with
    shared := sharing.convert config.shared
    create := false
    shtFilename := getShtFilename dir
    phtcFilename := getPhtcFilename dir }

namespace MachineConfig

/-- The configuration of a memory range with its backing store adjusted. -/
def adjustRange (dir : String) (sharing : SharingMode) (range : MemoryRangeConfig) :
    MemoryRangeConfig :=
  { range with
    backingStore := range.backingStore.adjustAr range.start range.length dir sharing }

/-- This is `adjust_backing_stores`. -/
def adjustBackingStores (config : MachineConfig) (dir : String) (sharing : SharingMode) :
    MachineConfig where
  processor := { config.processor with
    backingStore := config.processor.backingStore.adjustAr arShadowStateStart arShadowStateLength dir
      sharing }
  ram := { config.ram with
    backingStore := config.ram.backingStore.adjustAr arRamStart config.ram.length dir sharing }
  dtb := { config.dtb with
    backingStore := config.dtb.backingStore.adjustAr arDtbStart arDtbLength dir sharing }
  flashDrive := config.flashDrive.map (adjustRange dir sharing)
  nvram := config.nvram.map (adjustRange dir sharing)
  virtio := config.virtio
  cmio := {
    rxBuffer := ⟨config.cmio.rxBuffer.backingStore.adjustAr Cmio.cmioRxBufferStart
      Cmio.cmioRxBufferLength dir sharing⟩
    txBuffer := ⟨config.cmio.txBuffer.backingStore.adjustAr arCmioTxBufferStart arCmioTxBufferLength dir
      sharing⟩ }
  pmas := ⟨config.pmas.backingStore.adjustAr arPmasStart arPmasLength dir sharing⟩
  uarch := {
    processor := { config.uarch.processor with
      backingStore := config.uarch.processor.backingStore.adjustAr arShadowUarchStateStart
        arShadowUarchStateLength dir sharing }
    ram := ⟨config.uarch.ram.backingStore.adjustAr Uarch.uarchRamStart
      (BitVec.ofNat 64 Uarch.uarchRamLength) dir sharing⟩ }
  hashTree := config.hashTree.adjustHt dir sharing

end MachineConfig

end MachineEmulator.Machine
