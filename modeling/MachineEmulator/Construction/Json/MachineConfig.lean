/-
This file gives the readers and writers of machine configurations, and how a configuration is stored to
a directory and loaded from it.
-/

import MachineEmulator.Construction.Json.JsonUtil
import MachineEmulator.Construction.Machine.MachineConfig

namespace MachineEmulator.Json

open Machine

section Read

/-- This is `ju_get_opt_field` with the value that the destination has before. -/
def fillField {α : Type} (read : Reader α) (value : α) (json : Value) (name path : String) :
    Except Rejection α := do
  return (← getOptField read json (.name name) path).getD value

def readUint16 : Reader (BitVec 16) := fun json path name => do
  let value64 ← readUint64 json path name
  if 65535 < value64.toNat then .error (complaint path name "out of range")
  return value64.setWidth 16

/-- An array whose items are read one by one to fresh values. -/
def readConfigs {α : Type} (read : Reader α) : Reader (List α)
  | .array items, path, name =>
      readItems read (.array items) (path ++ name ++ "/") (List.range items.length)
  | _, path, name => .error (complaint path name "not an array")

/-- The registers of a file of 32 have their names numbered from 0 on. -/
def fillRegisterFile (letter : String) (file : Vector Word 32) (json : Value) (path : String) :
    Except Rejection (Vector Word 32) :=
  Vector.ofFnM fun index : Fin 32 =>
    fillField readUint64 (file.get index) json (letter ++ toString index.val) path

def readBackingStore (config : BackingStoreConfig) : Reader BackingStoreConfig :=
    fun json path name => do
  let newPath := path ++ name ++ "/"
  let shared ← fillField readBoolean config.shared json "shared" newPath
  let create ← fillField readBoolean config.create json "create" newPath
  let truncate ← fillField readBoolean config.truncate json "truncate" newPath
  let dataFilename ← fillField readString config.dataFilename json "data_filename" newPath
  let dhtFilename ← fillField readString config.dhtFilename json "dht_filename" newPath
  let dptFilename ← fillField readString config.dptFilename json "dpt_filename" newPath
  return { shared, create, truncate, dataFilename, dhtFilename, dptFilename }

def readBackingStoreOnly (config : BackingStoreConfigOnly) : Reader BackingStoreConfigOnly :=
    fun json path name => do
  let newPath := path ++ name ++ "/"
  let backingStore ← fillField (readBackingStore config.backingStore) config.backingStore json
    "backing_store" newPath
  return { backingStore }

def readIflags (state : IflagsState) : Reader IflagsState := fun json path name => do
  let newPath := path ++ name ++ "/"
  let X ← fillField readUint64 state.X json "X" newPath
  let Y ← fillField readUint64 state.Y json "Y" newPath
  let H ← fillField readUint64 state.H json "H" newPath
  return { X, Y, H }

def readClint (state : ClintState) : Reader ClintState := fun json path name => do
  let newPath := path ++ name ++ "/"
  let mtimecmp ← fillField readUint64 state.mtimecmp json "mtimecmp" newPath
  return { mtimecmp }

def readPlic (state : PlicState) : Reader PlicState := fun json path name => do
  let newPath := path ++ name ++ "/"
  let girqpend ← fillField readUint64 state.girqpend json "girqpend" newPath
  let girqsrvd ← fillField readUint64 state.girqsrvd json "girqsrvd" newPath
  return { girqpend, girqsrvd }

def readHtif (state : HtifState) : Reader HtifState := fun json path name => do
  let newPath := path ++ name ++ "/"
  let fromhost ← fillField readUint64 state.fromhost json "fromhost" newPath
  let tohost ← fillField readUint64 state.tohost json "tohost" newPath
  let ihalt ← fillField readUint64 state.ihalt json "ihalt" newPath
  let iconsole ← fillField readUint64 state.iconsole json "iconsole" newPath
  let iyield ← fillField readUint64 state.iyield json "iyield" newPath
  return { fromhost, tohost, ihalt, iconsole, iyield }

def readRegisters (state : RegistersState) : Reader RegistersState := fun json path name => do
  let newPath := path ++ name ++ "/"
  let x ← fillRegisterFile "x" state.x json newPath
  let f ← fillRegisterFile "f" state.f json newPath
  let pc ← fillField readUint64 state.pc json "pc" newPath
  let fcsr ← fillField readUint64 state.fcsr json "fcsr" newPath
  let mvendorid ← fillField readUint64 state.mvendorid json "mvendorid" newPath
  let marchid ← fillField readUint64 state.marchid json "marchid" newPath
  let mimpid ← fillField readUint64 state.mimpid json "mimpid" newPath
  let mcycle ← fillField readUint64 state.mcycle json "mcycle" newPath
  let icycleinstret ← fillField readUint64 state.icycleinstret json "icycleinstret" newPath
  let mstatus ← fillField readUint64 state.mstatus json "mstatus" newPath
  let mtvec ← fillField readUint64 state.mtvec json "mtvec" newPath
  let mscratch ← fillField readUint64 state.mscratch json "mscratch" newPath
  let mepc ← fillField readUint64 state.mepc json "mepc" newPath
  let mcause ← fillField readUint64 state.mcause json "mcause" newPath
  let mtval ← fillField readUint64 state.mtval json "mtval" newPath
  let misa ← fillField readUint64 state.misa json "misa" newPath
  let mie ← fillField readUint64 state.mie json "mie" newPath
  let mip ← fillField readUint64 state.mip json "mip" newPath
  let medeleg ← fillField readUint64 state.medeleg json "medeleg" newPath
  let mideleg ← fillField readUint64 state.mideleg json "mideleg" newPath
  let mcounteren ← fillField readUint64 state.mcounteren json "mcounteren" newPath
  let menvcfg ← fillField readUint64 state.menvcfg json "menvcfg" newPath
  let stvec ← fillField readUint64 state.stvec json "stvec" newPath
  let sscratch ← fillField readUint64 state.sscratch json "sscratch" newPath
  let sepc ← fillField readUint64 state.sepc json "sepc" newPath
  let scause ← fillField readUint64 state.scause json "scause" newPath
  let stval ← fillField readUint64 state.stval json "stval" newPath
  let satp ← fillField readUint64 state.satp json "satp" newPath
  let scounteren ← fillField readUint64 state.scounteren json "scounteren" newPath
  let senvcfg ← fillField readUint64 state.senvcfg json "senvcfg" newPath
  let ilrsc ← fillField readUint64 state.ilrsc json "ilrsc" newPath
  let iprv ← fillField readUint64 state.iprv json "iprv" newPath
  let iflags ← fillField (readIflags state.iflags) state.iflags json "iflags" newPath
  let iunrep ← fillField readUint64 state.iunrep json "iunrep" newPath
  let clint ← fillField (readClint state.clint) state.clint json "clint" newPath
  let plic ← fillField (readPlic state.plic) state.plic json "plic" newPath
  let htif ← fillField (readHtif state.htif) state.htif json "htif" newPath
  return {
    x, f, pc, fcsr, mvendorid, marchid, mimpid, mcycle, icycleinstret, mstatus, mtvec, mscratch, mepc,
    mcause, mtval, misa, mie, mip, medeleg, mideleg, mcounteren, menvcfg, stvec, sscratch, sepc, scause,
    stval, satp, scounteren, senvcfg, ilrsc, iprv, iflags, iunrep, clint, plic, htif }

def readProcessor (config : ProcessorConfig) : Reader ProcessorConfig := fun json path name => do
  let newPath := path ++ name ++ "/"
  let registers ← fillField (readRegisters config.registers) config.registers json "registers" newPath
  let backingStore ← fillField (readBackingStore config.backingStore) config.backingStore json
    "backing_store" newPath
  return { registers, backingStore }

def readDtb (config : DtbConfig) : Reader DtbConfig := fun json path name => do
  let newPath := path ++ name ++ "/"
  let bootargs ← fillField readString config.bootargs json "bootargs" newPath
  let init ← fillField readString config.init json "init" newPath
  let entrypoint ← fillField readString config.entrypoint json "entrypoint" newPath
  let backingStore ← fillField (readBackingStore config.backingStore) config.backingStore json
    "backing_store" newPath
  return { bootargs, init, entrypoint, backingStore }

def readRam (config : RamConfig) : Reader RamConfig := fun json path name => do
  let newPath := path ++ name ++ "/"
  let length ← getField readUint64 json (.name "length") newPath
  let backingStore ← fillField (readBackingStore config.backingStore) config.backingStore json
    "backing_store" newPath
  return { length, backingStore }

def readMemoryRange (config : MemoryRangeConfig) : Reader MemoryRangeConfig :=
    fun json path name => do
  let newPath := path ++ name ++ "/"
  let label ← fillField readString config.label json "label" newPath
  let start ← fillField readUint64 config.start json "start" newPath
  let length ← fillField readUint64 config.length json "length" newPath
  let readOnly ← fillField readBoolean config.readOnly json "read_only" newPath
  let backingStore ← fillField (readBackingStore config.backingStore) config.backingStore json
    "backing_store" newPath
  return { label, start, length, readOnly, backingStore }

def readHashTree (config : HashTreeConfig) : Reader HashTreeConfig := fun json path name => do
  let newPath := path ++ name ++ "/"
  let shared ← fillField readBoolean config.shared json "shared" newPath
  let create ← fillField readBoolean config.create json "create" newPath
  let shtFilename ← fillField readString config.shtFilename json "sht_filename" newPath
  let phtcFilename ← fillField readString config.phtcFilename json "phtc_filename" newPath
  let phtcSize ← fillField readUint64 config.phtcSize json "phtc_size" newPath
  let hashFunction ← fillField readHashFunction config.hashFunction json "hash_function" newPath
  return { shared, create, shtFilename, phtcFilename, phtcSize, hashFunction }

def readHostfwd (config : VirtioHostfwdConfig) : Reader VirtioHostfwdConfig :=
    fun json path name => do
  let newPath := path ++ name ++ "/"
  let isUdp ← fillField readBoolean config.isUdp json "is_udp" newPath
  let hostIp ← fillField readUint64 config.hostIp json "host_ip" newPath
  let guestIp ← fillField readUint64 config.guestIp json "guest_ip" newPath
  let hostPort ← fillField readUint16 config.hostPort json "host_port" newPath
  let guestPort ← fillField readUint16 config.guestPort json "guest_port" newPath
  return { isUdp, hostIp, guestIp, hostPort, guestPort }

def readVirtioDevice : Reader VirtioDeviceConfig := fun json path name => do
  let newPath := path ++ name ++ "/"
  let type ← fillField readString "" json "type" newPath
  if type = "console" then return .console
  else if type = "block" then do
    let capacity ← fillField readUint64 0 json "capacity" newPath
    return .block capacity
  else if type = "p9fs" then do
    let tag ← fillField readString "" json "tag" newPath
    let hostDirectory ← fillField readString "" json "host_directory" newPath
    return .p9fs tag hostDirectory
  else if type = "net-user" then do
    let hostfwd ← fillField (readConfigs (readHostfwd {})) [] json "hostfwd" newPath
    return .netUser hostfwd
  else if type = "net-host" then return .netHost
  else if type = "net-tuntap" then do
    let iface ← fillField readString "" json "iface" newPath
    return .netTuntap iface
  else .error (.domainError ("invalid virtio device type \"" ++ type ++ "\""))

def readCmio (config : CmioConfig) : Reader CmioConfig := fun json path name => do
  let newPath := path ++ name ++ "/"
  let rxBuffer ← getField (readBackingStoreOnly config.rxBuffer) json (.name "rx_buffer") newPath
  let txBuffer ← getField (readBackingStoreOnly config.txBuffer) json (.name "tx_buffer") newPath
  return { rxBuffer, txBuffer }

def readUarchRegisters (state : UarchRegistersState) : Reader UarchRegistersState :=
    fun json path name => do
  let newPath := path ++ name ++ "/"
  let x ← fillRegisterFile "x" state.x json newPath
  let pc ← fillField readUint64 state.pc json "pc" newPath
  let cycle ← fillField readUint64 state.cycle json "cycle" newPath
  let haltFlag ← fillField readUint64 state.haltFlag json "halt_flag" newPath
  return { x, pc, cycle, haltFlag }

def readUarchProcessor (config : UarchProcessorConfig) : Reader UarchProcessorConfig :=
    fun json path name => do
  let newPath := path ++ name ++ "/"
  let registers ← fillField (readUarchRegisters config.registers) config.registers json "registers"
    newPath
  let backingStore ← fillField (readBackingStore config.backingStore) config.backingStore json
    "backing_store" newPath
  return { registers, backingStore }

def readUarch (config : UarchConfig) : Reader UarchConfig := fun json path name => do
  let newPath := path ++ name ++ "/"
  let processor ← fillField (readUarchProcessor config.processor) config.processor json "processor"
    newPath
  let ram ← fillField (readBackingStoreOnly config.ram) config.ram json "ram" newPath
  return { processor, ram }

def readMachineConfig (config : MachineConfig) : Reader MachineConfig := fun json path name => do
  let newPath := path ++ name ++ "/"
  let processor ← fillField (readProcessor config.processor) config.processor json "processor" newPath
  let ram ← fillField (readRam config.ram) config.ram json "ram" newPath
  let dtb ← fillField (readDtb config.dtb) config.dtb json "dtb" newPath
  let flashDrive ← fillField (readConfigs (readMemoryRange {})) config.flashDrive json "flash_drive"
    newPath
  let nvram ← fillField (readConfigs (readMemoryRange {})) config.nvram json "nvram" newPath
  let virtio ← fillField (readConfigs readVirtioDevice) config.virtio json "virtio" newPath
  let cmio ← fillField (readCmio config.cmio) config.cmio json "cmio" newPath
  let pmas ← fillField (readBackingStoreOnly config.pmas) config.pmas json "pmas" newPath
  let uarch ← fillField (readUarch config.uarch) config.uarch json "uarch" newPath
  let hashTree ← fillField (readHashTree config.hashTree) config.hashTree json "hash_tree" newPath
  return { processor, ram, dtb, flashDrive, nvram, virtio, cmio, pmas, uarch, hashTree }

end Read

section Write

def writeUint16 (value : BitVec 16) : Value := .unsigned (value.setWidth 64)

def writeRegisterFile (letter : String) (file : Vector Word 32) : List (String × Value) :=
  List.ofFn fun index : Fin 32 => (letter ++ toString index.val, .unsigned (file.get index))

def writeBackingStore (config : BackingStoreConfig) : Value :=
  .object [("shared", .boolean config.shared), ("create", .boolean config.create),
    ("truncate", .boolean config.truncate), ("data_filename", .string config.dataFilename),
    ("dht_filename", .string config.dhtFilename), ("dpt_filename", .string config.dptFilename)]

def writeBackingStoreOnly (config : BackingStoreConfigOnly) : Value :=
  .object [("backing_store", writeBackingStore config.backingStore)]

def writeMemoryRange (config : MemoryRangeConfig) : Value :=
  .object [("label", .string config.label), ("start", .unsigned config.start),
    ("length", .unsigned config.length), ("read_only", .boolean config.readOnly),
    ("backing_store", writeBackingStore config.backingStore)]

def writeHashTree (config : HashTreeConfig) : Value :=
  .object [("shared", .boolean config.shared), ("create", .boolean config.create),
    ("sht_filename", .string config.shtFilename), ("phtc_filename", .string config.phtcFilename),
    ("phtc_size", .unsigned config.phtcSize),
    ("hash_function", .string (hashFunctionToName config.hashFunction))]

def writeIflags (state : IflagsState) : Value :=
  .object [("X", .unsigned state.X), ("Y", .unsigned state.Y), ("H", .unsigned state.H)]

def writeClint (state : ClintState) : Value := .object [("mtimecmp", .unsigned state.mtimecmp)]

def writePlic (state : PlicState) : Value :=
  .object [("girqpend", .unsigned state.girqpend), ("girqsrvd", .unsigned state.girqsrvd)]

def writeHtif (state : HtifState) : Value :=
  .object [("fromhost", .unsigned state.fromhost), ("tohost", .unsigned state.tohost),
    ("ihalt", .unsigned state.ihalt), ("iconsole", .unsigned state.iconsole),
    ("iyield", .unsigned state.iyield)]

def writeRegisters (state : RegistersState) : Value :=
  .object (writeRegisterFile "x" state.x ++ (writeRegisterFile "f" state.f ++
    [("pc", .unsigned state.pc), ("fcsr", .unsigned state.fcsr),
      ("mvendorid", .unsigned state.mvendorid), ("marchid", .unsigned state.marchid),
      ("mimpid", .unsigned state.mimpid), ("mcycle", .unsigned state.mcycle),
      ("icycleinstret", .unsigned state.icycleinstret), ("mstatus", .unsigned state.mstatus),
      ("mtvec", .unsigned state.mtvec), ("mscratch", .unsigned state.mscratch),
      ("mepc", .unsigned state.mepc), ("mcause", .unsigned state.mcause),
      ("mtval", .unsigned state.mtval), ("misa", .unsigned state.misa), ("mie", .unsigned state.mie),
      ("mip", .unsigned state.mip), ("medeleg", .unsigned state.medeleg),
      ("mideleg", .unsigned state.mideleg), ("mcounteren", .unsigned state.mcounteren),
      ("menvcfg", .unsigned state.menvcfg), ("stvec", .unsigned state.stvec),
      ("sscratch", .unsigned state.sscratch), ("sepc", .unsigned state.sepc),
      ("scause", .unsigned state.scause), ("stval", .unsigned state.stval),
      ("satp", .unsigned state.satp), ("scounteren", .unsigned state.scounteren),
      ("senvcfg", .unsigned state.senvcfg), ("ilrsc", .unsigned state.ilrsc),
      ("iprv", .unsigned state.iprv), ("iflags", writeIflags state.iflags),
      ("iunrep", .unsigned state.iunrep), ("clint", writeClint state.clint),
      ("plic", writePlic state.plic), ("htif", writeHtif state.htif)]))

def writeProcessor (config : ProcessorConfig) : Value :=
  .object [("registers", writeRegisters config.registers),
    ("backing_store", writeBackingStore config.backingStore)]

def writeHostfwd (config : VirtioHostfwdConfig) : Value :=
  .object [("is_udp", .boolean config.isUdp), ("host_ip", .unsigned config.hostIp),
    ("guest_ip", .unsigned config.guestIp), ("host_port", writeUint16 config.hostPort),
    ("guest_port", writeUint16 config.guestPort)]

def writeVirtioDevice : VirtioDeviceConfig → Value
  | .console => .object [("type", .string "console")]
  | .block capacity => .object [("type", .string "block"), ("capacity", .unsigned capacity)]
  | .p9fs tag hostDirectory => .object [("type", .string "p9fs"), ("tag", .string tag),
      ("host_directory", .string hostDirectory)]
  | .netUser hostfwd => .object [("type", .string "net-user"),
      ("hostfwd", .array (hostfwd.map writeHostfwd))]
  | .netTuntap iface => .object [("type", .string "net-tuntap"), ("iface", .string iface)]
  | .netHost => .object [("type", .string "net-host")]

def writeRam (config : RamConfig) : Value :=
  .object [("length", .unsigned config.length),
    ("backing_store", writeBackingStore config.backingStore)]

def writeDtb (config : DtbConfig) : Value :=
  .object [("bootargs", .string config.bootargs), ("init", .string config.init),
    ("entrypoint", .string config.entrypoint),
    ("backing_store", writeBackingStore config.backingStore)]

def writeCmio (config : CmioConfig) : Value :=
  .object [("rx_buffer", writeBackingStoreOnly config.rxBuffer),
    ("tx_buffer", writeBackingStoreOnly config.txBuffer)]

def writeUarchRegisters (state : UarchRegistersState) : Value :=
  .object (writeRegisterFile "x" state.x ++
    [("pc", .unsigned state.pc), ("cycle", .unsigned state.cycle),
      ("halt_flag", .unsigned state.haltFlag)])

def writeUarchProcessor (config : UarchProcessorConfig) : Value :=
  .object [("registers", writeUarchRegisters config.registers),
    ("backing_store", writeBackingStore config.backingStore)]

def writeUarch (config : UarchConfig) : Value :=
  .object [("processor", writeUarchProcessor config.processor),
    ("ram", writeBackingStoreOnly config.ram)]

def writeMachineConfig (config : MachineConfig) : Value :=
  .object [("processor", writeProcessor config.processor), ("ram", writeRam config.ram),
    ("dtb", writeDtb config.dtb), ("flash_drive", .array (config.flashDrive.map writeMemoryRange)),
    ("nvram", .array (config.nvram.map writeMemoryRange)),
    ("virtio", .array (config.virtio.map writeVirtioDevice)), ("cmio", writeCmio config.cmio),
    ("pmas", writeBackingStoreOnly config.pmas), ("uarch", writeUarch config.uarch),
    ("hash_tree", writeHashTree config.hashTree)]

end Write

end MachineEmulator.Json
