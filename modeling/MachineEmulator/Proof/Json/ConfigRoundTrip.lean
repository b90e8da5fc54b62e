/-
This file proves that a machine configuration comes back from its JSON, and that a configuration that
was stored is loaded with other backing stores only.
-/

import MachineEmulator.Construction.Json.ConfigFile
import MachineEmulator.Proof.Json.Fields

namespace MachineEmulator.Json

open Machine
open StepLog (HashFunctionType)

section Same

theorem sizeOf_item {items : List Value} {item : Value} (member : item ∈ items) :
    sizeOf item < sizeOf (Value.array items) := by
  have smaller := List.sizeOf_lt_of_mem member
  simp only [Value.array.sizeOf_spec]
  omega

theorem sizeOf_entry {fields : List (String × Value)} {entry : String × Value}
    (member : entry ∈ fields) : sizeOf entry.2 < sizeOf (Value.object fields) := by
  have smaller := List.sizeOf_lt_of_mem member
  obtain ⟨name, value⟩ := entry
  simp only [Prod.mk.sizeOf_spec, Value.object.sizeOf_spec] at smaller ⊢
  omega

theorem same_fields (fields : List (String × Value))
    (each : ∀ entry ∈ fields, entry.2.Same entry.2) (name : String) :
    Option.Rel Value.Same (fields.lookup name) (fields.lookup name) := by
  cases found : fields.lookup name with
  | none => exact .none
  | some value =>
      obtain ⟨before, after, split, _⟩ := List.lookup_eq_some_iff.mp found
      exact .some (each (name, value) (by simp [split]))

theorem Value.Same.refl : ∀ json : Value, json.Same json
  | .null => .null
  | .boolean value => .boolean value
  | .unsigned value => .unsigned value
  | .integer value => .integer value _
  | .float value => .float value _
  | .string text => .string text
  | .array items => .array (List.forall₂_same.mpr fun item _ => Value.Same.refl item)
  | .object fields => .object (same_fields fields fun entry _ => Value.Same.refl entry.2)
termination_by json => sizeOf json
decreasing_by
  · exact sizeOf_item ‹item ∈ items›
  · exact sizeOf_entry ‹entry ∈ fields›

end Same

section Takes

variable {α : Type} {read : Reader α} {value : α}

/-- A reader takes every JSON value that holds the same for a value. -/
def Takes (read : Reader α) (json : Value) (value : α) : Prop :=
  ∀ back, json.Same back → Reads read back value

theorem Takes.reads {json : Value} (takes : Takes read json value) : Reads read json value :=
  takes json (Value.Same.refl json)

/-- The fields of two objects hold the same. -/
def SameFields (fields back : List (String × Value)) : Prop :=
  ∀ name, Option.Rel Value.Same (fields.lookup name) (back.lookup name)

theorem takes_object {fields : List (String × Value)}
    (each : ∀ back, SameFields fields back → Reads read (.object back) value) :
    Takes read (.object fields) value := by
  intro back same
  cases same with
  | object fields => exact each _ fields

variable {fields back : List (String × Value)} {name path : String} {held : Value}

theorem SameFields.lookup (same : SameFields fields back) (found : fields.lookup name = some held) :
    ∃ other, back.lookup name = some other ∧ held.Same other := by
  have both := same name
  rw [found] at both
  cases both' : back.lookup name with
  | none =>
      rw [both'] at both
      cases both
  | some other =>
      rw [both'] at both
      cases both with
      | some holds => exact ⟨other, rfl, holds⟩

theorem SameFields.fillField (same : SameFields fields back)
    (found : fields.lookup name = some held) (takes : Takes read held value) (old : α) :
    fillField read old (.object back) name path = .ok value := by
  obtain ⟨other, there, holds⟩ := same.lookup found
  have given : (Value.object back).field (.name name) path = .ok (some other) := by
    rw [field_object, there]
  rw [Json.fillField, getOptField_some given (takes other holds)]
  rfl

/-- The next field that is read to a destination. -/
theorem SameFields.fill {β : Type} {next : α → Except Rejection β} {result : Except Rejection β}
    {old : α} (same : SameFields fields back) (found : fields.lookup name = some held)
    (takes : Takes read held value) (rest : next value = result) :
    (Json.fillField read old (.object back) name path >>= next) = result := by
  rw [same.fillField found takes]
  exact rest

/-- The next field that must be there. -/
theorem SameFields.get {β : Type} {next : α → Except Rejection β} {result : Except Rejection β}
    (same : SameFields fields back) (found : fields.lookup name = some held)
    (takes : Takes read held value) (rest : next value = result) :
    (getField read (.object back) (.name name) path >>= next) = result := by
  obtain ⟨other, there, holds⟩ := same.lookup found
  have given : (Value.object back).field (.name name) path = .ok (some other) := by
    rw [field_object, there]
  rw [getField_some given (takes other holds)]
  exact rest

end Takes

section Scalars

theorem takes_boolean (value : Bool) : Takes readBoolean (.boolean value) value := by
  intro back same
  cases same
  exact reads_boolean value

theorem takes_string (text : String) : Takes readString (.string text) text := by
  intro back same
  cases same
  exact reads_string text

theorem takes_unsigned (value : Word) : Takes readUint64 (.unsigned value) value := by
  intro back same
  cases same
  exact reads_unsigned value

theorem takes_uint16 (value : BitVec 16) : Takes readUint16 (writeUint16 value) value := by
  intro back same path name
  cases same
  have bound := value.isLt
  have small : ¬65535 < (value.setWidth 64).toNat := by
    rw [BitVec.toNat_setWidth]
    omega
  show (if 65535 < (value.setWidth 64).toNat then _ else _) = _
  rw [if_neg small]
  show Except.ok ((value.setWidth 64).setWidth 16) = _
  rw [BitVec.setWidth_setWidth_of_le _ (by decide), BitVec.setWidth_eq]

theorem takes_hashFunction (hashFunction : HashFunctionType) :
    Takes readHashFunction (.string (hashFunctionToName hashFunction)) hashFunction := by
  intro back same
  cases same
  exact reads_hashFunction hashFunction

/-- A list whose items are written one by one comes back. -/
theorem takes_configs {α : Type} {read : Reader α} {write : α → Value}
    (each : ∀ item, Takes read (write item) item) (items : List α) :
    Takes (readConfigs read) (.array (items.map write)) items := by
  intro back same path name
  cases same with
  | array holds =>
      rw [List.forall₂_map_left_iff] at holds
      exact readItems_all (holds.flip.imp fun _ item same => each item _ same)

end Scalars

section Records

theorem takes_backingStore (old config : BackingStoreConfig) :
    Takes (readBackingStore old) (writeBackingStore config) config := by
  refine takes_object fun back same path name => ?_
  refine same.fill rfl (takes_boolean _) ?_
  refine same.fill rfl (takes_boolean _) ?_
  refine same.fill rfl (takes_boolean _) ?_
  refine same.fill rfl (takes_string _) ?_
  refine same.fill rfl (takes_string _) ?_
  exact same.fill rfl (takes_string _) rfl

theorem takes_backingStoreOnly (old config : BackingStoreConfigOnly) :
    Takes (readBackingStoreOnly old) (writeBackingStoreOnly config) config :=
  takes_object fun _ same _ _ => same.fill rfl (takes_backingStore _ _) rfl

theorem takes_memoryRange (old config : MemoryRangeConfig) :
    Takes (readMemoryRange old) (writeMemoryRange config) config := by
  refine takes_object fun back same path name => ?_
  refine same.fill rfl (takes_string _) ?_
  refine same.fill rfl (takes_unsigned _) ?_
  refine same.fill rfl (takes_unsigned _) ?_
  refine same.fill rfl (takes_boolean _) ?_
  exact same.fill rfl (takes_backingStore _ _) rfl

theorem takes_hashTree (old config : HashTreeConfig) :
    Takes (readHashTree old) (writeHashTree config) config := by
  refine takes_object fun back same path name => ?_
  refine same.fill rfl (takes_boolean _) ?_
  refine same.fill rfl (takes_boolean _) ?_
  refine same.fill rfl (takes_string _) ?_
  refine same.fill rfl (takes_string _) ?_
  refine same.fill rfl (takes_unsigned _) ?_
  exact same.fill rfl (takes_hashFunction _) rfl

theorem takes_iflags (old state : IflagsState) : Takes (readIflags old) (writeIflags state) state := by
  refine takes_object fun back same path name => ?_
  refine same.fill rfl (takes_unsigned _) ?_
  refine same.fill rfl (takes_unsigned _) ?_
  exact same.fill rfl (takes_unsigned _) rfl

theorem takes_clint (old state : ClintState) : Takes (readClint old) (writeClint state) state :=
  takes_object fun _ same _ _ => same.fill rfl (takes_unsigned _) rfl

theorem takes_plic (old state : PlicState) : Takes (readPlic old) (writePlic state) state := by
  refine takes_object fun back same path name => ?_
  refine same.fill rfl (takes_unsigned _) ?_
  exact same.fill rfl (takes_unsigned _) rfl

theorem takes_htif (old state : HtifState) : Takes (readHtif old) (writeHtif state) state := by
  refine takes_object fun back same path name => ?_
  refine same.fill rfl (takes_unsigned _) ?_
  refine same.fill rfl (takes_unsigned _) ?_
  refine same.fill rfl (takes_unsigned _) ?_
  refine same.fill rfl (takes_unsigned _) ?_
  exact same.fill rfl (takes_unsigned _) rfl

theorem takes_dtb (old config : DtbConfig) : Takes (readDtb old) (writeDtb config) config := by
  refine takes_object fun back same path name => ?_
  refine same.fill rfl (takes_string _) ?_
  refine same.fill rfl (takes_string _) ?_
  refine same.fill rfl (takes_string _) ?_
  exact same.fill rfl (takes_backingStore _ _) rfl

theorem takes_ram (old config : RamConfig) : Takes (readRam old) (writeRam config) config := by
  refine takes_object fun back same path name => ?_
  refine same.get rfl (takes_unsigned _) ?_
  exact same.fill rfl (takes_backingStore _ _) rfl

theorem takes_cmio (old config : CmioConfig) : Takes (readCmio old) (writeCmio config) config := by
  refine takes_object fun back same path name => ?_
  refine same.get rfl (takes_backingStoreOnly _ _) ?_
  exact same.get rfl (takes_backingStoreOnly _ _) rfl

theorem takes_hostfwd (old config : VirtioHostfwdConfig) :
    Takes (readHostfwd old) (writeHostfwd config) config := by
  refine takes_object fun back same path name => ?_
  refine same.fill rfl (takes_boolean _) ?_
  refine same.fill rfl (takes_unsigned _) ?_
  refine same.fill rfl (takes_unsigned _) ?_
  refine same.fill rfl (takes_uint16 _) ?_
  exact same.fill rfl (takes_uint16 _) rfl

theorem takes_virtioDevice (config : VirtioDeviceConfig) :
    Takes readVirtioDevice (writeVirtioDevice config) config := by
  cases config with
  | console => exact takes_object fun _ same _ _ => same.fill rfl (takes_string _) rfl
  | block capacity =>
      refine takes_object fun back same path name => ?_
      refine same.fill rfl (takes_string _) ?_
      exact same.fill rfl (takes_unsigned _) rfl
  | p9fs tag hostDirectory =>
      refine takes_object fun back same path name => ?_
      refine same.fill rfl (takes_string _) ?_
      refine same.fill rfl (takes_string _) ?_
      exact same.fill rfl (takes_string _) rfl
  | netUser hostfwd =>
      refine takes_object fun back same path name => ?_
      refine same.fill rfl (takes_string _) ?_
      exact same.fill rfl (takes_configs (takes_hostfwd {}) _) rfl
  | netTuntap iface =>
      refine takes_object fun back same path name => ?_
      refine same.fill rfl (takes_string _) ?_
      exact same.fill rfl (takes_string _) rfl
  | netHost => exact takes_object fun _ same _ _ => same.fill rfl (takes_string _) rfl

end Records

section Registers

variable {letter : String} {file : Vector Word 32} {fields back : List (String × Value)}

/-- A name that no register of a file has is looked up behind the file. -/
theorem lookup_behind {name : String} {rest : List (String × Value)} {held : Option Value}
    (apart : ∀ index : Fin 32, letter ++ toString index.val ≠ name) (found : rest.lookup name = held) :
    (writeRegisterFile letter file ++ rest).lookup name = held := by
  have none : (writeRegisterFile letter file).lookup name = none := by
    rw [List.lookup_eq_none_iff]
    intro entry member
    obtain ⟨index, rfl⟩ := List.mem_ofFn.mp member
    simpa using (apart index).symm
  rw [List.lookup_append, none, Option.none_or, found]

theorem lookup_registerFile (index : Fin 32) :
    (writeRegisterFile letter file).lookup (letter ++ toString index.val) =
      some (.unsigned (file.get index)) := by
  have different : ∀ first second : Fin 32,
      toString first.val = toString second.val → first = second := by
    have reads : ∀ index : Fin 32, (toString index.val).toList.foldl
        (fun read digit => 10 * read + (digit.toNat - '0'.toNat)) 0 = index.val := by decide
    intro first second same
    rw [← Fin.val_inj, ← reads first, ← reads second, same]
  cases found : (writeRegisterFile letter file).lookup (letter ++ toString index.val) with
  | none =>
      have none := List.lookup_eq_none_iff.mp found _ (List.mem_ofFn.mpr ⟨index, rfl⟩)
      simp at none
  | some value =>
      obtain ⟨before, after, split, _⟩ := List.lookup_eq_some_iff.mp found
      have member : (letter ++ toString index.val, value) ∈ writeRegisterFile letter file := by
        simp [split]
      obtain ⟨other, entry⟩ := List.mem_ofFn.mp member
      have names := congrArg Prod.fst entry
      have values := congrArg Prod.snd entry
      rw [String.append_right_inj] at names
      rw [different other index names] at values
      exact congrArg some values.symm

/-- The registers of a file come back. -/
theorem fillRegisterFile_same (same : SameFields fields back)
    (found : ∀ index : Fin 32, fields.lookup (letter ++ toString index.val) =
      some (.unsigned (file.get index))) (old : Vector Word 32) (path : String) :
    fillRegisterFile letter old (.object back) path = .ok file := by
  have each : (fun index : Fin 32 => fillField readUint64 (old.get index) (.object back)
      (letter ++ toString index.val) path) = pure ∘ fun index : Fin 32 => file.get index := by
    funext index
    exact same.fillField (found index) (takes_unsigned _) _
  rw [fillRegisterFile, each, Vector.ofFnM_pure_comp]
  exact congrArg Except.ok Vector.ofFn_getElem

theorem lookup_inside (index : Fin 32) (rest : List (String × Value)) :
    (writeRegisterFile letter file ++ rest).lookup (letter ++ toString index.val) =
      some (.unsigned (file.get index)) := by
  rw [List.lookup_append, lookup_registerFile]
  rfl

theorem takes_uarchRegisters (old state : UarchRegistersState) :
    Takes (readUarchRegisters old) (writeUarchRegisters state) state := by
  refine takes_object fun back same path name => ?_
  have file : fillRegisterFile "x" old.x (.object back) (path ++ name ++ "/") = .ok state.x :=
    fillRegisterFile_same same (fun index => lookup_inside index _) _ _
  rw [readUarchRegisters, file]
  refine same.fill (lookup_behind (by decide) rfl) (takes_unsigned _) ?_
  refine same.fill (lookup_behind (by decide) rfl) (takes_unsigned _) ?_
  exact same.fill (lookup_behind (by decide) rfl) (takes_unsigned _) rfl

/-- The name of a register of a file ends with a digit. -/
theorem register_ends (index : Fin 32) :
    (letter ++ toString index.val).toList.getLast?.any Char.isDigit = true := by
  have digits : ∀ index : Fin 32, (toString index.val).toList.getLast?.any Char.isDigit = true := by
    decide
  have last := digits index
  rw [String.toList_append, List.getLast?_append]
  cases ends : (toString index.val).toList.getLast? with
  | none =>
      rw [ends] at last
      cases last
  | some digit =>
      rw [ends] at last
      exact last

/-- A name that does not end with a digit is looked up behind both files. -/
theorem lookup_control {x f : Vector Word 32} {name : String} {rest : List (String × Value)}
    {held : Option Value} (apart : name.toList.getLast?.any Char.isDigit = false)
    (found : rest.lookup name = held) :
    (writeRegisterFile "x" x ++ (writeRegisterFile "f" f ++ rest)).lookup name = held := by
  have differs : ∀ letter (index : Fin 32), letter ++ toString index.val ≠ name := by
    intro letter index same
    have ends := @register_ends letter index
    rw [same, apart] at ends
    cases ends
  exact lookup_behind (differs "x") (lookup_behind (differs "f") found)

theorem takes_registers (old state : RegistersState) :
    Takes (readRegisters old) (writeRegisters state) state := by
  refine takes_object fun back same path name => ?_
  have x : fillRegisterFile "x" old.x (.object back) (path ++ name ++ "/") = .ok state.x :=
    fillRegisterFile_same same (fun index => lookup_inside index _) _ _
  have apart : ∀ first second : Fin 32, "x" ++ toString second.val ≠ "f" ++ toString first.val := by
    intro first second same
    have letters := congrArg (fun name => name.toList.head?) same
    simp at letters
  have f : fillRegisterFile "f" old.f (.object back) (path ++ name ++ "/") = .ok state.f :=
    fillRegisterFile_same same
      (fun index => lookup_behind (apart index) (lookup_inside index _)) _ _
  rw [readRegisters, x, f]
  -- The control registers, with the nested states of the flags and the devices in their places.
  iterate 30 refine same.fill (lookup_control (by decide) rfl) (takes_unsigned _) ?_
  refine same.fill (lookup_control (by decide) rfl) (takes_iflags _ _) ?_
  refine same.fill (lookup_control (by decide) rfl) (takes_unsigned _) ?_
  refine same.fill (lookup_control (by decide) rfl) (takes_clint _ _) ?_
  refine same.fill (lookup_control (by decide) rfl) (takes_plic _ _) ?_
  exact same.fill (lookup_control (by decide) rfl) (takes_htif _ _) rfl

end Registers

section Configurations

theorem takes_processor (old config : ProcessorConfig) :
    Takes (readProcessor old) (writeProcessor config) config := by
  refine takes_object fun back same path name => ?_
  refine same.fill rfl (takes_registers _ _) ?_
  exact same.fill rfl (takes_backingStore _ _) rfl

theorem takes_uarchProcessor (old config : UarchProcessorConfig) :
    Takes (readUarchProcessor old) (writeUarchProcessor config) config := by
  refine takes_object fun back same path name => ?_
  refine same.fill rfl (takes_uarchRegisters _ _) ?_
  exact same.fill rfl (takes_backingStore _ _) rfl

theorem takes_uarch (old config : UarchConfig) : Takes (readUarch old) (writeUarch config) config := by
  refine takes_object fun back same path name => ?_
  refine same.fill rfl (takes_uarchProcessor _ _) ?_
  exact same.fill rfl (takes_backingStoreOnly _ _) rfl

theorem takes_machineConfig (old config : MachineConfig) :
    Takes (readMachineConfig old) (writeMachineConfig config) config := by
  refine takes_object fun back same path name => ?_
  refine same.fill rfl (takes_processor _ _) ?_
  refine same.fill rfl (takes_ram _ _) ?_
  refine same.fill rfl (takes_dtb _ _) ?_
  refine same.fill rfl (takes_configs (takes_memoryRange {}) _) ?_
  refine same.fill rfl (takes_configs (takes_memoryRange {}) _) ?_
  refine same.fill rfl (takes_configs takes_virtioDevice _) ?_
  refine same.fill rfl (takes_cmio _ _) ?_
  refine same.fill rfl (takes_backingStoreOnly _ _) ?_
  refine same.fill rfl (takes_uarch _ _) ?_
  exact same.fill rfl (takes_hashTree _ _) rfl

end Configurations

section Files

/-- The configuration without the fields that `adjust_backing_stores` sets. -/
def withoutStores (config : MachineConfig) : MachineConfig where
  processor := { config.processor with backingStore := {} }
  ram := { config.ram with backingStore := {} }
  dtb := { config.dtb with backingStore := {} }
  flashDrive := config.flashDrive.map fun range => { range with backingStore := {} }
  nvram := config.nvram.map fun range => { range with backingStore := {} }
  virtio := config.virtio
  cmio := {}
  pmas := {}
  uarch := { processor := { config.uarch.processor with backingStore := {} } }
  hashTree := {
    phtcSize := config.hashTree.phtcSize
    hashFunction := config.hashTree.hashFunction }

theorem withoutStores_adjust (config : MachineConfig) (dir : String) (sharing : SharingMode) :
    withoutStores (config.adjustBackingStores dir sharing) = withoutStores config := by
  simp [withoutStores, MachineConfig.adjustBackingStores, MachineConfig.adjustRange,
    HashTreeConfig.adjustHt, List.map_map, Function.comp_def]

/-- The files that a directory gets hold the data that they were created with, and a text gives back
what the document with a configuration holds. -/
structure ConfigHost.Keeps {Files : Type} (host : ConfigHost Files) (document : Value) : Prop where
  created : ∀ files name data next, host.createFile files name data = .ok next →
    host.readFile next name = .ok data
  parsed : ∃ back, host.parse (host.dump document) = .ok back ∧ document.Same back

theorem loadConfig_store {Files : Type} {host : ConfigHost Files} {config : MachineConfig}
    {dir name : String} {storing loading : SharingMode} {files next : Files}
    (keeps : host.Keeps (configDocument config storing))
    (stored : storeConfig host config dir storing files = .ok (name, next)) :
    loadConfig host dir loading next =
      .ok ((config.adjustBackingStores "." storing).adjustBackingStores dir loading) := by
  rw [storeConfig] at stored
  split at stored
  · cases stored
  · next named =>
      obtain ⟨created, ran, stored⟩ := bind_ok.mp stored
      cases stored
      obtain ⟨back, parsed, same⟩ := keeps.parsed
      rw [loadConfig, if_neg named, keeps.created _ _ _ _ ran]
      show asRuntimeError (host.parse _ >>= _) = _
      rw [parsed]
      cases same with
      | @object _ back each =>
          have fields : SameFields _ back := each
          obtain ⟨version, there, holds⟩ := fields.lookup
            (show List.lookup "archive_version" _ = some (.unsigned archiveVersion) from rfl)
          cases holds
          have checked : checkArchiveVersion (.object back) = .ok () := by
            simp [checkArchiveVersion, there]
          show asRuntimeError (checkArchiveVersion _ >>= _) = _
          rw [checked]
          show asRuntimeError (getField _ _ _ _ >>= _) = _
          rw [fields.get rfl (takes_machineConfig _ _) rfl]
          rfl

/-- The text of a JSON value without characters to escape. -/
def dumpText : Value → String
  | .null => "null"
  | .boolean value => toString value
  | .unsigned value => toString value.toNat
  | .integer value => toString value.toInt
  | .float value => toString value
  | .string text => "\"" ++ text ++ "\""
  | .array items => "[" ++ ",".intercalate (items.map fun item => dumpText item) ++ "]"
  | .object fields =>
      let texts := fields.map fun entry => (entry.1, "\"" ++ entry.1 ++ "\":" ++ dumpText entry.2)
      "\x7b" ++ ",".intercalate ((texts.insertionSort (·.1 ≤ ·.1)).map Prod.snd) ++ "\x7d"
termination_by json => sizeOf json
decreasing_by
  · exact sizeOf_item ‹item ∈ items›
  · exact sizeOf_entry ‹entry ∈ fields›

/-- Files by their names, and a parser that knows the text of one document. -/
def documentHost (document : Value) : ConfigHost (String → Option String) where
  dump := dumpText
  parse text := if text = dumpText document then .ok document else .error (.runtimeError "parse error")
  createFile files name data :=
    if (files name).isSome then .error (.runtimeError "unable to create file")
    else .ok (Function.update files name (some data))
  readFile files name :=
    match files name with
    | some data => .ok data
    | none => .error (.runtimeError "unable to read file")

theorem documentHost_keeps (document : Value) : (documentHost document).Keeps document where
  created files name data next created := by
    simp only [documentHost] at created
    split at created
    · cases created
    · cases created
      simp [documentHost]
  parsed := ⟨document, if_pos rfl, Value.Same.refl document⟩

end Files

end MachineEmulator.Json
