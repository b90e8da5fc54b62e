/-
This file gives the file of a machine configuration in a directory: how it is stored and loaded.
-/

import MachineEmulator.Construction.Json.MachineConfig

namespace MachineEmulator.Json

open Machine

/-- JSON values that hold the same in any order of the fields of their objects. Of numbers with a sign
or a point nothing is asked. -/
inductive Value.Same : Value → Value → Prop where
  | null : Same .null .null
  | boolean (value : Bool) : Same (.boolean value) (.boolean value)
  | unsigned (value : Word) : Same (.unsigned value) (.unsigned value)
  | integer (value : Word) (back : Value) : Same (.integer value) back
  | float (value : ℚ) (back : Value) : Same (.float value) back
  | string (text : String) : Same (.string text) (.string text)
  | array {items back : List Value} (each : List.Forall₂ Same items back) :
      Same (.array items) (.array back)
  | object {fields back : List (String × Value)}
      (each : ∀ name, Option.Rel Same (fields.lookup name) (back.lookup name)) :
      Same (.object fields) (.object back)

/-- What the configuration file rests on: the texts of JSON values, and the files of the host. -/
structure ConfigHost (Files : Type) where
  dump : Value → String
  parse : String → Except Rejection Value
  createFile : Files → String → String → Except Rejection Files
  readFile : Files → String → Except Rejection String

def archiveVersion : Word := 7

/-- This is `what`. -/
def Rejection.what : Rejection → String
  | .invalidArgument message | .domainError message | .outOfRange message | .runtimeError message =>
      message
  | .undefinedBehavior => ""

/-- Exceptions become runtime errors with the same text. -/
def asRuntimeError {α : Type} : Except Rejection α → Except Rejection α
  | .ok value => .ok value
  | .error .undefinedBehavior => .error .undefinedBehavior
  | .error rejection => .error (.runtimeError rejection.what)

/-- The check of the version of an archive. -/
def checkArchiveVersion (json : Value) : Except Rejection Unit :=
  let given := match json with
    | .object fields => fields.lookup "archive_version"
    | _ => none
  match given with
  | none => .error (.runtimeError "missing field \"archive_version\"")
  | some (.unsigned version) | some (.integer version) =>
      if version.setWidth 32 ≠ archiveVersion.setWidth 32 then
        .error (.runtimeError ("expected \"archive_version\" " ++ toString archiveVersion.toNat ++
          " (got " ++ toString (castInt version) ++ ")"))
      else .ok ()
  | some _ => .error (.runtimeError "expected integer field \"archive_version\"")

section Files

variable {Files : Type} (host : ConfigHost Files)

/-- The document that is stored: the configuration with its backing stores in the directory itself. -/
def configDocument (config : MachineConfig) (sharing : SharingMode) : Value :=
  .object [("archive_version", .unsigned archiveVersion),
    ("config", writeMachineConfig (config.adjustBackingStores "." sharing))]

/-- This is `store`. -/
def storeConfig (config : MachineConfig) (dir : String) (sharing : SharingMode) (files : Files) :
    Except Rejection (String × Files) :=
  if dir = "" then .error (.invalidArgument "directory name cannot be empty")
  else do
    let name := getConfigFilename dir
    let next ← host.createFile files name (host.dump (configDocument config sharing))
    return (name, next)

/-- This is `load`. -/
def loadConfig (dir : String) (sharing : SharingMode) (files : Files) :
    Except Rejection MachineConfig :=
  if dir = "" then .error (.invalidArgument "directory name cannot be empty")
  else do
    let data ← host.readFile files (getConfigFilename dir)
    asRuntimeError do
      let json ← host.parse data
      checkArchiveVersion json
      let config ← getField (readMachineConfig {}) json (.name "config") ""
      return config.adjustBackingStores dir sharing

end Files

end MachineEmulator.Json
