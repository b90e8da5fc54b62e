/-
This file gives the readers and writers of access logs, hash tree proofs and back Merkle trees.
-/

import MachineEmulator.Construction.AccessLog
import MachineEmulator.Construction.Collect.BackMerkleTree
import MachineEmulator.Construction.Json.Base64

namespace MachineEmulator.Json

open Collect (BackMerkleTree)
open StepLog (HashFunctionType)

abbrev MachineHash := Vector Byte 32

inductive BracketType where
  | opening
  | closing
deriving DecidableEq, Repr

/-- This is `bracket_note`. -/
structure BracketNote where
  type : BracketType
  position : Word
  text : String
deriving DecidableEq

/-- This is `access_log::type`. -/
structure LogType where
  hasAnnotations : Bool
  hasLargeData : Bool
deriving DecidableEq

/-- This is `access_log`. -/
structure AccessLog where
  accesses : List (Access MachineHash)
  brackets : List BracketNote
  notes : List String
  logType : LogType
  outstandingEnds : Nat

namespace AccessLog

/-- This is the constructor without accesses. -/
def empty (logType : LogType) : AccessLog := ⟨[], [], [], logType, 0⟩

def countOutstanding (outstanding : Nat) (bracket : BracketNote) : Nat :=
  match bracket.type with
  | .opening => outstanding + 1
  | .closing => outstanding - 1

/-- This is the constructor from parts. -/
def make (accesses : List (Access MachineHash)) (brackets : List BracketNote) (notes : List String)
    (logType : LogType) : AccessLog :=
  ⟨accesses, brackets, notes, logType, brackets.foldl countOutstanding 0⟩

/-- This is `push_begin_bracket` and `push_end_bracket`. -/
def pushBracket (log : AccessLog) (type : BracketType) (text : String) : AccessLog :=
  if log.logType.hasAnnotations then
    let bracket := ⟨type, BitVec.ofNat 64 log.accesses.length, text⟩
    { log with
      brackets := log.brackets ++ [bracket]
      outstandingEnds := countOutstanding log.outstandingEnds bracket }
  else log

/-- This is `push_access`. -/
def pushAccess (log : AccessLog) (access : Access MachineHash) (text : String) : AccessLog :=
  { log with
    accesses := log.accesses ++ [access]
    notes := if log.logType.hasAnnotations then log.notes ++ [text] else log.notes }

end AccessLog

section Names

def accessTypeToName : AccessType → String
  | .read => "read"
  | .write => "write"

def bracketTypeToName : BracketType → String
  | .opening => "begin"
  | .closing => "end"

def bracketTypeFromName (name : String) : Except Rejection BracketType :=
  if name = "begin" then .ok .opening
  else if name = "end" then .ok .closing
  else .error (.domainError "invalid bracket type")

def hashFunctionToName : HashFunctionType → String
  | .keccak256 => "keccak256"
  | .sha256 => "sha256"

def hashFunctionFromName (name : String) : Except Rejection HashFunctionType :=
  if name = "sha256" then .ok .sha256
  else if name = "keccak256" then .ok .keccak256
  else .error (.domainError "invalid hash function type")

end Names

section Read

/-- The complaint about the value at a place. -/
def complaint (path name message : String) : Rejection :=
  .invalidArgument ("\"" ++ path ++ name ++ "\" " ++ message)

def readString : Reader String
  | .string text, _, _ => .ok text
  | _, path, name => .error (complaint path name "not a string")

def readBoolean : Reader Bool
  | .boolean value, _, _ => .ok value
  | _, path, name => .error (complaint path name "not a Boolean")

/-- A negative integer is taken by its bits, and a number with a point if it is a whole one. The
conversion of 2^64 passes the check and is undefined. -/
def readUint64 : Reader Word
  | .unsigned value, _, _ => .ok value
  | .integer value, _, _ => .ok value
  | .float value, path, name =>
      if value < 0 ∨ value.den ≠ 1 ∨ (2 : ℚ) ^ 64 < value then
        .error (complaint path name "not an unsigned integer")
      else if value.num = 2 ^ 64 then .error .undefinedBehavior
      else .ok (BitVec.ofInt 64 value.num)
  | _, path, name => .error (complaint path name "not an unsigned integer")

def readMachineHash : Reader MachineHash := fun json path name => do
  let bin ← decodeBase64 (← readString json path name)
  if size : bin.length = 32 then return ⟨bin.toArray, by simpa using size⟩
  else .error (complaint path name "not a base64-encoded 256-bit hash")

def readAccessType : Reader AccessType := fun json path name => do
  let text ← readString json path name
  if text = "read" then return .read
  else if text = "write" then return .write
  else .error (complaint path name "not an access type")

def readAccessData : Reader (List Byte) := fun json path name => do
  decodeBase64 (← readString json path name)

def readBracketType : Reader BracketType := fun json path name => do
  bracketTypeFromName (← readString json path name)

def readHashFunction : Reader HashFunctionType := fun json path name => do
  hashFunctionFromName (← readString json path name)

/-- This is `static_cast<int>`. -/
def castInt (value : Word) : Int := (value.setWidth 32).toInt

def readAccess : Reader (Access MachineHash) := fun json path name => do
  if json.isObject = false then .error (complaint path name "not an object")
  let newPath := path ++ name ++ "/"
  let type ← getField readAccessType json (.name "type") newPath
  let log2Size ← getField readUint64 json (.name "log2_size") newPath
  let address ← getField readUint64 json (.name "address") newPath
  let readHash ← getField readMachineHash json (.name "read_hash") newPath
  let writtenHash ← getOptField readMachineHash json (.name "written_hash") newPath
  let read ← getOptField readAccessData json (.name "read") newPath
  let written ← getOptField readAccessData json (.name "written") newPath
  let siblingHashes ← getOptField (readVector readMachineHash) json (.name "sibling_hashes") newPath
  return {
    type, address, log2Size := castInt log2Size, read, readHash, written, writtenHash,
    siblingHashes }

def readBracketNote : Reader BracketNote := fun json path name => do
  if json.isObject = false then .error (complaint path name "not an object")
  let newPath := path ++ name ++ "/"
  let type ← getField readBracketType json (.name "type") newPath
  let position ← getField readUint64 json (.name "where") newPath
  let text ← getOptField readString json (.name "text") newPath
  return ⟨type, position, text.getD ""⟩

def readLogType : Reader LogType := fun json path name => do
  let newPath := path ++ name ++ "/"
  let hasAnnotations ← getField readBoolean json (.name "has_annotations") newPath
  let hasLargeData ← getField readBoolean json (.name "has_large_data") newPath
  return ⟨hasAnnotations, hasLargeData⟩

/-- The first access without siblings stops the reader. -/
def checkSiblings (path : String) : Nat → List (Access MachineHash) → Except Rejection Unit
  | _, [] => .ok ()
  | position, access :: rest =>
      if access.siblingHashes.isSome then checkSiblings path (position + 1) rest
      else .error (.invalidArgument ("\"" ++ path ++ "accesses/" ++ toString position ++
        "\" missing sibling hashes"))

/-- The first bracket that points past the accesses stops the reader. -/
def checkBrackets (path : String) (count : Nat) : Nat → List BracketNote → Except Rejection Unit
  | _, [] => .ok ()
  | position, bracket :: rest =>
      if bracket.position.toNat ≤ count then checkBrackets path count (position + 1) rest
      else .error (.invalidArgument ("\"" ++ path ++ "brackets/" ++ toString position ++
        "/where\" is out of range"))

def readAccessLog : Reader AccessLog := fun json path name => do
  let newPath := path ++ name ++ "/"
  let logType ← getField readLogType json (.name "log_type") newPath
  let accesses ← getField (readVector readAccess) json (.name "accesses") newPath
  checkSiblings newPath 0 accesses
  if logType.hasAnnotations = false then return .make accesses [] [] logType
  else do
    let notes ← getField (readVector readString) json (.name "notes") newPath
    if notes.length ≠ accesses.length then
      .error (.invalidArgument ("size of fields \"" ++ newPath ++ "accesses\" and \"" ++ newPath ++
        "notes\" do not match"))
    let brackets ← getField (readVector readBracketNote) json (.name "brackets") newPath
    checkBrackets newPath accesses.length 0 brackets
    return .make accesses brackets notes logType

/-- This is `INT_MAX`. -/
def intMax : Nat := 2 ^ 31 - 1

/-- The siblings at the positions from a list on; those past the end are missing. The paths of
their complaints leave the proof's own name out, and the size of the target is not compared with
the bound of the check that names it. -/
def readHashTreeProof : Reader (HashTreeProof MachineHash) := fun json path name => do
  let newPath := path ++ name ++ "/"
  let log2RootSize ← getField readUint64 json (.name "log2_root_size") newPath
  if intMax < log2RootSize.toNat then
    .error (.domainError ("\"" ++ newPath ++ "log2_root_size\" is out of bounds"))
  let log2TargetSize ← getField readUint64 json (.name "log2_target_size") newPath
  if intMax < log2RootSize.toNat then
    .error (.domainError ("\"" ++ newPath ++ "log2_target_size\" is out of bounds"))
  if castInt log2RootSize ≤ 0 then .error (.outOfRange "log2_root_size is not positive")
  if castInt log2TargetSize < 0 then .error (.outOfRange "log2_target_size is negative")
  if castInt log2RootSize < castInt log2TargetSize then
    .error (.outOfRange "log2_target_size is greater than log2_root_size")
  let targetAddress ← getField readUint64 json (.name "target_address") newPath
  let targetHash ← getField readMachineHash json (.name "target_hash") newPath
  let rootHash ← getField readMachineHash json (.name "root_hash") newPath
  match ← json.field (.name "sibling_hashes") newPath with
  | none => .error (.invalidArgument ("missing \"" ++ newPath ++ "sibling_hashes\""))
  | some siblings =>
      let .array _ := siblings |
        .error (.invalidArgument ("\"" ++ newPath ++ "sibling_hashes\" not an array"))
      let siblingHashes ← readItems readMachineHash siblings (path ++ "sibling_hashes/")
        (List.range (castInt log2RootSize - castInt log2TargetSize).toNat)
      return {
        log2TargetSize := (castInt log2TargetSize).toNat
        log2RootSize := (castInt log2RootSize).toNat
        targetAddress, targetHash, rootHash, siblingHashes }

/-- The hashes of a packed context go to the levels of the bits of the leaf count. -/
def unpack (leafCount : Nat) : List Nat → List MachineHash → (Nat → MachineHash) →
    Except Rejection ((Nat → MachineHash) × List MachineHash)
  | [], context, unpacked => .ok (unpacked, context)
  | level :: levels, context, unpacked =>
      if leafCount.testBit level then
        match context with
        | [] => .error (.outOfRange "leaves context is incompatible")
        | hash :: rest => unpack leafCount levels rest (Function.update unpacked level hash)
      else unpack leafCount levels context unpacked

/-- This is the constructor of `back_merkle_tree` from an existing context. -/
def makeBackTree (log2MaxLeaves : Int) (hashFunction : HashFunctionType) (leafCount : Word)
    (context : List MachineHash) : Except Rejection (BackMerkleTree MachineHash) := do
  demand (log2MaxLeaves ≠ intMax) .undefinedBehavior
  demand (0 ≤ log2MaxLeaves) (.outOfRange "log2_max_leaves is negative")
  demand (log2MaxLeaves < 64) (.outOfRange "log2_max_leaves is too large")
  demand (leafCount.toNat < 2 ^ log2MaxLeaves.toNat)
    (.outOfRange "leaf count is greater than or equal to max leaves")
  let (unpacked, rest) ← unpack leafCount.toNat (List.range (log2MaxLeaves.toNat + 1)) context
    fun _ => Vector.replicate 32 0
  demand (rest = []) (.outOfRange "leaves context is incompatible")
  return ⟨log2MaxLeaves.toNat, hashFunction, leafCount.toNat, unpacked⟩

def readBackTree : Reader (Option (BackMerkleTree MachineHash)) := fun json path name => do
  if json matches .null then return none
  let newPath := path ++ name ++ "/"
  let log2MaxLeaves ← getField readUint64 json (.name "log2_max_leaves") newPath
  let hashFunction ← getField readHashFunction json (.name "hash_function") newPath
  let leafCount ← getField readUint64 json (.name "leaf_count") newPath
  let context ← getField (readVector readMachineHash) json (.name "context") newPath
  return some (← makeBackTree (castInt log2MaxLeaves) hashFunction leafCount context)

end Read

section Write

/-- A value of type `int` becomes a signed integer. -/
def writeInt (value : Int) : Value := .integer (BitVec.ofInt 64 value)

def writeMachineHash (hash : MachineHash) : Value := .string (encodeBase64 hash.toList)

/-- The text of the hash at a position, or what the source does past the end. -/
def writeHashAt (pastEnd : Rejection) (hashes : List MachineHash) (index : Nat) :
    Except Rejection Value :=
  match hashes[index]? with
  | some hash => .ok (writeMachineHash hash)
  | none => .error pastEnd

def writeHashTreeProof (proof : HashTreeProof MachineHash) : Except Rejection Value := do
  let siblings ← (List.range (proof.log2RootSize - proof.log2TargetSize)).mapM
    (writeHashAt (.outOfRange "log2_size is out of range") proof.siblingHashes)
  return .object [("target_address", .unsigned proof.targetAddress),
    ("log2_target_size", writeInt proof.log2TargetSize),
    ("log2_root_size", writeInt proof.log2RootSize),
    ("target_hash", writeMachineHash proof.targetHash),
    ("root_hash", writeMachineHash proof.rootHash), ("sibling_hashes", .array siblings)]

/-- The length of the path to the root from an access of a size. -/
def siblingDepth (log2Size : Int) : Nat :=
  ((hashTreeLog2RootSize : Int) - max log2Size hashTreeLog2WordSize).toNat

/-- The siblings are counted by the size of the access; one that is not there is read past the end
of the list. -/
def writeSiblings (log2Size : Int) (siblings : List MachineHash) : Except Rejection Value := do
  let written ← (List.range (siblingDepth log2Size)).mapM
    (writeHashAt .undefinedBehavior siblings)
  return .array written

/-- A field that is written only if there is something to write. -/
def optField {α : Type} (name : String) (write : α → Value) : Option α → List (String × Value)
  | some value => [(name, write value)]
  | none => []

def writeAccessData (data : List Byte) : Value := .string (encodeBase64 data)

def writeAccess (access : Access MachineHash) : Except Rejection Value := do
  let siblings ← access.siblingHashes.mapM (writeSiblings access.log2Size)
  return .object ([("type", .string (accessTypeToName access.type)),
      ("address", .unsigned access.address), ("log2_size", writeInt access.log2Size),
      ("read_hash", writeMachineHash access.readHash)] ++
    optField "read" writeAccessData access.read ++
    (if access.type = .write then
      optField "written_hash" writeMachineHash access.writtenHash ++
        optField "written" writeAccessData access.written
    else []) ++
    optField "sibling_hashes" id siblings)

def writeBracketNote (bracket : BracketNote) : Value :=
  .object [("type", .string (bracketTypeToName bracket.type)),
    ("where", .unsigned bracket.position), ("text", .string bracket.text)]

def writeLogType (logType : LogType) : Value :=
  .object [("has_annotations", .boolean logType.hasAnnotations),
    ("has_large_data", .boolean logType.hasLargeData)]

def writeAccessLog (log : AccessLog) : Except Rejection Value := do
  let accesses ← log.accesses.mapM writeAccess
  return .object ([("log_type", writeLogType log.logType), ("accesses", .array accesses)] ++
    if log.logType.hasAnnotations then
      [("notes", .array (log.notes.map .string)),
        ("brackets", .array (log.brackets.map writeBracketNote))]
    else [])

/-- This is `to_json` of an optional tree. -/
def writeBackTree : Option (BackMerkleTree MachineHash) → Value
  | none => .null
  | some tree => .object [("log2_max_leaves", writeInt tree.log2MaxLeaves),
      ("hash_function", .string (hashFunctionToName tree.hashFunction)),
      ("leaf_count", .unsigned (BitVec.ofNat 64 tree.leafCount)),
      ("context", .array (tree.getContext.map writeMachineHash))]

end Write

end MachineEmulator.Json
