/-
This file shows that the readers of single values and of vectors give back what was written.
-/

import MachineEmulator.Construction.Json.JsonUtil
import MachineEmulator.Proof.Json.Base64

namespace MachineEmulator.Json

open Collect (BackMerkleTree)
open StepLog (HashFunctionType)

/-- A reader takes a JSON value for a value at every place. -/
def Reads {α : Type} (read : Reader α) (json : Value) (value : α) : Prop :=
  ∀ path name, read json path name = .ok value

section Fields

variable {α : Type} {read : Reader α} {json : Value} {value : α} {key : Key} {path : String}

theorem getField_some {held : Value} (found : json.field key path = .ok (some held))
    (reads : Reads read held value) : getField read json key path = .ok value := by
  simp only [getField, found]
  exact reads path key.text

theorem getOptField_some {held : Value} (found : json.field key path = .ok (some held))
    (reads : Reads read held value) : getOptField read json key path = .ok (some value) := by
  simp only [getOptField, found]
  change (do let inner ← read held path key.text; pure (some inner)) = _
  rw [reads path key.text]
  rfl

theorem getOptField_none (missing : json.field key path = .ok none) :
    getOptField read json key path = .ok none := by
  simp only [getOptField, missing]
  rfl

@[simp] theorem field_object (fields : List (String × Value)) (name path : String) :
    (Value.object fields).field (.name name) path = .ok (fields.lookup name) := rfl

@[simp] theorem field_array (items : List Value) (position : Nat) (path : String) :
    (Value.array items).field (.index position) path = .ok items[position]? := rfl

/-- The items that remain are read one after the other. -/
theorem readItems_suffix (front : List Value) :
    ∀ {back : List Value} {values : List α}, List.Forall₂ (Reads read) back values →
      readItems read (.array (front ++ back)) path (List.range' front.length back.length) =
        .ok values := by
  intro back values each
  induction each generalizing front with
  | nil => rfl
  | @cons item value back values reads _ ih =>
      have found : (Value.array (front ++ item :: back)).field (.index front.length) path =
          .ok (some item) := by
        simp
      have rest := ih (front ++ [item])
      rw [List.append_assoc, List.length_append] at rest
      rw [List.length_cons, List.range'_succ, readItems, getField_some found reads]
      simp only [List.cons_append, List.nil_append, List.length_cons, List.length_nil,
        zero_add] at rest
      rw [rest]
      rfl

theorem readItems_all {items : List Value} {values : List α}
    (each : List.Forall₂ (Reads read) items values) :
    readItems read (.array items) path (List.range items.length) = .ok values := by
  rw [List.range_eq_range']
  exact readItems_suffix [] each

theorem readVector_all {items : List Value} {values : List α}
    (each : List.Forall₂ (Reads read) items values) :
    Reads (readVector read) (.array items) values := fun _ _ => readItems_all each

/-- A vector whose items are written one by one is read back. -/
theorem readVector_map {β : Type} {write : β → Value} {convert : β → α} {source : List β}
    (each : ∀ item ∈ source, Reads read (write item) (convert item)) :
    Reads (readVector read) (.array (source.map write)) (source.map convert) := by
  apply readVector_all
  rw [List.forall₂_map_left_iff, List.forall₂_map_right_iff, List.forall₂_same]
  exact each

theorem readVector_same {write : α → Value} {source : List α}
    (each : ∀ item ∈ source, Reads read (write item) item) :
    Reads (readVector read) (.array (source.map write)) source := by
  have all : Reads (readVector read) (.array (source.map write)) (source.map id) :=
    readVector_map each
  rwa [List.map_id] at all

end Fields

section Values

theorem reads_string (text : String) : Reads readString (.string text) text := fun _ _ => rfl

theorem reads_boolean (value : Bool) : Reads readBoolean (.boolean value) value := fun _ _ => rfl

theorem reads_unsigned (value : Word) : Reads readUint64 (.unsigned value) value := fun _ _ => rfl

theorem reads_int (value : Int) : Reads readUint64 (writeInt value) (BitVec.ofInt 64 value) :=
  fun _ _ => rfl

/-- The hash of 32 bytes comes back from its text. -/
theorem reads_machineHash (hash : MachineHash) :
    Reads readMachineHash (writeMachineHash hash) hash := by
  intro path name
  have size : hash.toList.length = 32 := hash.length_toList
  rw [readMachineHash]
  change (do let bin ← decodeBase64 (encodeBase64 hash.toList); _) = _
  rw [decodeBase64_encodeBase64]
  change (if size : hash.toList.length = 32 then
    Except.ok (⟨hash.toList.toArray, by simp⟩ : MachineHash) else _) = _
  rw [dif_pos size]
  congr 1

theorem reads_accessData (data : List Byte) :
    Reads readAccessData (writeAccessData data) data :=
  fun _ _ => decodeBase64_encodeBase64 data

theorem reads_accessType (type : AccessType) :
    Reads readAccessType (.string (accessTypeToName type)) type := by
  intro path name
  cases type <;> rfl

theorem reads_bracketType (type : BracketType) :
    Reads readBracketType (.string (bracketTypeToName type)) type := by
  intro path name
  cases type <;> rfl

theorem reads_hashFunction (hashFunction : HashFunctionType) :
    Reads readHashFunction (.string (hashFunctionToName hashFunction)) hashFunction := by
  intro path name
  cases hashFunction <;> rfl

theorem reads_bracketNote (bracket : BracketNote) :
    Reads readBracketNote (writeBracketNote bracket) bracket := by
  intro path name
  have type : getField readBracketType (writeBracketNote bracket) (.name "type")
      (path ++ name ++ "/") = .ok bracket.type := getField_some rfl (reads_bracketType bracket.type)
  have position : getField readUint64 (writeBracketNote bracket) (.name "where")
      (path ++ name ++ "/") = .ok bracket.position :=
    getField_some rfl (reads_unsigned bracket.position)
  have text : getOptField readString (writeBracketNote bracket) (.name "text")
      (path ++ name ++ "/") = .ok (some bracket.text) :=
    getOptField_some rfl (reads_string bracket.text)
  simp only [readBracketNote, type, position, text]
  rfl

theorem reads_logType (logType : LogType) :
    Reads readLogType (writeLogType logType) logType := by
  intro path name
  rfl

end Values

end MachineEmulator.Json
