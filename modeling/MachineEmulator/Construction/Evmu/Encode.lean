/-
This file gives the encoding of a function's arguments as calldata.
-/

import MachineEmulator.Construction.Evmu.TypeSpec

namespace MachineEmulator.Evmu

variable (lua : Lua)

/-- This is `bint.new`. -/
def bintNew : Value → Except CodecError Bint
  | .integer value => .ok (value.signExtend 512)
  | .float floor => do
      let value ← expect floor .notAnInteger
      return value.signExtend 512
  | .bint value => .ok value
  | .text data => expect (lua.numeral data) .notAnInteger
  | _ => .error .notAnInteger

/-- This is `encoded_uint` on a `bint`. -/
def encodedUint (value : Bint) (size : Nat) : Except CodecError (List Byte) := do
  assertThat (value >>> size = 0) .integerDoesNotFit
  return tobe value

/-- This is `encoded_uint` on a length or on an offset, which are integers of Lua. -/
def encodedCount (count : Nat) : Except CodecError (List Byte) := do
  assertThat (count < 2 ^ 63) .integerDoesNotFit
  encodedUint (BitVec.ofNat 512 count) 256

/-- This is `append_encoded_uint`. -/
def encodeUint (value : Value) (size : Nat) : Except CodecError (List Byte) := do
  encodedUint (← bintNew lua value) size

def intmax (size : Nat) : Bint := (1 : Bint) <<< (size - 1)

def intmin (size : Nat) : Bint := (-1 : Bint) <<< (size - 1)

/-- This is `append_encoded_int`. -/
def encodeInt (value : Value) (size : Nat) : Except CodecError (List Byte) := do
  let value ← bintNew lua value
  assertThat ((intmin size).sle value ∧ value.slt (intmax size)) .integerDoesNotFit
  return tobe value

/-- This is `append_encoded_address`. -/
def encodeAddress (value : Value) : Except CodecError (List Byte) := do
  let data ← getRawExpectHex value
  assertThat (data.length = 20) .invalidAddressLength
  return List.replicate 12 0 ++ data

/-- This is `check_bool`. -/
def checkBool : Value → Except CodecError Bint
  | .boolean value => .ok (if value then 1 else 0)
  | _ => .error .expectedBoolean

/-- This is `append_encoded_bool`. -/
def encodeBool (value : Value) : Except CodecError (List Byte) := do
  encodedUint (← checkBool value) 256

/-- The bytes of a string or of a list of bytes, up to a multiple of 32. -/
def padded (data : List Byte) : List Byte :=
  data ++ List.replicate (ceil32 data.length - data.length) 0

/-- This is `append_encoded_string` on bytes. -/
def encodeData (data : List Byte) : Except CodecError (List Byte) := do
  let length ← encodedCount data.length
  return length ++ padded data

/-- This is `append_encoded_string`. -/
def encodeString (value : Value) : Except CodecError (List Byte) := do
  encodeData (← getRawExpectRaw value)

/-- This is `append_encoded_bytes`. -/
def encodeBytes (value : Value) (size : Option Nat) : Except CodecError (List Byte) := do
  let data ← getRawExpectHex value
  match size with
  | none => encodeData data
  | some size => do
      assertThat (data.length = size) .bytesHasWrongSize
      return padded data

/-- An encoded part stands in place, or is found by its offset. -/
inductive Part where
  | inPlace (data : List Byte)
  | byOffset (data : List Byte)

/-- The parts in place and the offsets of the others, the first of which starts at an offset. -/
def heads : Nat → List Part → Except CodecError (List Byte)
  | _, [] => .ok []
  | offset, .inPlace data :: rest => do return data ++ (← heads offset rest)
  | offset, .byOffset data :: rest => do
      let word ← encodedCount offset
      return word ++ (← heads (offset + data.length) rest)

/-- The parts that are found by their offsets. -/
def tails : List Part → List Byte
  | [] => []
  | .inPlace _ :: rest => tails rest
  | .byOffset data :: rest => data ++ tails rest

def layOut (offset : Nat) (parts : List Part) : Except CodecError (List Byte) := do
  return (← heads offset parts) ++ tails parts

def positionFits (count : Nat) : Key → Bool
  | .index position => 1 ≤ position && position ≤ count
  | _ => true

def nameFits (names : List (List Byte)) : Key → Bool
  | .name name => names.contains name
  | _ => true

/-- This is `check_tuple_values`, which leaves missing values to the encoder here. -/
def checkTupleValues (values : Table) (components : Components) : Except CodecError Unit := do
  assertThat components.names.Nodup .repeatedComponentName
  assertThat (values.all fun entry => positionFits components.length entry.1)
    .unexpectedComponentIndex
  assertThat (values.all fun entry => nameFits components.names entry.1) .unexpectedComponentName

/-- This is `tuple_value`, where the position goes before the name. -/
def tupleValue (values : Table) (position : Nat) (name : Option (List Byte)) : Option Value :=
  (values.get (.index position)).or (name.bind fun name => values.get (.name name))

/-- The length stands before the items where the type leaves it open. -/
def encodedLength (size : Option Nat) (count : Nat) : Except CodecError (List Byte) :=
  match size with
  | none => encodedCount count
  | some size => do
      assertThat (size = count) .invalidValueCount
      return []

def partOf (type : TypeSpec) (data : List Byte) : Part :=
  if type.isDynamic then .byOffset data else .inPlace data

mutual

/-- This is `append_encoded_value`. -/
def encodeValue : TypeSpec → Value → Except CodecError (List Byte)
  | .uint size, value => encodeUint lua value size
  | .int size, value => encodeInt lua value size
  | .address, value => encodeAddress value
  | .bool, value => encodeBool value
  | .string, value => encodeString value
  | .bytes size, value => encodeBytes value size
  | .array elementType size, value => do
      let values ← expect value.asTable .arrayValuesNotInTable
      let count := lua.border values
      let length ← encodedLength size count
      let elements ← (ipairs values).mapM (encodeValue elementType)
      return length ++ (← layOut (32 * count) (elements.map (partOf elementType)))
  | .tuple components, value => do
      let values ← expect value.asTable .tupleValuesNotInTable
      checkTupleValues values components
      layOut components.staticSize (← encodeComponents components values 1)

/-- The encoded components from a position on. -/
def encodeComponents : Components → Table → Nat → Except CodecError (List Part)
  | .nil, _, _ => .ok []
  | .cons name type rest, values, position => do
      let value ← expect (tupleValue values position name) .missingComponent
      let data ← encodeValue type value
      return partOf type data :: (← encodeComponents rest values (position + 1))

end

/-- This is `encode_calldata`. A string of Lua is shorter than `2^63`. -/
def encodeCalldata (signature : List Byte) (arguments : Value) :
    Except CodecError (List Byte) := do
  let (parsed, selector) ← parseFuncSig lua signature
  let data ← encodeValue lua (.tuple parsed.params) arguments
  assertThat ((selector ++ data).length < 2 ^ 63) .stringTooLarge
  return selector ++ data

end MachineEmulator.Evmu
