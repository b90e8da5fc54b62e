/-
This file gives the decoding of calldata into the arguments of a function.
-/

import MachineEmulator.Construction.Evmu.Encode

namespace MachineEmulator.Evmu

/-- The form in which strings, addresses and bytes are answered. -/
inductive Prefer where
  | default
  | hex
  | raw
deriving DecidableEq

/-- Addresses and bytes are answered in hexadecimal unless raw data is preferred. -/
def Prefer.ofBytes (prefer : Prefer) (data : List Byte) : Value :=
  .text (if prefer = .raw then data else tohex data)

/-- Strings are answered as they are unless hexadecimal is preferred. -/
def Prefer.ofString (prefer : Prefer) (data : List Byte) : Value :=
  .text (if prefer = .hex then tohex data else data)

/-- What an arithmetic of offsets makes of a sum. -/
abbrev Arithmetic := Int → Except CodecError Int

/-- A sum of Lua integers wraps around. -/
def luaInteger : Arithmetic := fun sum => .ok (BitVec.ofInt 64 sum).toInt

/-- This is `string.sub`, where a negative position counts from the end. -/
def stringSub (data : List Byte) (first last : Int) : List Byte :=
  let length : Int := data.length
  let start :=
    if 0 < first then first
    else if first = 0 ∨ first < -length then 1
    else length + first + 1
  let stop :=
    if length < last then length
    else if 0 ≤ last then last
    else if last < -length then 0
    else length + last + 1
  (data.drop (start - 1).toNat).take (stop - start + 1).toNat

/-- A decoded value comes with the offset of what follows it, which can be `nil`. -/
abbrev Decoded := Except CodecError (Value × Option Int)

section Words

variable (sum : Arithmetic)

/-- This is `ceil32`. -/
def ceil32Of (count : Int) : Except CodecError Int := do
  return 32 * ((← sum (count + 31)) / 32)

/-- This is `read_word`. -/
def readWord (calldata : List Byte) (offset : Int) : Except CodecError Bint := do
  let last ← sum (offset + 32)
  assertThat (last ≤ calldata.length) .insufficientCalldata
  return frombe (stringSub calldata (← sum (offset + 1)) last)

/-- The word of `decode_uint`. -/
def readUint (calldata : List Byte) (offset : Int) (size : Nat) : Except CodecError Bint := do
  let value ← readWord sum calldata offset
  assertThat (value >>> size = 0) .integerDoesNotFit
  return value

/-- A word that is a length or an offset. -/
def readCount (calldata : List Byte) (offset : Int) : Except CodecError Nat := do
  checkLuaUint (← readUint sum calldata offset 256)

/-- This is `decode_uint`. -/
def decodeUint (calldata : List Byte) (offset : Int) (size : Nat) : Decoded := do
  let value ← readUint sum calldata offset size
  return (.bint value, some (← sum (offset + 32)))

/-- The sign of a word is that of its highest bit. -/
def signExtended (value : Bint) : Bint :=
  if value >>> 255 = 1 then value ||| (-1 : Bint) <<< 256 else value

/-- This is `decode_int`. -/
def decodeInt (calldata : List Byte) (offset : Int) (size : Nat) : Decoded := do
  let value := signExtended (← readWord sum calldata offset)
  assertThat ((intmin size).sle value ∧ value.slt (intmax size)) .integerDoesNotFit
  return (.bint value, some (← sum (offset + 32)))

/-- This is `decode_address`. -/
def decodeAddress (prefer : Prefer) (calldata : List Byte) (offset : Int) : Decoded := do
  let word ← readWord sum calldata offset
  return (prefer.ofBytes ((tobe word).drop 12), some (← sum (offset + 32)))

/-- The value of a word that stands for a truth value. -/
def boolOf (value : Bint) : Except CodecError Bool :=
  if value = 0 then .ok false else if value = 1 then .ok true else .error .invalidBool

/-- This is `decode_bool`. -/
def decodeBool (calldata : List Byte) (offset : Int) : Decoded := do
  let value ← boolOf (← readWord sum calldata offset)
  return (.boolean value, some (← sum (offset + 32)))

/-- The bytes after their length, and the offset of what follows their padding. -/
def readData (calldata : List Byte) (offset : Int) : Except CodecError (List Byte × Int) := do
  let length ← readCount sum calldata offset
  let start ← sum (offset + 32)
  let next ← sum (start + (← ceil32Of sum length))
  assertThat (next ≤ calldata.length) .insufficientCalldata
  return (stringSub calldata (← sum (start + 1)) (← sum (start + length)), next)

/-- This is `decode_string`. -/
def decodeString (prefer : Prefer) (calldata : List Byte) (offset : Int) : Decoded := do
  let (data, next) ← readData sum calldata offset
  return (prefer.ofString data, some next)

/-- This is `decode_bytes_sized`. -/
def decodeBytesSized (prefer : Prefer) (calldata : List Byte) (offset : Int) (size : Nat) :
    Decoded := do
  let next ← sum (offset + (← ceil32Of sum size))
  assertThat (next ≤ calldata.length) .insufficientCalldata
  return (prefer.ofBytes (stringSub calldata (← sum (offset + 1)) (← sum (offset + size))),
    some next)

/-- This is `decode_bytes`. -/
def decodeBytes (prefer : Prefer) (calldata : List Byte) (offset : Int) :
    Option Nat → Decoded
  | none => do
      let (data, next) ← readData sum calldata offset
      return (prefer.ofBytes data, some next)
  | some size => decodeBytesSized sum prefer calldata offset size

end Words

section Values

variable (sum : Arithmetic)

/-- Static elements stand one after another. -/
def decodeInPlace (decode : Int → Decoded) :
    Nat → Option Int → Except CodecError (List Value × Option Int)
  | 0, offset => .ok ([], offset)
  | count + 1, offset => do
      let (item, next) ← decode (← expect offset .arithmeticOnNil)
      let (items, last) ← decodeInPlace decode count next
      return (item :: items, last)

/-- Dynamic elements from an index on are found by their offsets, and `last` is what the element
before answered. -/
def decodeByOffset (decode : Int → Decoded) (calldata : List Byte) (start : Int) :
    Nat → Nat → Option Int → Except CodecError (List Value × Option Int)
  | 0, _, last => .ok ([], last)
  | count + 1, index, _ => do
      let offset ← readCount sum calldata (← sum (start + (← sum (index * 32))))
      let (item, last) ← decode (← sum (start + offset))
      let (items, last) ← decodeByOffset decode calldata start count (index + 1) last
      return (item :: items, last)

/-- The number of elements, and the offset of the first of them. -/
def arraySize (calldata : List Byte) (offset : Int) :
    Option Nat → Except CodecError (Nat × Int)
  | none => do
      let count ← readCount sum calldata offset
      return (count, ← sum (offset + 32))
  | some size => .ok (size, offset)

/-- The keys of a component in the table that is answered. -/
def assigned (name : Option (List Byte)) (position : Nat) (value : Value) : Table :=
  (name.toList.map fun name => (.name name, value)) ++ [(.index position, value)]

mutual

/-- This is `decode_value`. The sum of the sizes of a tuple wraps as one sum. -/
def decodeValue (prefer : Prefer) (calldata : List Byte) : TypeSpec → Int → Decoded
  | .uint size, offset => decodeUint sum calldata offset size
  | .int size, offset => decodeInt sum calldata offset size
  | .address, offset => decodeAddress sum prefer calldata offset
  | .bool, offset => decodeBool sum calldata offset
  | .string, offset => decodeString sum prefer calldata offset
  | .bytes size, offset => decodeBytes sum prefer calldata offset size
  | .array elementType size, offset => do
      let (count, start) ← arraySize sum calldata offset size
      let decode := decodeValue prefer calldata elementType
      let (items, last) ←
        if elementType.isDynamic then decodeByOffset sum decode calldata start count 0 none
        else decodeInPlace decode count (some start)
      return (.table (sequence items), last)
  | .tuple components, offset => do
      let last ← sum (offset + components.staticSize)
      let (result, last) ← decodeComponents prefer calldata components offset (some offset)
        (some last) 1
      return (.table result, last)

/-- The components from a position on. What is assigned later stands first in the table. -/
def decodeComponents (prefer : Prefer) (calldata : List Byte) :
    Components → Int → Option Int → Option Int → Nat →
      Except CodecError (Table × Option Int)
  | .nil, _, _, last, _ => .ok ([], last)
  | .cons name type rest, start, static, last, position => do
      let static ← expect static .arithmeticOnNil
      if type.isDynamic then
        let offset ← readCount sum calldata static
        let (value, last) ← decodeValue prefer calldata type (← sum (start + offset))
        let (result, last) ← decodeComponents prefer calldata rest start
          (some (← sum (static + 32))) last (position + 1)
        return (result ++ assigned name position value, last)
      else
        let (value, static) ← decodeValue prefer calldata type static
        let (result, last) ← decodeComponents prefer calldata rest start static last (position + 1)
        return (result ++ assigned name position value, last)

end

/-- The decoding of calldata in an arithmetic of offsets. -/
def decodeCalldataIn (lua : Lua) (signature calldata : List Byte) (prefer : Prefer) :
    Except CodecError Value := do
  assertThat (4 ≤ calldata.length) .calldataTooShort
  let (parsed, selector) ← parseFuncSig lua signature
  assertThat (selector = calldata.take 4) .selectorMismatch
  assertThat (parsed.params.length ≠ 0 ∨ calldata.length = 4) .calldataTooLong
  let (value, offset) ← decodeValue sum prefer calldata (.tuple parsed.params) 4
  assertThat (offset = some (calldata.length : Int)) .calldataTooLong
  return value

end Values

/-- This is `decode_calldata`. -/
def decodeCalldata (lua : Lua) (signature calldata : List Byte) (prefer : Prefer) :
    Except CodecError Value :=
  decodeCalldataIn luaInteger lua signature calldata prefer

end MachineEmulator.Evmu
