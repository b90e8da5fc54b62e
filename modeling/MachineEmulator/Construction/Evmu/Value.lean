/-
This file gives the Lua values that calldata is made from, and the bytes they stand for.
-/

import MachineEmulator.Construction.Failure
import MachineEmulator.Construction.Memory

namespace MachineEmulator.Evmu

/-- This is `bint`, an integer of 512 bits. -/
abbrev Bint := BitVec 512

/-- The keys of a Lua table. The coder never looks behind a key of another type. -/
inductive Key where
  | index (position : Int)
  | name (text : List Byte)
  | other
deriving DecidableEq

/-- A Lua value. A float is held by the integer it is equal to, if there is one, and the wrappers
`raw` and `hex` by the string they wrap. -/
inductive Value where
  | integer (value : BitVec 64)
  | float (floor : Option (BitVec 64))
  | bint (value : Bint)
  | boolean (value : Bool)
  | text (data : List Byte)
  | raw (data : List Byte)
  | hex (data : List Byte)
  | table (entries : List (Key × Value))

/-- The first entry of a key counts. -/
abbrev Table := List (Key × Value)

/-- The errors that encoding and decoding throw, and the mark of a sum that is no Lua integer, which the
source never throws. -/
inductive CodecError where
  | expectedSignature
  | hexStringExpected
  | invalidHexString
  | valueOutOfRange
  | rawStringExpected
  | notAnInteger
  | integerDoesNotFit
  | tooLargeForLuaInteger
  | invalidAddressLength
  | expectedBoolean
  | bytesHasWrongSize
  | arrayValuesNotInTable
  | invalidValueCount
  | tupleValuesNotInTable
  | repeatedComponentName
  | unexpectedComponentIndex
  | unexpectedComponentName
  | missingComponent
  | stringTooLarge
  | insufficientCalldata
  | invalidBool
  | arithmeticOnNil
  | calldataTooShort
  | selectorMismatch
  | calldataTooLong
  | sumOverflows
deriving DecidableEq, Repr

/-- A condition holds, or its error is thrown. -/
def assertThat (condition : Prop) [Decidable condition] (failure : CodecError) :
    Except CodecError Unit :=
  if condition then .ok () else .error failure

theorem assertThat_ok {condition : Prop} [Decidable condition] {failure : CodecError}
    {result : Unit} : assertThat condition failure = .ok result ↔ condition := by
  unfold assertThat
  split <;> simp_all

theorem assertThat_pos {condition : Prop} [Decidable condition] {failure : CodecError}
    (holds : condition) : assertThat condition failure = .ok () := if_pos holds

/-- A value is there, or its error is thrown. -/
def expect {A : Type} (found : Option A) (failure : CodecError) : Except CodecError A :=
  match found with
  | some value => .ok value
  | none => .error failure

theorem expect_ok {A : Type} {found : Option A} {failure : CodecError} {value : A} :
    expect found failure = .ok value ↔ found = some value := by
  unfold expect
  split <;> simp_all

section Tables

def Table.get (values : Table) (key : Key) : Option Value := values.lookup key

/-- The values from a position on, up to the first that is missing. -/
def ipairsFrom (values : Table) : Nat → Nat → List Value
  | 0, _ => []
  | count + 1, position =>
      match values.get (.index position) with
      | some value => value :: ipairsFrom values count (position + 1)
      | none => []

/-- This is `ipairs`. -/
def ipairs (values : Table) : List Value := ipairsFrom values values.length 1

/-- The keys of a list of values. -/
def sequenceFrom : Nat → List Value → Table
  | _, [] => []
  | position, value :: rest => (.index position, value) :: sequenceFrom (position + 1) rest

def sequence (items : List Value) : Table := sequenceFrom 1 items

/-- What `#` may answer on a table. -/
def IsBorder (values : Table) (border : Nat) : Prop :=
  (border = 0 ∨ (values.get (.index border)).isSome) ∧
    values.get (.index (border + 1)) = none

/-- The wrappers are tables with their string at the first position. -/
def Value.asTable : Value → Option Table
  | .table entries => some entries
  | .raw data => some [(.index 1, .text data)]
  | .hex data => some [(.index 1, .text data)]
  | _ => none

end Tables

section Hex

/-- The value of a hexadecimal digit. -/
def hexDigit (character : Byte) : Option Nat :=
  let code := character.toNat
  if 48 ≤ code ∧ code ≤ 57 then some (code - 48)
  else if 97 ≤ code ∧ code ≤ 102 then some (code - 87)
  else if 65 ≤ code ∧ code ≤ 70 then some (code - 55)
  else none

def minus : Byte := 0x2d

def plus : Byte := 0x2b

/-- This is `tonumber` in base 16 on two characters, neither of them a space. It takes a sign. -/
def tonumber : Byte × Byte → Option Int
  | (high, low) =>
      if high = minus then (hexDigit low).map fun digit : Nat => -(digit : Int)
      else if high = plus then (hexDigit low).map fun digit : Nat => (digit : Int)
      else
        match hexDigit high, hexDigit low with
        | some high, some low => some ((16 * high + low : Nat) : Int)
        | _, _ => none

/-- This is `string.char`. -/
def stringChar (code : Int) : Except CodecError Byte := do
  assertThat (0 ≤ code ∧ code < 256) .valueOutOfRange
  return BitVec.ofInt 8 code

/-- What a pair of characters is replaced by, or none where it is no number. -/
def hexPair (pair : Byte × Byte) : Except CodecError (Option Byte) :=
  match tonumber pair with
  | none => .ok none
  | some code => do return some (← stringChar code)

/-- The matches of two characters, in order. -/
def pairsOf : List Byte → List (Byte × Byte)
  | high :: low :: rest => (high, low) :: pairsOf rest
  | _ => []

/-- Every pair is replaced before the answer tells that some are no numbers. -/
def hexPairs : List (Byte × Byte) → Except CodecError (Option (List Byte))
  | [] => .ok (some [])
  | pair :: rest => do
      let byte ← hexPair pair
      let others ← hexPairs rest
      return byte.bind fun byte => others.map fun others => byte :: others

/-- The characters that `%s` matches. -/
def isSpace (character : Byte) : Bool :=
  character = 0x20 ∨ 0x09 ≤ character.toNat ∧ character.toNat ≤ 0x0d

/-- This is `fromhex`; the source returns a message with its `nil`. -/
def fromhex (text : List Byte) : Except CodecError (Option (List Byte)) :=
  if text.any isSpace then .ok none
  else if text.take 2 ≠ [0x30, 0x78] ∧ text.take 2 ≠ [0x30, 0x58] then .ok none
  else if text.length % 2 ≠ 0 then .ok none
  else hexPairs (pairsOf (text.drop 2))

/-- A hexadecimal digit in lower case. -/
def hexCharacter (digit : Nat) : Byte :=
  BitVec.ofNat 8 (if digit < 10 then digit + 48 else digit + 87)

/-- This is `tohex`. -/
def tohex (data : List Byte) : List Byte :=
  [0x30, 0x78] ++
    data.flatMap fun byte => [hexCharacter (byte.toNat / 16), hexCharacter (byte.toNat % 16)]

/-- Text stands for the bytes that it spells in hexadecimal. -/
def getRawExpectHex : Value → Except CodecError (List Byte)
  | .raw data => .ok data
  | .hex data => do expect (← fromhex data) .invalidHexString
  | .text data => do expect (← fromhex data) .invalidHexString
  | _ => .error .hexStringExpected

/-- Text stands for its own bytes. -/
def getRawExpectRaw : Value → Except CodecError (List Byte)
  | .raw data => .ok data
  | .hex data => do expect (← fromhex data) .invalidHexString
  | .text data => .ok data
  | _ => .error .rawStringExpected

end Hex

section Words

/-- This is `bint.tobe` and then the lower half, the most significant byte first. -/
def tobe (value : Bint) : List Byte :=
  (List.range 32).map fun index => value.extractLsb' (8 * (31 - index)) 8

/-- This is `bint.frombe`. -/
def frombe (data : List Byte) : Bint :=
  data.foldl (fun value byte => value <<< 8 ||| byte.setWidth 512) 0

def ceil32 (count : Nat) : Nat := 32 * ((count + 31) / 32)

/-- This is `check_lua_uint`. -/
def checkLuaUint (value : Bint) : Except CodecError Nat := do
  assertThat (value >>> 63 = 0) .tooLargeForLuaInteger
  return value.toNat

end Words

end MachineEmulator.Evmu
