/-
This file gives the Base64 texts in which bytes travel as JSON strings.
-/

import MachineEmulator.Construction.Json.Value

namespace MachineEmulator.Json

def b64base : List Char := [
  'A', 'B', 'C', 'D', 'E', 'F', 'G', 'H', 'I', 'J', 'K', 'L', 'M', 'N', 'O', 'P', 'Q', 'R', 'S',
  'T', 'U', 'V', 'W', 'X', 'Y', 'Z', 'a', 'b', 'c', 'd', 'e', 'f', 'g', 'h', 'i', 'j', 'k', 'l',
  'm', 'n', 'o', 'p', 'q', 'r', 's', 't', 'u', 'v', 'w', 'x', 'y', 'z', '0', '1', '2', '3', '4',
  '5', '6', '7', '8', '9', '+', '/']

/-- The character of a six-bit value. -/
def b64char (value : Nat) : Char := b64base.getD value '='

/-- The table of the values, by ranges of character codes; padding counts as zero. -/
def b64unbase (character : Char) : Nat :=
  let code := character.toNat
  if 65 ≤ code ∧ code ≤ 90 then code - 65
  else if 97 ≤ code ∧ code ≤ 122 then code - 71
  else if 48 ≤ code ∧ code ≤ 57 then code + 4
  else if code = 43 then 62
  else if code = 47 then 63
  else if code = 61 then 0
  else 255

/-- This is `b64encode`: the bytes that wait for a third one, and the text of a full group. -/
def b64encode (byte : Byte) (input : List Byte) : List Byte × List Char :=
  match input ++ [byte] with
  | [first, second, third] =>
      let value := (((first.toNat <<< 8) + second.toNat) <<< 8) + third.toNat
      ([], [b64char (value >>> 18), b64char ((value >>> 12) &&& 0x3f),
        b64char ((value >>> 6) &&& 0x3f), b64char (value &&& 0x3f)])
  | input => (input, [])

/-- This is `b64pad`. -/
def b64pad : List Byte → List Char
  | [first] =>
      let value := first.toNat <<< 4
      [b64char (value >>> 6), b64char (value &&& 0x3f), '=', '=']
  | [first, second] =>
      let value := ((first.toNat <<< 8) ||| second.toNat) <<< 2
      [b64char (value >>> 12), b64char ((value >>> 6) &&& 0x3f), b64char (value &&& 0x3f), '=']
  | _ => []

def encodeFrom : List Byte → List Byte → List Char
  | input, [] => b64pad input
  | input, byte :: rest =>
      let (input, text) := b64encode byte input
      text ++ encodeFrom input rest

/-- This is `encode_base64`. -/
def encodeBase64 (data : List Byte) : String := String.ofList (encodeFrom [] data)

/-- The bytes of a full group of four characters. -/
def decodeGroup (first second third fourth : Char) : List Byte :=
  let value := (((((b64unbase first <<< 6) ||| b64unbase second) <<< 6) ||| b64unbase third) <<< 6)
    ||| b64unbase fourth
  let decoded := [BitVec.ofNat 8 (value >>> 16), BitVec.ofNat 8 ((value >>> 8) &&& 0xff),
    BitVec.ofNat 8 (value &&& 0xff)]
  if third = '=' then decoded.take 1
  else if fourth = '=' then decoded.take 2
  else decoded

/-- The characters that wait for a fourth one, and the bytes of a full group. -/
def groupOf : List Char → List Char × List Byte
  | [first, second, third, fourth] => ([], decodeGroup first second third fourth)
  | input => (input, [])

/-- This is `b64decode`, which skips white space. -/
def b64decode (character : Char) (input : List Char) : Except Rejection (List Char × List Byte) :=
  if 64 < b64unbase character then
    if character ∈ [' ', '\t', '\n', '\x0b', '\x0c', '\r'] then .ok (input, [])
    else .error (.domainError ("invalid base64 character code " ++ toString character.toNat))
  else .ok (groupOf (input ++ [character]))

/-- The characters of a group that is not complete are dropped. -/
def decodeFrom : List Char → List Char → Except Rejection (List Byte)
  | _, [] => .ok []
  | input, character :: rest => do
      let (input, bytes) ← b64decode character input
      return bytes ++ (← decodeFrom input rest)

/-- This is `decode_base64`. -/
def decodeBase64 (text : String) : Except Rejection (List Byte) := decodeFrom [] text.toList

end MachineEmulator.Json
