/-
This file gives the builder of flattened device trees and the calls that emit a tree.
-/

import MachineEmulator.Construction.Failure
import MachineEmulator.Construction.Memory
import MachineEmulator.Library.DeviceTree

namespace MachineEmulator.Fdt

/-- The source throws the first two; the last is a copy outside of its memory or a count of open
nodes that overflows. -/
inductive FdtError where
  | nodeLeftOpen
  | notEnoughSpace
  | undefinedBehavior
deriving DecidableEq, Repr

def fdtMagic : BitVec 32 := 0xd00dfeed

def fdtVersion : BitVec 32 := 17

def fdtCompVersion : BitVec 32 := 16

def fdtBeginNode : BitVec 32 := 1

def fdtEndNode : BitVec 32 := 2

def fdtProp : BitVec 32 := 3

def fdtEnd : BitVec 32 := 9

/-- This is `to_be32`. -/
def toBe32 (value : BitVec 32) : BitVec 32 :=
  value.extractLsb' 0 8 ++ value.extractLsb' 8 8 ++ value.extractLsb' 16 8 ++ value.extractLsb' 24 8

/-- The host lays a word out with its least significant byte first. -/
def hostBytes (value : BitVec 32) : List Byte :=
  (List.range 4).map fun index => value.extractLsb' (8 * index) 8

/-- This is `resize`, which fills with zeros. -/
def resize (memory : List Byte) (length : Nat) : List Byte :=
  memory.take length ++ List.replicate (length - memory.length) 0

/-- This is `copy_n` into a memory. -/
def copyN (memory : List Byte) (offset : Nat) (data : List Byte) : List Byte :=
  memory.take offset ++ (data ++ memory.drop (offset + data.length))

/-- The vector of words is kept as its memory, four bytes a word. -/
structure FDTBuilder where
  openNodeCount : Int
  dtStruct : List Byte
  dtStrings : List Byte
  dtStringsMap : List (List Byte × BitVec 32)

namespace FDTBuilder

variable (fdt : FDTBuilder)

def putU32 (value : BitVec 32) : FDTBuilder :=
  { fdt with dtStruct := fdt.dtStruct ++ hostBytes (toBe32 value) }

/-- This is `put_data`; the position and the number of words are numbers of 32 bits. -/
def putData (data : List Byte) (dataLen : BitVec 32) : Except FdtError FDTBuilder :=
  if dataLen = 0 then .ok fdt
  else
    let pos := BitVec.ofNat 32 (fdt.dtStruct.length / 4)
    let numWords := (dataLen + 3) / 4
    let resized := resize fdt.dtStruct (4 * (pos + numWords).toNat)
    if dataLen.toNat ≤ data.length ∧ 4 * pos.toNat + dataLen.toNat ≤ resized.length then
      .ok { fdt with dtStruct := copyN resized (4 * pos.toNat) (data.take dataLen.toNat) }
    else .error .undefinedBehavior

def putString (s : List Byte) : Except FdtError FDTBuilder :=
  fdt.putData (s ++ [0]) (BitVec.ofNat 32 (s.length + 1))

def getStringOffset (name : List Byte) : BitVec 32 × FDTBuilder :=
  match fdt.dtStringsMap.lookup name with
  | some off => (off, fdt)
  | none =>
      let off := BitVec.ofNat 32 fdt.dtStrings.length
      (off, { fdt with
        dtStrings := fdt.dtStrings ++ (name ++ [0])
        dtStringsMap := (name, off) :: fdt.dtStringsMap })

/-- This is `begin`. Clearing the stream of the strings resets its flags and keeps its text. -/
def begin : FDTBuilder :=
  { fdt with openNodeCount := 0, dtStruct := [], dtStringsMap := [] }

/-- This is `end`. -/
def endTree : Except FdtError FDTBuilder :=
  if fdt.openNodeCount ≠ 0 then .error .nodeLeftOpen else .ok (fdt.putU32 fdtEnd)

/-- The count of open nodes has 32 bits and a sign. -/
def countNodes (change : Int) : Except FdtError FDTBuilder :=
  let count := fdt.openNodeCount + change
  if -2 ^ 31 ≤ count ∧ count < 2 ^ 31 then .ok { fdt with openNodeCount := count }
  else .error .undefinedBehavior

def beginNode (name : List Byte) : Except FdtError FDTBuilder := do
  let fdt ← (fdt.putU32 fdtBeginNode).putString name
  fdt.countNodes 1

/-- This is the text that a stream in `std::hex` makes of a number. -/
def hexText (number : BitVec 64) : List Byte :=
  (Nat.toDigits 16 number.toNat).map fun digit => BitVec.ofNat 8 digit.toNat

def numberedName (name : List Byte) (number : BitVec 64) : List Byte :=
  name ++ 0x40 :: hexText number

def beginNodeNum (name : List Byte) (number : BitVec 64) : Except FdtError FDTBuilder := do
  let fdt ← (fdt.putU32 fdtBeginNode).putString (numberedName name number)
  fdt.countNodes 1

def endNode : Except FdtError FDTBuilder := (fdt.putU32 fdtEndNode).countNodes (-1)

/-- The token, the length and the offset of the name with which every property starts. -/
def putProp (name : List Byte) (dataLen : BitVec 32) : FDTBuilder :=
  let (off, fdt) := ((fdt.putU32 fdtProp).putU32 dataLen).getStringOffset name
  fdt.putU32 off

def prop (name data : List Byte) (dataLen : BitVec 32) : Except FdtError FDTBuilder :=
  (fdt.putProp name dataLen).putData data dataLen

def propEmpty (name : List Byte) : FDTBuilder := fdt.putProp name 0

/-- The value ends with the zero of `c_str`. -/
def propString (name value : List Byte) : Except FdtError FDTBuilder :=
  fdt.prop name (value ++ [0]) (BitVec.ofNat 32 (value.length + 1))

def propStringData (name value : List Byte) : Except FdtError FDTBuilder :=
  fdt.prop name (value ++ [0]) (BitVec.ofNat 32 value.length)

def propU32List (name : List Byte) (values : List (BitVec 32)) : FDTBuilder :=
  values.foldl putU32 (fdt.putProp name (BitVec.ofNat 32 (values.length * 4)))

def propU64List (name : List Byte) (values : List (BitVec 64)) : FDTBuilder :=
  values.foldl
    (fun fdt (value : BitVec 64) =>
      (fdt.putU32 ((value >>> 32).setWidth 32)).putU32 (value.setWidth 32))
    (fdt.putProp name (BitVec.ofNat 32 (values.length * 8)))

def propU32 (name : List Byte) (value : BitVec 32) : FDTBuilder := fdt.propU32List name [value]

def propU64 (name : List Byte) (value : BitVec 64) : FDTBuilder := fdt.propU64List name [value]

/-- Offsets are aligned forward to eight bytes. -/
def align8 (off : BitVec 32) : BitVec 32 := (off + 7) &&& ~~~7

/-- The header lies in memory in the order of its fields. -/
def headerBytes (totalsize offDtStruct offDtStrings offMemRsvmap sizeDtStrings sizeDtStruct :
    BitVec 32) : List Byte :=
  [fdtMagic, totalsize, offDtStruct, offDtStrings, offMemRsvmap, fdtVersion, fdtCompVersion, 0,
    sizeDtStrings, sizeDtStruct].flatMap fun field => hostBytes (toBe32 field)

/-- A copy has to end inside the buffer. -/
def copyToBuffer (offset : BitVec 32) (data : List Byte) :
    EStateM FdtError (List Byte) Unit := do
  let buf ← get
  if offset.toNat + data.length ≤ buf.length then set (copyN buf offset.toNat data)
  else throw .undefinedBehavior

/-- The state is the memory of the buffer. -/
def finish (bufLen : BitVec 32) : EStateM FdtError (List Byte) Unit := do
  let structSize := BitVec.ofNat 32 fdt.dtStruct.length
  let stringsOff := align8 (40 + structSize)
  let stringsSize := BitVec.ofNat 32 fdt.dtStrings.length
  let reservedOff := align8 (stringsOff + stringsSize)
  let off := align8 (reservedOff + 16)
  if bufLen < off then throw .notEnoughSpace
  copyToBuffer 0 (List.replicate bufLen.toNat 0)
  copyToBuffer 0 (headerBytes off 40 stringsOff reservedOff stringsSize structSize)
  copyToBuffer reservedOff (List.replicate 16 0)
  copyToBuffer 40 (fdt.dtStruct.take structSize.toNat)
  copyToBuffer stringsOff (fdt.dtStrings.take stringsSize.toNat)

end FDTBuilder

section Calls

/-- A property is put by one of these calls. -/
inductive PropCall where
  | prop (data : List Byte)
  | propEmpty
  | propString (value : List Byte)
  | propStringData (value : List Byte)
  | propU32List (values : List (BitVec 32))
  | propU64List (values : List (BitVec 64))
  | propU32 (value : BitVec 32)
  | propU64 (value : BitVec 64)

def PropCall.run (name : List Byte) (fdt : FDTBuilder) : PropCall → Except FdtError FDTBuilder
  | .prop data => fdt.prop name data (BitVec.ofNat 32 data.length)
  | .propEmpty => .ok (fdt.propEmpty name)
  | .propString value => fdt.propString name value
  | .propStringData value => fdt.propStringData name value
  | .propU32List values => .ok (fdt.propU32List name values)
  | .propU64List values => .ok (fdt.propU64List name values)
  | .propU32 value => .ok (fdt.propU32 name value)
  | .propU64 value => .ok (fdt.propU64 name value)

/-- A node is begun by one of these calls. -/
inductive NodeCall where
  | beginNode (name : List Byte)
  | beginNodeNum (name : List Byte) (number : BitVec 64)

def NodeCall.run (fdt : FDTBuilder) : NodeCall → Except FdtError FDTBuilder
  | .beginNode name => fdt.beginNode name
  | .beginNodeNum name number => fdt.beginNodeNum name number

/-- The calls of a node put its properties and then its nodes before they end it. -/
inductive Calls where
  | node (first : NodeCall) (properties : List (List Byte × PropCall)) (children : List Calls)

mutual

def emitNode (fdt : FDTBuilder) : Calls → Except FdtError FDTBuilder
  | .node first properties children => do
      let fdt ← first.run fdt
      let fdt ← properties.foldlM (fun fdt property => property.2.run property.1 fdt) fdt
      let fdt ← emitNodes fdt children
      fdt.endNode

def emitNodes (fdt : FDTBuilder) : List Calls → Except FdtError FDTBuilder
  | [] => .ok fdt
  | calls :: rest => do
      let fdt ← emitNode fdt calls
      emitNodes fdt rest

end

def emitTree (fdt : FDTBuilder) (calls : Calls) : Except FdtError FDTBuilder := do
  let fdt ← emitNode fdt.begin calls
  fdt.endTree

end Calls

end MachineEmulator.Fdt
