/-
This file gives what it means that a value stands in calldata, and the decoding whose sums stay in
the range of Lua integers, which is the decoding of Lua up to the first sum that does not.
-/

import MachineEmulator.Construction.Evmu.Decode

namespace MachineEmulator.Evmu

section Specification

variable (calldata : List Byte)

/-- The number of the 32 bytes at an offset. -/
def wordAt (offset : Nat) : Bint := frombe ((calldata.drop offset).take 32)

/-- A word inside the calldata is a length, a number of elements or an offset. -/
def CountAt (offset count : Nat) : Prop :=
  offset + 32 ≤ calldata.length ∧ (wordAt calldata offset).toNat = count ∧ count < 2 ^ 63

/-- Exactly so many bytes stand at an offset. -/
def BytesAt (offset length : Nat) (data : List Byte) : Prop :=
  data.length = length ∧ data <+: calldata.drop offset

/-- The bytes that the word before them declares, whose padding ends inside the calldata. -/
def DataAt (offset : Nat) (data : List Byte) (next : Nat) : Prop :=
  ∃ length, CountAt calldata offset length ∧ BytesAt calldata (offset + 32) length data ∧
    next = offset + 32 + ceil32 length ∧ next ≤ calldata.length

/-- Items stand one after the other, from the first offset to the last. -/
def InPlace (Item : Nat → Value → Option Nat → Prop) :
    List Value → Option Nat → Option Nat → Prop
  | [], first, last => last = first
  | item :: items, first, last => ∃ offset next, first = some offset ∧ Item offset item next ∧
      InPlace Item items next last

/-- Items from an index on stand at the offsets that the words after the start give. -/
def ByOffset (Item : Nat → Value → Option Nat → Prop) (start : Nat) :
    List Value → Nat → Option Nat → Option Nat → Prop
  | [], _, before, last => last = before
  | item :: items, index, _, last => ∃ offset next,
      CountAt calldata (start + index * 32) offset ∧ Item (start + offset) item next ∧
        ByOffset Item start items (index + 1) next last

/-- The declared number of elements and the offset of the first. -/
def SizeAt (offset : Nat) (count start : Nat) : Option Nat → Prop
  | none => CountAt calldata offset count ∧ start = offset + 32
  | some size => count = size ∧ start = offset

mutual

/-- A value of a type stands at an offset, and what follows it at the next one. -/
def Stands (prefer : Prefer) : TypeSpec → Nat → Value → Option Nat → Prop
  | .uint size, offset, value, next =>
      offset + 32 ≤ calldata.length ∧ (wordAt calldata offset).toNat < 2 ^ size ∧
        value = .bint (wordAt calldata offset) ∧ next = some (offset + 32)
  | .int size, offset, value, next =>
      offset + 32 ≤ calldata.length ∧
        ((intmin size).sle (signExtended (wordAt calldata offset)) ∧
          (signExtended (wordAt calldata offset)).slt (intmax size)) ∧
        value = .bint (signExtended (wordAt calldata offset)) ∧ next = some (offset + 32)
  | .address, offset, value, next =>
      offset + 32 ≤ calldata.length ∧
        value = prefer.ofBytes ((tobe (wordAt calldata offset)).drop 12) ∧
        next = some (offset + 32)
  | .bool, offset, value, next =>
      offset + 32 ≤ calldata.length ∧ (∃ truth, boolOf (wordAt calldata offset) = .ok truth ∧
        value = .boolean truth) ∧ next = some (offset + 32)
  | .string, offset, value, next => ∃ data last, DataAt calldata offset data last ∧
      value = prefer.ofString data ∧ next = some last
  | .bytes none, offset, value, next => ∃ data last, DataAt calldata offset data last ∧
      value = prefer.ofBytes data ∧ next = some last
  | .bytes (some size), offset, value, next =>
      offset + ceil32 size ≤ calldata.length ∧ (∃ data, BytesAt calldata offset size data ∧
        value = prefer.ofBytes data) ∧ next = some (offset + ceil32 size)
  | .array elementType size, offset, value, next => ∃ start items,
      SizeAt calldata offset items.length start size ∧ value = .table (sequence items) ∧
        if elementType.isDynamic then
          ByOffset calldata (Stands prefer elementType) start items 0 none next
        else InPlace (Stands prefer elementType) items (some start) next
  | .tuple components, offset, value, next => ∃ result, value = .table result ∧
      ComponentsStand prefer components offset (some offset)
        (some (offset + components.staticSize)) 1 result next

/-- The components from a position on stand at their places or at the offsets given there. -/
def ComponentsStand (prefer : Prefer) :
    Components → Nat → Option Nat → Option Nat → Nat → Table → Option Nat → Prop
  | .nil, _, _, before, _, result, last => result = [] ∧ last = before
  | .cons name type rest, start, static, before, position, result, last =>
      ∃ place value others, static = some place ∧ result = others ++ assigned name position value ∧
        if type.isDynamic then ∃ offset next, CountAt calldata place offset ∧
          Stands prefer type (start + offset) value next ∧
          ComponentsStand prefer rest start (some (place + 32)) next (position + 1) others last
        else ∃ next, Stands prefer type place value next ∧
          ComponentsStand prefer rest start next before (position + 1) others last

end

end Specification

section Arithmetic

/-- A sum that is no Lua integer is marked. -/
def boundedInteger : Arithmetic := fun sum =>
  if -2 ^ 63 ≤ sum ∧ sum < 2 ^ 63 then .ok sum else .error .sumOverflows

/-- A decoding is marked, or agrees with another. -/
def Agree {A : Type} (bounded other : Except CodecError A) : Prop :=
  bounded = .error .sumOverflows ∨ bounded = other

theorem Agree.same {A : Type} (step : Except CodecError A) : Agree step step := Or.inr rfl

theorem Agree.bind {A B : Type} {bounded other : Except CodecError A}
    {next rest : A → Except CodecError B} (first : Agree bounded other)
    (each : ∀ answer, Agree (next answer) (rest answer)) :
    Agree (bounded >>= next) (other >>= rest) := by
  obtain marked | rfl := first
  · left
    rw [marked]
    rfl
  · cases bounded with
    | error failure => exact Or.inr rfl
    | ok answer => exact each answer

/-- The rest of a decoding agrees after a step without sums. -/
theorem Agree.after {A B : Type} {step : Except CodecError A} {next rest : A → Except CodecError B}
    (each : ∀ answer, Agree (next answer) (rest answer)) :
    Agree (step >>= next) (step >>= rest) :=
  Agree.bind (Agree.same step) each

theorem agree_sum (sum : Int) : Agree (boundedInteger sum) (luaInteger sum) := by
  rw [boundedInteger]
  split
  · rename_i range
    right
    rw [luaInteger, BitVec.toInt_ofInt_eq_self (by decide) range.1 range.2]
  · exact Or.inl rfl

theorem agree_ceil32 (count : Int) :
    Agree (ceil32Of boundedInteger count) (ceil32Of luaInteger count) :=
  (agree_sum _).bind fun _ => .same _

theorem agree_readWord (calldata : List Byte) (offset : Int) :
    Agree (readWord boundedInteger calldata offset) (readWord luaInteger calldata offset) :=
  (agree_sum _).bind fun _ => .after fun _ => (agree_sum _).bind fun _ => .same _

theorem agree_readUint (calldata : List Byte) (offset : Int) (size : Nat) :
    Agree (readUint boundedInteger calldata offset size)
      (readUint luaInteger calldata offset size) :=
  (agree_readWord calldata offset).bind fun _ => .same _

theorem agree_readCount (calldata : List Byte) (offset : Int) :
    Agree (readCount boundedInteger calldata offset) (readCount luaInteger calldata offset) :=
  (agree_readUint calldata offset 256).bind fun _ => .same _

theorem agree_readData (calldata : List Byte) (offset : Int) :
    Agree (readData boundedInteger calldata offset) (readData luaInteger calldata offset) :=
  (agree_readCount calldata offset).bind fun length => (agree_sum _).bind fun _ =>
    (agree_ceil32 length).bind fun _ => (agree_sum _).bind fun _ => .after fun _ =>
    (agree_sum _).bind fun _ => (agree_sum _).bind fun _ => .same _

theorem agree_decodeBytes (prefer : Prefer) (calldata : List Byte) (offset : Int)
    (size : Option Nat) :
    Agree (decodeBytes boundedInteger prefer calldata offset size)
      (decodeBytes luaInteger prefer calldata offset size) := by
  cases size with
  | none => exact (agree_readData calldata offset).bind fun _ => .same _
  | some size =>
      exact (agree_ceil32 size).bind fun _ => (agree_sum _).bind fun _ => .after fun _ =>
        (agree_sum _).bind fun _ => (agree_sum _).bind fun _ => .same _

theorem agree_arraySize (calldata : List Byte) (offset : Int) (size : Option Nat) :
    Agree (arraySize boundedInteger calldata offset size)
      (arraySize luaInteger calldata offset size) := by
  cases size with
  | none => exact (agree_readCount calldata offset).bind fun _ => (agree_sum _).bind fun _ => .same _
  | some size => exact .same _

theorem agree_decodeInPlace {decode other : Int → Decoded}
    (each : ∀ offset, Agree (decode offset) (other offset)) (count : Nat) (offset : Option Int) :
    Agree (decodeInPlace decode count offset) (decodeInPlace other count offset) := by
  induction count generalizing offset with
  | zero => exact .same _
  | succ count ih =>
      exact .after fun place => (each place).bind fun item => (ih item.2).bind fun _ => .same _

theorem agree_decodeByOffset {decode other : Int → Decoded}
    (each : ∀ offset, Agree (decode offset) (other offset)) (calldata : List Byte) (start : Int)
    (count index : Nat) (last : Option Int) :
    Agree (decodeByOffset boundedInteger decode calldata start count index last)
      (decodeByOffset luaInteger other calldata start count index last) := by
  induction count generalizing index last with
  | zero => exact .same _
  | succ count ih =>
      exact (agree_sum _).bind fun _ => (agree_sum _).bind fun position =>
        (agree_readCount calldata position).bind fun _ => (agree_sum _).bind fun place =>
        (each place).bind fun item => (ih (index + 1) item.2).bind fun _ => .same _

mutual

/-- Up to the first sum that is marked, the decoding is that of Lua. -/
theorem agree_decodeValue (prefer : Prefer) (calldata : List Byte) :
    ∀ (type : TypeSpec) (offset : Int), Agree (decodeValue boundedInteger prefer calldata type offset)
      (decodeValue luaInteger prefer calldata type offset)
  | .uint size, offset => by
      rw [decodeValue, decodeValue]
      exact (agree_readUint calldata offset size).bind fun _ => (agree_sum _).bind fun _ => .same _
  | .int size, offset => by
      rw [decodeValue, decodeValue]
      exact (agree_readWord calldata offset).bind fun _ => .after fun _ =>
        (agree_sum _).bind fun _ => .same _
  | .address, offset => by
      rw [decodeValue, decodeValue]
      exact (agree_readWord calldata offset).bind fun _ => (agree_sum _).bind fun _ => .same _
  | .bool, offset => by
      rw [decodeValue, decodeValue]
      exact (agree_readWord calldata offset).bind fun _ => .after fun _ =>
        (agree_sum _).bind fun _ => .same _
  | .string, offset => by
      rw [decodeValue, decodeValue]
      exact (agree_readData calldata offset).bind fun _ => .same _
  | .bytes size, offset => by
      rw [decodeValue, decodeValue]
      exact agree_decodeBytes prefer calldata offset size
  | .array elementType size, offset => by
      rw [decodeValue, decodeValue]
      refine (agree_arraySize calldata offset size).bind fun ⟨count, start⟩ => ?_
      have each := agree_decodeValue prefer calldata elementType
      dsimp only
      split
      · exact (agree_decodeByOffset each calldata start count 0 none).bind fun _ => .same _
      · exact (agree_decodeInPlace each count (some start)).bind fun _ => .same _
  | .tuple components, offset => by
      rw [decodeValue, decodeValue]
      exact (agree_sum _).bind fun last =>
        (agree_decodeComponents prefer calldata components offset (some offset) (some last) 1).bind
          fun _ => .same _

theorem agree_decodeComponents (prefer : Prefer) (calldata : List Byte) :
    ∀ (components : Components) (start : Int) (static last : Option Int) (position : Nat),
      Agree (decodeComponents boundedInteger prefer calldata components start static last position)
        (decodeComponents luaInteger prefer calldata components start static last position)
  | .nil, _, _, _, _ => by
      rw [decodeComponents, decodeComponents]
      exact .same _
  | .cons name type rest, start, static, last, position => by
      rw [decodeComponents, decodeComponents]
      refine Agree.after fun place => ?_
      split
      · exact (agree_readCount calldata place).bind fun _ => (agree_sum _).bind fun offset =>
          (agree_decodeValue prefer calldata type offset).bind fun value =>
          (agree_sum _).bind fun next =>
          (agree_decodeComponents prefer calldata rest start (some next) value.2 (position + 1)).bind
            fun _ => .same _
      · exact (agree_decodeValue prefer calldata type place).bind fun value =>
          (agree_decodeComponents prefer calldata rest start value.2 last (position + 1)).bind
            fun _ => .same _

end

theorem agree_decodeCalldata (lua : Lua) (signature calldata : List Byte) (prefer : Prefer) :
    Agree (decodeCalldataIn boundedInteger lua signature calldata prefer)
      (decodeCalldata lua signature calldata prefer) :=
  .after fun _ => .after fun parsed => .after fun _ => .after fun _ =>
    (agree_decodeValue prefer calldata (.tuple parsed.1.params) 4).bind fun _ => .same _

end Arithmetic

end MachineEmulator.Evmu
