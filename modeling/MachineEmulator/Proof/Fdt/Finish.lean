/-
This file shows where the blocks of a finished tree lie and that the tree is read back from them.
-/

import MachineEmulator.Proof.Fdt.EmitTree

namespace MachineEmulator.Fdt

open DeviceTree

section Copies

variable {memory data : Bytes} {offset : Nat}

theorem length_copyN (inside : offset + data.length ≤ memory.length) :
    (copyN memory offset data).length = memory.length := by
  simp only [copyN, List.length_append, List.length_take, List.length_drop]
  omega

theorem copyN_append (inside : offset + data.length ≤ memory.length) (rest : Bytes) :
    copyN (memory ++ rest) offset data = copyN memory offset data ++ rest := by
  rw [copyN, copyN, List.take_append_of_le_length (by omega), List.drop_append_of_le_length inside,
    List.append_assoc, List.append_assoc]

theorem slice_copyN (inside : offset + data.length ≤ memory.length) :
    slice (copyN memory offset data) offset data.length = data := by
  have start : (memory.take offset).length = offset := by
    rw [List.length_take]
    omega
  rw [slice, copyN, List.drop_left' start, List.take_left]

theorem slice_copyN_before {place size : Nat} (inside : offset + data.length ≤ memory.length)
    (before : place + size ≤ offset) :
    slice (copyN memory offset data) place size = slice memory place size := by
  have start : (memory.take offset).length = offset := by
    rw [List.length_take]
    omega
  rw [slice, copyN, List.drop_append_of_le_length (by omega),
    List.take_append_of_le_length (by rw [List.length_drop]; omega), slice, List.drop_take,
    List.take_take, min_eq_left (by omega)]

theorem slice_copyN_after {place size : Nat} (inside : offset + data.length ≤ memory.length)
    (after : offset + data.length ≤ place) :
    slice (copyN memory offset data) place size = slice memory place size := by
  have start : (memory.take offset).length = offset := by
    rw [List.length_take]
    omega
  obtain ⟨skip, rfl⟩ := Nat.exists_eq_add_of_le after
  have split : copyN memory offset data = (memory.take offset ++ data) ++
      memory.drop (offset + data.length) := by rw [copyN, List.append_assoc]
  rw [slice, split, ← List.drop_drop, List.drop_left' (by rw [List.length_append, start]),
    List.drop_drop, slice]

end Copies

section Layout

/-- A length rounded up to a multiple of eight. -/
def alignEight (length : Nat) : Nat := (length + 7) / 8 * 8

/-- The strings lie behind the structure block. -/
def stringsStart (structLength : Nat) : Nat := alignEight (40 + structLength)

/-- The reserved regions lie behind the strings. -/
def reservedStart (structLength stringsLength : Nat) : Nat :=
  alignEight (stringsStart structLength + stringsLength)

/-- The entry of zeros is the last of a tree. -/
def totalLength (structLength stringsLength : Nat) : Nat :=
  reservedStart structLength stringsLength + 16

theorem clear_low (word : BitVec 32) : word &&& ~~~(7 : BitVec 32) = word >>> 3 <<< 3 := by
  apply BitVec.eq_of_getLsbD_eq
  intro position inside
  have seven : (7 : BitVec 32).getLsbD position = decide (position < 3) := by
    have power : (7 : BitVec 32) = BitVec.ofNat 32 (2 ^ 3 - 1) := rfl
    rw [power, BitVec.getLsbD_ofNat, Nat.testBit_two_pow_sub_one]
    simp [inside]
  rw [BitVec.getLsbD_and, BitVec.getLsbD_not, seven, BitVec.getLsbD_shiftLeft,
    BitVec.getLsbD_ushiftRight]
  by_cases low : position < 3
  · simp [low]
  · have back : 3 + (position - 3) = position := by omega
    simp [low, back, inside]

theorem align8_ofNat {length : Nat} (small : length + 7 < 2 ^ 32) :
    FDTBuilder.align8 (BitVec.ofNat 32 length) = BitVec.ofNat 32 (alignEight length) := by
  have seven : (7 : BitVec 32) = BitVec.ofNat 32 7 := rfl
  apply BitVec.eq_of_toNat_eq
  unfold FDTBuilder.align8
  rw [clear_low, seven, ← BitVec.ofNat_add, BitVec.toNat_shiftLeft, BitVec.toNat_ushiftRight,
    BitVec.toNat_ofNat, BitVec.toNat_ofNat, Nat.mod_eq_of_lt small, Nat.shiftRight_eq_div_pow,
    Nat.shiftLeft_eq, alignEight]

end Layout

namespace FDTBuilder

section Buffers

variable {memory : Bytes}

theorem copyToBuffer_run {offset : BitVec 32} {data : Bytes}
    (inside : offset.toNat + data.length ≤ memory.length) :
    (copyToBuffer offset data).run memory = .ok () (copyN memory offset.toNat data) := by
  have chosen (first second : EStateM FdtError (List Byte) Unit) :
      (if offset.toNat + data.length ≤ memory.length then first else second) = first :=
    if_pos inside
  change (if offset.toNat + data.length ≤ memory.length then _ else _ :
    EStateM FdtError (List Byte) Unit).run memory = _
  rw [chosen]
  rfl

/-- A copy to the front part of the buffer leaves the rest. -/
theorem copyToBuffer_front {offset : BitVec 32} {place : Nat} {data : Bytes}
    (placed : offset.toNat = place) (inside : place + data.length ≤ memory.length) (rest : Bytes) :
    (copyToBuffer offset data).run (memory ++ rest) = .ok () (copyN memory place data ++ rest) := by
  rw [copyToBuffer_run, placed, copyN_append inside]
  rw [placed, List.length_append]
  omega

theorem run_bind {first next : EStateM FdtError (List Byte) Unit} {after : Bytes}
    (ran : first.run memory = .ok () after) :
    (first >>= fun _ => next).run memory = next.run after := by
  change first memory = _ at ran
  change EStateM.bind first (fun _ => next) memory = _
  rw [EStateM.bind, ran]
  rfl

end Buffers

section Written

variable (fdt : FDTBuilder)

def finishedLength : Nat := totalLength fdt.dtStruct.length fdt.dtStrings.length

def finishedHeader : Bytes :=
  headerBytes (BitVec.ofNat 32 fdt.finishedLength) 40
    (BitVec.ofNat 32 (stringsStart fdt.dtStruct.length))
    (BitVec.ofNat 32 (reservedStart fdt.dtStruct.length fdt.dtStrings.length))
    (BitVec.ofNat 32 fdt.dtStrings.length) (BitVec.ofNat 32 fdt.dtStruct.length)

/-- The buffer with its zeros and the first blocks in place. -/
def withHeader (length : Nat) : Bytes := copyN (List.replicate length 0) 0 fdt.finishedHeader

def withReserved (length : Nat) : Bytes :=
  copyN (fdt.withHeader length) (reservedStart fdt.dtStruct.length fdt.dtStrings.length)
    (List.replicate 16 0)

def withStruct (length : Nat) : Bytes := copyN (fdt.withReserved length) 40 fdt.dtStruct

def finishedBlob (length : Nat) : Bytes :=
  copyN (fdt.withStruct length) (stringsStart fdt.dtStruct.length) fdt.dtStrings

variable {fdt} {bufLen : BitVec 32}

section Lengths

variable {length : Nat} (fits : fdt.finishedLength ≤ length)

include fits

theorem header_inside :
    0 + fdt.finishedHeader.length ≤ (List.replicate length (0 : Byte)).length := by
  have header : fdt.finishedHeader.length = 40 := rfl
  unfold finishedLength totalLength reservedStart stringsStart alignEight at fits
  rw [header, List.length_replicate]
  omega

theorem length_withHeader : (fdt.withHeader length).length = length := by
  rw [withHeader, length_copyN (header_inside fits), List.length_replicate]

theorem reserved_inside :
    reservedStart fdt.dtStruct.length fdt.dtStrings.length + (List.replicate 16 (0 : Byte)).length ≤
      (fdt.withHeader length).length := by
  rw [length_withHeader fits, List.length_replicate]
  exact fits

theorem length_withReserved : (fdt.withReserved length).length = length := by
  rw [withReserved, length_copyN (reserved_inside fits), length_withHeader fits]

theorem struct_inside : 40 + fdt.dtStruct.length ≤ (fdt.withReserved length).length := by
  rw [length_withReserved fits]
  unfold finishedLength totalLength reservedStart stringsStart alignEight at fits
  omega

theorem length_withStruct : (fdt.withStruct length).length = length := by
  rw [withStruct, length_copyN (struct_inside fits), length_withReserved fits]

theorem strings_inside :
    stringsStart fdt.dtStruct.length + fdt.dtStrings.length ≤ (fdt.withStruct length).length := by
  rw [length_withStruct fits]
  unfold finishedLength totalLength reservedStart stringsStart alignEight at fits
  unfold stringsStart alignEight
  omega

theorem length_finishedBlob : (fdt.finishedBlob length).length = length := by
  rw [finishedBlob, length_copyN (strings_inside fits), length_withStruct fits]

theorem slice_header : slice (fdt.finishedBlob length) 0 40 = fdt.finishedHeader := by
  have header : fdt.finishedHeader.length = 40 := rfl
  rw [finishedBlob, slice_copyN_before (strings_inside fits), withStruct,
    slice_copyN_before (struct_inside fits), withReserved,
    slice_copyN_before (reserved_inside fits), withHeader]
  · exact slice_copyN (header_inside fits)
  · unfold reservedStart stringsStart alignEight
    omega
  · omega
  · unfold stringsStart alignEight
    omega

theorem slice_reserved : slice (fdt.finishedBlob length)
    (reservedStart fdt.dtStruct.length fdt.dtStrings.length) 16 = List.replicate 16 0 := by
  rw [finishedBlob, slice_copyN_after (strings_inside fits), withStruct,
    slice_copyN_after (struct_inside fits), withReserved]
  · exact slice_copyN (reserved_inside fits)
  · unfold reservedStart stringsStart alignEight
    omega
  · unfold reservedStart alignEight
    omega

theorem slice_struct :
    slice (fdt.finishedBlob length) 40 fdt.dtStruct.length = fdt.dtStruct := by
  rw [finishedBlob, slice_copyN_before (strings_inside fits), withStruct]
  · exact slice_copyN (struct_inside fits)
  · unfold stringsStart alignEight
    omega

theorem slice_strings : slice (fdt.finishedBlob length) (stringsStart fdt.dtStruct.length)
    fdt.dtStrings.length = fdt.dtStrings := slice_copyN (strings_inside fits)

end Lengths

theorem finish_eq (small : fdt.finishedLength < 2 ^ 32) :
    fdt.finish bufLen = (do
      if bufLen < BitVec.ofNat 32 fdt.finishedLength then throw .notEnoughSpace
      copyToBuffer 0 (List.replicate bufLen.toNat 0)
      copyToBuffer 0 fdt.finishedHeader
      copyToBuffer (BitVec.ofNat 32 (reservedStart fdt.dtStruct.length fdt.dtStrings.length))
        (List.replicate 16 0)
      copyToBuffer 40 fdt.dtStruct
      copyToBuffer (BitVec.ofNat 32 (stringsStart fdt.dtStruct.length)) fdt.dtStrings) := by
  unfold finishedLength totalLength reservedStart stringsStart alignEight at small
  have forty (length : Nat) : 40 + BitVec.ofNat 32 length = BitVec.ofNat 32 (40 + length) :=
    (BitVec.ofNat_add 40 length).symm
  have sixteen (length : Nat) : BitVec.ofNat 32 length + 16 = BitVec.ofNat 32 (length + 16) :=
    (BitVec.ofNat_add length 16).symm
  have strings : align8 (40 + BitVec.ofNat 32 fdt.dtStruct.length) =
      BitVec.ofNat 32 (stringsStart fdt.dtStruct.length) := by
    rw [forty, align8_ofNat (by omega), stringsStart]
  have reserved : align8 (BitVec.ofNat 32 (stringsStart fdt.dtStruct.length) +
      BitVec.ofNat 32 fdt.dtStrings.length) =
      BitVec.ofNat 32 (reservedStart fdt.dtStruct.length fdt.dtStrings.length) := by
    rw [← BitVec.ofNat_add, align8_ofNat, reservedStart]
    unfold stringsStart alignEight
    omega
  have total : align8 (BitVec.ofNat 32
      (reservedStart fdt.dtStruct.length fdt.dtStrings.length) + 16) =
      BitVec.ofNat 32 fdt.finishedLength := by
    rw [sixteen, align8_ofNat, finishedLength, totalLength]
    · unfold reservedStart alignEight
      congr 1
      omega
    · unfold reservedStart stringsStart alignEight
      omega
  have structTaken :
      fdt.dtStruct.take (BitVec.ofNat 32 fdt.dtStruct.length).toNat = fdt.dtStruct := by
    rw [BitVec.toNat_ofNat, Nat.mod_eq_of_lt (by omega), List.take_length]
  have stringsTaken :
      fdt.dtStrings.take (BitVec.ofNat 32 fdt.dtStrings.length).toNat = fdt.dtStrings := by
    rw [BitVec.toNat_ofNat, Nat.mod_eq_of_lt (by omega), List.take_length]
  simp only [finish, strings, reserved, total, structTaken, stringsTaken, finishedHeader]

/-- The buffer is left as it is where the tree does not fit. -/
theorem finish_throws (small : fdt.finishedLength < 2 ^ 32)
    (short : bufLen.toNat < fdt.finishedLength) (buf : Bytes) :
    (fdt.finish bufLen).run buf = .error .notEnoughSpace buf := by
  have less : bufLen < BitVec.ofNat 32 fdt.finishedLength := by
    rw [BitVec.lt_def, BitVec.toNat_ofNat, Nat.mod_eq_of_lt small]
    exact short
  rw [finish_eq small, if_pos less]
  rfl

theorem finish_writes (small : fdt.finishedLength < 2 ^ 32)
    (fits : fdt.finishedLength ≤ bufLen.toNat) {buf : Bytes} (room : bufLen.toNat ≤ buf.length) :
    (fdt.finish bufLen).run buf =
      .ok () (fdt.finishedBlob bufLen.toNat ++ buf.drop bufLen.toNat) := by
  have enough : ¬ bufLen < BitVec.ofNat 32 fdt.finishedLength := by
    rw [BitVec.lt_def, BitVec.toNat_ofNat, Nat.mod_eq_of_lt small]
    omega
  have zeros : (copyToBuffer 0 (List.replicate bufLen.toNat 0)).run buf =
      .ok () (List.replicate bufLen.toNat 0 ++ buf.drop bufLen.toNat) := by
    rw [copyToBuffer_run, copyN]
    · simp
    · simpa using room
  have bounded := small
  unfold finishedLength totalLength reservedStart stringsStart alignEight at bounded
  have reservedOffset :
      (BitVec.ofNat 32 (reservedStart fdt.dtStruct.length fdt.dtStrings.length)).toNat =
        reservedStart fdt.dtStruct.length fdt.dtStrings.length := by
    unfold reservedStart stringsStart alignEight
    rw [BitVec.toNat_ofNat, Nat.mod_eq_of_lt (by omega)]
  have stringsOffset : (BitVec.ofNat 32 (stringsStart fdt.dtStruct.length)).toNat =
      stringsStart fdt.dtStruct.length := by
    unfold stringsStart alignEight
    rw [BitVec.toNat_ofNat, Nat.mod_eq_of_lt (by omega)]
  have zero : (0 : BitVec 32).toNat = 0 := rfl
  have forty : (40 : BitVec 32).toNat = 40 := rfl
  rw [finish_eq small, if_neg enough]
  change EStateM.run (copyToBuffer 0 _ >>= fun _ => _) buf = _
  rw [run_bind zeros, run_bind (copyToBuffer_front zero (header_inside fits) _), ← withHeader]
  rw [run_bind (copyToBuffer_front reservedOffset (reserved_inside fits) _), ← withReserved]
  rw [run_bind (copyToBuffer_front forty (struct_inside fits) _), ← withStruct]
  exact copyToBuffer_front stringsOffset (strings_inside fits) _

/-- The header as a reader has it. -/
def readFields (fdt : FDTBuilder) : Header where
  magic := 0xd00dfeed
  totalsize := fdt.finishedLength
  offDtStruct := 40
  offDtStrings := stringsStart fdt.dtStruct.length
  offMemRsvmap := reservedStart fdt.dtStruct.length fdt.dtStrings.length
  version := 17
  lastCompVersion := 16
  bootCpuidPhys := 0
  sizeDtStrings := fdt.dtStrings.length
  sizeDtStruct := fdt.dtStruct.length

theorem readHeader_finishedBlob (small : fdt.finishedLength < 2 ^ 32) {length : Nat}
    (fits : fdt.finishedLength ≤ length) :
    readHeader (fdt.finishedBlob length) = some fdt.readFields := by
  have bounded := small
  unfold finishedLength totalLength reservedStart stringsStart alignEight at bounded
  have split : fdt.finishedBlob length =
      fdt.finishedHeader ++ (fdt.finishedBlob length).drop 40 := by
    rw [← slice_header fits, slice, List.drop_zero, List.take_append_drop]
  have words : (fun field => hostBytes (toBe32 field)) = wordBytes := funext hostBytes_toBe32
  rw [split, finishedHeader, headerBytes, words, readHeader_words, readFields]
  have strings : stringsStart fdt.dtStruct.length < 2 ^ 32 := by
    unfold stringsStart alignEight
    omega
  have reserved : reservedStart fdt.dtStruct.length fdt.dtStrings.length < 2 ^ 32 := by
    unfold reservedStart stringsStart alignEight
    omega
  have struct : fdt.dtStruct.length < 2 ^ 32 := by omega
  have text : fdt.dtStrings.length < 2 ^ 32 := by omega
  simp only [BitVec.toNat_ofNat, Nat.mod_eq_of_lt small, Nat.mod_eq_of_lt strings,
    Nat.mod_eq_of_lt reserved, Nat.mod_eq_of_lt struct, Nat.mod_eq_of_lt text]
  rfl

theorem readFields_laidOut (words : 4 ∣ fdt.dtStruct.length) : fdt.readFields.LaidOut where
  structBehind := le_refl 40
  structAligned := Nat.dvd_mul_right 4 10
  structWords := words
  stringsBehind := by
    simp only [readFields, stringsStart, alignEight]
    omega
  reservedBehind := by
    simp only [readFields, reservedStart, alignEight]
    omega
  reservedAligned := Nat.dvd_mul_left 8 _
  inside := le_refl _

end Written

section Read

/-- The length of the blob of a tree behind the text that the stream had before. -/
def encodedLength (before : Nat) (root : Node) : Nat :=
  totalLength (root.structSize + 4) (before + stringsSize root.propertyNames.toFinset)

/-- The builder after the calls of a tree has its tokens and its names. -/
theorem emitTree_ok (fdt : FDTBuilder) {calls : Calls} (clean : ∀ name ∈ calls.tree.names, 0 ∉ name)
    (small : encodedLength fdt.dtStrings.length calls.tree < 2 ^ 32) :
    ∃ after bytes, emitTree fdt calls = .ok after ∧
      after.dtStruct = bytes ++ wordBytes 9 ∧ bytes.length = calls.tree.structSize ∧
      4 ∣ after.dtStruct.length ∧
      after.dtStrings.length =
        fdt.dtStrings.length + stringsSize calls.tree.propertyNames.toFinset ∧
      Reads after.dtStrings bytes calls.tree.tokens := by
  have bounded := small
  unfold encodedLength totalLength reservedStart stringsStart alignEight at bounded
  have sound : fdt.begin.Sound fdt.dtStrings.length := by
    refine ⟨⟨rfl, ?_⟩, dvd_zero 4, le_refl _⟩
    intro name off found
    simp [begin] at found
  have fits : fdt.begin.Fits fdt.dtStrings.length calls.tree.propertyNames
      calls.tree.structSize := by
    have keys : fdt.begin.keys = ∅ := rfl
    have struct : fdt.begin.dtStruct.length = 0 := rfl
    constructor
    · rw [keys, Finset.empty_union]
      omega
    · rw [struct]
      omega
  obtain ⟨emitted, ran, grows⟩ := emitNode_emits calls clean fdt.begin sound fits
  obtain ⟨bytes, struct, length, reads⟩ := grows.struct
  have closed : emitted.openNodeCount = 0 := grows.counted
  have ended : emitted.endTree = .ok (emitted.put (wordBytes 9)) := by
    simp [endTree, closed, putU32_eq, fdtEnd]
  refine ⟨_, bytes, bind_ok.mpr ⟨emitted, ran, ended⟩, ?_, length, ?_, ?_,
    reads _ (List.prefix_refl _)⟩
  · rw [dtStruct_put, struct]
    rfl
  · rw [dtStruct_put, List.length_append]
    exact Nat.dvd_add grows.sound.words (dvd_refl 4)
  · have named : emitted.keys = calls.tree.propertyNames.toFinset := by
      rw [grows.named]
      exact Finset.empty_union _
    rw [← named]
    exact grows.sound.kept.filled

/-- The buffer is left as it is where it is too short for the tree, and holds a blob from which
the tree is read where it is not. -/
theorem finish_readBlob (fdt : FDTBuilder) (calls : Calls) (bufLen : BitVec 32) (buf : Bytes)
    (clean : ∀ name ∈ calls.tree.names, 0 ∉ name)
    (small : encodedLength fdt.dtStrings.length calls.tree < 2 ^ 32)
    (room : bufLen.toNat ≤ buf.length) :
    ∃ after, emitTree fdt calls = .ok after ∧
      if bufLen.toNat < encodedLength fdt.dtStrings.length calls.tree then
        (after.finish bufLen).run buf = .error .notEnoughSpace buf
      else ∃ blob header, (after.finish bufLen).run buf = .ok () (blob ++ buf.drop bufLen.toNat) ∧
        blob.length = bufLen.toNat ∧ readHeader blob = some header ∧ header.LaidOut ∧
        header.totalsize = encodedLength fdt.dtStrings.length calls.tree ∧
        readBlob blob = some ([], calls.tree) := by
  obtain ⟨after, bytes, emitted, struct, structLength, words, stringsLength, reads⟩ :=
    emitTree_ok fdt clean small
  have length : after.finishedLength = encodedLength fdt.dtStrings.length calls.tree := by
    rw [finishedLength, encodedLength, stringsLength, struct, List.length_append, structLength,
      length_wordBytes]
  have bounded : after.finishedLength < 2 ^ 32 := by rwa [length]
  refine ⟨after, emitted, ?_⟩
  split
  · rename_i short
    rw [← length] at short
    exact finish_throws bounded short buf
  · rename_i enough
    have fits : after.finishedLength ≤ bufLen.toNat := by omega
    have found := readHeader_finishedBlob bounded fits
    have laidOut := readFields_laidOut words
    have size := length_finishedBlob fits
    refine ⟨_, _, finish_writes bounded fits room, size, found, laidOut, length, ?_⟩
    have block := slice_struct fits
    have compatible : after.readFields.lastCompVersion ≤ 17 := Nat.le_succ 16
    exact readBlob_of_blocks found rfl rfl compatible (fits.trans size.ge) laidOut
      (slice_reserved fits) (block.trans struct) (slice_strings fits) reads

def sampleBuilder : FDTBuilder := ⟨0, [], [], []⟩

/-- A root with two cells and a string, and a node at an address with a property of one name. -/
def sampleCalls : Calls :=
  .node (.beginNode [])
    [([0x72, 0x65, 0x67], .propU64List [0x80000000, 4096]), ([0x6d], .propString [0x61, 0x62])]
    [.node (.beginNodeNum [0x63] 0x1f) [([0x72, 0x65, 0x67], .propEmpty)] []]

theorem finish_readBlob_sample :
    encodedLength 0 sampleCalls.tree = 152 ∧
      ∃ after, emitTree sampleBuilder sampleCalls = .ok after ∧
      ∃ blob header,
        (after.finish 160).run (List.replicate 160 0xff) = .ok () (blob ++ []) ∧
        blob.length = 160 ∧ readHeader blob = some header ∧ header.LaidOut ∧
        header.totalsize = 152 ∧ readBlob blob = some ([], sampleCalls.tree) := by
  have size : encodedLength 0 sampleCalls.tree = 152 := by decide
  have clean : ∀ name ∈ sampleCalls.tree.names, 0 ∉ name := by decide
  have small : encodedLength sampleBuilder.dtStrings.length sampleCalls.tree < 2 ^ 32 := by
    rw [sampleBuilder, List.length_nil, size]
    norm_num
  obtain ⟨after, emitted, written⟩ := finish_readBlob sampleBuilder sampleCalls 160
    (List.replicate 160 0xff) clean small (by simp)
  have enough : ¬ (160 : BitVec 32).toNat <
      encodedLength sampleBuilder.dtStrings.length sampleCalls.tree := by
    rw [sampleBuilder, List.length_nil, size]
    decide
  rw [if_neg enough] at written
  obtain ⟨blob, header, ran, length, found, laidOut, total, read⟩ := written
  exact ⟨size, after, emitted, blob, header, ran, length, found, laidOut, total.trans size, read⟩

end Read

end FDTBuilder

end MachineEmulator.Fdt
