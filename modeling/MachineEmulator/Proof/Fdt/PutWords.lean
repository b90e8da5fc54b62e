/-
This file shows which bytes the calls of the builder put behind the structure block.
-/

import MachineEmulator.Construction.Fdt.FdtBuilder

namespace MachineEmulator.Fdt

open DeviceTree

section Words

/-- A swapped word lies in the memory of the host in big-endian order. -/
theorem hostBytes_toBe32 (value : BitVec 32) : hostBytes (toBe32 value) = wordBytes value := by
  simp only [hostBytes, toBe32, wordBytes, List.range_succ, List.range_zero, List.nil_append,
    List.cons_append, List.map_cons, List.map_nil, List.cons.injEq, and_true]
  refine ⟨?_, ?_, ?_, ?_⟩ <;>
  · ext position inside
    simp [BitVec.getElem_extractLsb']
    grind

theorem padWord_of_dvd {data : Bytes} (words : 4 ∣ data.length) : padWord data = data := by
  have full : alignWord data.length - data.length = 0 := by
    unfold alignWord
    omega
  rw [padWord, full, List.replicate_zero, List.append_nil]

theorem length_flatMap_wordBytes (values : List (BitVec 32)) :
    (values.flatMap wordBytes).length = values.length * 4 := by
  simp [List.length_flatMap, wordBytes, mul_comm]

theorem length_flatMap_doubleWordBytes (values : List (BitVec 64)) :
    (values.flatMap doubleWordBytes).length = values.length * 8 := by
  simp [List.length_flatMap, doubleWordBytes, mul_comm]

end Words

namespace FDTBuilder

variable {fdt : FDTBuilder}

/-- The bytes behind the structure block of a builder. -/
def put (fdt : FDTBuilder) (bytes : Bytes) : FDTBuilder :=
  { fdt with dtStruct := fdt.dtStruct ++ bytes }

@[simp] theorem dtStruct_put (bytes : Bytes) :
    (fdt.put bytes).dtStruct = fdt.dtStruct ++ bytes := rfl

theorem put_put (bytes more : Bytes) : (fdt.put bytes).put more = fdt.put (bytes ++ more) := by
  simp [put]

theorem putU32_eq (value : BitVec 32) : fdt.putU32 value = fdt.put (wordBytes value) := by
  rw [putU32, hostBytes_toBe32, put]

/-- Data is put with its padding while the structure block has less than 2^32 bytes. -/
theorem putData_eq {data : Bytes} {dataLen : BitVec 32} (words : 4 ∣ fdt.dtStruct.length)
    (enough : dataLen.toNat ≤ data.length)
    (small : fdt.dtStruct.length + alignWord dataLen.toNat < 2 ^ 32) :
    fdt.putData data dataLen = .ok (fdt.put (padWord (data.take dataLen.toNat))) := by
  unfold putData
  split
  · rename_i none
    simp [none, padWord, alignWord, put]
  · have pos : (BitVec.ofNat 32 (fdt.dtStruct.length / 4)).toNat = fdt.dtStruct.length / 4 := by
      rw [BitVec.toNat_ofNat, Nat.mod_eq_of_lt (by omega)]
    have numWords : ((dataLen + 3) / 4).toNat = (dataLen.toNat + 3) / 4 := by
      unfold alignWord at small
      have three : (3 : BitVec 32).toNat = 3 := rfl
      have four : (4 : BitVec 32).toNat = 4 := rfl
      rw [BitVec.toNat_udiv, BitVec.toNat_add, three, four]
      omega
    have sum : 4 * (BitVec.ofNat 32 (fdt.dtStruct.length / 4) + (dataLen + 3) / 4).toNat =
        fdt.dtStruct.length + alignWord dataLen.toNat := by
      unfold alignWord at small ⊢
      rw [BitVec.toNat_add, pos, numWords, Nat.mod_eq_of_lt (by omega)]
      omega
    have start : 4 * (fdt.dtStruct.length / 4) = fdt.dtStruct.length := by omega
    have resized : resize fdt.dtStruct (fdt.dtStruct.length + alignWord dataLen.toNat) =
        fdt.dtStruct ++ List.replicate (alignWord dataLen.toNat) 0 := by
      rw [resize, List.take_of_length_le (by omega), Nat.add_sub_cancel_left]
    have taken : (data.take dataLen.toNat).length = dataLen.toNat := by
      rw [List.length_take, min_eq_left enough]
    have copied : copyN (fdt.dtStruct ++ List.replicate (alignWord dataLen.toNat) 0)
        fdt.dtStruct.length (data.take dataLen.toNat) =
        fdt.dtStruct ++ padWord (data.take dataLen.toNat) := by
      rw [copyN, List.take_left, List.drop_length_add_append, List.drop_replicate, padWord, taken]
    have inside : dataLen.toNat ≤ data.length ∧ fdt.dtStruct.length + dataLen.toNat ≤
        (fdt.dtStruct ++ List.replicate (alignWord dataLen.toNat) 0).length := by
      rw [List.length_append, List.length_replicate]
      unfold alignWord
      exact ⟨enough, by omega⟩
    simp only [sum, pos, start, resized, copied]
    rw [if_pos inside, put]

theorem putString_eq {name : Bytes} (words : 4 ∣ fdt.dtStruct.length)
    (small : fdt.dtStruct.length + alignWord (name.length + 1) < 2 ^ 32) :
    fdt.putString name = .ok (fdt.put (padWord (cString name))) := by
  have length : (BitVec.ofNat 32 (name.length + 1)).toNat = (cString name).length := by
    unfold alignWord at small
    rw [length_cString, BitVec.toNat_ofNat, Nat.mod_eq_of_lt (by omega)]
  have put : fdt.putData (cString name) _ = _ :=
    putData_eq words length.le (by rwa [length, length_cString])
  rwa [length, List.take_length] at put

theorem foldl_putU32 (values : List (BitVec 32)) :
    values.foldl putU32 fdt = fdt.put (values.flatMap wordBytes) := by
  induction values generalizing fdt with
  | nil => simp [put]
  | cons value values ih =>
      rw [List.foldl_cons, ih, putU32_eq, put_put, List.flatMap_cons]

theorem foldl_putU64 (values : List (BitVec 64)) :
    values.foldl (fun fdt (value : BitVec 64) =>
      (fdt.putU32 ((value >>> 32).setWidth 32)).putU32 (value.setWidth 32)) fdt =
      fdt.put (values.flatMap doubleWordBytes) := by
  induction values generalizing fdt with
  | nil => simp [put]
  | cons value values ih =>
      rw [List.foldl_cons, ih, putU32_eq, putU32_eq, put_put, put_put, List.flatMap_cons,
        doubleWordBytes_eq, List.append_assoc]

end FDTBuilder

end MachineEmulator.Fdt
