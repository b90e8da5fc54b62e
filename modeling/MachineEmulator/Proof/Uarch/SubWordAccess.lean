/-
This file shows that the reads and writes of parts of a word, which the interpreter builds from
whole words, are reads and writes of the bytes at their address.
-/

import MachineEmulator.Construction.Uarch.Rv64i

namespace MachineEmulator.Uarch

section Bits

/-- A bit of a word is a bit of one of its bytes. -/
theorem getLsbD_wordOfBytes (data : List Byte) {position : Nat} (inside : position < 64) :
    (wordOfBytes data).getLsbD position = (data.getD (position / 8) 0).getLsbD (position % 8) := by
  induction data generalizing position with
  | nil => simp [wordOfBytes]
  | cons byte rest ih =>
      rw [getLsbD_wordOfBytes_cons byte rest inside]
      by_cases low : position < 8
      · have first : position / 8 = 0 := by omega
        have same : position % 8 = position := by omega
        rw [if_pos low, first, same, List.getD_cons_zero]
      · have later : position / 8 = (position - 8) / 8 + 1 := by omega
        have same : (position - 8) % 8 = position % 8 := by omega
        rw [if_neg low, ih (by omega), later, same, List.getD_cons_succ]

theorem getLsbD_wordOfBytes_load (memory : Memory) (start : Word) {length position : Nat}
    (inside : position < 64) (covered : position / 8 < length) :
    (wordOfBytes (memory.load start length)).getLsbD position =
      (memory (start + BitVec.ofNat 64 (position / 8))).getLsbD (position % 8) := by
  rw [getLsbD_wordOfBytes _ inside, List.getD_eq_getElem?_getD,
    Memory.getElem?_load memory start covered, Option.getD_some]

theorem getD_wordToBytes (value : Word) {index : Nat} (inside : index < 8) :
    (wordToBytes value).getD index 0 = value.extractLsb' (8 * index) 8 := by
  simp [wordToBytes, List.getD_eq_getElem?_getD, inside]

end Bits

section Alignment

variable (paddr : Word)

theorem alignedAddress_eq : alignedAddress paddr = BitVec.ofNat 64 (8 * (paddr.toNat / 8)) := by
  have bound := paddr.isLt
  have shifted : alignedAddress paddr = (paddr >>> 3) <<< 3 := by
    apply BitVec.eq_of_getLsbD_eq
    intro position inside
    have seven : (7 : Word) = (BitVec.allOnes 3).setWidth 64 := rfl
    simp only [alignedAddress, seven, BitVec.getLsbD_and, BitVec.getLsbD_not,
      BitVec.getLsbD_setWidth, BitVec.getLsbD_allOnes, BitVec.getLsbD_shiftLeft,
      BitVec.getLsbD_ushiftRight]
    grind
  rw [shifted]
  apply BitVec.eq_of_toNat_eq
  rw [BitVec.toNat_shiftLeft, BitVec.toNat_ushiftRight, Nat.shiftRight_eq_div_pow,
    Nat.shiftLeft_eq, BitVec.toNat_ofNat]
  omega

theorem toNat_and_low {width : Nat} (value : BitVec width) (count : Nat) (fits : count < width) :
    (value &&& BitVec.ofNat width (2 ^ count - 1)).toNat = value.toNat % 2 ^ count := by
  have smaller : 2 ^ count < 2 ^ width := Nat.pow_lt_pow_right (by omega) fits
  have positive : 0 < 2 ^ count := by positivity
  rw [BitVec.toNat_and, BitVec.toNat_ofNat, Nat.mod_eq_of_lt (by omega),
    Nat.and_two_pow_sub_one_eq_mod]

theorem toNat_bitOffset : (bitOffset paddr).toNat = 8 * (paddr.toNat % 8) := by
  have low : (paddr.setWidth 32 &&& 7#32).toNat = paddr.toNat % 8 := by
    have masked := toNat_and_low (paddr.setWidth 32) 3 (by omega)
    rw [BitVec.toNat_setWidth] at masked
    have narrow : paddr.toNat % 2 ^ 32 % 2 ^ 3 = paddr.toNat % 8 := by omega
    rw [narrow] at masked
    exact masked
  have shifted : bitOffset paddr = (paddr.setWidth 32 &&& 7#32) <<< 3 := rfl
  rw [shifted, BitVec.toNat_shiftLeft, low, Nat.shiftLeft_eq]
  omega

theorem bitOffset_count : (bitOffset paddr &&& 0x3f).toNat = 8 * (paddr.toNat % 8) := by
  have masked := toNat_and_low (bitOffset paddr) 6 (by omega)
  rw [toNat_bitOffset] at masked
  have small : 8 * (paddr.toNat % 8) % 2 ^ 6 = 8 * (paddr.toNat % 8) := by omega
  rw [small] at masked
  exact masked

theorem aligned_iff (count : Nat) (fits : count < 64) :
    paddr &&& BitVec.ofNat 64 (2 ^ count - 1) = 0 ↔ paddr.toNat % 2 ^ count = 0 := by
  rw [← toNat_and_low paddr count fits, ← BitVec.toNat_inj]
  rfl

end Alignment

section Reads

variable (memory : Memory) (paddr : Word)

/-- The bytes at an address are the shifted bits of the word around it. -/
theorem getLsbD_shifted_word {size position : Nat} (inside : paddr.toNat % 8 + size ≤ 8)
    (covered : position < 8 * size) :
    (uint64ShiftRight (memory.loadWord (alignedAddress paddr)) (bitOffset paddr)).getLsbD position =
      (wordOfBytes (memory.load paddr size)).getLsbD position := by
  have bound := paddr.isLt
  rw [uint64ShiftRight, bitOffset_count, BitVec.getLsbD_ushiftRight, Memory.loadWord,
    getLsbD_wordOfBytes_load _ _ (by omega) (by omega),
    getLsbD_wordOfBytes_load _ _ (by omega) (by omega), alignedAddress_eq]
  have bit : (8 * (paddr.toNat % 8) + position) % 8 = position % 8 := by omega
  have byte : BitVec.ofNat 64 (8 * (paddr.toNat / 8)) +
      BitVec.ofNat 64 ((8 * (paddr.toNat % 8) + position) / 8) =
        paddr + BitVec.ofNat 64 (position / 8) := by
    apply BitVec.eq_of_toNat_eq
    simp only [BitVec.toNat_add, BitVec.toNat_ofNat]
    omega
  rw [bit, byte]

theorem setWidth_shifted_word (size : Nat) (inside : paddr.toNat % 8 + size ≤ 8) :
    (uint64ShiftRight (memory.loadWord (alignedAddress paddr)) (bitOffset paddr)).setWidth
      (8 * size) = (wordOfBytes (memory.load paddr size)).setWidth (8 * size) := by
  apply BitVec.eq_of_getLsbD_eq
  intro position covered
  rw [BitVec.getLsbD_setWidth, BitVec.getLsbD_setWidth,
    getLsbD_shifted_word memory paddr inside covered]

/-- A short block of bytes has no bits past its end. -/
theorem setWidth_wordOfBytes (data : List Byte) :
    ((wordOfBytes data).setWidth (8 * data.length)).setWidth 64 = wordOfBytes data := by
  apply BitVec.eq_of_getLsbD_eq
  intro position inside
  rw [BitVec.getLsbD_setWidth, BitVec.getLsbD_setWidth]
  by_cases covered : position < 8 * data.length
  · simp [inside, covered]
  · rw [getLsbD_wordOfBytes data inside, List.getD_eq_default _ _ (by omega)]
    simp [covered]

end Reads

section Writes

variable (memory : Memory) (paddr : Word)

/-- The word around an address with some of its bits replaced. -/
def replacedWord (old value : Word) (size : Nat) (offset : BitVec 32) : Word :=
  uint64ShiftLeft value offset |||
    (old &&& ~~~ uint64ShiftLeft ((BitVec.allOnes (8 * size)).setWidth 64) offset)

theorem extractLsb'_replacedWord (old : Word) {value : Word} {size index : Nat}
    (inside : paddr.toNat % 8 + size ≤ 8) (short : value.toNat < 2 ^ (8 * size))
    (within : index < 8) :
    (replacedWord old value size (bitOffset paddr)).extractLsb' (8 * index) 8 =
      if paddr.toNat % 8 ≤ index ∧ index < paddr.toNat % 8 + size then
        value.extractLsb' (8 * (index - paddr.toNat % 8)) 8
      else old.extractLsb' (8 * index) 8 := by
  apply BitVec.eq_of_getLsbD_eq
  intro bit small
  have high : ∀ position, 8 * size ≤ position → value.getLsbD position = false := by
    intro position beyond
    apply Nat.testBit_lt_two_pow
    exact lt_of_lt_of_le short (Nat.pow_le_pow_right (by omega) beyond)
  rw [replacedWord, uint64ShiftLeft, uint64ShiftLeft, bitOffset_count]
  simp only [BitVec.getLsbD_extractLsb', BitVec.getLsbD_or, BitVec.getLsbD_and, BitVec.getLsbD_not,
    BitVec.getLsbD_shiftLeft, BitVec.getLsbD_setWidth, BitVec.getLsbD_allOnes]
  have upper : 8 * index + bit < 64 := by omega
  split
  · next covered =>
      have shifted : 8 * index + bit - 8 * (paddr.toNat % 8) =
          8 * (index - paddr.toNat % 8) + bit := by omega
      have notBelow : ¬ 8 * index + bit < 8 * (paddr.toNat % 8) := by omega
      have reached : 8 * (index - paddr.toNat % 8) + bit < 8 * size := by omega
      have reached' : 8 * (index - paddr.toNat % 8) + bit < 64 := by omega
      simp [shifted, notBelow, small, upper, reached, reached']
  · next outside =>
      by_cases below : index < paddr.toNat % 8
      · have notAbove : 8 * index + bit < 8 * (paddr.toNat % 8) := by omega
        simp [notAbove, small, upper]
      · have beyond : 8 * size ≤ 8 * index + bit - 8 * (paddr.toNat % 8) := by omega
        simp [high _ beyond, beyond, small, upper]

/-- Writing the changed word writes just the bytes at the address. -/
theorem storeWord_replacedWord {value : Word} {size : Nat} (inside : paddr.toNat % 8 + size ≤ 8)
    (short : value.toNat < 2 ^ (8 * size)) :
    memory.storeWord (alignedAddress paddr)
        (replacedWord (memory.loadWord (alignedAddress paddr)) value size (bitOffset paddr)) =
      memory.store paddr ((wordToBytes value).take size) := by
  have bound := paddr.isLt
  have base : (alignedAddress paddr).toNat = 8 * (paddr.toNat / 8) := by
    rw [alignedAddress_eq, BitVec.toNat_ofNat]
    omega
  have length : ((wordToBytes value).take size).length = size := by
    rw [List.length_take, length_wordToBytes]
    omega
  funext address
  rw [Memory.storeWord, Memory.store_apply _ _ _ _ (by rw [length_wordToBytes]; omega),
    Memory.store_apply _ _ _ _ (by omega), length, length_wordToBytes, base]
  by_cases within : 8 * (paddr.toNat / 8) ≤ address.toNat ∧
      address.toNat < 8 * (paddr.toNat / 8) + 8
  · rw [if_pos within, getD_wordToBytes _ (by omega),
      extractLsb'_replacedWord paddr _ inside short (by omega)]
    by_cases covered : paddr.toNat ≤ address.toNat ∧ address.toNat < paddr.toNat + size
    · have position : address.toNat - 8 * (paddr.toNat / 8) - paddr.toNat % 8 =
          address.toNat - paddr.toNat := by omega
      rw [if_pos covered, if_pos (by omega), position, List.getD_eq_getElem?_getD,
        List.getElem?_take_of_lt (by omega), ← List.getD_eq_getElem?_getD,
        getD_wordToBytes _ (by omega)]
    · rw [if_neg covered, if_neg (by omega)]
      apply BitVec.eq_of_getLsbD_eq
      intro bit small
      have place : alignedAddress paddr + BitVec.ofNat 64
          ((8 * (address.toNat - 8 * (paddr.toNat / 8)) + bit) / 8) = address := by
        apply BitVec.eq_of_toNat_eq
        rw [BitVec.toNat_add, base, BitVec.toNat_ofNat]
        have addressBound := address.isLt
        omega
      have low : (8 * (address.toNat - 8 * (paddr.toNat / 8)) + bit) % 8 = bit := by omega
      rw [BitVec.getLsbD_extractLsb', Memory.loadWord,
        getLsbD_wordOfBytes_load _ _ (by omega) (by omega), place, low]
      simp [small]
  · rw [if_neg within, if_neg (by omega)]

/-- The low bytes of a word do not depend on its high bits. -/
theorem take_wordToBytes (value : Word) {size : Nat} (fits : size ≤ 8) :
    (wordToBytes ((value.setWidth (8 * size)).setWidth 64)).take size =
      (wordToBytes value).take size := by
  apply List.ext_getElem?
  intro index
  by_cases within : index < size
  · rw [List.getElem?_take_of_lt within, List.getElem?_take_of_lt within]
    have inside : index < 8 := by omega
    simp only [wordToBytes, List.getElem?_map, List.getElem?_range inside, Option.map_some]
    congr 1
    apply BitVec.eq_of_getLsbD_eq
    intro bit small
    have covered : 8 * index + bit < 8 * size := by omega
    have covered' : 8 * index + bit < 64 := by omega
    simp [small, covered, covered']
  · rw [List.getElem?_eq_none (by simp; omega), List.getElem?_eq_none (by simp; omega)]

theorem toNat_setWidth_lt (value : Word) (size : Nat) :
    ((value.setWidth (8 * size)).setWidth 64).toNat < 2 ^ (8 * size) := by
  have narrow : value.toNat % 2 ^ (8 * size) < 2 ^ (8 * size) := Nat.mod_lt _ (by positivity)
  rw [BitVec.toNat_setWidth, BitVec.toNat_setWidth]
  exact lt_of_le_of_lt (Nat.mod_le _ _) narrow

end Writes

end MachineEmulator.Uarch
