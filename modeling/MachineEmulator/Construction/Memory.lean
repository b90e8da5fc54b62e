/-
This file gives the 2^64-byte address space as a byte map.
-/

import Mathlib.Data.BitVec
import Mathlib.Data.List.GetD
import Mathlib.Tactic

namespace MachineEmulator

abbrev Byte := BitVec 8

/-- This is `uint64_t`, for values and for target physical addresses. -/
abbrev Word := BitVec 64

/-- The physical address space of the target holds one byte at each address. -/
def Memory := Word → Byte

/-- The host lays a `uint64_t` out with its least significant byte first. -/
def wordToBytes (value : Word) : List Byte :=
  (List.range 8).map fun index => value.extractLsb' (8 * index) 8

def wordOfBytes (data : List Byte) : Word :=
  data.foldr (fun byte rest => (rest <<< 8) ||| byte.setWidth 64) 0

section Words

@[simp] theorem length_wordToBytes (value : Word) : (wordToBytes value).length = 8 := rfl

/-- Each byte of a list holds eight bits of the word that the list gives. -/
theorem getLsbD_wordOfBytes_cons (byte : Byte) (rest : List Byte) {position : Nat}
    (inside : position < 64) :
    (wordOfBytes (byte :: rest)).getLsbD position =
      if position < 8 then byte.getLsbD position else (wordOfBytes rest).getLsbD (position - 8) := by
  rw [wordOfBytes, List.foldr_cons, BitVec.getLsbD_or, BitVec.getLsbD_shiftLeft,
    BitVec.getLsbD_setWidth]
  by_cases low : position < 8
  · simp [low, inside]
  · have high : byte.getLsbD position = false := BitVec.getLsbD_of_ge _ _ (by omega)
    simp [low, inside, high, wordOfBytes]

theorem getLsbD_wordOfBytes_extract (value : Word) (start count : Nat) {position : Nat}
    (inside : position < 64) :
    (wordOfBytes ((List.range' start count).map fun index =>
      value.extractLsb' (8 * index) 8)).getLsbD position =
      (decide (position < 8 * count) && value.getLsbD (8 * start + position)) := by
  induction count generalizing start position with
  | zero => simp [wordOfBytes]
  | succ count ih =>
      rw [List.range'_succ, List.map_cons, getLsbD_wordOfBytes_cons _ _ inside]
      by_cases low : position < 8
      · have covered : position < 8 * (count + 1) := by omega
        simp [low, covered]
      · have shifted : 8 * (start + 1) + (position - 8) = 8 * start + position := by omega
        have same : position - 8 < 8 * count ↔ position < 8 * (count + 1) := by omega
        rw [if_neg low, ih (start + 1) (by omega), shifted, decide_eq_decide.mpr same]

theorem wordOfBytes_wordToBytes (value : Word) : wordOfBytes (wordToBytes value) = value := by
  apply BitVec.eq_of_getLsbD_eq
  intro position inside
  rw [wordToBytes, List.range_eq_range', getLsbD_wordOfBytes_extract _ _ _ inside]
  simp [inside]

/-- A byte of a word is the byte of the list that the word was made of. -/
theorem extractLsb'_wordOfBytes {data : List Byte} {index : Nat} (inside : index < data.length)
    (low : index < 8) : (wordOfBytes data).extractLsb' (8 * index) 8 = data[index] := by
  induction data generalizing index with
  | nil => simp at inside
  | cons byte rest ih =>
      apply BitVec.eq_of_getLsbD_eq
      intro position bound
      rw [BitVec.getLsbD_extractLsb', getLsbD_wordOfBytes_cons _ _ (by omega)]
      cases index with
      | zero => simp [bound]
      | succ index =>
          have previous := congrArg (fun value => value.getLsbD position)
            (ih (Nat.lt_of_succ_lt_succ inside) (by omega))
          have place : 8 * (index + 1) + position - 8 = 8 * index + position := by omega
          rw [if_neg (by omega), place, List.getElem_cons_succ, ← previous, BitVec.getLsbD_extractLsb']

end Words

namespace Memory

def load (memory : Memory) (start : Word) (length : Nat) : List Byte :=
  (List.range length).map fun offset => memory (start + BitVec.ofNat 64 offset)

def store (memory : Memory) (start : Word) (data : List Byte) : Memory :=
  fun address => data.getD (address - start).toNat (memory address)

/-- This is `aliased_aligned_read<uint64_t>` at a target address. -/
def loadWord (memory : Memory) (address : Word) : Word :=
  wordOfBytes (memory.load address 8)

def storeWord (memory : Memory) (address value : Word) : Memory :=
  memory.store address (wordToBytes value)

@[simp] theorem length_load (memory : Memory) (start : Word) (length : Nat) :
    (memory.load start length).length = length := by
  simp [load]

theorem getElem?_load (memory : Memory) (start : Word) {length offset : Nat}
    (inside : offset < length) :
    (memory.load start length)[offset]? = some (memory (start + BitVec.ofNat 64 offset)) := by
  simp [load, inside]

theorem load_congr {first second : Memory} (start : Word) {length : Nat}
    (same : ∀ offset < length,
      first (start + BitVec.ofNat 64 offset) = second (start + BitVec.ofNat 64 offset)) :
    first.load start length = second.load start length := by
  apply List.map_congr_left
  intro offset member
  exact same offset (List.mem_range.mp member)

/-- A part of a loaded block is the block at the part's own address. -/
theorem load_drop_take (memory : Memory) (start : Word) {length offset count : Nat}
    (inside : offset + count ≤ length) :
    ((memory.load start length).drop offset).take count =
      memory.load (start + BitVec.ofNat 64 offset) count := by
  apply List.ext_getElem?
  intro index
  by_cases within : index < count
  · rw [List.getElem?_take_of_lt within, List.getElem?_drop,
      getElem?_load memory start (by omega), getElem?_load memory _ within]
    rw [BitVec.add_assoc, BitVec.ofNat_add]
  · rw [List.getElem?_eq_none (by simp; omega), List.getElem?_eq_none (by simp; omega)]

/-- An address without wrap-around is read as a natural number. -/
theorem store_apply (memory : Memory) (start : Word) (data : List Byte) (address : Word)
    (fits : start.toNat + data.length ≤ 2 ^ 64) :
    memory.store start data address =
      if start.toNat ≤ address.toNat ∧ address.toNat < start.toNat + data.length then
        data.getD (address.toNat - start.toNat) 0
      else memory address := by
  have bound := address.isLt
  have startBound := start.isLt
  rw [store]
  by_cases above : start.toNat ≤ address.toNat
  · have offset : (address - start).toNat = address.toNat - start.toNat := by
      rw [BitVec.toNat_sub]
      omega
    rw [offset]
    by_cases below : address.toNat < start.toNat + data.length
    · have inside : address.toNat - start.toNat < data.length := by omega
      simp [above, below, List.getD_eq_getElem?_getD, inside]
    · have outside : data.length ≤ address.toNat - start.toNat := by omega
      simp [below, List.getD_eq_getElem?_getD, List.getElem?_eq_none outside]
  · have offset : (address - start).toNat = 2 ^ 64 - start.toNat + address.toNat := by
      rw [BitVec.toNat_sub]
      omega
    have outside : data.length ≤ (address - start).toNat := by omega
    rw [List.getD_eq_getElem?_getD, List.getElem?_eq_none outside, if_neg (by omega)]
    rfl

/-- A write leaves a block that it does not meet as it was. -/
theorem load_store_of_disjoint (memory : Memory) (start other : Word) (data : List Byte)
    (length : Nat) (fits : start.toNat + data.length ≤ 2 ^ 64)
    (fits' : other.toNat + length ≤ 2 ^ 64)
    (apart : other.toNat + length ≤ start.toNat ∨ start.toNat + data.length ≤ other.toNat) :
    (memory.store start data).load other length = memory.load other length := by
  apply load_congr
  intro offset inside
  have address : (other + BitVec.ofNat 64 offset).toNat = other.toNat + offset := by
    rw [BitVec.toNat_add, BitVec.toNat_ofNat]
    omega
  rw [store_apply memory start data _ fits, address, if_neg (by omega)]

/-- A block that covers a write is the old block with the written part replaced. -/
theorem load_store_of_covers (memory : Memory) (start : Word) (data : List Byte)
    (length offset : Nat) (inside : offset + data.length ≤ length)
    (fits : start.toNat + length ≤ 2 ^ 64) :
    (memory.store (start + BitVec.ofNat 64 offset) data).load start length =
      (memory.load start length).take offset ++ data ++
        (memory.load start length).drop (offset + data.length) := by
  have room : offset < 2 ^ 64 ∨ data.length = 0 := by omega
  rcases Nat.eq_zero_or_pos data.length with empty | filled
  · have none : data = [] := List.length_eq_zero_iff.mp empty
    subst none
    simp [load, store]
  have startAt : (start + BitVec.ofNat 64 offset).toNat = start.toNat + offset := by
    rw [BitVec.toNat_add, BitVec.toNat_ofNat]
    omega
  apply List.ext_getElem?
  intro index
  by_cases within : index < length
  · have address : (start + BitVec.ofNat 64 index).toNat = start.toNat + index := by
      rw [BitVec.toNat_add, BitVec.toNat_ofNat]
      omega
    rw [getElem?_load _ _ within, store_apply _ _ _ _ (by omega), startAt, address]
    rcases Nat.lt_or_ge index offset with before | after
    · rw [if_neg (by omega), List.append_assoc, List.getElem?_append_left (by simp; omega),
        List.getElem?_take_of_lt before, getElem?_load _ _ within]
    · rcases Nat.lt_or_ge index (offset + data.length) with covered | beyond
      · rw [if_pos (by omega), List.getElem?_append_left (by simp; omega),
          List.getElem?_append_right (by simp; omega)]
        have position : index - ((memory.load start length).take offset).length =
            index - offset := by
          simp
          omega
        have shifted : start.toNat + index - (start.toNat + offset) = index - offset := by omega
        have bounded : index - offset < data.length := by omega
        rw [position, shifted, List.getD_eq_getElem?_getD, List.getElem?_eq_getElem bounded]
        rfl
      · rw [if_neg (by omega), List.getElem?_append_right (by simp; omega), List.getElem?_drop]
        have position : offset + data.length +
            (index - ((memory.load start length).take offset ++ data).length) = index := by
          simp
          omega
        rw [position, getElem?_load _ _ within]
  · rw [List.getElem?_eq_none (by simp; omega), List.getElem?_eq_none (by simp; omega)]

/-- A part of a written block is that part of what was written. -/
theorem load_store_part (memory : Memory) (start : Word) (data : List Byte) {offset count : Nat}
    (inside : offset + count ≤ data.length) (fits : start.toNat + data.length ≤ 2 ^ 64) :
    (memory.store start data).load (start + BitVec.ofNat 64 offset) count =
      (data.drop offset).take count := by
  apply List.ext_getElem?
  intro index
  by_cases within : index < count
  · have address : (start + BitVec.ofNat 64 offset + BitVec.ofNat 64 index).toNat =
        start.toNat + (offset + index) := by
      simp only [BitVec.toNat_add, BitVec.toNat_ofNat]
      omega
    have position : start.toNat + (offset + index) - start.toNat = offset + index := by omega
    have bounded : offset + index < data.length := by omega
    rw [getElem?_load _ _ within, store_apply _ _ _ _ fits, address, if_pos (by omega), position,
      List.getElem?_take_of_lt within, List.getElem?_drop, List.getD_eq_getElem?_getD,
      List.getElem?_eq_getElem bounded]
    rfl
  · rw [List.getElem?_eq_none (by simp; omega), List.getElem?_eq_none (by simp; omega)]

/-- A block that was written whole is what was written. -/
theorem load_store_whole (memory : Memory) (start : Word) {data : List Byte} {length : Nat}
    (size : data.length = length) (fits : start.toNat + length ≤ 2 ^ 64) :
    (memory.store start data).load start length = data := by
  have inside : 0 + length ≤ data.length := by omega
  have part := load_store_part memory start data inside (by omega)
  have here : start + BitVec.ofNat 64 0 = start := by simp
  rw [here, List.drop_zero, List.take_of_length_le size.le] at part
  exact part

theorem loadWord_storeWord (memory : Memory) (address value : Word)
    (fits : address.toNat + 8 ≤ 2 ^ 64) : (memory.storeWord address value).loadWord address = value := by
  have part := @load_store_part memory address (wordToBytes value) 0 8 (by simp) (by simpa using fits)
  rw [BitVec.add_zero, List.drop_zero,
    List.take_of_length_le (by simp)] at part
  rw [loadWord, storeWord, part, wordOfBytes_wordToBytes]

theorem loadWord_storeWord_of_disjoint (memory : Memory) (address other value : Word)
    (fits : address.toNat + 8 ≤ 2 ^ 64) (fits' : other.toNat + 8 ≤ 2 ^ 64)
    (apart : other.toNat + 8 ≤ address.toNat ∨ address.toNat + 8 ≤ other.toNat) :
    (memory.storeWord address value).loadWord other = memory.loadWord other := by
  rw [loadWord, storeWord, load_store_of_disjoint _ _ _ _ _ (by simpa using fits) fits'
    (by simpa using apart), loadWord]

/-- A word that is written back changes nothing. -/
theorem storeWord_loadWord (memory : Memory) (address : Word) :
    memory.storeWord address (memory.loadWord address) = memory := by
  funext byte
  change (wordToBytes (wordOfBytes (memory.load address 8))).getD (byte - address).toNat (memory byte) =
    memory byte
  rcases Nat.lt_or_ge (byte - address).toNat 8 with inside | outside
  · rw [List.getD_eq_getElem _ _ (by simpa using inside)]
    simp only [wordToBytes, List.getElem_map, List.getElem_range]
    rw [extractLsb'_wordOfBytes (by simpa using inside) inside]
    simp only [load, List.getElem_map, List.getElem_range]
    congr 1
    rw [BitVec.ofNat_toNat, BitVec.setWidth_eq]
    bv_omega
  · rw [List.getD_eq_default _ _ (by simpa using outside)]

/-- The second of two writes of a word replaces the first. -/
theorem storeWord_storeWord (memory : Memory) (address first second : Word) :
    (memory.storeWord address first).storeWord address second = memory.storeWord address second := by
  funext byte
  change (wordToBytes second).getD (byte - address).toNat
      ((wordToBytes first).getD (byte - address).toNat (memory byte)) =
    (wordToBytes second).getD (byte - address).toNat (memory byte)
  rcases Nat.lt_or_ge (byte - address).toNat 8 with inside | outside
  · rw [List.getD_eq_getElem _ _ (by simpa using inside),
      List.getD_eq_getElem _ _ (by simpa using inside)]
  · rw [List.getD_eq_default (wordToBytes first) _ (by simpa using outside)]

/-- Two adjacent writes are one. -/
theorem store_append (memory : Memory) (start : Word) (first second : List Byte)
    (fits : start.toNat + (first.length + second.length) < 2 ^ 64) :
    (memory.store start first).store (start + BitVec.ofNat 64 first.length) second =
      memory.store start (first ++ second) := by
  have middle : (start + BitVec.ofNat 64 first.length).toNat = start.toNat + first.length := by
    rw [BitVec.toNat_add, BitVec.toNat_ofNat]
    omega
  funext address
  rw [store_apply _ _ _ _ (by omega), store_apply _ _ _ _ (by omega),
    store_apply _ _ _ _ (by simp; omega), middle, List.length_append]
  by_cases below : address.toNat < start.toNat + first.length
  · rw [if_neg (by omega)]
    by_cases above : start.toNat ≤ address.toNat
    · rw [if_pos (by omega), if_pos (by omega), List.getD_append _ _ _ _ (by omega)]
    · rw [if_neg (by omega), if_neg (by omega)]
  · by_cases covered : address.toNat < start.toNat + first.length + second.length
    · have offset : address.toNat - (start.toNat + first.length) =
          address.toNat - start.toNat - first.length := by omega
      rw [if_pos (by omega), if_pos (by omega), List.getD_append_right _ _ _ _ (by omega), offset]
    · rw [if_neg (by omega), if_neg (by omega), if_neg (by omega)]

end Memory

/-- The address space before anything is written. -/
def zeroMemory : Memory := fun _ => 0

end MachineEmulator
