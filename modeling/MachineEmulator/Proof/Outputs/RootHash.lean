/-
This file shows when the root of a byte string is the reference root of its padded bytes.
-/

import MachineEmulator.Construction.Outputs.RootHash
import MachineEmulator.Construction.SymbolicHasher
import MachineEmulator.Library.Frontier

namespace MachineEmulator.Outputs

open Merkle

variable {Hash : Type} (hasher : Hasher Hash)

section Levels

/-- The nodes of a level from a position on. -/
def nodesFrom (leaf : Nat → Hash) (level start count : Nat) : List Hash :=
  (List.range' start count).map (nodeHash hasher.concatHash leaf level)

variable {leaf : Nat → Hash} {fill : Hash} {total : Nat}

/-- Pairing the nodes that the leaves reach gives those of the level above. -/
theorem pairUp_nodesFrom (rest : ∀ position, total ≤ position → leaf position = fill)
    (level start count : Nat) (reached : total ≤ (2 * start + count) * 2 ^ level) :
    pairUp hasher (fillHash hasher.concatHash fill level)
      (nodesFrom hasher leaf level (2 * start) count) =
      nodesFrom hasher leaf (level + 1) start ((count + 1) / 2) := by
  induction count using Nat.twoStepInduction generalizing start with
  | zero => rfl
  | one =>
      have behind := nodeHash_fill hasher.concatHash leaf rest level (2 * start + 1) reached
      simp [nodesFrom, pairUp, nodeHash_succ, behind]
  | more count ih _ =>
      have next := ih (start + 1) (by
        rw [show 2 * (start + 1) + count = 2 * start + (count + 2) by ring]
        exact reached)
      have half : (count + 2 + 1) / 2 = (count + 1) / 2 + 1 := by omega
      simp only [nodesFrom] at next
      simp only [nodesFrom, half, List.range'_succ, List.map_cons, pairUp, nodeHash_succ]
      rw [← next]
      rfl

/-- The levels above a power of two leaves end in the root. -/
theorem climbLevels_nodesFrom (rest : ∀ position, total ≤ position → leaf position = fill)
    (steps level count : Nat) (reached : total ≤ count * 2 ^ level) (positive : 0 < count)
    (room : count ≤ 2 ^ steps) :
    climbLevels hasher steps (nodesFrom hasher leaf level 0 count)
      (fillHash hasher.concatHash fill level) =
      [nodeHash hasher.concatHash leaf (level + steps) 0] := by
  induction steps generalizing level count with
  | zero =>
      obtain rfl : count = 1 := by omega
      rfl
  | succ steps ih =>
      have above := ih (level + 1) ((count + 1) / 2) (by
        calc total ≤ count * 2 ^ level := reached
          _ ≤ 2 * ((count + 1) / 2) * 2 ^ level := Nat.mul_le_mul_right _ (by omega)
          _ = (count + 1) / 2 * 2 ^ (level + 1) := by ring)
        (by omega) (by rw [pow_succ] at room; omega)
      have paired := pairUp_nodesFrom hasher rest level 0 count (by simpa using reached)
      rw [mul_zero] at paired
      rw [climbLevels, paired]
      rw [show level + (steps + 1) = level + 1 + steps by omega, ← above]
      rfl

end Levels

section Words

/-- The word at an index, with zeros behind the data. -/
def paddedWord (data : List Byte) (index : Nat) : List Byte :=
  let word := (data.drop (32 * index)).take 32
  word ++ List.replicate (32 - word.length) 0

/-- The data and the zeros that fill the tree. -/
def padded (data : List Byte) (log2RootSize : Nat) : List Byte :=
  data ++ List.replicate (2 ^ log2RootSize - data.length) 0

theorem paddedWord_behind {data : List Byte} {index : Nat} (behind : data.length ≤ 32 * index) :
    paddedWord data index = List.replicate 32 0 := by
  simp [paddedWord, List.drop_of_length_le behind]

theorem paddedWord_full {data : List Byte} {index : Nat} (inside : 32 * index + 32 ≤ data.length) :
    paddedWord data index = (data.drop (32 * index)).take 32 := by
  have size : ((data.drop (32 * index)).take 32).length = 32 := by
    simp
    omega
  simp [paddedWord, size]

/-- The words of the padded data. -/
theorem word_padded (data : List Byte) {level index : Nat} (inside : index < 2 ^ level) :
    ((padded data (level + 5)).drop (32 * index)).take 32 = paddedWord data index := by
  have room : 32 * index + 32 ≤ 2 ^ (level + 5) := by
    rw [pow_add]
    omega
  simp only [padded, paddedWord, List.drop_append, List.take_append, List.drop_replicate,
    List.take_replicate, List.length_take, List.length_drop]
  congr 2
  omega

/-- Level zero has the words that the data reaches. -/
theorem wordHashes_eq (data : List Byte) :
    wordHashes hasher data = nodesFrom hasher (fun index => hasher.hash (paddedWord data index)) 0 0
      ((data.length + 31) / 32) := by
  have full : (data.length - data.length % 32) / 32 = data.length / 32 := by omega
  have words : (List.range (data.length / 32)).map
        (fun word => hasher.hash ((data.drop (32 * word)).take 32)) =
      (List.range (data.length / 32)).map (fun word => hasher.hash (paddedWord data word)) := by
    apply List.map_congr_left
    intro word member
    have inside := List.mem_range.mp member
    rw [paddedWord_full (by omega)]
  rw [wordHashes, nodesFrom, ← List.range_eq_range']
  simp only [full, words]
  split
  · have count : (data.length + 31) / 32 = data.length / 32 + 1 := by omega
    have start : data.length - data.length % 32 = 32 * (data.length / 32) := by omega
    have short : (data.drop (32 * (data.length / 32))).take 32 =
        data.drop (32 * (data.length / 32)) :=
      List.take_of_length_le (by simp; omega)
    rw [count, List.range_succ, List.map_append, start]
    simp only [List.map_cons, List.map_nil, nodeHash_zero]
    congr 2
    simp only [paddedWord, short]
  · have count : (data.length + 31) / 32 = data.length / 32 := by omega
    rw [count]
    rfl

end Words

section Root

/-- The size of the tree is positive up to 2^62. -/
theorem toInt_one_shiftLeft {log2RootSize : Nat} (small : log2RootSize ≤ 62) :
    ((1 : BitVec 64) <<< log2RootSize).toInt = 2 ^ log2RootSize := by
  have bound : 2 ^ log2RootSize ≤ 2 ^ 62 := Nat.pow_le_pow_right (by decide) small
  have value : ((1 : BitVec 64) <<< log2RootSize).toNat = 2 ^ log2RootSize := by
    change 1 <<< log2RootSize % 2 ^ 64 = _
    rw [Nat.shiftLeft_eq, one_mul, Nat.mod_eq_of_lt (by omega)]
  rw [BitVec.toInt_eq_toNat_of_lt (by omega), value]
  norm_cast

/-- The reference root is the root over the padded words. -/
theorem getMerkleTreeHash_padded (data : List Byte) (level : Nat)
    (fits : data.length ≤ 2 ^ (level + 5)) :
    hasher.getMerkleTreeHash (padded data (level + 5)) =
      some (nodeHash hasher.concatHash (fun index => hasher.hash (paddedWord data index))
        level 0) := by
  apply hasher.getMerkleTreeHash_eq
  · rw [padded, List.length_append, List.length_replicate, Nat.add_sub_cancel' fits, pow_add]
    ring
  · intro position inside
    rw [word_padded data inside, zero_mul, zero_add]

/-- A level without nodes has none above it. -/
theorem climbLevels_nil (steps : Nat) (pristine : Hash) :
    climbLevels hasher steps [] pristine = [] := by
  induction steps generalizing pristine with
  | zero => rfl
  | succ steps ih => exact ih _

/-- Without data there is no root. -/
theorem getRootHash_nil (log2RootSize : Nat) (root : Hash) :
    getRootHash hasher [] log2RootSize ≠ .ok (some root) := by
  intro ran
  rw [getRootHash] at ran
  split at ran
  · cases ran
  · change Except.ok (climbLevels hasher _ [] _)[0]? = _ at ran
    rw [climbLevels_nil] at ran
    cases ran

/-- The size of a tree above 2^62 is no positive integer. -/
theorem getRootHash_overflow {data : List Byte} (some : data ≠ []) {log2RootSize : Nat}
    (large : 62 < log2RootSize) (address : log2RootSize ≤ 64) :
    getRootHash hasher data log2RootSize = .error .dataDoesNotFit := by
  have positive := List.length_pos_iff.mpr some
  have size : ((1 : BitVec 64) <<< log2RootSize).toInt ≤ 0 := by
    interval_cases log2RootSize <;> decide
  rw [getRootHash, if_pos (by omega)]
  rfl

theorem getRootHash_fits {data : List Byte} (some : data ≠ []) {level : Nat}
    (small : level + 5 ≤ 62) (fits : data.length ≤ 2 ^ (level + 5)) :
    getRootHash hasher data (level + 5) = .ok (.some (nodeHash hasher.concatHash
      (fun index => hasher.hash (paddedWord data index)) level 0)) := by
  have positive := List.length_pos_iff.mpr some
  have words : 2 ^ (level + 5) = 32 * 2 ^ level := by
    rw [pow_add]
    ring
  have rest : ∀ position, (data.length + 31) / 32 ≤ position →
      hasher.hash (paddedWord data position) = hasher.hash (List.replicate 32 0) := by
    intro position behind
    rw [paddedWord_behind (by omega)]
  have climbed := climbLevels_nodesFrom hasher rest level 0 ((data.length + 31) / 32) (by simp)
    (by omega) (by omega)
  rw [zero_add] at climbed
  have bound : ¬ ((1 : BitVec 64) <<< (level + 5)).toInt < data.length := by
    rw [toInt_one_shiftLeft small]
    exact_mod_cast not_lt.mpr fits
  rw [getRootHash, if_neg bound, Nat.add_sub_cancel, wordHashes_eq]
  change Except.ok (climbLevels hasher level _ (fillHash hasher.concatHash _ 0))[0]? = _
  rw [climbed]
  rfl

/-- The root of data that fits is the reference root exactly if there is data and the size of the
tree does not overflow. -/
theorem getRootHash_reference (data : List Byte) (log2RootSize : Nat) (word : 5 ≤ log2RootSize)
    (address : log2RootSize ≤ 64) (fits : data.length ≤ 2 ^ log2RootSize) :
    getRootHash hasher data log2RootSize =
        .ok (hasher.getMerkleTreeHash (padded data log2RootSize)) ↔
      data ≠ [] ∧ log2RootSize ≤ 62 := by
  obtain ⟨level, rfl⟩ := Nat.exists_eq_add_of_le' word
  rw [getMerkleTreeHash_padded hasher data level fits]
  constructor
  · intro same
    constructor
    · rintro rfl
      exact getRootHash_nil hasher _ _ same
    · by_contra large
      have some : data ≠ [] := by
        rintro rfl
        exact getRootHash_nil hasher _ _ same
      rw [getRootHash_overflow hasher some (by omega) address] at same
      cases same
  · rintro ⟨some, small⟩
    exact getRootHash_fits hasher some small fits

theorem getRootHash_reference_one :
    getRootHash symbolicHasher [1] 6 = .ok (symbolicHasher.getMerkleTreeHash (padded [1] 6)) ↔
      ([1] : List Byte) ≠ [] ∧ 6 ≤ 62 :=
  getRootHash_reference symbolicHasher [1] 6 (by decide) (by decide) (by decide)

/-- The root of no data is nil, though the tree of one word of zeros has a root. -/
theorem getRootHash_empty :
    getRootHash symbolicHasher [] 5 = .ok none ∧
    symbolicHasher.getMerkleTreeHash (padded [] 5) = some (.word (List.replicate 32 0)) ∧
    getRootHash symbolicHasher [1] 63 = .error .dataDoesNotFit ∧
    ¬ ∀ (data : List Byte) (log2RootSize : Nat), 5 ≤ log2RootSize → log2RootSize ≤ 64 →
      data.length ≤ 2 ^ log2RootSize →
      getRootHash symbolicHasher data log2RootSize =
        .ok (symbolicHasher.getMerkleTreeHash (padded data log2RootSize)) := by
  have empty : getRootHash symbolicHasher [] 5 = .ok none := rfl
  have root : symbolicHasher.getMerkleTreeHash (padded [] 5) =
      some (.word (List.replicate 32 0)) := getMerkleTreeHash_padded symbolicHasher [] 0 (by decide)
  refine ⟨empty, root, rfl, fun every => ?_⟩
  have same := every [] 5 le_rfl (by decide) (by decide)
  rw [empty, root] at same
  cases same

end Root

end MachineEmulator.Outputs
