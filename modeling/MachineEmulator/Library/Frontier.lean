/-
This file gives the frontier of a hash tree: the complete left subtrees over the first leaves, one
for each bit of their number.
-/

import MachineEmulator.Library.MerkleTree
import Mathlib.Data.Nat.Bitwise

namespace Merkle

section Frontier

variable {Hash : Type} (combine : Hash → Hash → Hash) (leaf : Nat → Hash)

/-- The entries from a level up, over a number of nodes of this level. -/
def entries : Nat → Nat → Nat → List (Option Hash)
  | 0, _, _ => []
  | height + 1, level, count =>
      (if count % 2 = 1 then some (nodeHash combine leaf level (count - 1)) else none) ::
        entries height (level + 1) (count / 2)

/-- One more node: the subtrees that end at it are joined up to the first level without one. -/
def carryInto : List (Option Hash) → Hash → List (Option Hash)
  | [], right => [some right]
  | none :: rest, right => some right :: rest
  | some left :: rest, right => none :: carryInto rest (combine left right)

/-- The walk from the right end of the frontier to the root, where every other node is a fill. -/
def foldRoot : List (Option Hash) → Hash → Hash → Hash
  | [], root, _ => root
  | some left :: rest, root, fill => foldRoot rest (combine left root) (combine fill fill)
  | none :: rest, root, fill => foldRoot rest (combine root fill) (combine fill fill)

/-- The root of a subtree whose leaves are all the same. -/
def fillHash (fill : Hash) : Nat → Hash
  | 0 => fill
  | level + 1 => combine (fillHash fill level) (fillHash fill level)

@[simp] theorem length_entries (height level count : Nat) :
    (entries combine leaf height level count).length = height := by
  induction height generalizing level count with
  | zero => rfl
  | succ height ih => simp [entries, ih]

theorem getElem?_entries (height level count position : Nat) (inside : position < height) :
    (entries combine leaf height level count)[position]? =
      some (if count / 2 ^ position % 2 = 1 then
        some (nodeHash combine leaf (level + position) (count / 2 ^ position - 1)) else none) := by
  induction height generalizing level count position with
  | zero => omega
  | succ height ih =>
      cases position with
      | zero => simp [entries]
      | succ position =>
          rw [entries, List.getElem?_cons_succ, ih _ _ _ (by omega), pow_succ',
            Nat.div_div_eq_div_mul, show level + 1 + position = level + (position + 1) by omega]

/-- The entries do not read the leaves behind their nodes. -/
theorem entries_congr {first second : Nat → Hash} (height level count : Nat)
    (same : ∀ position < count * 2 ^ level, first position = second position) :
    entries combine first height level count = entries combine second height level count := by
  induction height generalizing level count with
  | zero => rfl
  | succ height ih =>
      have lower : count / 2 * 2 ^ (level + 1) ≤ count * 2 ^ level := by
        rw [pow_succ', ← mul_assoc]
        exact Nat.mul_le_mul_right _ (Nat.div_mul_le_self count 2)
      rw [entries, entries, ih _ _ fun position inside => same position (by omega)]
      congr 1
      split
      next odd =>
        rw [nodeHash_congr combine level (count - 1)]
        intro position _ upper
        rw [Nat.sub_add_cancel (by omega)] at upper
        exact same position upper
      next => rfl

/-- The entries over one node more. -/
theorem carryInto_entries (height level count : Nat) (room : count < 2 ^ height) :
    carryInto combine (entries combine leaf height level count)
      (nodeHash combine leaf level count) =
      entries combine leaf (if count + 1 < 2 ^ height then height else height + 1) level
        (count + 1) := by
  induction height generalizing level count with
  | zero =>
      have zero : count = 0 := by simpa using room
      subst zero
      rfl
  | succ height ih =>
      rw [pow_succ] at room
      by_cases odd : count % 2 = 1
      · have half : (count + 1) / 2 = count / 2 + 1 := by omega
        have parent : combine (nodeHash combine leaf level (count - 1))
            (nodeHash combine leaf level count) = nodeHash combine leaf (level + 1) (count / 2) := by
          rw [nodeHash_parent, if_pos odd]
        have heights : (if count + 1 < 2 ^ (height + 1) then height + 1 else height + 1 + 1) =
            (if count / 2 + 1 < 2 ^ height then height else height + 1) + 1 := by
          rw [pow_succ]
          split <;> split <;> omega
        rw [heights, entries, entries, if_pos odd, if_neg (by omega), carryInto, parent, half,
          ih (level + 1) (count / 2) (by omega)]
      · have half : (count + 1) / 2 = count / 2 := by omega
        rw [if_pos (by rw [pow_succ]; omega), entries, entries, if_neg odd, if_pos (by omega),
          carryInto, half, Nat.add_sub_cancel]

/-- The fill stands for the nodes that the leaves do not reach. -/
theorem nodeHash_fill {fill : Hash} {count : Nat}
    (rest : ∀ position, count ≤ position → leaf position = fill) (level index : Nat)
    (behind : count ≤ index * 2 ^ level) :
    nodeHash combine leaf level index = fillHash combine fill level := by
  induction level generalizing index with
  | zero => exact rest index (by simpa using behind)
  | succ level ih =>
      have wide : index * 2 ^ (level + 1) = 2 * index * 2 ^ level := by
        rw [pow_succ]
        ring
      rw [wide] at behind
      rw [nodeHash_succ, ih _ behind, ih _ (by
        apply behind.trans
        exact Nat.mul_le_mul_right _ (by omega))]
      rfl

/-- The walk from the right end reaches the root of the leaves with their fill. -/
theorem foldRoot_entries {fill : Hash} {total : Nat}
    (rest : ∀ position, total ≤ position → leaf position = fill) (height level count : Nat)
    (reached : total < (count + 1) * 2 ^ level) :
    foldRoot combine (entries combine leaf height level count) (nodeHash combine leaf level count)
      (fillHash combine fill level) =
      nodeHash combine leaf (level + height) (count / 2 ^ height) := by
  induction height generalizing level count with
  | zero => simp [entries, foldRoot]
  | succ height ih =>
      have above : total < (count / 2 + 1) * 2 ^ (level + 1) := by
        apply reached.trans_le
        rw [pow_succ', ← mul_assoc]
        exact Nat.mul_le_mul_right _ (by omega)
      have target : level + (height + 1) = level + 1 + height := by omega
      rw [entries, target, pow_succ', ← Nat.div_div_eq_div_mul, ← ih (level + 1) (count / 2) above,
        nodeHash_parent]
      by_cases odd : count % 2 = 1
      · rw [if_pos odd, if_pos odd]
        rfl
      · rw [if_neg odd, if_neg odd, nodeHash_fill combine leaf rest level (count + 1) reached.le]
        rfl

/-- No node is there, so no entry is. -/
theorem entries_zero (height level : Nat) :
    entries combine leaf height level 0 = List.replicate height none := by
  induction height generalizing level with
  | zero => rfl
  | succ height ih => rw [entries, Nat.zero_div, ih, List.replicate_succ, if_neg (by omega)]

end Frontier

section Siblings

variable {Hash : Type} (combine : Hash → Hash → Hash) (leaf : Nat → Hash)

/-- The node beside another. -/
theorem sibling_eq (index : Nat) :
    index ^^^ 1 = if index % 2 = 1 then index - 1 else index + 1 := by
  split
  next odd => exact Nat.xor_one_of_odd (Nat.odd_iff.mpr odd)
  next even => exact Nat.xor_one_of_even (Nat.even_iff.mpr (by omega))

/-- One more level adds the sibling of the ancestor. -/
theorem siblingsOf_snoc (level index count : Nat) :
    siblingsOf combine leaf level index (count + 1) =
      siblingsOf combine leaf level index count ++
        [nodeHash combine leaf (level + count) ((index / 2 ^ count) ^^^ 1)] := by
  induction count generalizing level index with
  | zero => simp [siblingsOf, sibling_eq]
  | succ count ih =>
      rw [siblingsOf, ih, siblingsOf, pow_succ', ← Nat.div_div_eq_div_mul,
        show level + 1 + count = level + (count + 1) by omega]
      rfl

theorem getElem?_siblingsOf (level index count position : Nat) (inside : position < count) :
    (siblingsOf combine leaf level index count)[position]? =
      some (nodeHash combine leaf (level + position) ((index / 2 ^ position) ^^^ 1)) := by
  induction count with
  | zero => omega
  | succ count ih =>
      rw [siblingsOf_snoc]
      by_cases last : position = count
      · subst last
        rw [List.getElem?_append_right (by simp)]
        simp
      · rw [List.getElem?_append_left (by simp; omega)]
        exact ih (by omega)

end Siblings

end Merkle
