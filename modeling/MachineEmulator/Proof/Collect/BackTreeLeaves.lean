/-
This file proves that a back tree holds the nodes of one hash tree over the leaves that it received,
whether they were pushed or padded.
-/

import MachineEmulator.Proof.Collect.BackTreePadding

namespace MachineEmulator.Collect.BackMerkleTree

open Merkle
open StepLog (HashFunctionType)

variable {Hash : Type}

section Holds

/-- The context holds the nodes over the first leaves that the bits of the leaf count stand for. -/
def Holds (combine : Hash → Hash → Hash) (leaf : Nat → Hash) (leafCount : Nat)
    (context : Nat → Hash) : Prop :=
  ∀ level, leafCount.testBit level = true →
    context level = nodeHash combine leaf level (leafCount / 2 ^ level - 1)

variable {combine : Hash → Hash → Hash} {leaf : Nat → Hash} {leafCount : Nat}
  {context : Nat → Hash}

/-- The nodes do not read the leaves behind the last one. -/
theorem Holds.congr {other : Nat → Hash} (holds : Holds combine leaf leafCount context)
    (same : ∀ position < leafCount, leaf position = other position) :
    Holds combine other leafCount context := by
  intro level set
  rw [holds level set]
  apply nodeHash_congr
  intro position _ upper
  have reached : 1 ≤ leafCount / 2 ^ level :=
    (Nat.one_le_div_iff (by positivity)).mpr (Nat.ge_two_pow_of_testBit set)
  rw [Nat.sub_add_cancel reached] at upper
  exact same position (upper.trans_le (Nat.div_mul_le_self _ _))

/-- The loop gives the node that ends with the new one at the level where it stops. -/
theorem Holds.carry (holds : Holds combine leaf leafCount context) {steps level next : Nat}
    {hash : Hash}
    (carried : BackMerkleTree.carry combine leafCount context steps level
      (nodeHash combine leaf level (leafCount / 2 ^ level)) = some (next, hash)) :
    hash = nodeHash combine leaf next (leafCount / 2 ^ next) := by
  induction steps generalizing level with
  | zero => simp [BackMerkleTree.carry] at carried
  | succ steps ih =>
      rw [BackMerkleTree.carry] at carried
      split at carried
      · rename_i set
        have odd : leafCount / 2 ^ level % 2 = 1 := by
          rw [Nat.testBit_eq_decide_div_mod_eq] at set
          exact of_decide_eq_true set
        have parent := nodeHash_parent combine leaf level (leafCount / 2 ^ level)
        rw [if_pos odd, Nat.div_div_eq_div_mul, ← pow_succ] at parent
        rw [holds level set, ← parent] at carried
        exact ih carried
      · cases carried
        rfl

/-- A push keeps the nodes that are left and adds the one that ends with the new leaf. -/
theorem Holds.push (holds : Holds combine leaf leafCount context) {steps next : Nat} {hash : Hash}
    (carried : BackMerkleTree.carry combine leafCount context steps 0 (leaf leafCount) =
      some (next, hash)) :
    Holds combine leaf (leafCount + 1) (Function.update context next hash) := by
  have start : leaf leafCount = nodeHash combine leaf 0 (leafCount / 2 ^ 0) := by
    rw [pow_zero, Nat.div_one, nodeHash_zero]
  have stored := holds.carry (start ▸ carried)
  obtain ⟨_, clear, ones⟩ := carry_some carried
  have bits := BinaryCounter.testBit_add_carry (Nat.zero_le next) ones clear
  rw [pow_zero] at bits
  have low : ∀ position < next, (leafCount + 1).testBit position = false := by
    intro position below
    rw [bits, if_pos ⟨Nat.zero_le _, below⟩]
  intro level set
  by_cases here : level = next
  · rw [here, Function.update_self, stored,
      Nat.succ_div_of_dvd (BinaryCounter.dvd_of_low low), Nat.add_sub_cancel]
  · rw [bits] at set
    split at set
    · exact absurd set (by simp)
    · rename_i above
      have kept : leafCount.testBit level = true := by simpa [here] using set
      have apart : ¬2 ^ level ∣ leafCount + 1 := by
        intro multiple
        have unset := BinaryCounter.low_of_dvd multiple (show next < level by omega)
        rw [bits next, if_neg (by omega)] at unset
        simp at unset
      rw [Function.update_of_ne here, holds level kept, Nat.succ_div_of_not_dvd apart]

end Holds

variable [Inhabited Hash] (hashers : HashFunctionType → Hasher Hash)

section Built

/-- The leaf at an index of a sequence. -/
def leafAt (leaves : List Hash) (index : Nat) : Hash := leaves[index]?.getD default

/-- A tree that has received a sequence of leaves. -/
structure Built (leaves : List Hash) (tree : BackMerkleTree Hash) : Prop where
  leafCount : tree.leafCount = leaves.length
  holds : Holds (hashers tree.hashFunction).concatHash (leafAt leaves) tree.leafCount tree.context

theorem Built.same {leaves : List Hash} {first second : BackMerkleTree Hash}
    (built : Built hashers leaves first) (same : first.Same second) :
    Built hashers leaves second where
  leafCount := same.leafCount.symm.trans built.leafCount
  holds level set := by
    have here : first.leafCount.testBit level = true := by
      rw [same.leafCount]
      exact set
    rw [← same.context level here, built.holds level here, same.hashFunction, same.leafCount]

theorem leafAt_append (more : List Hash) {leaves : List Hash} {position : Nat}
    (inside : position < leaves.length) :
    leafAt leaves position = leafAt (leaves ++ more) position := by
  rw [leafAt, leafAt, List.getElem?_append_left inside]

/-- A push adds its leaf to the sequence. -/
theorem Built.pushBack {leaves : List Hash} {tree : BackMerkleTree Hash}
    (built : Built hashers leaves tree) (leaf : Hash) (room : tree.leafCount < tree.getMaxLeaves) :
    ∃ pushed, tree.pushBack hashers leaf = .ok pushed ∧ Built hashers (leaves ++ [leaf]) pushed := by
  obtain ⟨next, hash, carried, pushed⟩ := tree.pushBack_eq hashers leaf room
  refine ⟨_, pushed, ?_, ?_⟩
  · show tree.leafCount + 1 = _
    rw [List.length_append, built.leafCount, List.length_singleton]
  · have last : leafAt (leaves ++ [leaf]) tree.leafCount = leaf := by
      simp [leafAt, built.leafCount]
    have holds := built.holds.congr fun position inside =>
      leafAt_append [leaf] (built.leafCount ▸ inside)
    rw [carryFrom, ← last] at carried
    exact holds.push carried

/-- Successive pushes add their leaves to the sequence. -/
theorem Built.pushEach {leaves : List Hash} {tree : BackMerkleTree Hash}
    (built : Built hashers leaves tree) (more : List Hash)
    (room : tree.leafCount + more.length ≤ tree.getMaxLeaves) :
    ∃ pushed, BackMerkleTree.pushEach hashers more tree = .ok pushed ∧
      Built hashers (leaves ++ more) pushed := by
  induction more generalizing leaves tree with
  | nil => exact ⟨tree, rfl, by simpa using built⟩
  | cons leaf more ih =>
      rw [List.length_cons] at room
      obtain ⟨pushed, one, after⟩ := built.pushBack hashers leaf (by omega)
      obtain ⟨next, hash, carried, stored⟩ := tree.pushBack_eq hashers leaf (by omega)
      have fits : pushed.leafCount + more.length ≤ pushed.getMaxLeaves := by
        rw [stored, Except.ok.injEq] at one
        rw [← one]
        show tree.leafCount + 1 + more.length ≤ tree.getMaxLeaves
        omega
      obtain ⟨whole, rest, built'⟩ := ih after fits
      refine ⟨whole, ?_, ?_⟩
      · rw [BackMerkleTree.pushEach, one]
        exact rest
      · rw [List.append_assoc] at built'
        exact built'

/-- A full tree has the root of its leaves. -/
theorem Built.root {leaves : List Hash} {tree : BackMerkleTree Hash}
    (built : Built hashers leaves tree) (filled : leaves.length = tree.getMaxLeaves) :
    tree.getRootHash =
      .ok (nodeHash (hashers tree.hashFunction).concatHash (leafAt leaves) tree.log2MaxLeaves 0) := by
  have count : tree.leafCount = 2 ^ tree.log2MaxLeaves := built.leafCount.trans filled
  have top := built.holds tree.log2MaxLeaves (by simp [count])
  have reached : tree.full = true := by simp [full, getMaxLeaves, count]
  rw [getRootHash, check_pos reached, top, count, Nat.div_self (by positivity)]
  rfl

end Built

section Filling

/-- The leaves of a call: a new one, or a number of equal ones that are padded. -/
inductive Leaves (Hash : Type) where
  | push (leaf : Hash)
  | pad (newLeafCount : Nat) (leaf : Hash)

def Leaves.toList : Leaves Hash → List Hash
  | .push leaf => [leaf]
  | .pad newLeafCount leaf => List.replicate newLeafCount leaf

/-- The call that appends the leaves. -/
def Leaves.call (tree : BackMerkleTree Hash) : Leaves Hash → Call Hash
  | .push leaf => .pushBack leaf
  | .pad newLeafCount leaf =>
      .padBack newLeafCount (makePadHashes hashers leaf tree.log2MaxLeaves tree.hashFunction)

/-- The calls for a sequence of leaves, up to the first that throws. -/
def appendLeaves : List (Leaves Hash) → BackMerkleTree Hash →
    Except Failure (BackMerkleTree Hash)
  | [], tree => .ok tree
  | leaves :: rest, tree =>
      match tree.perform hashers (leaves.call hashers tree) with
      | (.ok (), next) => appendLeaves rest next
      | (.error failure, _) => .error failure

/-- A call for leaves that fit adds them to the sequence. -/
theorem Built.perform {leaves : List Hash} {tree : BackMerkleTree Hash}
    (built : Built hashers leaves tree) (small : tree.log2MaxLeaves < 64) (more : Leaves Hash)
    (room : leaves.length + more.toList.length ≤ tree.getMaxLeaves) :
    ∃ next, tree.perform hashers (more.call hashers tree) = (.ok (), next) ∧
      Built hashers (leaves ++ more.toList) next ∧ next.log2MaxLeaves = tree.log2MaxLeaves ∧
      next.hashFunction = tree.hashFunction := by
  rw [← built.leafCount] at room
  obtain ⟨pushed, again, one, _, _, _, height, function⟩ :=
    (Same.refl tree).pushEach hashers more.toList room
  obtain ⟨pushed', one', built'⟩ := built.pushEach hashers more.toList room
  rw [one, Except.ok.injEq] at one'
  subst one'
  cases more with
  | push leaf =>
      refine ⟨pushed, ?_, built', height, function⟩
      obtain ⟨next, stored, -⟩ := built.pushBack hashers leaf room
      rw [Leaves.toList, BackMerkleTree.pushEach, stored] at one
      obtain rfl : next = pushed := Except.ok.inj one
      rw [Leaves.call, BackMerkleTree.perform, stored]
  | pad newLeafCount leaf =>
      rw [Leaves.toList, List.length_replicate] at room
      obtain ⟨padded, pushed', ran, two, same⟩ :=
        padBack_pushTimes hashers tree leaf small room
      obtain rfl : pushed = pushed' := by
        rw [pushTimes] at two
        rw [Leaves.toList] at one
        exact Except.ok.inj (one.symm.trans two)
      refine ⟨padded, ?_, built'.same hashers same, same.log2MaxLeaves.symm.trans height,
        same.hashFunction.symm.trans function⟩
      rw [padBack_eq_inPlace] at ran
      rw [Leaves.call, BackMerkleTree.perform]
      generalize tree.padBackInPlace hashers (makePadHashes hashers leaf tree.log2MaxLeaves
        tree.hashFunction) newLeafCount = outcome at ran ⊢
      obtain ⟨answer, left⟩ := outcome
      cases answer with
      | error failure => cases ran
      | ok _ =>
          cases ran
          rfl

/-- Calls for leaves that fit give the tree over all of them. -/
theorem Built.appendLeaves {leaves : List Hash} {tree : BackMerkleTree Hash}
    (built : Built hashers leaves tree) (small : tree.log2MaxLeaves < 64)
    (more : List (Leaves Hash))
    (room : leaves.length + (more.flatMap Leaves.toList).length ≤ tree.getMaxLeaves) :
    ∃ next, BackMerkleTree.appendLeaves hashers more tree = .ok next ∧
      Built hashers (leaves ++ more.flatMap Leaves.toList) next ∧
      next.log2MaxLeaves = tree.log2MaxLeaves ∧ next.hashFunction = tree.hashFunction := by
  induction more generalizing leaves tree with
  | nil => exact ⟨tree, rfl, by simpa using built, rfl, rfl⟩
  | cons first more ih =>
      rw [List.flatMap_cons, List.length_append] at room
      obtain ⟨next, ran, after, height, function⟩ := built.perform hashers small first (by omega)
      have fits : (leaves ++ first.toList).length + (more.flatMap Leaves.toList).length ≤
          next.getMaxLeaves := by
        rw [List.length_append, getMaxLeaves, height]
        change _ ≤ tree.getMaxLeaves
        omega
      obtain ⟨last, rest, built', height', function'⟩ := ih after (height ▸ small) fits
      refine ⟨last, ?_, ?_, height'.trans height, function'.trans function⟩
      · rw [BackMerkleTree.appendLeaves, ran]
        exact rest
      · rw [List.flatMap_cons, ← List.append_assoc]
        exact built'

end Filling

end MachineEmulator.Collect.BackMerkleTree
