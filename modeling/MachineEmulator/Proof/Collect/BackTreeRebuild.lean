/-
This file proves that a back tree that is rebuilt from its packed context answers every sequence of
calls as the tree itself does.
-/

import MachineEmulator.Proof.Collect.BackTreeLeaves
import MachineEmulator.Proof.Json.RoundTrip

namespace MachineEmulator.Collect.BackMerkleTree

open Json (MachineHash makeBackTree unpack Reached)
open Merkle
open StepLog (HashFunctionType)

section Calls

variable {Hash : Type} [Inhabited Hash] (hashers : HashFunctionType → Hasher Hash)

/-- What a caller sees of a call and of the tree after it. -/
structure Observed (Hash : Type) where
  outcome : Except Failure Unit
  leafCount : Nat
  remaining : Nat
  full : Bool
  empty : Bool
  context : List Hash
  rootHash : Except Failure Hash

def observe (result : Except Failure Unit × BackMerkleTree Hash) : Observed Hash :=
  ⟨result.1, result.2.leafCount, result.2.getRemainingLeafCount, result.2.full, result.2.empty,
    result.2.getContext, result.2.getRootHash⟩

/-- What a caller sees of a sequence of calls, also of those after a call that throws. -/
def trace : List (Call Hash) → BackMerkleTree Hash → List (Observed Hash)
  | [], _ => []
  | call :: rest, tree =>
      let result := tree.perform hashers call
      observe result :: trace rest result.2

/-- Two calls with one outcome and two trees that stay the same. -/
structure Alike (first second : Except Failure Unit × BackMerkleTree Hash) : Prop where
  outcome : first.1 = second.1
  same : first.2.Same second.2
  small : first.2.log2MaxLeaves < 64
  within : first.2.leafCount ≤ first.2.getMaxLeaves

omit [Inhabited Hash] in
theorem Alike.observe {first second : Except Failure Unit × BackMerkleTree Hash}
    (alike : Alike first second) :
    BackMerkleTree.observe first = BackMerkleTree.observe second := by
  rw [BackMerkleTree.observe, BackMerkleTree.observe, alike.outcome, alike.same.full,
    alike.same.empty, alike.same.getContext, alike.same.getRootHash alike.within,
    getRemainingLeafCount, getRemainingLeafCount, getMaxLeaves, getMaxLeaves,
    alike.same.log2MaxLeaves, alike.same.leafCount]

variable {first second : BackMerkleTree Hash} (same : first.Same second)
  (small : first.log2MaxLeaves < 64) (within : first.leafCount ≤ first.getMaxLeaves)

include same small within

theorem Same.padBackInPlace (padHashes : List Hash) (newLeafCount : Nat) :
    Alike (first.padBackInPlace hashers padHashes newLeafCount)
      (second.padBackInPlace hashers padHashes newLeafCount) := by
  have sameMax : second.getMaxLeaves = first.getMaxLeaves := by
    rw [getMaxLeaves, getMaxLeaves, same.log2MaxLeaves]
  have limit : first.getMaxLeaves ≤ 2 ^ 63 := Nat.pow_le_pow_right (by decide) (by omega)
  by_cases none : newLeafCount = 0
  · rw [BackMerkleTree.padBackInPlace, BackMerkleTree.padBackInPlace, if_pos none, if_pos none]
    exact ⟨rfl, same, small, within⟩
  by_cases many : first.getMaxLeaves < newLeafCount ∨
      first.getMaxLeaves < (first.leafCount + newLeafCount) % 2 ^ 64
  · rw [BackMerkleTree.padBackInPlace, BackMerkleTree.padBackInPlace, if_neg none, if_neg none,
      sameMax, ← same.leafCount, if_pos many, if_pos many]
    exact ⟨rfl, same, small, within⟩
  by_cases size : padHashes.length = first.log2MaxLeaves + 1
  · by_cases fits : first.leafCount + newLeafCount ≤ first.getMaxLeaves
    · obtain ⟨firstTree, secondTree, one, two, agree, count, height⟩ :=
        same.padBack_of_le hashers padHashes small fits size
      rw [padBack_eq_inPlace] at one two
      generalize first.padBackInPlace hashers padHashes newLeafCount = left at one ⊢
      generalize second.padBackInPlace hashers padHashes newLeafCount = right at two ⊢
      obtain ⟨leftAnswer, leftTree⟩ := left
      obtain ⟨rightAnswer, rightTree⟩ := right
      cases leftAnswer with
      | error failure => cases one
      | ok _ =>
          cases rightAnswer with
          | error failure => cases two
          | ok _ =>
              cases one
              cases two
              refine ⟨rfl, agree, height ▸ small, ?_⟩
              rw [count, getMaxLeaves, height]
              exact fits
    · have count : first.leafCount = 2 ^ 63 ∧ newLeafCount = 2 ^ 63 := by omega
      have height : first.log2MaxLeaves = 63 := by
        have reached : 2 ^ 63 ≤ 2 ^ first.log2MaxLeaves := by
          rw [← count.1]
          exact within
        have above := (Nat.pow_le_pow_iff_right (by decide)).mp reached
        omega
      rw [count.2, padBackInPlace_wraps hashers padHashes first height count.1 size,
        padBackInPlace_wraps hashers padHashes second (same.log2MaxLeaves ▸ height)
          (same.leafCount ▸ count.1) (same.log2MaxLeaves ▸ size)]
      exact ⟨rfl, same_of_empty same.log2MaxLeaves same.hashFunction rfl rfl, small,
        Nat.zero_le _⟩
  · rw [BackMerkleTree.padBackInPlace, BackMerkleTree.padBackInPlace, if_neg none, if_neg none,
      sameMax, ← same.leafCount, if_neg many, if_neg many, ← same.log2MaxLeaves, if_pos size,
      if_pos size]
    exact ⟨rfl, same, small, within⟩

/-- A call ends the same on two trees that are the same. -/
theorem Same.perform (call : Call Hash) :
    Alike (first.perform hashers call) (second.perform hashers call) := by
  cases call with
  | pushBack newLeafHash =>
      rw [BackMerkleTree.perform, BackMerkleTree.perform]
      by_cases room : first.leafCount < first.getMaxLeaves
      · obtain ⟨firstPushed, secondPushed, one, two, agree, count, height, -⟩ :=
          same.pushBack hashers newLeafHash room
        rw [one, two]
        refine ⟨rfl, agree, height ▸ small, ?_⟩
        show firstPushed.leafCount ≤ firstPushed.getMaxLeaves
        rw [count, getMaxLeaves, height]
        exact room
      · have room' : ¬second.leafCount < second.getMaxLeaves := by
          rw [getMaxLeaves, ← same.leafCount, ← same.log2MaxLeaves]
          exact room
        rw [BackMerkleTree.pushBack, BackMerkleTree.pushBack, check, check, if_neg room,
          if_neg room']
        exact ⟨rfl, same, small, within⟩
  | padBack newLeafCount padHashes =>
      exact same.padBackInPlace hashers small within padHashes newLeafCount
  | clear => exact ⟨rfl, same.clear, small, Nat.zero_le _⟩

/-- Sequences of calls look the same on two trees that are the same. -/
theorem Same.trace (calls : List (Call Hash)) :
    BackMerkleTree.trace hashers calls first = BackMerkleTree.trace hashers calls second := by
  induction calls generalizing first second with
  | nil => rfl
  | cons call calls ih =>
      have alike := same.perform hashers small within call
      rw [BackMerkleTree.trace, BackMerkleTree.trace, alike.observe,
        ih alike.same alike.small alike.within]

end Calls

section Contexts

/-- The number of subtrees that a leaf count stands for. -/
def subtreeCount (leafCount : Word) : Nat :=
  (List.range 64).countP fun level => leafCount.getLsbD level

/-- The unpacking takes one hash for each bit and throws when there are too few of them. -/
theorem unpack_eq (leafCount : Nat) (levels : List Nat) (context : List MachineHash)
    (start : Nat → MachineHash) :
    if levels.countP leafCount.testBit ≤ context.length then
      ∃ unpacked, unpack leafCount levels context start =
        .ok (unpacked, context.drop (levels.countP leafCount.testBit))
    else
      unpack leafCount levels context start =
        .error (.outOfRange "leaves context is incompatible") := by
  induction levels generalizing context start with
  | nil => exact ⟨start, rfl⟩
  | cons level levels ih =>
      by_cases set : leafCount.testBit level = true
      · rw [List.countP_cons_of_pos set]
        cases context with
        | nil => simp [unpack, set]
        | cons hash context =>
            have rest := ih context (Function.update start level hash)
            simpa [unpack, set] using rest
      · rw [List.countP_cons_of_neg set]
        simpa [unpack, set] using ih context start

theorem subtreeCount_eq {leafCount : Word} {height : Nat} (small : height < 64)
    (room : leafCount.toNat < 2 ^ height) :
    (List.range (height + 1)).countP leafCount.toNat.testBit = subtreeCount leafCount := by
  have parts : List.range 64 = List.range (height + 1) ++
      (List.range (63 - height)).map (height + 1 + ·) := by
    rw [← List.range_add]
    congr 1
    omega
  rw [subtreeCount, parts, List.countP_append, List.countP_map]
  have none : (List.range (63 - height)).countP
      ((fun level => leafCount.getLsbD level) ∘ fun level => height + 1 + level) = 0 := by
    apply List.countP_eq_zero.mpr
    intro level _ set
    have clear : leafCount.toNat.testBit (height + 1 + level) = false :=
      testBit_false_of_le room (by omega)
    rw [Function.comp_apply, BitVec.getLsbD, clear] at set
    exact absurd set (by simp)
  rw [none]
  rfl

/-- The constructor takes a context exactly when it has one hash for each subtree of a leaf count
below the maximum. -/
theorem makeBackTree_ok_iff (log2MaxLeaves : Int) (hashFunction : HashFunctionType)
    (leafCount : Word) (context : List MachineHash) :
    (∃ tree, makeBackTree log2MaxLeaves hashFunction leafCount context = .ok tree) ↔
      0 ≤ log2MaxLeaves ∧ log2MaxLeaves < 64 ∧ leafCount.toNat < 2 ^ log2MaxLeaves.toNat ∧
        context.length = subtreeCount leafCount := by
  constructor
  · rintro ⟨tree, made⟩
    rw [makeBackTree] at made
    obtain ⟨_, _, made⟩ := bind_ok.mp made
    obtain ⟨_, positive, made⟩ := bind_ok.mp made
    obtain ⟨_, small, made⟩ := bind_ok.mp made
    obtain ⟨_, room, made⟩ := bind_ok.mp made
    obtain ⟨⟨unpacked, rest⟩, ran, made⟩ := bind_ok.mp made
    obtain ⟨_, consumed, _⟩ := bind_ok.mp made
    have positive := Json.demand_ok.mp positive
    have small := Json.demand_ok.mp small
    have room := Json.demand_ok.mp room
    obtain rfl := Json.demand_ok.mp consumed
    refine ⟨positive, small, room, ?_⟩
    have spec := unpack_eq leafCount.toNat (List.range (log2MaxLeaves.toNat + 1)) context
      fun _ => Vector.replicate 32 0
    rw [subtreeCount_eq (by omega) room] at spec
    split at spec
    · obtain ⟨_, ran'⟩ := spec
      rw [ran, Except.ok.injEq, Prod.mk.injEq] at ran'
      have left := congrArg List.length ran'.2
      rw [List.length_drop, List.length_nil] at left
      omega
    · rw [ran] at spec
      cases spec
  · rintro ⟨positive, small, room, size⟩
    have notMax : log2MaxLeaves ≠ Json.intMax := by
      simp only [Json.intMax]
      omega
    have spec := unpack_eq leafCount.toNat (List.range (log2MaxLeaves.toNat + 1)) context
      fun _ => Vector.replicate 32 0
    rw [subtreeCount_eq (by omega) room, if_pos size.ge, ← size, List.drop_length] at spec
    obtain ⟨unpacked, ran⟩ := spec
    refine ⟨⟨log2MaxLeaves.toNat, hashFunction, leafCount.toNat, unpacked⟩, ?_⟩
    exact bind_ok.mpr ⟨(), Json.demand_ok.mpr notMax, bind_ok.mpr ⟨(),
      Json.demand_ok.mpr positive, bind_ok.mpr ⟨(), Json.demand_ok.mpr small,
      bind_ok.mpr ⟨(), Json.demand_ok.mpr room, bind_ok.mpr ⟨(unpacked, []), ran,
      bind_ok.mpr ⟨(), Json.demand_ok.mpr rfl, rfl⟩⟩⟩⟩⟩⟩

end Contexts

section Correctness

variable (hashers : HashFunctionType → Hasher MachineHash)

/-- A new tree takes every sequence of leaves that fits. It is full exactly when it has received
all of its leaves, and its root is then the root of the hash tree over them. -/
def FillsToRoot : Prop :=
  ∀ (log2MaxLeaves : Nat) (hashFunction : HashFunctionType) (appended : List (Leaves MachineHash)),
    log2MaxLeaves < 64 → (appended.flatMap Leaves.toList).length ≤ 2 ^ log2MaxLeaves →
      ∃ new tree, makeBackTree log2MaxLeaves hashFunction 0 [] = .ok new ∧
        appendLeaves hashers appended new = .ok tree ∧
        tree.leafCount = (appended.flatMap Leaves.toList).length ∧
        (tree.full = true ↔ (appended.flatMap Leaves.toList).length = 2 ^ log2MaxLeaves) ∧
        (tree.full = true → tree.getRootHash =
          .ok (nodeHash (hashers hashFunction).concatHash
            (leafAt (appended.flatMap Leaves.toList)) log2MaxLeaves 0))

/-- A tree that is not full is rebuilt from its logarithm, its leaf count and its packed context,
and the rebuilt tree answers every sequence of calls as the tree does. -/
def RebuildsAlike : Prop :=
  ∀ tree, Reached hashers tree → tree.full = false →
    ∃ rebuilt, makeBackTree tree.log2MaxLeaves tree.hashFunction (BitVec.ofNat 64 tree.leafCount)
        tree.getContext = .ok rebuilt ∧
      ∀ calls, trace hashers calls rebuilt = trace hashers calls tree

/-- A context of another size than the leaf count asks for is rejected. -/
def RejectsWrongSizes : Prop :=
  ∀ (log2MaxLeaves : Int) (hashFunction : HashFunctionType) (leafCount : Word)
    (context : List MachineHash), context.length ≠ subtreeCount leafCount →
      ∀ tree, makeBackTree log2MaxLeaves hashFunction leafCount context ≠ .ok tree

theorem fillsToRoot : FillsToRoot hashers := by
  intro log2MaxLeaves hashFunction appended small room
  obtain ⟨new, made⟩ := (makeBackTree_ok_iff log2MaxLeaves hashFunction 0 []).mpr
    ⟨by omega, by omega, by simp, rfl⟩
  have empty : new.log2MaxLeaves = log2MaxLeaves ∧ new.hashFunction = hashFunction ∧
      new.leafCount = 0 := by
    rw [makeBackTree] at made
    obtain ⟨_, _, made⟩ := bind_ok.mp made
    obtain ⟨_, _, made⟩ := bind_ok.mp made
    obtain ⟨_, _, made⟩ := bind_ok.mp made
    obtain ⟨_, _, made⟩ := bind_ok.mp made
    obtain ⟨⟨unpacked, rest⟩, _, made⟩ := bind_ok.mp made
    obtain ⟨_, _, made⟩ := bind_ok.mp made
    obtain rfl := Except.ok.inj made
    exact ⟨rfl, rfl, rfl⟩
  obtain ⟨height, function, count⟩ := empty
  have start : Built hashers [] new := by
    refine ⟨count, ?_⟩
    intro level set
    rw [count] at set
    simp at set
  obtain ⟨tree, ran, built, height', function'⟩ := start.appendLeaves hashers (height ▸ small)
    appended (by rw [List.length_nil, Nat.zero_add, getMaxLeaves, height]; exact room)
  rw [List.nil_append] at built
  have total := built.leafCount
  have max : tree.getMaxLeaves = 2 ^ log2MaxLeaves := by rw [getMaxLeaves, height', height]
  have filled : tree.full = true ↔
      (appended.flatMap Leaves.toList).length = 2 ^ log2MaxLeaves := by
    rw [BackMerkleTree.full, decide_eq_true_eq, max, total]
    omega
  refine ⟨new, tree, made, ran, total, filled, ?_⟩
  intro full
  have root := built.root hashers ((filled.mp full).trans max.symm)
  rw [height', height, function', function] at root
  exact root

theorem rebuildsAlike : RebuildsAlike hashers := by
  intro tree reached notFull
  have fits := Json.reached_fits reached
  have room : tree.leafCount < tree.getMaxLeaves := by
    rw [BackMerkleTree.full, decide_eq_false_iff_not] at notFull
    omega
  obtain ⟨rebuilt, made, same⟩ := Json.makeBackTree_packed fits.levels room
  refine ⟨rebuilt, made, ?_⟩
  intro calls
  apply same.trace hashers
  · rw [same.log2MaxLeaves]
    exact fits.levels
  · rw [same.leafCount, getMaxLeaves, same.log2MaxLeaves]
    exact fits.leaves

theorem rejectsWrongSizes : RejectsWrongSizes := by
  intro log2MaxLeaves hashFunction leafCount context wrong tree made
  have parts := (makeBackTree_ok_iff log2MaxLeaves hashFunction leafCount context).mp ⟨tree, made⟩
  exact wrong parts.2.2.2

/-- A back tree fills to the root of its leaves, can be rebuilt at every point before that, and
rejects a context of the wrong size. -/
theorem backTree_fills_and_rebuilds :
    FillsToRoot hashers ∧ RebuildsAlike hashers ∧ RejectsWrongSizes :=
  ⟨fillsToRoot hashers, rebuildsAlike hashers, rejectsWrongSizes⟩

end Correctness

end MachineEmulator.Collect.BackMerkleTree
