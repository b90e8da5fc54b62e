/-
This file proves that a pad of a back tree is the same as one push for each of its leaves.
-/

import MachineEmulator.Construction.SymbolicHasher
import MachineEmulator.Library.Frontier
import MachineEmulator.Proof.Collect.BackMerkleTree
import Mathlib.Data.List.Iterate

namespace MachineEmulator.Collect.BackMerkleTree

open Merkle
open StepLog (HashFunctionType)

section Pushes

variable {Hash : Type} (hashers : HashFunctionType → Hasher Hash)

/-- One push for each leaf, up to the first that fails. -/
def pushEach : List Hash → BackMerkleTree Hash → Except Failure (BackMerkleTree Hash)
  | [], tree => .ok tree
  | leaf :: rest, tree => do
      let pushed ← tree.pushBack hashers leaf
      pushEach rest pushed

/-- What is called `n` successive pushes of one leaf. -/
def pushTimes (newLeafCount : Nat) (leafHash : Hash) (tree : BackMerkleTree Hash) :
    Except Failure (BackMerkleTree Hash) :=
  pushEach hashers (List.replicate newLeafCount leafHash) tree

theorem pushEach_append (first second : List Hash) (tree : BackMerkleTree Hash) :
    pushEach hashers (first ++ second) tree =
      (pushEach hashers first tree >>= fun pushed => pushEach hashers second pushed) := by
  induction first generalizing tree with
  | nil => rfl
  | cons leaf first ih =>
      rw [List.cons_append, pushEach, pushEach, bind_assoc]
      congr 1
      funext pushed
      exact ih pushed

/-- Leaves that fit into a tree keep two trees the same. -/
theorem Same.pushEach {first second : BackMerkleTree Hash} (same : first.Same second)
    (leaves : List Hash) (room : first.leafCount + leaves.length ≤ first.getMaxLeaves) :
    ∃ firstTree secondTree, BackMerkleTree.pushEach hashers leaves first = .ok firstTree ∧
      BackMerkleTree.pushEach hashers leaves second = .ok secondTree ∧
      firstTree.Same secondTree ∧ firstTree.leafCount = first.leafCount + leaves.length ∧
      firstTree.log2MaxLeaves = first.log2MaxLeaves ∧
      firstTree.hashFunction = first.hashFunction := by
  induction leaves generalizing first second with
  | nil => exact ⟨first, second, rfl, rfl, same, rfl, rfl, rfl⟩
  | cons leaf leaves ih =>
      rw [List.length_cons] at room ⊢
      obtain ⟨firstPushed, secondPushed, one, two, agree, count, height, function⟩ :=
        same.pushBack hashers leaf (by omega)
      have fits : firstPushed.leafCount + leaves.length ≤ firstPushed.getMaxLeaves := by
        rw [count, getMaxLeaves, height]
        change _ ≤ first.getMaxLeaves
        omega
      obtain ⟨firstTree, secondTree, one', two', agree', count', height', function'⟩ := ih agree fits
      refine ⟨firstTree, secondTree, ?_, ?_, agree', by omega, height'.trans height,
        function'.trans function⟩
      · rw [BackMerkleTree.pushEach, one]
        exact one'
      · rw [BackMerkleTree.pushEach, two]
        exact two'

/-- Leaves that are pushed in two runs, the second of them on a tree that is the same. -/
theorem pushTimes_add {tree first mid second final : BackMerkleTree Hash} {leafHash : Hash}
    {taken rest : Nat} (pushed : pushTimes hashers taken leafHash tree = .ok first)
    (same : first.Same mid) (room : mid.leafCount + rest ≤ mid.getMaxLeaves)
    (stored : pushTimes hashers rest leafHash mid = .ok second) (same' : second.Same final) :
    ∃ whole, pushTimes hashers (taken + rest) leafHash tree = .ok whole ∧ whole.Same final := by
  have fits : first.leafCount + (List.replicate rest leafHash).length ≤ first.getMaxLeaves := by
    rw [List.length_replicate, same.leafCount, getMaxLeaves, same.log2MaxLeaves]
    exact room
  obtain ⟨whole, again, one, two, agree, -⟩ := same.pushEach hashers _ fits
  rw [pushTimes, two] at stored
  cases stored
  refine ⟨whole, ?_, agree.trans same'⟩
  rw [pushTimes, List.replicate_add, pushEach_append]
  show (pushTimes hashers taken leafHash tree >>= _) = _
  rw [pushed]
  exact one

/-- One of the leaves that do not fit is refused. -/
theorem pushEach_refused (tree : BackMerkleTree Hash) (leaves : List Hash)
    (within : tree.leafCount ≤ tree.getMaxLeaves)
    (beyond : tree.getMaxLeaves < tree.leafCount + leaves.length) :
    pushEach hashers leaves tree = .error .tooManyLeaves := by
  induction leaves generalizing tree with
  | nil => simp at beyond; omega
  | cons leaf leaves ih =>
      rw [List.length_cons] at beyond
      by_cases room : tree.leafCount < tree.getMaxLeaves
      · obtain ⟨next, hash, carried, pushed⟩ := tree.pushBack_eq hashers leaf room
        rw [pushEach, pushed]
        apply ih
        · exact room
        · show tree.getMaxLeaves < tree.leafCount + 1 + leaves.length
          omega
      · rw [pushEach, BackMerkleTree.pushBack, check, if_neg room]
        rfl

end Pushes

section PadHashes

variable {Hash : Type} (hashers : HashFunctionType → Hasher Hash)

theorem length_makePadHashes (leafHash : Hash) (log2MaxLeaves : Nat)
    (hashFunction : HashFunctionType) :
    (makePadHashes hashers leafHash log2MaxLeaves hashFunction).length = log2MaxLeaves + 1 :=
  List.length_iterate _ _ _

theorem iterate_fillHash (combine : Hash → Hash → Hash) (leafHash : Hash) (level : Nat) :
    (fun hash => combine hash hash)^[level] leafHash = fillHash combine leafHash level := by
  induction level with
  | zero => rfl
  | succ level ih => rw [Function.iterate_succ_apply', ih, fillHash]

/-- The pad hash of a level is the root of a subtree of equal leaves. -/
theorem makePadHashes_getElem [Inhabited Hash] (leafHash : Hash) {log2MaxLeaves level : Nat}
    (hashFunction : HashFunctionType) (inside : level ≤ log2MaxLeaves) :
    (makePadHashes hashers leafHash log2MaxLeaves hashFunction)[level]?.getD default =
      fillHash (hashers hashFunction).concatHash leafHash level := by
  rw [makePadHashes, List.getElem?_iterate _ _ _ _ (by omega), Option.getD_some, iterate_fillHash]

end PadHashes

section Block

variable {Hash : Type} {concatHash : Hash → Hash → Hash}

/-- The loop reads the tree only from its first level on. -/
theorem carry_congr_above {leafCount other : Nat} {context otherContext : Nat → Hash}
    (steps level : Nat) (right : Hash)
    (bits : ∀ position, level ≤ position → leafCount.testBit position = other.testBit position)
    (agree : ∀ position, level ≤ position → context position = otherContext position) :
    carry concatHash leafCount context steps level right =
      carry concatHash other otherContext steps level right := by
  induction steps generalizing level right with
  | zero => rfl
  | succ steps ih =>
      rw [carry, carry, bits level le_rfl, agree level le_rfl,
        ih (level + 1) _ (fun position above => bits position (by omega))
          fun position above => agree position (by omega)]

variable (hashers : HashFunctionType → Hasher Hash)

/-- A subtree that joins a tree with a subtree at its level goes on as one of twice the size. -/
theorem carryFrom_twice {tree : BackMerkleTree Hash} {level : Nat} (hash : Hash)
    (inside : level ≤ tree.log2MaxLeaves) (clear : tree.leafCount.testBit level = false) :
    (tree.storeCarry level level hash).carryFrom hashers level hash =
      tree.carryFrom hashers (level + 1)
        ((hashers tree.hashFunction).concatHash hash hash) := by
  have set : (tree.leafCount + 2 ^ level).testBit level = true := by
    rw [BinaryCounter.testBit_add_clear clear]
    simp
  have steps : tree.log2MaxLeaves + 1 - level = tree.log2MaxLeaves + 1 - (level + 1) + 1 := by
    omega
  show carry _ (tree.leafCount + 2 ^ level) (Function.update tree.context level hash)
    (tree.log2MaxLeaves + 1 - level) level hash = _
  rw [steps, carry, if_pos set, Function.update_self]
  apply carry_congr_above
  · intro position above
    rw [BinaryCounter.testBit_add_clear clear]
    simp [show position ≠ level by omega]
  · intro position above
    rw [Function.update_of_ne (by omega)]

/-- Two halves at a level make the subtree of the next level. -/
theorem storeCarry_twice {tree : BackMerkleTree Hash} {level next : Nat} {right hash : Hash}
    (half : Hash) (clear : tree.leafCount.testBit level = false)
    (carried : tree.carryFrom hashers (level + 1) right = some (next, hash)) :
    ((tree.storeCarry level level half).storeCarry level next hash).Same
      (tree.storeCarry (level + 1) next hash) := by
  have double : tree.leafCount + 2 ^ level + 2 ^ level = tree.leafCount + 2 ^ (level + 1) := by
    ring
  refine ⟨rfl, rfl, double, ?_⟩
  intro position set
  change (tree.leafCount + 2 ^ level + 2 ^ level).testBit position = true at set
  obtain ⟨up, unset, ones⟩ := carry_some carried
  have other : position ≠ level := by
    rintro rfl
    rw [double, BinaryCounter.testBit_add_carry up ones unset, if_neg (by omega), clear] at set
    simp at set
    omega
  show Function.update (Function.update tree.context level half) next hash position =
    Function.update tree.context next hash position
  by_cases here : position = next
  · rw [here, Function.update_self, Function.update_self]
  · rw [Function.update_of_ne here, Function.update_of_ne here, Function.update_of_ne other]

/-- A tree without subtrees below a level takes as many equal leaves as a subtree of this level has
as that subtree. -/
theorem pushTimes_block (tree : BackMerkleTree Hash) (leafHash : Hash) (level : Nat)
    (room : tree.leafCount + 2 ^ level ≤ tree.getMaxLeaves)
    (low : ∀ position < level, tree.leafCount.testBit position = false) :
    ∃ next hash pushed,
      tree.carryFrom hashers level
        (fillHash (hashers tree.hashFunction).concatHash leafHash level) = some (next, hash) ∧
      pushTimes hashers (2 ^ level) leafHash tree = .ok pushed ∧
      pushed.Same (tree.storeCarry level next hash) := by
  induction level generalizing tree with
  | zero =>
      obtain ⟨next, hash, carried, pushed⟩ :=
        tree.pushBack_eq hashers leafHash (by simp at room; omega)
      refine ⟨next, hash, _, carried, ?_, Same.refl _⟩
      show (tree.pushBack hashers leafHash >>= fun pushed => pushEach hashers [] pushed) = _
      rw [pushed]
      rfl
  | succ level ih =>
      have positive : 0 < 2 ^ level := by positivity
      have double : 2 ^ (level + 1) = 2 ^ level + 2 ^ level := by ring
      have clear := low level (by omega)
      have inside : level ≤ tree.log2MaxLeaves := by
        have fits : 2 ^ level ≤ 2 ^ tree.log2MaxLeaves := by
          rw [getMaxLeaves] at room
          omega
        exact (Nat.pow_le_pow_iff_right (by decide)).mp fits
      -- The first half stands at the level itself, and the second half is joined to it.
      obtain ⟨next, hash, half, carried, pushed, same⟩ :=
        ih tree (by omega) fun position below => low position (by omega)
      rw [carryFrom, show tree.log2MaxLeaves + 1 - level = tree.log2MaxLeaves - level + 1 by omega,
        carry, if_neg (by simp [clear])] at carried
      cases carried
      generalize filled : fillHash (hashers tree.hashFunction).concatHash leafHash level = fill at *
      have below : ∀ position < level,
          (tree.storeCarry level level fill).leafCount.testBit position = false := by
        intro position inside
        show (tree.leafCount + 2 ^ level).testBit position = false
        rw [BinaryCounter.testBit_add_clear clear, low position (by omega)]
        simp [inside.ne]
      have rest : (tree.storeCarry level level fill).leafCount + 2 ^ level ≤ tree.getMaxLeaves := by
        show tree.leafCount + 2 ^ level + 2 ^ level ≤ tree.getMaxLeaves
        omega
      obtain ⟨next, hash, whole, carried, stored, same'⟩ := ih _ rest below
      change (tree.storeCarry level level fill).carryFrom hashers level
        (fillHash (hashers tree.hashFunction).concatHash leafHash level) = _ at carried
      rw [filled, carryFrom_twice hashers fill inside clear] at carried
      obtain ⟨pushedWhole, one, agree⟩ := pushTimes_add hashers pushed same rest stored same'
      refine ⟨next, hash, pushedWhole, ?_, ?_, ?_⟩
      · rw [fillHash, filled]
        exact carried
      · rw [double]
        exact one
      · exact agree.trans (storeCarry_twice hashers fill clear carried)

variable [Inhabited Hash]

/-- The pad subtrees below a tree hold its leaves. -/
theorem pushTimes_rest (tree : BackMerkleTree Hash) (leafHash : Hash) {missing bound : Nat}
    (room : tree.Room missing bound) :
    ∃ pushed, pushTimes hashers missing leafHash tree = .ok pushed ∧
      pushed.Same (tree.placeRest
        (makePadHashes hashers leafHash tree.log2MaxLeaves tree.hashFunction) missing) := by
  induction bound generalizing tree missing with
  | zero =>
      have none : missing = 0 := by simpa using room.small
      subst none
      exact ⟨tree, rfl, rfl, rfl, rfl, fun level _ => by simp [placeRest]⟩
  | succ bound ih =>
      have low : ∀ position < bound, tree.leafCount.testBit position = false :=
        fun position below => room.low position (by omega)
      by_cases set : missing.testBit bound = true
      · obtain ⟨rest, split, unset, others⟩ := BinaryCounter.add_set set
        have clear := room.low bound (by omega)
        have small := room.small
        have total := room.total
        have half : tree.leafCount + 2 ^ bound ≤ tree.getMaxLeaves := by omega
        have inside : bound ≤ tree.log2MaxLeaves := by
          have fits : 2 ^ bound ≤ 2 ^ tree.log2MaxLeaves := by
            rw [getMaxLeaves] at half
            omega
          exact (Nat.pow_le_pow_iff_right (by decide)).mp fits
        obtain ⟨next, hash, first, carried, pushed, same⟩ :=
          pushTimes_block hashers tree leafHash bound half low
        rw [carryFrom, show tree.log2MaxLeaves + 1 - bound = tree.log2MaxLeaves - bound + 1 by omega,
          carry, if_neg (by simp [clear])] at carried
        cases carried
        have below : (tree.storeCarry bound bound (fillHash (hashers tree.hashFunction).concatHash
            leafHash bound)).Room rest bound := by
          constructor
          · show tree.leafCount + 2 ^ bound + rest ≤ tree.getMaxLeaves
            omega
          · rw [pow_succ] at small
            omega
          · intro position inside
            show (tree.leafCount + 2 ^ bound).testBit position = false
            rw [BinaryCounter.testBit_add_clear clear, low position inside]
            simp [inside.ne]
        obtain ⟨second, stored, same'⟩ := ih _ below
        obtain ⟨pushedWhole, one, agree⟩ :=
          pushTimes_add hashers pushed same below.total stored same'
        refine ⟨pushedWhole, ?_, agree.trans ?_⟩
        · rw [split, Nat.add_comm]
          exact one
        · refine ⟨rfl, rfl, ?_, ?_⟩
          · show tree.leafCount + 2 ^ bound + rest = tree.leafCount + missing
            omega
          · intro position _
            show (if rest.testBit position then _ else
              Function.update tree.context bound _ position) =
                if missing.testBit position then _ else tree.context position
            by_cases here : position = bound
            · rw [here, unset, set, Function.update_self]
              exact (makePadHashes_getElem hashers leafHash _ inside).symm
            · rw [others position here, Function.update_of_ne here]
              rfl
      · apply ih tree
        constructor
        · exact room.total
        · apply Nat.lt_pow_two_of_testBit
          intro position above
          rcases Nat.eq_or_lt_of_le above with here | beyond
          · rw [← here]
            simpa using set
          · exact testBit_false_of_le room.small beyond
        · exact low

/-- The first loop joins as many leaves to a tree as it takes from the missing ones. -/
theorem pushTimes_padCarries (tree : BackMerkleTree Hash) (leafHash : Hash)
    {rounds level missing : Nat} (total : tree.leafCount + missing ≤ tree.getMaxLeaves)
    (low : ∀ position < level, tree.leafCount.testBit position = false)
    (enough : tree.log2MaxLeaves < rounds + level) :
    ∃ joined taken rest bound pushed,
      padCarries hashers (makePadHashes hashers leafHash tree.log2MaxLeaves tree.hashFunction)
        rounds level missing tree = (joined, rest) ∧
      missing = taken + rest ∧ joined.Room rest bound ∧
      joined.log2MaxLeaves = tree.log2MaxLeaves ∧ joined.hashFunction = tree.hashFunction ∧
      joined.leafCount + rest = tree.leafCount + missing ∧
      pushTimes hashers taken leafHash tree = .ok pushed ∧ pushed.Same joined := by
  induction rounds generalizing tree level missing with
  | zero =>
      exact ⟨tree, 0, missing, level, tree, rfl, by omega,
        room_of_low total low (.inl (by omega)), rfl, rfl, rfl, rfl, Same.refl tree⟩
  | succ rounds ih =>
      by_cases stop : tree.log2MaxLeaves < level ∨ missing < 2 ^ level
      · rw [padCarries, if_pos stop]
        exact ⟨tree, 0, missing, level, tree, rfl, by omega, room_of_low total low stop, rfl, rfl, rfl,
          rfl, Same.refl tree⟩
      by_cases set : tree.leafCount.testBit level = true
      · obtain ⟨next, hash, strict, carried, round, sum, below⟩ :=
          padCarries_step hashers
            (makePadHashes hashers leafHash tree.log2MaxLeaves tree.hashFunction) total low stop set
        push Not at stop
        rw [makePadHashes_getElem hashers leafHash _ stop.1] at carried
        obtain ⟨next', hash', first, carried', pushed, same⟩ :=
          pushTimes_block hashers tree leafHash level (by omega) low
        rw [carried] at carried'
        cases carried'
        have fits : (tree.storeCarry level next hash).leafCount + (missing - 2 ^ level) ≤
            (tree.storeCarry level next hash).getMaxLeaves := by
          rw [sum]
          exact total
        have higher : tree.log2MaxLeaves < rounds + next := by omega
        obtain ⟨joined, taken, rest, bound, second, loop, parts, room, height, function, count,
          stored, same'⟩ := ih (tree.storeCarry level next hash) fits below higher
        obtain ⟨pushedWhole, one, agree⟩ :=
          pushTimes_add hashers pushed same (by omega) stored same'
        refine ⟨joined, 2 ^ level + taken, rest, bound, pushedWhole, ?_, by omega, room, height,
          function, by omega, one, agree⟩
        rw [round]
        exact loop
      · rw [padCarries, if_neg stop, if_neg set]
        exact ih tree total (low_succ low set) (by omega)

/-- A pad that fits into the tree gives the tree of as many pushes of its leaf. -/
theorem padBack_pushTimes (tree : BackMerkleTree Hash) (leafHash : Hash) {newLeafCount : Nat}
    (small : tree.log2MaxLeaves < 64)
    (within : tree.leafCount + newLeafCount ≤ tree.getMaxLeaves) :
    ∃ padded pushed,
      tree.padBack hashers
        (makePadHashes hashers leafHash tree.log2MaxLeaves tree.hashFunction) newLeafCount =
          .ok padded ∧
      pushTimes hashers newLeafCount leafHash tree = .ok pushed ∧ pushed.Same padded := by
  by_cases none : newLeafCount = 0
  · subst none
    exact ⟨tree, tree, rfl, rfl, Same.refl tree⟩
  obtain ⟨joined, taken, rest, bound, first, loop, parts, room, height, function, count, pushed,
    same⟩ := pushTimes_padCarries hashers tree leafHash within (by simp)
      (show tree.log2MaxLeaves < tree.log2MaxLeaves + 1 + 0 by omega)
  obtain ⟨second, stored, same'⟩ := pushTimes_rest hashers joined leafHash room
  obtain ⟨pushedWhole, one, agree⟩ := pushTimes_add hashers pushed same room.total stored same'
  rw [height, function] at agree
  rw [← parts] at one
  exact ⟨_, pushedWhole, padBack_eq hashers _ small none within
    (length_makePadHashes hashers leafHash _ _) loop room count height, one, agree⟩

end Block

section InPlace

variable {Hash : Type} [Inhabited Hash] (hashers : HashFunctionType → Hasher Hash)

/-- The call on the object has the outcome of the call that gives a tree. -/
theorem padBack_eq_inPlace (padHashes : List Hash) (tree : BackMerkleTree Hash)
    (newLeafCount : Nat) :
    tree.padBack hashers padHashes newLeafCount =
      (tree.padBackInPlace hashers padHashes newLeafCount).1.map fun _ =>
        (tree.padBackInPlace hashers padHashes newLeafCount).2 := by
  rw [padBack, padBackInPlace]
  by_cases none : newLeafCount = 0
  · rw [if_pos none, if_pos none]
    rfl
  rw [if_neg none, if_neg none]
  by_cases many : tree.getMaxLeaves < newLeafCount ∨
      tree.getMaxLeaves < (tree.leafCount + newLeafCount) % 2 ^ 64
  · rw [if_pos many, check, if_neg (by omega)]
    rfl
  rw [if_neg many, check_pos (by omega)]
  by_cases size : padHashes.length = tree.log2MaxLeaves + 1
  · rw [if_neg (by omega), check_pos size]
    generalize padCarries hashers padHashes (tree.log2MaxLeaves + 1) 0 newLeafCount tree = carried
    obtain ⟨joined, missing⟩ := carried
    generalize rest : padRest padHashes (tree.log2MaxLeaves + 1) 0 missing joined = padded
    obtain ⟨final, left⟩ := padded
    simp only [rest]
    by_cases done : left = 0
    · by_cases filled : final.leafCount ≤ final.getMaxLeaves
      · rw [check_pos done, check_pos filled, if_neg (by omega)]
        rfl
      · rw [check_pos done, check, if_neg filled, if_pos (by omega)]
        rfl
    · rw [check, if_neg done, if_pos (.inl done)]
      rfl
  · rw [if_pos size, check, if_neg size]
    rfl

omit [Inhabited Hash] in
theorem Same.getRootHash {first second : BackMerkleTree Hash} (same : first.Same second)
    (within : first.leafCount ≤ first.getMaxLeaves) :
    first.getRootHash = second.getRootHash := by
  rw [BackMerkleTree.getRootHash, BackMerkleTree.getRootHash, ← same.full, ← same.log2MaxLeaves]
  by_cases filled : first.full = true
  · have count : first.leafCount = 2 ^ first.log2MaxLeaves := by
      rw [BackMerkleTree.full, decide_eq_true_eq, getMaxLeaves] at filled
      rw [getMaxLeaves] at within
      omega
    rw [same.context first.log2MaxLeaves (by simp [count])]
  · rw [check, if_neg filled]
    rfl

/-- A pad of a leaf ends as successive pushes of the leaf do. A pad that throws leaves its tree, and
both throw exactly where the leaves do not fit. -/
def PadsAsPushes (tree : BackMerkleTree Hash) (leafHash : Hash) (newLeafCount : Nat) : Prop :=
  match pushTimes hashers newLeafCount leafHash tree,
    tree.padBackInPlace hashers
      (makePadHashes hashers leafHash tree.log2MaxLeaves tree.hashFunction) newLeafCount with
  | .ok pushed, (.ok (), padded) =>
      padded.leafCount = pushed.leafCount ∧ padded.getContext = pushed.getContext ∧
        padded.getRootHash = pushed.getRootHash ∧
        tree.leafCount + newLeafCount ≤ tree.getMaxLeaves
  | .error _, (.error _, left) =>
      left = tree ∧ tree.getMaxLeaves < tree.leafCount + newLeafCount
  | _, _ => False

/-- The carry out of a full tree of `2^63` leaves wraps the leaf count around to zero. -/
theorem padCarries_wraps (padHashes : List Hash) (tree : BackMerkleTree Hash) {rounds level : Nat}
    (height : tree.log2MaxLeaves = 63) (count : tree.leafCount = 2 ^ 63)
    (sum : level + rounds = 63) :
    padCarries hashers padHashes (rounds + 1) level (2 ^ 63) tree =
      ({ tree with leafCount := 0 }, 0) := by
  induction rounds generalizing level with
  | zero =>
      obtain rfl : level = 63 := by omega
      have top : tree.leafCount.testBit 63 = true := by
        rw [count]
        decide
      rw [padCarries, if_neg (by rw [height]; decide), if_pos top, carryFrom, height, carry,
        if_pos top, carry, count]
      rfl
  | succ rounds ih =>
      have clear : tree.leafCount.testBit level = false := by
        rw [count, Nat.testBit_two_pow]
        simp
        omega
      have bound : 2 ^ level ≤ 2 ^ 63 := Nat.pow_le_pow_right (by decide) (by omega)
      rw [padCarries, if_neg (by omega), if_neg (by simp [clear])]
      exact ih (by omega)

/-- A pad of `2^63` leaves is not refused by a full tree of `2^63` leaves but empties it. -/
theorem padBackInPlace_wraps (padHashes : List Hash) (tree : BackMerkleTree Hash)
    (height : tree.log2MaxLeaves = 63) (count : tree.leafCount = 2 ^ 63)
    (size : padHashes.length = tree.log2MaxLeaves + 1) :
    tree.padBackInPlace hashers padHashes (2 ^ 63) = (.ok (), { tree with leafCount := 0 }) := by
  have limit : tree.getMaxLeaves = 2 ^ 63 := by rw [getMaxLeaves, height]
  have carried := padCarries_wraps hashers padHashes tree height count (Nat.zero_add 63)
  rw [padBackInPlace, if_neg (by decide), if_neg (by rw [limit, count]; decide),
    if_neg (by omega), height, carried]
  simp only [padRest_eq padHashes _ (by simp) (show 0 < 2 ^ (0 + (63 + 1)) by decide)]
  simp [placeRest, height]

/-- The pushes are refused where the pad empties the tree. -/
theorem not_padsAsPushes {tree : BackMerkleTree Hash} (leafHash : Hash)
    (height : tree.log2MaxLeaves = 63) (count : tree.leafCount = 2 ^ 63) :
    ¬PadsAsPushes hashers tree leafHash (2 ^ 63) := by
  have limit : tree.getMaxLeaves = 2 ^ 63 := by rw [getMaxLeaves, height]
  have refused : pushTimes hashers (2 ^ 63) leafHash tree = .error .tooManyLeaves := by
    apply pushEach_refused hashers tree _ (by omega)
    rw [List.length_replicate]
    omega
  rw [PadsAsPushes, refused, padBackInPlace_wraps hashers _ tree height count
    (length_makePadHashes hashers leafHash _ _)]
  exact id

/-- A pad does what the pushes of its leaf do unless a full tree of `2^63` leaves is padded with as
many leaves. -/
theorem padsAsPushes_iff (tree : BackMerkleTree Hash) (leafHash : Hash) (newLeafCount : Nat)
    (small : tree.log2MaxLeaves < 64) (within : tree.leafCount ≤ tree.getMaxLeaves) :
    PadsAsPushes hashers tree leafHash newLeafCount ↔
      ¬(tree.leafCount = 2 ^ 63 ∧ newLeafCount = 2 ^ 63) := by
  have limit : tree.getMaxLeaves ≤ 2 ^ 63 := Nat.pow_le_pow_right (by decide) (by omega)
  by_cases fits : tree.leafCount + newLeafCount ≤ tree.getMaxLeaves
  · obtain ⟨padded, pushed, one, two, same⟩ :=
      padBack_pushTimes hashers tree leafHash small fits
    obtain ⟨first, second, one', two', -, count, height, -⟩ :=
      (Same.refl tree).pushEach hashers (List.replicate newLeafCount leafHash)
        (by rw [List.length_replicate]; exact fits)
    rw [pushTimes, one', Except.ok.injEq] at two
    subst two
    have inside : first.leafCount ≤ first.getMaxLeaves := by
      rw [count, List.length_replicate, getMaxLeaves, height]
      exact fits
    rw [padBack_eq_inPlace] at one
    apply iff_of_true
    · rw [PadsAsPushes, pushTimes, one']
      generalize tree.padBackInPlace hashers (makePadHashes hashers leafHash tree.log2MaxLeaves
        tree.hashFunction) newLeafCount = outcome at one
      obtain ⟨answer, left⟩ := outcome
      cases answer with
      | error failure => cases one
      | ok _ =>
          cases one
          exact ⟨same.leafCount.symm, same.getContext.symm, (same.getRootHash inside).symm, fits⟩
    · omega
  · by_cases wraps : tree.leafCount = 2 ^ 63 ∧ newLeafCount = 2 ^ 63
    · have height : tree.log2MaxLeaves = 63 := by
        have reached : 2 ^ 63 ≤ 2 ^ tree.log2MaxLeaves := by
          rw [← wraps.1]
          exact within
        have above := (Nat.pow_le_pow_iff_right (by decide)).mp reached
        omega
      apply iff_of_false _ (not_not.mpr wraps)
      rw [wraps.2]
      exact not_padsAsPushes hashers leafHash height wraps.1
    · apply iff_of_true _ wraps
      have refused : pushTimes hashers newLeafCount leafHash tree = .error .tooManyLeaves := by
        apply pushEach_refused hashers tree _ within
        rw [List.length_replicate]
        omega
      rw [PadsAsPushes, refused, padBackInPlace, if_neg (by omega), if_pos (by omega)]
      exact ⟨rfl, by omega⟩

/-- One leaf pads a new tree of two leaves as one push does. -/
theorem padsAsPushes_pair :
    PadsAsPushes (fun _ => symbolicHasher) ⟨1, .keccak256, 1, fun _ => .word []⟩ (.word [1]) 1 :=
  (padsAsPushes_iff (fun _ => symbolicHasher) ⟨1, .keccak256, 1, fun _ => .word []⟩ (.word [1]) 1
    (by decide) (by decide)).mpr (by decide)

/-- A new tree of `2^63` leaves that is padded to the end takes the same pad again. -/
theorem not_padsAsPushes_full :
    ∃ tree, ((make 63 .keccak256 : Except Failure (BackMerkleTree Digest)) >>= fun new =>
        new.padBack (fun _ => symbolicHasher)
          (makePadHashes (fun _ => symbolicHasher) (.word []) 63 .keccak256) (2 ^ 63)) = .ok tree ∧
      ¬PadsAsPushes (fun _ => symbolicHasher) tree (.word []) (2 ^ 63) := by
  obtain ⟨tree, _, padded, -, -, count, height⟩ :=
    (Same.refl (⟨63, .keccak256, 0, fun _ => default⟩ : BackMerkleTree Digest)).padBack_of_le
      (fun _ => symbolicHasher)
      (makePadHashes (fun _ => symbolicHasher) (.word []) 63 .keccak256) (by decide)
      (show 0 + 2 ^ 63 ≤ 2 ^ 63 by decide) (length_makePadHashes _ _ _ _)
  exact ⟨tree, padded, not_padsAsPushes _ _ height (count.trans (Nat.zero_add _))⟩

end InPlace

end MachineEmulator.Collect.BackMerkleTree
