/-
This file proves that a back tree depends only on the positions of its context that hold a subtree.
-/

import MachineEmulator.Construction.Collect.BackMerkleTree
import MachineEmulator.Library.BinaryCounter

namespace MachineEmulator.Collect.BackMerkleTree

open StepLog (HashFunctionType)

variable {Hash : Type}

/-- Two trees with the same subtrees; the positions without a subtree hold old hashes. -/
structure Same (first second : BackMerkleTree Hash) : Prop where
  log2MaxLeaves : first.log2MaxLeaves = second.log2MaxLeaves
  hashFunction : first.hashFunction = second.hashFunction
  leafCount : first.leafCount = second.leafCount
  context : ∀ level, first.leafCount.testBit level = true → first.context level = second.context level

theorem Same.refl (tree : BackMerkleTree Hash) : tree.Same tree :=
  ⟨rfl, rfl, rfl, fun _ _ => rfl⟩

theorem Same.trans {first second third : BackMerkleTree Hash} (left : first.Same second)
    (right : second.Same third) : first.Same third where
  log2MaxLeaves := left.log2MaxLeaves.trans right.log2MaxLeaves
  hashFunction := left.hashFunction.trans right.hashFunction
  leafCount := left.leafCount.trans right.leafCount
  context level set :=
    (left.context level set).trans (right.context level (left.leafCount ▸ set))

section Observation

variable {first second : BackMerkleTree Hash} (same : first.Same second)

include same

theorem Same.full : first.full = second.full := by
  rw [BackMerkleTree.full, BackMerkleTree.full, getMaxLeaves, getMaxLeaves, same.log2MaxLeaves,
    same.leafCount]

theorem Same.empty : first.empty = second.empty := by
  rw [BackMerkleTree.empty, BackMerkleTree.empty, same.leafCount]

theorem Same.clear : first.clear.Same second.clear where
  log2MaxLeaves := same.log2MaxLeaves
  hashFunction := same.hashFunction
  leafCount := rfl
  context level set := by simp [BackMerkleTree.clear] at set

theorem Same.getContext : first.getContext = second.getContext := by
  rw [BackMerkleTree.getContext, BackMerkleTree.getContext, same.log2MaxLeaves, same.leafCount]
  apply List.map_congr_left
  intro level member
  apply same.context
  rw [same.leafCount]
  exact (List.mem_filter.mp member).2

end Observation

/-- An empty tree is the same as a new one. -/
theorem same_of_empty {first second : BackMerkleTree Hash}
    (log2MaxLeaves : first.log2MaxLeaves = second.log2MaxLeaves)
    (hashFunction : first.hashFunction = second.hashFunction)
    (firstEmpty : first.leafCount = 0) (secondEmpty : second.leafCount = 0) : first.Same second where
  log2MaxLeaves := log2MaxLeaves
  hashFunction := hashFunction
  leafCount := firstEmpty.trans secondEmpty.symm
  context level set := by simp [firstEmpty] at set

section Carry

variable {concatHash : Hash → Hash → Hash} {leafCount : Nat} {context : Nat → Hash}

theorem carry_congr {other : Nat → Hash}
    (agree : ∀ level, leafCount.testBit level = true → context level = other level)
    (steps level : Nat) (right : Hash) :
    carry concatHash leafCount context steps level right =
      carry concatHash leafCount other steps level right := by
  induction steps generalizing level right with
  | zero => rfl
  | succ steps ih =>
      rw [carry, carry]
      split
      · rename_i set
        rw [agree level set, ih]
      · rfl

/-- The loop stops at the first position without a subtree. -/
theorem carry_some {steps level next : Nat} {right hash : Hash}
    (carried : carry concatHash leafCount context steps level right = some (next, hash)) :
    level ≤ next ∧ leafCount.testBit next = false ∧
      ∀ position, level ≤ position → position < next → leafCount.testBit position = true := by
  induction steps generalizing level right with
  | zero => simp [carry] at carried
  | succ steps ih =>
      rw [carry] at carried
      split at carried
      · rename_i set
        obtain ⟨up, clear, ones⟩ := ih carried
        refine ⟨by omega, clear, ?_⟩
        intro position above below
        rcases Nat.eq_or_lt_of_le above with here | beyond
        · rw [← here, set]
        · exact ones position beyond below
      · rename_i clear
        cases carried
        exact ⟨le_rfl, by simpa using clear, fun position above below => by omega⟩

/-- A position without a subtree within the steps stops the loop. -/
theorem carry_isSome {steps level clear : Nat} {right : Hash} (above : level ≤ clear)
    (within : clear < level + steps) (unset : leafCount.testBit clear = false) :
    (carry concatHash leafCount context steps level right).isSome := by
  induction steps generalizing level right with
  | zero => omega
  | succ steps ih =>
      rw [carry]
      split
      · rename_i set
        have other : level ≠ clear := by
          rintro rfl
          simp [set] at unset
        exact ih (by omega) (by omega)
      · rfl

end Carry

section Append

variable (hashers : HashFunctionType → Hasher Hash)

theorem carryFrom_congr {first second : BackMerkleTree Hash} (same : first.Same second)
    (level : Nat) (right : Hash) :
    first.carryFrom hashers level right = second.carryFrom hashers level right := by
  rw [carryFrom, carryFrom, same.hashFunction, same.leafCount, same.log2MaxLeaves]
  apply carry_congr
  rw [← same.leafCount]
  exact same.context

/-- A tree that is not full has room for the subtree that the loop makes. -/
theorem carryFrom_isSome {tree : BackMerkleTree Hash} {level : Nat} (right : Hash)
    (room : tree.leafCount < tree.getMaxLeaves) (inside : level ≤ tree.log2MaxLeaves) :
    ∃ next hash, tree.carryFrom hashers level right = some (next, hash) := by
  have unset : tree.leafCount.testBit tree.log2MaxLeaves = false := Nat.testBit_lt_two_pow room
  have found := @carry_isSome Hash (hashers tree.hashFunction).concatHash tree.leafCount tree.context
    (tree.log2MaxLeaves + 1 - level) level tree.log2MaxLeaves right inside (by omega) unset
  obtain ⟨⟨next, hash⟩, carried⟩ := Option.isSome_iff_exists.mp found
  exact ⟨next, hash, carried⟩

/-- The tree after the loop has stored its subtree. -/
def storeCarry (tree : BackMerkleTree Hash) (level next : Nat) (hash : Hash) : BackMerkleTree Hash :=
  { tree with
    leafCount := tree.leafCount + 2 ^ level, context := Function.update tree.context next hash }

theorem Same.storeCarry {first second : BackMerkleTree Hash} (same : first.Same second)
    {level next : Nat} (hash : Hash)
    (bits : ∀ position ≠ next, (first.leafCount + 2 ^ level).testBit position = true →
      first.leafCount.testBit position = true) :
    (first.storeCarry level next hash).Same (second.storeCarry level next hash) where
  log2MaxLeaves := same.log2MaxLeaves
  hashFunction := same.hashFunction
  leafCount := congrArg (· + 2 ^ level) same.leafCount
  context position set := by
    change Function.update first.context next hash position =
      Function.update second.context next hash position
    by_cases here : position = next
    · rw [here, Function.update_self, Function.update_self]
    · rw [Function.update_of_ne here, Function.update_of_ne here]
      exact same.context position (bits position here set)

/-- What is left of the old subtrees stands at its old place. -/
theorem testBit_of_carry {tree : BackMerkleTree Hash} {level next : Nat} {right hash : Hash}
    (carried : tree.carryFrom hashers level right = some (next, hash)) {position : Nat}
    (other : position ≠ next) (set : (tree.leafCount + 2 ^ level).testBit position = true) :
    tree.leafCount.testBit position = true := by
  obtain ⟨up, clear, ones⟩ := carry_some carried
  rw [BinaryCounter.testBit_add_carry up ones clear] at set
  split at set
  · exact absurd set (by simp)
  · simpa [other] using set

theorem pushBack_eq {tree : BackMerkleTree Hash} (newLeafHash : Hash)
    (room : tree.leafCount < tree.getMaxLeaves) :
    ∃ next hash, tree.carryFrom hashers 0 newLeafHash = some (next, hash) ∧
      tree.pushBack hashers newLeafHash = .ok (tree.storeCarry 0 next hash) := by
  obtain ⟨next, hash, carried⟩ := tree.carryFrom_isSome hashers newLeafHash room (Nat.zero_le _)
  refine ⟨next, hash, carried, ?_⟩
  rw [pushBack, check_pos room]
  simp only [carried]
  rfl

/-- A new leaf fits a tree that is not full, and keeps two trees the same. -/
theorem Same.pushBack {first second : BackMerkleTree Hash} (same : first.Same second)
    (newLeafHash : Hash) (room : first.leafCount < first.getMaxLeaves) :
    ∃ firstPushed secondPushed, first.pushBack hashers newLeafHash = .ok firstPushed ∧
      second.pushBack hashers newLeafHash = .ok secondPushed ∧ firstPushed.Same secondPushed ∧
      firstPushed.leafCount = first.leafCount + 1 ∧
      firstPushed.log2MaxLeaves = first.log2MaxLeaves ∧
      firstPushed.hashFunction = first.hashFunction := by
  have room' : second.leafCount < second.getMaxLeaves := by
    rw [getMaxLeaves, ← same.leafCount, ← same.log2MaxLeaves]
    exact room
  obtain ⟨next, hash, carried, pushed⟩ := first.pushBack_eq hashers newLeafHash room
  obtain ⟨next', hash', carried', pushed'⟩ := second.pushBack_eq hashers newLeafHash room'
  rw [← carryFrom_congr hashers same, carried] at carried'
  cases carried'
  have stored := same.storeCarry hash fun _ => testBit_of_carry hashers carried
  exact ⟨_, _, pushed, pushed', stored, rfl, rfl, rfl⟩

end Append

section Pad

theorem testBit_false_of_le {number bound level : Nat} (small : number < 2 ^ bound)
    (above : bound ≤ level) : number.testBit level = false :=
  Nat.testBit_lt_two_pow (lt_of_lt_of_le small (Nat.pow_le_pow_right (by decide) above))

/-- The state between the loops of `pad_back`: the leaves that are missing fit into the tree, and
their subtrees belong below a level under which the tree has none. -/
structure Room (tree : BackMerkleTree Hash) (missing bound : Nat) : Prop where
  total : tree.leafCount + missing ≤ tree.getMaxLeaves
  small : missing < 2 ^ bound
  low : ∀ position < bound, tree.leafCount.testBit position = false

/-- The missing subtrees and those of the tree are the subtrees of the padded tree. -/
theorem Room.testBit {tree : BackMerkleTree Hash} {missing bound : Nat}
    (room : tree.Room missing bound) (level : Nat) :
    (tree.leafCount + missing).testBit level =
      if level < bound then missing.testBit level else tree.leafCount.testBit level := by
  have whole : tree.leafCount = 2 ^ bound * (tree.leafCount / 2 ^ bound) + 0 :=
    (Nat.mul_div_cancel' (BinaryCounter.dvd_of_low room.low)).symm
  have positive : 0 < 2 ^ bound := by positivity
  conv_lhs => rw [whole, Nat.add_zero, Nat.testBit_two_pow_mul_add _ room.small]
  split
  · rfl
  · rename_i above
    conv_rhs => rw [whole, Nat.testBit_two_pow_mul_add _ positive, if_neg above]

theorem room_of_low {tree : BackMerkleTree Hash} {level missing : Nat}
    (total : tree.leafCount + missing ≤ tree.getMaxLeaves)
    (low : ∀ position < level, tree.leafCount.testBit position = false)
    (stop : tree.log2MaxLeaves < level ∨ missing < 2 ^ level) : tree.Room missing level := by
  apply Room.mk total _ low
  rcases stop with beyond | small
  · have bound : missing ≤ 2 ^ tree.log2MaxLeaves := by
      rw [getMaxLeaves] at total
      omega
    exact lt_of_le_of_lt bound (Nat.pow_lt_pow_right (by decide) beyond)
  · exact small

variable [Inhabited Hash] (hashers : HashFunctionType → Hasher Hash) (padHashes : List Hash)

/-- The tree after the second loop of `pad_back`. -/
def placeRest (tree : BackMerkleTree Hash) (missing : Nat) : BackMerkleTree Hash :=
  { tree with
    leafCount := tree.leafCount + missing
    context := fun level =>
      if missing.testBit level then padHashes[level]?.getD default else tree.context level }

/-- The second loop places every subtree that is missing. -/
theorem padRest_eq (tree : BackMerkleTree Hash) {steps level missing : Nat}
    (high : ∀ position < level, missing.testBit position = false)
    (small : missing < 2 ^ (level + steps)) :
    padRest padHashes steps level missing tree = (tree.placeRest padHashes missing, 0) := by
  induction steps generalizing level missing tree with
  | zero =>
      have none : missing = 0 := by
        apply Nat.eq_of_testBit_eq
        intro position
        rw [Nat.zero_testBit]
        rcases Nat.lt_or_ge position level with below | above
        · exact high position below
        · exact testBit_false_of_le small above
      subst none
      simp [padRest, placeRest]
  | succ steps ih =>
      rw [padRest]
      by_cases set : missing.testBit level = true
      · obtain ⟨rest, split, unset, others⟩ := BinaryCounter.add_set set
        have left : missing - 2 ^ level = rest := by omega
        have above : ∀ position < level + 1, rest.testBit position = false := by
          intro position inside
          rcases Nat.lt_succ_iff_lt_or_eq.mp inside with below | rfl
          · rw [others position below.ne, high position below]
          · exact unset
        have bound : rest < 2 ^ (level + 1 + steps) := by
          have positive : 0 < 2 ^ level := by positivity
          rw [Nat.add_right_comm, Nat.add_assoc]
          omega
        rw [if_pos set, left, ih _ above bound, placeRest, placeRest, split]
        congr 2
        · show tree.leafCount + 2 ^ level + rest = tree.leafCount + (rest + 2 ^ level)
          omega
        · funext position
          rw [← split]
          by_cases here : position = level
          · subst here
            simp [unset, set]
          · simp [others position here, here]
      · rw [if_neg set]
        apply ih
        · intro position inside
          rcases Nat.lt_succ_iff_lt_or_eq.mp inside with below | rfl
          · exact high position below
          · simpa using set
        · rw [Nat.add_right_comm, Nat.add_assoc]
          exact small

/-- The second loop keeps two trees the same. -/
theorem Same.placeRest {first second : BackMerkleTree Hash} (same : first.Same second)
    {missing bound : Nat} (room : first.Room missing bound) :
    (first.placeRest padHashes missing).Same (second.placeRest padHashes missing) where
  log2MaxLeaves := same.log2MaxLeaves
  hashFunction := same.hashFunction
  leafCount := congrArg (· + missing) same.leafCount
  context level set := by
    change (first.leafCount + missing).testBit level = true at set
    change (if missing.testBit level then _ else first.context level) =
      if missing.testBit level then _ else second.context level
    rw [room.testBit] at set
    by_cases placed : missing.testBit level = true
    · rw [if_pos placed, if_pos placed]
    · rw [if_neg placed, if_neg placed]
      apply same.context
      split at set
      · exact absurd set placed
      · exact set

/-- A round of the first loop at a subtree of the tree joins a pad subtree to it, so that the tree
has no subtree below the joined one. -/
theorem padCarries_step {tree : BackMerkleTree Hash} {level missing : Nat}
    (total : tree.leafCount + missing ≤ tree.getMaxLeaves)
    (low : ∀ position < level, tree.leafCount.testBit position = false)
    (go : ¬(tree.log2MaxLeaves < level ∨ missing < 2 ^ level))
    (set : tree.leafCount.testBit level = true) :
    ∃ next hash, level < next ∧
      tree.carryFrom hashers level (padHashes[level]?.getD default) = some (next, hash) ∧
      (∀ rounds, padCarries hashers padHashes (rounds + 1) level missing tree =
        padCarries hashers padHashes rounds next (missing - 2 ^ level)
          (tree.storeCarry level next hash)) ∧
      (tree.storeCarry level next hash).leafCount + (missing - 2 ^ level) =
        tree.leafCount + missing ∧
      ∀ position < next, (tree.storeCarry level next hash).leafCount.testBit position = false := by
  have going := go
  push Not at going
  have positive : 0 < 2 ^ level := by positivity
  obtain ⟨next, hash, carried⟩ := tree.carryFrom_isSome hashers
    (padHashes[level]?.getD default) (by omega) going.1
  obtain ⟨up, clear, ones⟩ := carry_some carried
  have strict : level ≠ next := by
    rintro rfl
    simp [set] at clear
  refine ⟨next, hash, by omega, carried, ?_, ?_, ?_⟩
  · intro rounds
    rw [padCarries, if_neg go, if_pos set, carried]
    rfl
  · show tree.leafCount + 2 ^ level + (missing - 2 ^ level) = tree.leafCount + missing
    omega
  · intro position inside
    show (tree.leafCount + 2 ^ level).testBit position = false
    rw [BinaryCounter.testBit_add_carry up ones clear]
    split
    · rfl
    · rw [low position (by omega)]
      simp [inside.ne]

/-- The next level has no subtree below it when the level of the loop has none. -/
theorem low_succ {number level : Nat} (low : ∀ position < level, number.testBit position = false)
    (clear : ¬number.testBit level = true) :
    ∀ position < level + 1, number.testBit position = false := by
  intro position inside
  rcases Nat.lt_succ_iff_lt_or_eq.mp inside with below | rfl
  · exact low position below
  · simpa using clear

/-- The first loop keeps two trees the same and ends when the rest lies below the tree. -/
theorem Same.padCarries {first second : BackMerkleTree Hash} (same : first.Same second)
    {rounds level missing : Nat} (total : first.leafCount + missing ≤ first.getMaxLeaves)
    (low : ∀ position < level, first.leafCount.testBit position = false)
    (enough : first.log2MaxLeaves < rounds + level) :
    ∃ firstTree secondTree rest bound,
      BackMerkleTree.padCarries hashers padHashes rounds level missing first = (firstTree, rest) ∧
      BackMerkleTree.padCarries hashers padHashes rounds level missing second =
        (secondTree, rest) ∧
      firstTree.Same secondTree ∧ firstTree.Room rest bound ∧
      firstTree.leafCount + rest = first.leafCount + missing ∧
      firstTree.log2MaxLeaves = first.log2MaxLeaves := by
  induction rounds generalizing level missing first second with
  | zero =>
      have room := room_of_low total low (.inl (by omega))
      exact ⟨first, second, missing, level, rfl, rfl, same, room, rfl, rfl⟩
  | succ rounds ih =>
      by_cases stop : first.log2MaxLeaves < level ∨ missing < 2 ^ level
      · rw [BackMerkleTree.padCarries, BackMerkleTree.padCarries, ← same.log2MaxLeaves,
          if_pos stop, if_pos stop]
        exact ⟨first, second, missing, level, rfl, rfl, same, room_of_low total low stop, rfl, rfl⟩
      by_cases set : first.leafCount.testBit level = true
      · obtain ⟨next, hash, strict, carried, one, sum, below⟩ :=
          padCarries_step hashers padHashes total low stop set
        have two : BackMerkleTree.padCarries hashers padHashes (rounds + 1) level missing second =
            BackMerkleTree.padCarries hashers padHashes rounds next (missing - 2 ^ level)
              (second.storeCarry level next hash) := by
          rw [BackMerkleTree.padCarries, ← same.log2MaxLeaves, if_neg stop, ← same.leafCount,
            if_pos set, ← carryFrom_congr hashers same, carried, same.leafCount,
            same.log2MaxLeaves]
          rfl
        have stored := same.storeCarry hash fun _ => testBit_of_carry hashers carried
        rw [one, two, ← sum]
        apply ih stored _ below
        · show first.log2MaxLeaves < rounds + next
          omega
        · rw [sum]
          exact total
      · rw [BackMerkleTree.padCarries, BackMerkleTree.padCarries, ← same.log2MaxLeaves,
          ← same.leafCount, if_neg stop, if_neg stop, if_neg set, if_neg set]
        exact ih same total (low_succ low set) (by omega)

/-- The two loops give the padded tree. -/
theorem padBack_eq {tree mid : BackMerkleTree Hash} {newLeafCount rest bound : Nat}
    (small : tree.log2MaxLeaves < 64) (positive : newLeafCount ≠ 0)
    (within : tree.leafCount + newLeafCount ≤ tree.getMaxLeaves)
    (size : padHashes.length = tree.log2MaxLeaves + 1)
    (carried : padCarries hashers padHashes (tree.log2MaxLeaves + 1) 0 newLeafCount tree =
      (mid, rest))
    (room : mid.Room rest bound) (sum : mid.leafCount + rest = tree.leafCount + newLeafCount)
    (height : mid.log2MaxLeaves = tree.log2MaxLeaves) :
    tree.padBack hashers padHashes newLeafCount = .ok (mid.placeRest padHashes rest) := by
  have limit : tree.getMaxLeaves ≤ 2 ^ 63 := Nat.pow_le_pow_right (by decide) (by omega)
  have below : rest < 2 ^ (0 + (tree.log2MaxLeaves + 1)) := by
    have total := room.total
    have top : 0 < 2 ^ tree.log2MaxLeaves := by positivity
    rw [getMaxLeaves, height] at total
    rw [Nat.zero_add, pow_succ]
    omega
  have filled : (mid.placeRest padHashes rest).leafCount ≤
      (mid.placeRest padHashes rest).getMaxLeaves := room.total
  rw [padBack, if_neg positive, check_pos (by omega), check_pos size]
  simp only [carried, padRest_eq padHashes mid (by simp) below]
  rw [check_pos trivial]
  change (check ((mid.placeRest padHashes rest).leafCount ≤
    (mid.placeRest padHashes rest).getMaxLeaves) .assertionFailed >>= fun _ => _) = _
  rw [check_pos filled]
  rfl

/-- Two trees that are the same stay the same when they are padded. -/
theorem Same.padBack_of_le {first second : BackMerkleTree Hash} (same : first.Same second)
    {newLeafCount : Nat} (small : first.log2MaxLeaves < 64)
    (within : first.leafCount + newLeafCount ≤ first.getMaxLeaves)
    (size : padHashes.length = first.log2MaxLeaves + 1) :
    ∃ firstTree secondTree,
      first.padBack hashers padHashes newLeafCount = .ok firstTree ∧
      second.padBack hashers padHashes newLeafCount = .ok secondTree ∧
      firstTree.Same secondTree ∧ firstTree.leafCount = first.leafCount + newLeafCount ∧
      firstTree.log2MaxLeaves = first.log2MaxLeaves := by
  by_cases none : newLeafCount = 0
  · subst none
    exact ⟨first, second, rfl, rfl, same, rfl, rfl⟩
  obtain ⟨firstMid, secondMid, rest, bound, one, two, agree, room, sum, height⟩ :=
    @Same.padCarries Hash _ hashers padHashes first second same (first.log2MaxLeaves + 1) 0 _ within
      (by simp) (by omega)
  have room' : secondMid.Room rest bound := by
    constructor
    · rw [← agree.leafCount, getMaxLeaves, ← agree.log2MaxLeaves]
      exact room.total
    · exact room.small
    · rw [← agree.leafCount]
      exact room.low
  refine ⟨_, _, padBack_eq hashers padHashes small none within size one room sum height,
    ?_, agree.placeRest padHashes room, sum, height⟩
  rw [same.log2MaxLeaves] at small size two
  apply padBack_eq hashers padHashes small none _ size two room'
  · rw [← agree.leafCount, sum, same.leafCount]
  · rw [← agree.log2MaxLeaves, height, same.log2MaxLeaves]
  · rw [← same.leafCount, getMaxLeaves, ← same.log2MaxLeaves]
    exact within

/-- Two trees that are the same have the same root hash after they are padded to the end. -/
theorem Same.padBack {first second : BackMerkleTree Hash} (same : first.Same second)
    (small : first.log2MaxLeaves < 64) (room : first.leafCount < first.getMaxLeaves)
    (size : padHashes.length = first.log2MaxLeaves + 1) :
    ∃ firstTree secondTree,
      first.padBack hashers padHashes first.getRemainingLeafCount = .ok firstTree ∧
      second.padBack hashers padHashes second.getRemainingLeafCount = .ok secondTree ∧
      firstTree.Same secondTree ∧ firstTree.leafCount = firstTree.getMaxLeaves ∧
      firstTree.log2MaxLeaves = first.log2MaxLeaves := by
  have remaining : second.getRemainingLeafCount = first.getRemainingLeafCount := by
    rw [getRemainingLeafCount, getRemainingLeafCount, getMaxLeaves, getMaxLeaves,
      same.log2MaxLeaves, same.leafCount]
  have total : first.leafCount + first.getRemainingLeafCount = first.getMaxLeaves := by
    rw [getRemainingLeafCount]
    omega
  obtain ⟨firstTree, secondTree, one, two, agree, count, height⟩ :=
    same.padBack_of_le hashers padHashes small total.le size
  rw [← remaining] at two
  refine ⟨firstTree, secondTree, one, two, agree, ?_, height⟩
  rw [count, total, getMaxLeaves, getMaxLeaves, height]

end Pad

end MachineEmulator.Collect.BackMerkleTree
