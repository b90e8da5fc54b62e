/-
This file proves what one round of the collection loop does, and how rounds compose.
-/

import MachineEmulator.Construction.Collect.McycleRootHashes
import MachineEmulator.Proof.Collect.BackMerkleTree

namespace MachineEmulator.Collect

open StepLog (HashFunctionType)

section Interpreter

variable {Machine : Type} (memory : Machine → Memory)

/-- The interpreter does not return at once. -/
def Running (machine : Machine) : Prop :=
  readIflagsH memory machine = 0 ∧ readIflagsY memory machine = 0

/-- The interpreter runs in one direction and composes: a run to a later target goes through the
state at an earlier one, unless it stops before. -/
structure Composes (interpret : Machine → Word → InterpreterBreakReason × Machine) : Prop where
  past : ∀ machine target, Running memory machine → target ≤ readMcycle memory machine →
    interpret machine target = (.reachedTargetMcycle, machine)
  forward : ∀ machine target, Running memory machine → readMcycle memory machine < target →
    readMcycle memory machine ≤ readMcycle memory (interpret machine target).2 ∧
      readMcycle memory (interpret machine target).2 ≤ target
  reached : ∀ machine target, Running memory machine → readMcycle memory machine < target →
    (interpret machine target).1 = .reachedTargetMcycle →
      readMcycle memory (interpret machine target).2 = target ∧
        Running memory (interpret machine target).2
  halted : ∀ machine target, Running memory machine → readMcycle memory machine < target →
    (interpret machine target).1 = .halted → readIflagsH memory (interpret machine target).2 ≠ 0
  yielded : ∀ machine target, Running memory machine → readMcycle memory machine < target →
    (interpret machine target).1 = .yieldedManually →
      readIflagsH memory (interpret machine target).2 = 0 ∧
        readIflagsY memory (interpret machine target).2 ≠ 0
  uarchCycle : ∀ machine target, Running memory machine → readMcycle memory machine < target →
    readUarchCycle memory (interpret machine target).2 = readUarchCycle memory machine
  continues : ∀ machine target later, Running memory machine →
    readMcycle memory machine < target → target ≤ later →
      (interpret machine target).1 = .reachedTargetMcycle →
        interpret machine later = interpret (interpret machine target).2 later
  stops : ∀ machine target later, Running memory machine →
    readMcycle memory machine < target → target ≤ later →
      (interpret machine target).1 ≠ .reachedTargetMcycle →
        interpret machine later = interpret machine target

end Interpreter

section Arithmetic

theorem toNat_saturatingAdd {a b max : Word} (below : a ≤ max) :
    (saturatingAdd a b max).toNat = min (a.toNat + b.toNat) max.toNat := by
  have order : a.toNat ≤ max.toNat := below
  have maxBound := max.isLt
  rw [saturatingAdd]
  by_cases beyond : max < b ∨ max - b < a
  · rw [if_pos beyond]
    have large : max.toNat ≤ a.toNat + b.toNat := by
      rcases beyond with beyond | beyond
      · have := BitVec.lt_def.mp beyond
        omega
      · by_cases bounded : b ≤ max
        · have := BitVec.lt_def.mp beyond
          rw [BitVec.toNat_sub_of_le bounded] at this
          omega
        · have : ¬b.toNat ≤ max.toNat := bounded
          omega
    omega
  · rw [if_neg beyond]
    push Not at beyond
    have bounded : b ≤ max := BitVec.not_lt.mp beyond.1
    have room := BitVec.le_def.mp (BitVec.not_lt.mp beyond.2)
    have order' : b.toNat ≤ max.toNat := bounded
    rw [BitVec.toNat_sub_of_le bounded] at room
    rw [BitVec.toNat_add, Nat.mod_eq_of_lt (by omega)]
    omega

/-- The phase that the code computes from the cycles since the start of the call. -/
def phaseAfter (mcyclePeriod mcyclePhase cycles : Nat) : Nat :=
  (cycles % mcyclePeriod + mcyclePhase) % 2 ^ 64 % mcyclePeriod

theorem toNat_newPhase {mcycleStart mcycleReached : Word} (mcyclePeriod mcyclePhase : Word)
    (forward : mcycleStart ≤ mcycleReached) :
    (((mcycleReached - mcycleStart) % mcyclePeriod + mcyclePhase) % mcyclePeriod).toNat =
      phaseAfter mcyclePeriod.toNat mcyclePhase.toNat
        (mcycleReached.toNat - mcycleStart.toNat) := by
  rw [phaseAfter, BitVec.toNat_umod, BitVec.toNat_add, BitVec.toNat_umod,
    BitVec.toNat_sub_of_le forward]

/-- Without a wrap-around the phase is the number of cycles since a period boundary. -/
theorem phaseAfter_eq {mcyclePeriod mcyclePhase cycles : Nat}
    (exact_ : mcyclePeriod ≤ 2 ^ 63 ∨ cycles + mcyclePhase < 2 ^ 64)
    (inside : mcyclePhase < mcyclePeriod) :
    phaseAfter mcyclePeriod mcyclePhase cycles = (mcyclePhase + cycles) % mcyclePeriod := by
  have remainder : cycles % mcyclePeriod < mcyclePeriod := Nat.mod_lt _ (by omega)
  have smaller : cycles % mcyclePeriod ≤ cycles := Nat.mod_le _ _
  rw [phaseAfter, Nat.mod_eq_of_lt (a := cycles % mcyclePeriod + mcyclePhase) (by omega),
    Nat.mod_add_mod, Nat.add_comm]

end Arithmetic

section Append

variable {Hash : Type} (hashers : HashFunctionType → Hasher Hash)

/-- A tree with room for one more leaf. -/
def HasRoom (tree : BackMerkleTree Hash) : Prop := tree.leafCount < tree.getMaxLeaves

theorem hasRoom_clear (tree : BackMerkleTree Hash) : HasRoom tree.clear := by
  change 0 < 2 ^ tree.log2MaxLeaves
  positivity

theorem getRootHash_full {tree : BackMerkleTree Hash} (full : tree.full = true) :
    tree.getRootHash = .ok (tree.context tree.log2MaxLeaves) := by
  rw [BackMerkleTree.getRootHash, check_pos full]
  rfl

/-- A full tree holds its root hash in the last position. -/
theorem same_root {first second : BackMerkleTree Hash} (same : first.Same second)
    (filled : first.leafCount = first.getMaxLeaves) :
    ∃ root, first.getRootHash = .ok root ∧ second.getRootHash = .ok root := by
  have full : first.full = true := decide_eq_true filled.ge
  have set : first.leafCount.testBit first.log2MaxLeaves = true := by
    rw [filled]
    exact Nat.testBit_two_pow_self
  refine ⟨_, getRootHash_full full, ?_⟩
  rw [getRootHash_full (same.full ▸ full), ← same.log2MaxLeaves, same.context _ set]

theorem appendRootHash_full {tree pushed : BackMerkleTree Hash} {rootHash root : Hash}
    (appended : tree.pushBack hashers rootHash = .ok pushed) (full : pushed.full = true)
    (rooted : pushed.getRootHash = .ok root) (hashes : List Hash) :
    appendRootHash hashers rootHash hashes tree = .ok (hashes ++ [root], pushed.clear) := by
  apply bind_ok.mpr
  refine ⟨pushed, appended, ?_⟩
  rw [if_pos full]
  exact bind_ok.mpr ⟨root, rooted, rfl⟩

theorem appendRootHash_partial {tree pushed : BackMerkleTree Hash} {rootHash : Hash}
    (appended : tree.pushBack hashers rootHash = .ok pushed) (open_ : ¬pushed.full = true)
    (hashes : List Hash) :
    appendRootHash hashers rootHash hashes tree = .ok (hashes ++ [], pushed) := by
  apply bind_ok.mpr
  refine ⟨pushed, appended, ?_⟩
  rw [if_neg open_, List.append_nil]
  rfl

/-- A period hash adds the same bundles to two trees that are the same. -/
theorem appendRootHash_same {first second : BackMerkleTree Hash} (same : first.Same second)
    (room : HasRoom first) (rootHash : Hash) :
    ∃ bundles firstTree secondTree,
      (∀ hashes, appendRootHash hashers rootHash hashes first = .ok (hashes ++ bundles, firstTree)) ∧
      (∀ hashes,
        appendRootHash hashers rootHash hashes second = .ok (hashes ++ bundles, secondTree)) ∧
      firstTree.Same secondTree ∧ HasRoom firstTree ∧
      firstTree.log2MaxLeaves = first.log2MaxLeaves ∧
      firstTree.hashFunction = first.hashFunction ∧
      (first.log2MaxLeaves = 0 → firstTree.leafCount = 0) := by
  obtain ⟨firstPushed, secondPushed, pushed, pushed', agree, count, height, function⟩ :=
    same.pushBack hashers rootHash room
  have limit : firstPushed.leafCount ≤ firstPushed.getMaxLeaves := by
    rw [count, BackMerkleTree.getMaxLeaves, height]
    exact room
  by_cases full : firstPushed.full = true
  · have filled : firstPushed.leafCount = firstPushed.getMaxLeaves :=
      le_antisymm limit (of_decide_eq_true full)
    obtain ⟨root, rooted, rooted'⟩ := same_root agree filled
    exact ⟨[root], firstPushed.clear, secondPushed.clear,
      appendRootHash_full hashers pushed full rooted,
      appendRootHash_full hashers pushed' (agree.full ▸ full) rooted', agree.clear,
      hasRoom_clear _, height, function, fun _ => rfl⟩
  · have room' : HasRoom firstPushed := by
      apply lt_of_not_ge
      intro filled
      exact full (decide_eq_true filled)
    refine ⟨[], firstPushed, secondPushed, appendRootHash_partial hashers pushed full,
      appendRootHash_partial hashers pushed' (agree.full ▸ full), agree, room', height, function,
      ?_⟩
    intro single
    rw [HasRoom, BackMerkleTree.getMaxLeaves, height, single] at room'
    omega

end Append

section Rounds

variable {Hash Machine : Type} [Inhabited Hash]
variable (hashers : HashFunctionType → Hasher Hash) (config : CollectConfig)
variable (memory : Machine → Memory)
variable (interpret : Machine → Word → InterpreterBreakReason × Machine)

/-- The run ended in a state that no further cycle changes. -/
def reachesFixedPoint (outcome : InterpreterBreakReason × Machine) : Bool :=
  outcome.1 = .halted || outcome.1 = .yieldedManually ||
    readMcycle memory outcome.2 = BitVec.allOnes 64

/-- The part of a round behind the run of the interpreter. -/
def settle (newPhase : Word) (outcome : InterpreterBreakReason × Machine)
    (progress : Progress Hash Machine) : Except Failure (Progress Hash Machine) := do
  if newPhase = 0 || reachesFixedPoint memory outcome then do
    let rootHash := Uarch.canonicalRootHash (hashers config.hashFunction) (memory outcome.2)
    let (hashes, backTree) ← appendRootHash hashers rootHash progress.hashes progress.backTree
    return ⟨outcome.2, hashes, newPhase, outcome.1, backTree, reachesFixedPoint memory outcome,
      rootHash⟩
  else
    return ⟨outcome.2, progress.hashes, newPhase, outcome.1, progress.backTree,
      reachesFixedPoint memory outcome, progress.rootHash⟩

omit [Inhabited Hash] in
theorem collectPeriod_eq (mcycleStart mcyclePeriod mcyclePhase mcycleTarget : Word)
    (progress : Progress Hash Machine) :
    collectPeriod hashers config memory interpret mcycleStart mcyclePeriod mcyclePhase mcycleTarget
        progress =
      settle hashers config memory
        (((readMcycle memory (interpret progress.machine mcycleTarget).2 - mcycleStart) %
          mcyclePeriod + mcyclePhase) % mcyclePeriod)
        (interpret progress.machine mcycleTarget) progress := rfl

/-- The progress of a later call beside that of one call for both; the later call does not have the
hashes from before it. -/
structure Follows (before : List Hash) (later whole : Progress Hash Machine) : Prop where
  machine : later.machine = whole.machine
  hashes : whole.hashes = before ++ later.hashes
  mcyclePhase : later.mcyclePhase = whole.mcyclePhase
  breakReason : later.breakReason = whole.breakReason
  backTree : later.backTree.Same whole.backTree
  atFixedPoint : later.atFixedPoint = whole.atFixedPoint
  rootHash : later.atFixedPoint = true → later.rootHash = whole.rootHash

omit [Inhabited Hash] in
theorem Follows.refl (progress : Progress Hash Machine) : Follows [] progress progress :=
  ⟨rfl, rfl, rfl, rfl, BackMerkleTree.Same.refl _, rfl, fun _ => rfl⟩

/-- What a run of the interpreter leaves in the progress. -/
structure Settled (newPhase : Word) (outcome : InterpreterBreakReason × Machine)
    (progress next : Progress Hash Machine) : Prop where
  machine : next.machine = outcome.2
  mcyclePhase : next.mcyclePhase = newPhase
  breakReason : next.breakReason = outcome.1
  atFixedPoint : next.atFixedPoint = reachesFixedPoint memory outcome
  room : HasRoom next.backTree
  log2MaxLeaves : next.backTree.log2MaxLeaves = progress.backTree.log2MaxLeaves
  hashFunction : next.backTree.hashFunction = progress.backTree.hashFunction
  bundled : next.atFixedPoint = true → next.backTree.log2MaxLeaves = 0 → next.backTree.leafCount = 0

omit [Inhabited Hash] in
theorem settle_collected {newPhase : Word} {outcome : InterpreterBreakReason × Machine}
    (collected : (newPhase = 0 || reachesFixedPoint memory outcome) = true)
    {progress : Progress Hash Machine} {hashes : List Hash} {backTree : BackMerkleTree Hash}
    (appended : appendRootHash hashers
      (Uarch.canonicalRootHash (hashers config.hashFunction) (memory outcome.2)) progress.hashes
      progress.backTree = .ok (hashes, backTree)) :
    settle hashers config memory newPhase outcome progress =
      .ok ⟨outcome.2, hashes, newPhase, outcome.1, backTree, reachesFixedPoint memory outcome,
        Uarch.canonicalRootHash (hashers config.hashFunction) (memory outcome.2)⟩ := by
  rw [settle, if_pos collected]
  exact bind_ok.mpr ⟨(hashes, backTree), appended, rfl⟩

omit [Inhabited Hash] in
theorem settle_skipped {newPhase : Word} {outcome : InterpreterBreakReason × Machine}
    (skipped : ¬(newPhase = 0 || reachesFixedPoint memory outcome) = true)
    (progress : Progress Hash Machine) :
    settle hashers config memory newPhase outcome progress =
      .ok ⟨outcome.2, progress.hashes, newPhase, outcome.1, progress.backTree,
        reachesFixedPoint memory outcome, progress.rootHash⟩ := by
  rw [settle, if_neg skipped]
  rfl

omit [Inhabited Hash] in
/-- A run of the interpreter leaves a later call and the call for both in step. -/
theorem settle_follows {before : List Hash} {later whole : Progress Hash Machine}
    (follows : Follows before later whole) (room : HasRoom later.backTree)
    (newPhase : Word) (outcome : InterpreterBreakReason × Machine) :
    ∃ laterNext wholeNext,
      settle hashers config memory newPhase outcome later = .ok laterNext ∧
      settle hashers config memory newPhase outcome whole = .ok wholeNext ∧
      Follows before laterNext wholeNext ∧ Settled memory newPhase outcome later laterNext := by
  by_cases collected : (newPhase = 0 || reachesFixedPoint memory outcome) = true
  · obtain ⟨bundles, laterTree, wholeTree, appended, appended', same, room', height, function,
      single⟩ :=
      appendRootHash_same hashers follows.backTree room
        (Uarch.canonicalRootHash (hashers config.hashFunction) (memory outcome.2))
    refine ⟨_, _, settle_collected hashers config memory collected (appended _),
      settle_collected hashers config memory collected (appended' _), ?_, ?_⟩
    · refine ⟨rfl, ?_, rfl, rfl, same, rfl, fun _ => rfl⟩
      simp only [follows.hashes, List.append_assoc]
    · refine ⟨rfl, rfl, rfl, rfl, room', height, function, ?_⟩
      intro _ zero
      exact single (height.symm.trans zero)
  · have moving : reachesFixedPoint memory outcome = false := by
      simp only [Bool.or_eq_true, not_or, Bool.not_eq_true] at collected
      exact collected.2
    refine ⟨_, _, settle_skipped hashers config memory collected later,
      settle_skipped hashers config memory collected whole, ?_, ?_⟩
    · refine ⟨rfl, follows.hashes, rfl, rfl, follows.backTree, rfl, ?_⟩
      intro fixed
      rw [moving] at fixed
      exact absurd fixed (by simp)
    · refine ⟨rfl, rfl, rfl, rfl, room, rfl, rfl, ?_⟩
      intro fixed
      rw [moving] at fixed
      exact absurd fixed (by simp)

end Rounds

end MachineEmulator.Collect
