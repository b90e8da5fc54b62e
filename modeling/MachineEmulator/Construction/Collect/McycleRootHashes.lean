/-
This file gives the collection of root hashes at every period of machine cycles.
-/

import MachineEmulator.Construction.Collect.BackMerkleTree

namespace MachineEmulator.Collect

open StepLog (HashFunctionType mcycleAddress)

inductive InterpreterBreakReason where
  | failed
  | halted
  | yieldedManually
  | yieldedAutomatically
  | yieldedSoftly
  | reachedTargetMcycle
  | consoleOutput
  | consoleInput
deriving DecidableEq, Repr

def iflagsHAddress : Word := 0x308

/-- This is `saturating_add` with its maximum. -/
def saturatingAdd (a b max : Word) : Word :=
  if max < b ∨ max - b < a then max else a + b

/-- The parts of the configuration that a collection reads. -/
structure CollectConfig where
  hashFunction : HashFunctionType
  unreproducible : Bool
  softYield : Bool

/-- This is `mcycle_root_hashes` without the text of a console error. -/
structure McycleRootHashes (Hash : Type) where
  hashes : List Hash
  mcyclePhase : Word
  breakReason : InterpreterBreakReason
  backTree : Option (BackMerkleTree Hash)

section Collect

variable {Hash Machine : Type} [Inhabited Hash]
variable (hashers : HashFunctionType → Hasher Hash) (config : CollectConfig)
variable (memory : Machine → Memory)
variable (interpret : Machine → Word → InterpreterBreakReason × Machine)

def readMcycle (machine : Machine) : Word := (memory machine).loadWord mcycleAddress

def readIflagsH (machine : Machine) : Word := (memory machine).loadWord iflagsHAddress

def readIflagsY (machine : Machine) : Word := (memory machine).loadWord Uarch.iflagsYAddress

def readUarchCycle (machine : Machine) : Word :=
  (memory machine).loadWord Uarch.ShadowUarchStateWhat.cycle.address

/-- The local variables of the collection loop. -/
structure Progress (Hash Machine : Type) where
  machine : Machine
  hashes : List Hash
  mcyclePhase : Word
  breakReason : InterpreterBreakReason
  backTree : BackMerkleTree Hash
  atFixedPoint : Bool
  rootHash : Hash

/-- A period hash goes into the back tree, and a full tree gives its root hash and is cleared. -/
def appendRootHash (rootHash : Hash) (hashes : List Hash) (backTree : BackMerkleTree Hash) :
    Except Failure (List Hash × BackMerkleTree Hash) := do
  let pushed ← backTree.pushBack hashers rootHash
  if pushed.full then do
    let bundled ← pushed.getRootHash
    return (hashes ++ [bundled], pushed.clear)
  else return (hashes, pushed)

/-- One round of the collection loop. The interpreter runs with the console operations that resume
it, and the updated hash tree gives the hash of the memory. -/
def collectPeriod (mcycleStart mcyclePeriod mcyclePhase mcycleTarget : Word)
    (progress : Progress Hash Machine) : Except Failure (Progress Hash Machine) := do
  let (breakReason, machine) := interpret progress.machine mcycleTarget
  let mcycleReached := readMcycle memory machine
  let atFixedPoint := breakReason = .halted || breakReason = .yieldedManually ||
    mcycleReached = BitVec.allOnes 64
  let newPhase := ((mcycleReached - mcycleStart) % mcyclePeriod + mcyclePhase) % mcyclePeriod
  if newPhase = 0 || atFixedPoint then do
    let rootHash := Uarch.canonicalRootHash (hashers config.hashFunction) (memory machine)
    let (hashes, backTree) ← appendRootHash hashers rootHash progress.hashes progress.backTree
    return ⟨machine, hashes, newPhase, breakReason, backTree, atFixedPoint, rootHash⟩
  else
    return ⟨machine, progress.hashes, newPhase, breakReason, progress.backTree, atFixedPoint,
      progress.rootHash⟩

/-- The collection loop, cut off after a number of rounds. -/
def collectPeriods (mcycleStart mcycleEnd mcyclePeriod mcyclePhase : Word) :
    Nat → Word → Progress Hash Machine → Except Failure (Progress Hash Machine)
  | 0, _, _ => .error .nonTermination
  | rounds + 1, mcycleTarget, progress =>
      if readMcycle memory progress.machine < mcycleTarget then do
        let next ← collectPeriod hashers config memory interpret mcycleStart mcyclePeriod mcyclePhase
          mcycleTarget progress
        if next.atFixedPoint || next.breakReason ≠ .reachedTargetMcycle then return next
        else
          collectPeriods mcycleStart mcycleEnd mcyclePeriod mcyclePhase rounds
            (saturatingAdd mcycleTarget mcyclePeriod mcycleEnd) next
      else return progress

/-- A fixed point fills the bundle that is under way and adds one bundle of its own. -/
def padFixedPoint (log2BundleMcycleCount : Nat) (progress : Progress Hash Machine) :
    Except Failure (List Hash × BackMerkleTree Hash) := do
  let padHashes := BackMerkleTree.makePadHashes hashers progress.rootHash log2BundleMcycleCount
    config.hashFunction
  let last := padHashes[log2BundleMcycleCount]?.getD default
  if progress.backTree.empty then return (progress.hashes ++ [last], progress.backTree)
  else do
    check (¬progress.backTree.full) .assertionFailed
    let padded ← progress.backTree.padBack hashers padHashes
      progress.backTree.getRemainingLeafCount
    let bundled ← padded.getRootHash
    return (progress.hashes ++ [bundled] ++ [last], padded.clear)

/-- The part of the collection behind its loop. -/
def finishCollection (log2BundleMcycleCount : Nat) (progress : Progress Hash Machine) :
    Except Failure (McycleRootHashes Hash × Machine) := do
  let (hashes, backTree) ←
    if progress.atFixedPoint && 0 < log2BundleMcycleCount then
      padFixedPoint hashers config log2BundleMcycleCount progress
    else .ok (progress.hashes, progress.backTree)
  return (⟨hashes, progress.mcyclePhase, progress.breakReason,
    if backTree.empty then none else some backTree⟩, progress.machine)

/-- The back tree of an earlier call, or a new one. -/
def initialBackTree (log2BundleMcycleCount : Int)
    (previousBackTree : Option (BackMerkleTree Hash)) : Except Failure (BackMerkleTree Hash) :=
  match previousBackTree with
  | some backTree => .ok backTree
  | none => BackMerkleTree.make log2BundleMcycleCount config.hashFunction

/-- The collection past its checks. The space that it reserves is a quotient by the number of cycles
of a bundle, taken modulo `2^64`. -/
def collectFrom (machine : Machine) (mcycleEnd mcyclePeriod mcyclePhase : Word)
    (log2BundleMcycleCount : Int) (previousBackTree : Option (BackMerkleTree Hash)) :
    Except Failure (McycleRootHashes Hash × Machine) := do
  let mcycleStart := readMcycle memory machine
  let backTree ← initialBackTree config log2BundleMcycleCount previousBackTree
  check (mcyclePeriod * (1#64 <<< log2BundleMcycleCount.toNat) ≠ 0) .undefinedBehavior
  let progress ← collectPeriods hashers config memory interpret mcycleStart mcycleEnd mcyclePeriod
    mcyclePhase ((mcycleEnd - mcycleStart).toNat + 1)
    (saturatingAdd mcycleStart (mcyclePeriod - mcyclePhase) mcycleEnd)
    ⟨machine, [], mcyclePhase, .reachedTargetMcycle, backTree, false, default⟩
  finishCollection hashers config log2BundleMcycleCount.toNat progress

def collectMcycleRootHashes (machine : Machine) (mcycleEnd mcyclePeriod mcyclePhase : Word)
    (log2BundleMcycleCount : Int) (previousBackTree : Option (BackMerkleTree Hash)) :
    Except Failure (McycleRootHashes Hash × Machine) := do
  check (readMcycle memory machine ≤ mcycleEnd) .mcycleIsPast
  check (mcyclePeriod ≠ 0) .mcyclePeriodZero
  check (mcyclePhase < mcyclePeriod) .mcyclePhaseOutOfRange
  check (∀ backTree ∈ previousBackTree, (backTree.log2MaxLeaves : Int) = log2BundleMcycleCount ∧
    backTree.hashFunction = config.hashFunction) .backTreeIncompatible
  check (config.unreproducible = false) .machineUnreproducible
  check (config.softYield = false) .softYieldEnabled
  check (readUarchCycle memory machine = 0) .uarchNotReset
  if readIflagsH memory machine ≠ 0 then
    return (⟨[], mcyclePhase, .halted, none⟩, machine)
  else if readIflagsY memory machine ≠ 0 then
    return (⟨[], mcyclePhase, .yieldedManually, none⟩, machine)
  else
    collectFrom hashers config memory interpret machine mcycleEnd mcyclePeriod mcyclePhase
      log2BundleMcycleCount previousBackTree

/-- Consecutive calls to a list of targets and then to the end. Each call gets the phase and the back
tree of the call before it. A call that the interpreter leaves for another reason than its target or
a fixed point is the last one, because its machine waits for the host. -/
def collectCalls (mcycleEnd mcyclePeriod : Word) (log2BundleMcycleCount : Int) :
    List Word → Machine → Word → Option (BackMerkleTree Hash) →
      Except Failure (McycleRootHashes Hash × Machine)
  | [], machine, mcyclePhase, previousBackTree =>
      collectMcycleRootHashes hashers config memory interpret machine mcycleEnd mcyclePeriod
        mcyclePhase log2BundleMcycleCount previousBackTree
  | target :: targets, machine, mcyclePhase, previousBackTree => do
      let (first, reached) ← collectMcycleRootHashes hashers config memory interpret machine target
        mcyclePeriod mcyclePhase log2BundleMcycleCount previousBackTree
      if first.breakReason = .reachedTargetMcycle ∨ first.breakReason = .halted ∨
          first.breakReason = .yieldedManually then do
        let (rest, final) ← collectCalls mcycleEnd mcyclePeriod log2BundleMcycleCount targets reached
          first.mcyclePhase first.backTree
        return ({ rest with hashes := first.hashes ++ rest.hashes }, final)
      else return (first, reached)

end Collect

end MachineEmulator.Collect
