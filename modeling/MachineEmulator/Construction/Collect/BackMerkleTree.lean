/-
This file gives the tree that receives its leaves from left to right and keeps only the roots of the
complete subtrees.
-/

import MachineEmulator.Construction.StepLog.Replay

namespace MachineEmulator.Collect

open StepLog (HashFunctionType)

/-- This is `back_merkle_tree`. Bit `i` of the leaf count says whether the context holds the root of
a complete subtree with `2^i` leaves at position `i`; `default` is the `machine_hash` of zeros. -/
structure BackMerkleTree (Hash : Type) where
  log2MaxLeaves : Nat
  hashFunction : HashFunctionType
  leafCount : Nat
  context : Nat → Hash

namespace BackMerkleTree

variable {Hash : Type}

def getMaxLeaves (tree : BackMerkleTree Hash) : Nat := 2 ^ tree.log2MaxLeaves

def full (tree : BackMerkleTree Hash) : Bool := tree.getMaxLeaves ≤ tree.leafCount

def empty (tree : BackMerkleTree Hash) : Bool := tree.leafCount = 0

def getRemainingLeafCount (tree : BackMerkleTree Hash) : Nat := tree.getMaxLeaves - tree.leafCount

def clear (tree : BackMerkleTree Hash) : BackMerkleTree Hash := { tree with leafCount := 0 }

/-- The context without the positions that hold no subtree. -/
def getContext (tree : BackMerkleTree Hash) : List Hash :=
  ((List.range (tree.log2MaxLeaves + 1)).filter fun level => tree.leafCount.testBit level).map
    tree.context

def getRootHash (tree : BackMerkleTree Hash) : Except Failure Hash := do
  check tree.full .backTreeIncomplete
  return tree.context tree.log2MaxLeaves

/-- This is the constructor without leaves. -/
def make [Inhabited Hash] (log2MaxLeaves : Int) (hashFunction : HashFunctionType) :
    Except Failure (BackMerkleTree Hash) := do
  check (0 ≤ log2MaxLeaves) .log2MaxLeavesNegative
  check (log2MaxLeaves < 64) .log2MaxLeavesTooLarge
  return ⟨log2MaxLeaves.toNat, hashFunction, 0, fun _ => default⟩

section Append

variable (hashers : HashFunctionType → Hasher Hash)

/-- The loop that both ways to append share: it joins the subtrees that end at the new one, and gives
the first position without a subtree and the hash that belongs there. -/
def carry (concatHash : Hash → Hash → Hash) (leafCount : Nat) (context : Nat → Hash) :
    Nat → Nat → Hash → Option (Nat × Hash)
  | 0, _, _ => none
  | steps + 1, level, right =>
      if leafCount.testBit level then
        carry concatHash leafCount context steps (level + 1) (concatHash (context level) right)
      else some (level, right)

def carryFrom (tree : BackMerkleTree Hash) (level : Nat) (right : Hash) : Option (Nat × Hash) :=
  carry (hashers tree.hashFunction).concatHash tree.leafCount tree.context
    (tree.log2MaxLeaves + 1 - level) level right

def pushBack (tree : BackMerkleTree Hash) (newLeafHash : Hash) :
    Except Failure (BackMerkleTree Hash) := do
  check (tree.leafCount < tree.getMaxLeaves) .tooManyLeaves
  match tree.carryFrom hashers 0 newLeafHash with
  | some (level, right) =>
      return { tree with
        leafCount := tree.leafCount + 1, context := Function.update tree.context level right }
  | none => return { tree with leafCount := tree.leafCount + 1 }

/-- This is `make_pad_hashes`, without its `assert` on the sign of the logarithm. -/
def makePadHashes (leafHash : Hash) (log2MaxLeaves : Nat) (hashFunction : HashFunctionType) :
    List Hash :=
  List.iterate (fun hash => (hashers hashFunction).concatHash hash hash) leafHash
    (log2MaxLeaves + 1)

variable [Inhabited Hash] (padHashes : List Hash)

/-- The first loop of `pad_back`, with the level and the number of leaves that are still missing.
Each round but one that carries out of the tree raises the level, so that it ends within the given
number of rounds. Only such a carry can wrap the leaf count around. -/
def padCarries : Nat → Nat → Nat → BackMerkleTree Hash → BackMerkleTree Hash × Nat
  | 0, _, missing, tree => (tree, missing)
  | rounds + 1, level, missing, tree =>
      if tree.log2MaxLeaves < level ∨ missing < 2 ^ level then (tree, missing)
      else if tree.leafCount.testBit level then
        match tree.carryFrom hashers level (padHashes[level]?.getD default) with
        | some (next, right) =>
            padCarries rounds next (missing - 2 ^ level) { tree with
              leafCount := tree.leafCount + 2 ^ level
              context := Function.update tree.context next right }
        | none =>
            padCarries rounds level (missing - 2 ^ level)
              { tree with leafCount := (tree.leafCount + 2 ^ level) % 2 ^ 64 }
      else padCarries rounds (level + 1) missing tree

/-- The second loop of `pad_back` sets the subtrees that are left over. -/
def padRest : Nat → Nat → Nat → BackMerkleTree Hash → BackMerkleTree Hash × Nat
  | 0, _, missing, tree => (tree, missing)
  | steps + 1, level, missing, tree =>
      if missing.testBit level then
        padRest steps (level + 1) (missing - 2 ^ level) { tree with
          leafCount := tree.leafCount + 2 ^ level
          context := Function.update tree.context level (padHashes[level]?.getD default) }
      else padRest steps (level + 1) missing tree

def padBack (tree : BackMerkleTree Hash) (newLeafCount : Nat) :
    Except Failure (BackMerkleTree Hash) := do
  if newLeafCount = 0 then return tree
  else do
    check (newLeafCount ≤ tree.getMaxLeaves ∧
      (tree.leafCount + newLeafCount) % 2 ^ 64 ≤ tree.getMaxLeaves) .tooManyLeaves
    check (padHashes.length = tree.log2MaxLeaves + 1) .padHashesSizeMismatch
    let (carried, missing) :=
      padCarries hashers padHashes (tree.log2MaxLeaves + 1) 0 newLeafCount tree
    let (padded, left) := padRest padHashes (tree.log2MaxLeaves + 1) 0 missing carried
    check (left = 0) .assertionFailed
    check (padded.leafCount ≤ padded.getMaxLeaves) .assertionFailed
    return padded

/-- This is `pad_back` as the call on an object: the outcome and the tree that it leaves, also where
it throws. -/
def padBackInPlace (tree : BackMerkleTree Hash) (newLeafCount : Nat) :
    Except Failure Unit × BackMerkleTree Hash :=
  if newLeafCount = 0 then (.ok (), tree)
  else if tree.getMaxLeaves < newLeafCount ∨
      tree.getMaxLeaves < (tree.leafCount + newLeafCount) % 2 ^ 64 then
    (.error .tooManyLeaves, tree)
  else if padHashes.length ≠ tree.log2MaxLeaves + 1 then (.error .padHashesSizeMismatch, tree)
  else
    let carried := padCarries hashers padHashes (tree.log2MaxLeaves + 1) 0 newLeafCount tree
    let padded := padRest padHashes (tree.log2MaxLeaves + 1) 0 carried.2 carried.1
    if padded.2 ≠ 0 ∨ padded.1.getMaxLeaves < padded.1.leafCount then
      (.error .assertionFailed, padded.1)
    else (.ok (), padded.1)

end Append

section Calls

/-- The calls that change a tree. -/
inductive Call (Hash : Type) where
  | pushBack (newLeafHash : Hash)
  | padBack (newLeafCount : Nat) (padHashes : List Hash)
  | clear

variable [Inhabited Hash] (hashers : HashFunctionType → Hasher Hash)

/-- The outcome of a call and the tree that it leaves. A push throws before it changes the tree. -/
def perform (tree : BackMerkleTree Hash) :
    Call Hash → Except Failure Unit × BackMerkleTree Hash
  | .pushBack newLeafHash =>
      match tree.pushBack hashers newLeafHash with
      | .ok pushed => (.ok (), pushed)
      | .error failure => (.error failure, tree)
  | .padBack newLeafCount padHashes => tree.padBackInPlace hashers padHashes newLeafCount
  | .clear => (.ok (), tree.clear)

end Calls

end BackMerkleTree

end MachineEmulator.Collect
