/-
This file gives the accumulator of the outputs of a machine: the frontier over the leaves so far,
its root, the proofs of the leaves of an epoch and the frontier behind the last of them.
-/

import MachineEmulator.Construction.Hasher

namespace MachineEmulator.Outputs

variable {Hash : Type}

/-- What stops a function: a failed assertion, or a hash of what is no string. -/
inductive LuaError where
  | tooFewSiblings
  | targetNodeNotInTree
  | notAString
deriving DecidableEq, Repr

/-- A proof, whose tables may miss an entry. -/
structure Proof (Hash : Type) where
  targetAddress : Nat
  log2TargetSize : Nat
  log2RootSize : Nat
  targetHash : Hash
  rootHash : Option Hash
  siblingHashes : List (Option Hash)
deriving DecidableEq, Repr

/-- A frontier has an entry for each level, with the root of a complete left subtree or without. -/
abbrev Frontier (Hash : Type) := List (Option Hash)

variable (hasher : Hasher Hash)

section Verification

/-- This is `roll_hash_up_tree`. -/
def rollHashUpTree (proof : Proof Hash) (targetHash : Hash) : Except LuaError Hash :=
  (List.range (proof.log2RootSize - proof.log2TargetSize)).foldlM
    (fun hash step =>
      match proof.siblingHashes[step]? with
      | some (some sibling) =>
          if proof.targetAddress.testBit (proof.log2TargetSize + step) then
            .ok (hasher.concatHash sibling hash)
          else .ok (hasher.concatHash hash sibling)
      | _ => .error .tooFewSiblings)
    targetHash

/-- This is `verify_slice`. -/
def verifySlice [DecidableEq Hash] (proof : Proof Hash) : Except LuaError Unit := do
  let root ← rollHashUpTree hasher proof proof.targetHash
  if some root = proof.rootHash then return ()
  else throw .targetNodeNotInTree

end Verification

section Accumulator

/-- This is `pristine_leaf`, a hash of zeros. -/
def pristineLeaf : Hash := hasher.ofBytes (List.replicate 32 0)

/-- This is `frontier_leaf_count`. -/
def frontierLeafCount (frontier : Frontier Hash) : Nat :=
  frontier.zipIdx.foldl
    (fun leafCount entry => if entry.1.isSome then leafCount ||| 1 <<< entry.2 else leafCount) 0

/-- This is `frontier_node`. -/
def frontierNode (frontierEntry : Option Hash) (base : Nat) (active : List Hash)
    (pristineEntry : Hash) (index : Nat) : Option Hash :=
  if index < base then frontierEntry
  else if index + 1 > base + active.length then some pristineEntry
  else active[index - base]?

/-- This is `frontier_push_back`. The array grows where every level has an entry. -/
def frontierPushBack : Frontier Hash → Hash → Frontier Hash
  | [], right => [some right]
  | none :: rest, right => some right :: rest
  | some left :: rest, right => none :: frontierPushBack rest (hasher.concatHash left right)

/-- The loop of `frontier_get_root_hash`. -/
def getRootHashFrom : Frontier Hash → Hash → Hash → Hash
  | [], root, _ => root
  | some left :: rest, root, pristine =>
      getRootHashFrom rest (hasher.concatHash left root) (hasher.concatHash pristine pristine)
  | none :: rest, root, pristine =>
      getRootHashFrom rest (hasher.concatHash root pristine) (hasher.concatHash pristine pristine)

/-- This is `frontier_get_root_hash`. -/
def frontierGetRootHash (frontier : Frontier Hash) : Hash :=
  getRootHashFrom hasher frontier (pristineLeaf hasher) (pristineLeaf hasher)

/-- This is `frontier_genesis`. -/
def frontierGenesis (log2MaxLeaves : Nat) : Frontier Hash := List.replicate log2MaxLeaves none

end Accumulator

section Proofs

/-- The variables of the loop over the levels. -/
structure ProofState (Hash : Type) where
  siblings : List (List (Option Hash))
  active : List Hash
  base : Nat
  pristine : Hash

/-- The hash of two nodes, which must both be there. -/
def keccak256 (left right : Option Hash) : Except LuaError Hash :=
  match left, right with
  | some left, some right => .ok (hasher.concatHash left right)
  | _, _ => .error .notAString

/-- The body of the loop over the levels: every new leaf gets its sibling, then the active nodes are
combined. -/
def proofLevel (leafCount : Nat) (state : ProofState Hash) (entry : Option Hash × Nat) :
    Except LuaError (ProofState Hash) := do
  let (frontierEntry, bit) := entry
  let node := frontierNode frontierEntry state.base state.active state.pristine
  let siblings := state.siblings.mapIdx fun index siblings =>
    siblings ++ [node (((leafCount + index) >>> bit) ^^^ 1)]
  let parentsBase := state.base >>> 1
  let parentsLast := (state.base + state.active.length - 1) >>> 1
  let parents ← (List.range' parentsBase (parentsLast + 1 - parentsBase)).mapM fun parent =>
    keccak256 hasher (node (2 * parent)) (node (2 * parent + 1))
  return ⟨siblings, parents, parentsBase, hasher.concatHash state.pristine state.pristine⟩

/-- This is `frontier_next_proofs`. -/
def frontierNextProofs (frontier : Frontier Hash) (nextOutputHashes : List Hash) :
    Except LuaError (List (Proof Hash)) :=
  if nextOutputHashes.length = 0 then .ok []
  else do
    let leafCount := frontierLeafCount frontier
    let last ← frontier.zipIdx.foldlM (proofLevel hasher leafCount)
      ⟨nextOutputHashes.map fun _ => [], nextOutputHashes, leafCount, pristineLeaf hasher⟩
    return (nextOutputHashes.zip last.siblings).mapIdx fun index output =>
      { targetAddress := leafCount + index
        log2TargetSize := 0
        log2RootSize := frontier.length
        targetHash := output.1
        rootHash := last.active[0]?
        siblingHashes := output.2 }

/-- The loop that looks for the lowest bit of a leaf count, which has at most 64. -/
def lowestCompleteLevel (leafCount : Nat) : Nat → Nat → Nat
  | 0, bit => bit
  | fuel + 1, bit =>
      if leafCount.testBit bit then bit else lowestCompleteLevel leafCount fuel (bit + 1)

/-- An assignment to an entry of an array or to the one behind its end. -/
def assign (frontier : Frontier Hash) (index : Nat) (hash : Hash) : Frontier Hash :=
  if index < frontier.length then frontier.set index (some hash)
  else if index = frontier.length then frontier ++ [some hash]
  else frontier

/-- This is `frontier` for a proof. Levels are counted from 0. -/
def frontierOfProof (proof : Proof Hash) : Except LuaError (Frontier Hash) := do
  let leafCount := proof.targetAddress + 1
  let lowest := lowestCompleteLevel leafCount 64 0
  let above := (List.range proof.log2RootSize).map fun bit =>
    if lowest < bit ∧ leafCount.testBit bit then (proof.siblingHashes[bit]?).join else none
  let hash ← (List.range lowest).foldlM
    (fun hash level => keccak256 hasher (proof.siblingHashes[level]?).join (some hash))
    proof.targetHash
  return assign above lowest hash

end Proofs

end MachineEmulator.Outputs
