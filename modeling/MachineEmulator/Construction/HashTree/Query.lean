/-
This file gives the questions to the hash tree: the hash of a node, and the proof of a node under a
root.
-/

import MachineEmulator.Construction.HashTree.Increment

namespace MachineEmulator.HashTree

/-- This is `hash_tree_proof`, with a sibling hash for each size from the target to the root. -/
structure HashTreeProof (Hash : Type) where
  targetAddress : Nat
  log2TargetSize : Nat
  log2RootSize : Nat
  targetHash : Hash
  rootHash : Hash
  siblingHash : Nat → Hash

namespace HashTreeProof

variable {Hash : Type} (proof : HashTreeProof Hash)

/-- The loops that set sibling hashes go over all sizes from the last down to the first. -/
def setSiblings (first last : Nat) (value : Nat → Hash) : HashTreeProof Hash :=
  { proof with
    siblingHash := fun log2Size =>
      if first ≤ log2Size ∧ log2Size ≤ last then value log2Size else proof.siblingHash log2Size }

/-- This is `bubble_up`. -/
def bubbleUp (hasher : Hasher Hash) (targetHash : Hash) : Hash :=
  (List.range' proof.log2TargetSize (proof.log2RootSize - proof.log2TargetSize)).foldl
    (fun hash log2Size =>
      if proof.targetAddress.testBit log2Size then
        hasher.concatHash (proof.siblingHash log2Size) hash
      else hasher.concatHash hash (proof.siblingHash log2Size)) targetHash

/-- This is `verify`. -/
def Verifies (hasher : Hasher Hash) : Prop :=
  proof.bubbleUp hasher proof.targetHash = proof.rootHash

end HashTreeProof

variable {Hash : Type} [DecidableEq Hash] (hasher : Hasher Hash) (memory : Memory)

/-- This is `get_root_hash`. -/
def Tree.getRootHash (tree : Tree Hash) : Hash := tree.hash 1

/-- This is `get_sibling_address`. -/
def getSiblingAddress (address log2Size : Nat) : Nat :=
  getAlignedAddress (if address.testBit log2Size then address - 2 ^ log2Size
    else address + 2 ^ log2Size) log2Size

/-- This is `node_hash_view` of a cache entry. -/
def CacheEntry.nodeHashView (entry : CacheEntry Hash) (offset log2Size : Nat) : Hash :=
  entry.tree (2 ^ (hashTreeLog2PageSize - log2Size) + offset / 2 ^ log2Size)

/-- The entry of a page is borrowed, and hashed if the page was not in the cache. -/
def borrowPage (arIndex paddrPage : Nat) (tree : Tree Hash) :
    Except Failure (CacheEntry Hash × Tree Hash) := do
  match ← tree.cache.borrowEntry paddrPage with
  | none => .error .assertionFailed
  | some (hit, cache) =>
      let borrowed := { tree with cache }
      let hashed := if hit then borrowed
        else (updateDirtyPage hasher memory arIndex paddrPage borrowed).2.2
      match hashed.cache.find paddrPage with
      | none => .error .entryNotBorrowed
      | some entry =>
          let cache ← hashed.cache.returnEntry paddrPage
          return (entry, { hashed with cache })

/-- This is `get_dense_node_hash`. -/
def getDenseNodeHash (arIndex address log2Size : Nat) (tree : Tree Hash) :
    Except Failure (Hash × Tree Hash) := do
  let range := tree.range arIndex
  check (range.containsAbsolute address hashTreeWordSize = true) .assertionFailed
  if log2Size < hashTreeLog2PageSize then
    check (hashTreeLog2WordSize ≤ log2Size) .assertionFailed
    let paddrPage := pageOf address
    let borrowed ← borrowPage hasher memory arIndex paddrPage tree
    return (borrowed.1.nodeHashView (address - paddrPage) log2Size, borrowed.2)
  else
    return (range.dense (range.position (address - range.start) log2Size), tree)

/-- The loop of `get_node_hash` down the sparse tree, with the size as the bound. -/
def getNodeHashFrom (address log2Size : Nat) (tree : Tree Hash) :
    Nat → Nat → Except Failure (Hash × Tree Hash)
  | currLog2Size, nodeIndex =>
      if nodeIndex = 0 then
        .ok (pristineHash hasher (log2Size - hashTreeLog2WordSize), tree)
      else do
        let node := tree.node nodeIndex
        check (node.log2Size = currLog2Size) .assertionFailed
        if currLog2Size = log2Size then return (tree.hash nodeIndex, tree)
        else
          match node.links with
          | .range arIndex => do
              check (currLog2Size = (tree.range arIndex).log2Size) .assertionFailed
              getDenseNodeHash hasher memory arIndex address log2Size tree
          | .inner left right =>
              match currLog2Size with
              | 0 => .error .undefinedBehavior
              | below + 1 =>
                  getNodeHashFrom address log2Size tree below
                    (if address.testBit below then right else left)

/-- An address is aligned to a size, where the size of the whole space leaves only address 0. -/
def Aligned (address log2Size : Nat) : Prop :=
  if log2Size = hashTreeLog2RootSize then address = 0 else getAlignedAddress address log2Size = address

instance (address log2Size : Nat) : Decidable (Aligned address log2Size) := by
  unfold Aligned
  infer_instance

/-- This is `get_node_hash`. -/
def getNodeHash (address log2Size : Nat) (tree : Tree Hash) : Except Failure (Hash × Tree Hash) := do
  check (hashTreeLog2WordSize ≤ log2Size ∧ log2Size ≤ hashTreeLog2RootSize) .invalidLog2Size
  check (Aligned address log2Size) .addressNotAligned
  getNodeHashFrom hasher memory address log2Size tree hashTreeLog2RootSize 1

section GetProof

variable (proof : HashTreeProof Hash)

/-- This is `get_pristine_proof`. -/
def getPristineProof (currLog2Size : Nat) : HashTreeProof Hash :=
  let pristine := fun log2Size => pristineHash hasher (log2Size - hashTreeLog2WordSize)
  let siblings := proof.setSiblings proof.log2TargetSize
    (min proof.log2RootSize currLog2Size - 1) pristine
  let target := { siblings with targetHash := pristine proof.log2TargetSize }
  if proof.log2RootSize ≤ currLog2Size then { target with rootHash := pristine proof.log2RootSize }
  else target

/-- This is `get_page_proof`. -/
def getPageProof (arIndex address : Nat) (tree : Tree Hash) :
    Except Failure (HashTreeProof Hash × Tree Hash) := do
  let borrowed ← borrowPage hasher memory arIndex (pageOf address) tree
  let entry := borrowed.1
  let offset := address - pageOf address
  let siblings := proof.setSiblings proof.log2TargetSize
    (min proof.log2RootSize hashTreeLog2PageSize - 1)
    fun log2Size => entry.nodeHashView (getSiblingAddress offset log2Size) log2Size
  let target := { siblings with targetHash := entry.nodeHashView offset proof.log2TargetSize }
  if proof.log2RootSize ≤ hashTreeLog2PageSize then
    return ({ target with
      rootHash := entry.nodeHashView (getAlignedAddress offset proof.log2RootSize)
        proof.log2RootSize }, borrowed.2)
  else return (target, borrowed.2)

/-- This is `get_dense_proof`. -/
def getDenseProof (arIndex address : Nat) (tree : Tree Hash) :
    Except Failure (HashTreeProof Hash × Tree Hash) :=
  let range := tree.range arIndex
  let view := fun offset log2Size => range.dense (range.position offset log2Size)
  let offset := address - range.start
  let siblings := proof.setSiblings (max hashTreeLog2PageSize proof.log2TargetSize)
    (min proof.log2RootSize range.log2Size - 1)
    fun log2Size => view (getSiblingAddress offset log2Size) log2Size
  let root := if hashTreeLog2PageSize ≤ proof.log2RootSize ∧ proof.log2RootSize ≤ range.log2Size then
    { siblings with
      rootHash := view (getAlignedAddress offset proof.log2RootSize) proof.log2RootSize }
    else siblings
  if hashTreeLog2PageSize ≤ proof.log2TargetSize then
    .ok ({ root with targetHash := view offset proof.log2TargetSize }, tree)
  else getPageProof hasher memory root arIndex address tree

/-- The loop of `get_proof` down the sparse tree, with the size as the bound. -/
def getProofFrom (tree : Tree Hash) :
    Nat → Nat → HashTreeProof Hash → Except Failure (HashTreeProof Hash × Tree Hash)
  | currLog2Size, nodeIndex, proof =>
      if nodeIndex = 0 then .ok (getPristineProof hasher proof currLog2Size, tree)
      else do
        let node := tree.node nodeIndex
        let found := if currLog2Size = proof.log2RootSize then
          { proof with rootHash := tree.hash nodeIndex }
          else proof
        check (node.log2Size = currLog2Size) .assertionFailed
        if currLog2Size = proof.log2TargetSize then
          return ({ found with targetHash := tree.hash nodeIndex }, tree)
        else
          match node.links with
          | .range arIndex => do
              check (currLog2Size = (tree.range arIndex).log2Size) .assertionFailed
              getDenseProof hasher memory found arIndex proof.targetAddress tree
          | .inner left right =>
              match currLog2Size with
              | 0 => .error .undefinedBehavior
              | below + 1 =>
                  let turn := proof.targetAddress.testBit below
                  let sibling := if turn then left else right
                  let next := if below < proof.log2RootSize ∧ proof.log2TargetSize ≤ below then
                    found.setSiblings below below fun log2Size =>
                      sparseNodeHashView hasher tree.hash sibling log2Size
                    else found
                  getProofFrom tree below (if turn then right else left) next

/-- This is `get_proof`. -/
def getProof (address log2TargetSize log2RootSize : Nat) (tree : Tree Hash) :
    Except Failure (HashTreeProof Hash × Tree Hash) := do
  check (hashTreeLog2WordSize ≤ log2RootSize) .log2RootSizeTooSmall
  check (log2RootSize ≤ hashTreeLog2RootSize) .log2RootSizeTooLarge
  check (hashTreeLog2WordSize ≤ log2TargetSize) .log2TargetSizeTooSmall
  check (log2TargetSize ≤ log2RootSize) .log2TargetSizeTooLarge
  check (Aligned address log2TargetSize) .addressNotAlignedToTarget
  getProofFrom hasher memory tree hashTreeLog2RootSize 1 {
    targetAddress := address
    log2TargetSize, log2RootSize
    targetHash := noHash hasher
    rootHash := noHash hasher
    siblingHash := fun _ => noHash hasher }

end GetProof

end MachineEmulator.HashTree
