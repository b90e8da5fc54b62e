/-
This file gives the updates of the hash tree for known words and for one known page, which leave the
marks of the pages alone.
-/

import MachineEmulator.Construction.HashTree.HashTree

namespace MachineEmulator.HashTree

variable {Hash : Type} [DecidableEq Hash] (hasher : Hasher Hash) (memory : Memory)

/-- This is `get_aligned_address`. -/
def getAlignedAddress (address log2Size : Nat) : Nat := address / 2 ^ log2Size * 2 ^ log2Size

/-- The page of an address. -/
def pageOf (address : Nat) : Nat := getAlignedAddress address hashTreeLog2PageSize

/-- One dirty word of a cached page is copied and queued. -/
def enqueueDirtyWord (page : List Byte) (paddrPage : Nat)
    (state : CacheEntry Hash × List Nat) (word : Nat) : CacheEntry Hash × List Nat :=
  let offset := word - paddrPage
  let data := (page.drop offset).take hashTreeWordSize
  let queued := enqueueLeaf hasher data ((hashTreePageSize + offset) / hashTreeWordSize)
    (state.1.tree, state.2)
  ({ state.1 with
      page := state.1.page.take offset ++ data ++ state.1.page.drop (offset + hashTreeWordSize)
      tree := queued.1 }, queued.2)

/-- The dirty words of a cached page are hashed without a look at the others. -/
def hashDirtyWords (page : List Byte) (words : List Nat) (entry : CacheEntry Hash) :
    CacheEntry Hash :=
  let enqueued := words.foldl (enqueueDirtyWord hasher page entry.paddrPage) (entry, [])
  { enqueued.1 with tree := flush hasher 7 (enqueued.1.tree, enqueued.2) }

/-- A node of a dense tree that is to be hashed, as a range and an offset. -/
abbrev DenseNodeEntry := Nat × Nat

/-- The loop state of `update_words`. -/
structure WordsUpdate (Hash : Type) where
  tree : Tree Hash
  arIndex : Nat
  maxLevelCount : Nat
  failures : Nat
  denseNodes : List DenseNodeEntry
  changedArs : List Nat

/-- The first range from an index on that contains a page, or the number of ranges. -/
def Tree.seekRange (tree : Tree Hash) (arIndex paddrPage : Nat) : Nat :=
  ((List.range' arIndex (tree.count - arIndex)).find? fun index =>
    (tree.range index).containsAbsolute paddrPage hashTreePageSize).getD tree.count

/-- The entry of the page is brought up to date, from the dirty words if the page was found in the
cache. -/
def updateBorrowed (hit : Bool) (arIndex paddrPage : Nat) (words : List Nat) (tree : Tree Hash) :
    Bool × Tree Hash :=
  if hit then
    (true, { tree with
      cache := tree.cache.modify paddrPage
        (hashDirtyWords hasher (Range.pageData memory paddrPage) words) })
  else
    let updated := updateDirtyPage hasher memory arIndex paddrPage tree
    (updated.1, updated.2.2)

/-- The loop of `update_words` over the pages, for the words of one page. -/
def updateWordsOfPage (state : WordsUpdate Hash) (words : List Nat) :
    Except Failure (WordsUpdate Hash) := do
  let paddrPage := pageOf (words.headD 0)
  match ← state.tree.cache.borrowEntry paddrPage with
  | none => return { state with failures := state.failures + 1 }
  | some (hit, cache) =>
      let borrowed := { state.tree with cache }
      let arIndex := borrowed.seekRange state.arIndex paddrPage
      if borrowed.count ≤ arIndex then
        let cache ← cache.returnEntry paddrPage
        return { state with
          tree := { borrowed with cache }, arIndex, failures := state.failures + 1 }
      else
        let changedArs := tryPushBack state.changedArs arIndex
        let maxLevelCount := max state.maxLevelCount (borrowed.range arIndex).levels
        let updated := updateBorrowed hasher memory hit arIndex paddrPage words borrowed
        if updated.1 then
          let copied := (copyPageHash arIndex paddrPage updated.2).2
          let cache ← copied.cache.returnEntry paddrPage
          let offset := paddrPage - (borrowed.range arIndex).start
          return {
            tree := { copied with cache }
            arIndex, maxLevelCount, changedArs
            failures := state.failures
            denseNodes := tryPushBack state.denseNodes
              (arIndex, getAlignedAddress offset (hashTreeLog2PageSize + 1)) }
        else
          let cache ← updated.2.cache.returnEntry paddrPage
          return { state with
            tree := { updated.2 with cache }
            arIndex, maxLevelCount, changedArs
            failures := state.failures + 1 }

/-- One node of a dense tree is hashed. A level above the root of its range has no node there, and the
source hashes into a place of its own that it never reads from. -/
def rehashDense (level : Nat) (tree : Tree Hash) (entry : DenseNodeEntry) : Tree Hash :=
  if level < (tree.range entry.1).levels then
    tree.modifyRange entry.1 fun range =>
      { range with
        dense := (range.denseLinks hasher).rehash range.dense
          (range.position entry.2 (hashTreeLog2PageSize + level)) }
  else tree

/-- One level of the dense trees, which queues the level above. -/
def updateDenseNodes (state : Tree Hash × List DenseNodeEntry) (level : Nat) :
    Tree Hash × List DenseNodeEntry :=
  (state.2.foldl (rehashDense hasher level) state.1,
    state.2.foldl (fun above entry => tryPushBack above
      (entry.1, getAlignedAddress entry.2 (hashTreeLog2PageSize + level + 1))) [])

/-- This is `update_words`, with the dirty words as a set. -/
def updateWords (dirtyWords : Finset Nat) (tree : Tree Hash) : Except Failure (Bool × Tree Hash) :=
  if dirtyWords = ∅ then .ok (true, tree)
  else do
    let words := dirtyWords.sort (· ≤ ·)
    let pages := words.splitBy fun first second => pageOf first = pageOf second
    let leaves ← pages.foldlM (updateWordsOfPage hasher memory) ⟨tree, 0, 0, 0, [], []⟩
    let dense := (List.range' 1 (leaves.maxLevelCount - 1)).foldl (updateDenseNodes hasher)
      (leaves.tree, leaves.denseNodes)
    if 0 < leaves.failures then return (false, dense.1)
    else
      let settled ← updateSparseTree hasher leaves.changedArs dense.1
      return (true, settled)

/-- The loop of `update_page` up the sparse tree. -/
def bubbleUpSparse : Nat → Nat → Nat → Tree Hash → Except Failure (Tree Hash)
  | _, 0, log2Size, tree => do
      check (log2Size = hashTreeLog2RootSize + 1) .assertionFailed
      return tree
  | 0, _ + 1, _, _ => .error .nonTermination
  | rounds + 1, index + 1, log2Size, tree => do
      check (log2Size = (tree.node (index + 1)).log2Size) .assertionFailed
      bubbleUpSparse rounds (tree.node (index + 1)).parent (log2Size + 1)
        (tree.rehashSparse hasher (index + 1) log2Size)

/-- The loop of `update_page` up the dense tree of a range. -/
def bubbleUpDense (pageOffset : Nat) (range : Range Hash) : Range Hash :=
  { range with
    dense := (List.range' 1 (range.levels - 1)).foldl (fun dense level =>
      (range.denseLinks hasher).rehash dense
        (range.position pageOffset (hashTreeLog2PageSize + level))) range.dense }

/-- This is `update_page`. -/
def updatePage (address : Nat) (tree : Tree Hash) : Except Failure (Bool × Tree Hash) := do
  let paddrPage := pageOf address
  let arIndex := tree.seekRange 0 paddrPage
  check (arIndex < tree.count) .pageNotInMemory
  match ← tree.cache.borrowEntry paddrPage with
  | none => .error .assertionFailed
  | some borrowed =>
      let updated := updateDirtyPage hasher memory arIndex paddrPage
        { tree with cache := borrowed.2 }
      if updated.2.1 then
        let dense := updated.2.2.modifyRange arIndex
          (bubbleUpDense hasher (paddrPage - (tree.range arIndex).start))
        let leaf := { dense with
          hash := Function.update dense.hash (arIndex + 2) ((dense.range arIndex).dense 1) }
        let settled ← bubbleUpSparse hasher (hashTreeLog2RootSize + 1) (leaf.node (arIndex + 2)).parent
          ((leaf.range arIndex).log2Size + 1) leaf
        let cache ← settled.cache.returnEntry paddrPage
        return (true, { settled with cache })
      else
        let cache ← updated.2.2.cache.returnEntry paddrPage
        return (true, { updated.2.2 with cache })

end MachineEmulator.HashTree
