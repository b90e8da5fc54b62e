/-
This file gives the hash tree over the address ranges of a machine: its creation and the three ways to
bring it up to date.
-/

import Mathlib.Data.Finset.Sort
import Mathlib.Data.List.SplitBy
import MachineEmulator.Construction.HashTree.PageHashTreeCache
import MachineEmulator.Construction.HashTree.PageTrees

namespace MachineEmulator.HashTree

/-- What a node of the sparse tree stands for: an address range, or two subtrees. The subtree with
index 0 is pristine. -/
inductive SparseLinks where
  | range (arIndex : Nat)
  | inner (left right : Nat)
deriving DecidableEq

/-- This is `node_type` without its hash and its mark. -/
structure SparseNode where
  links : SparseLinks
  parent : Nat
  log2Size : Nat
deriving DecidableEq

instance : Inhabited SparseNode := ⟨⟨.inner 0 0, 0, 0⟩⟩

/-- This is `hash_tree`, together with the address ranges that its functions receive. -/
structure Tree (Hash : Type) where
  count : Nat
  range : Nat → Range Hash
  cache : PageHashTreeCache Hash
  nodes : List SparseNode
  hash : Nat → Hash
  marked : Nat → Bool

section Create

/-- The start and the length of an address range. -/
abbrev Extent := Nat × Nat

/-- The checks of `check_address_ranges` on one range, given the ranges before it. -/
def checkAddressRange (previous : List Extent) (start length : Nat) : Except Failure Unit := do
  check (0 < length) .emptyRange
  check (length ≤ 2 ^ 63) .rangeLengthOverflows
  check (start % bitCeil length = 0) .rangeStartNotAligned
  check (start < 2 ^ 64 - 1 - bitCeil length) .rangeOverflows
  check (∀ other ∈ previous,
    ¬(start < other.1 + bitCeil other.2 ∧ other.1 < start + bitCeil length)) .rangesOverlap

/-- This is `check_address_ranges`. -/
def checkAddressRanges (previous : List Extent) : List Extent → Except Failure Unit
  | [] => .ok ()
  | (start, length) :: rest => do
      checkAddressRange previous start length
      checkAddressRanges (previous ++ [(start, length)]) rest

/-- The next address range to place and the nodes so far. -/
structure Appended where
  current : Nat
  nodes : List SparseNode

/-- The cases of `append_nodes` that do not subdivide the page range. -/
def placeRange (extents : List Extent) (log2PageCount beginPage parent : Nat) (state : Appended) :
    Option (Nat × Appended) :=
  match extents[state.current]? with
  | none => some (0, state)
  | some (start, length) =>
      if beginPage + 2 ^ log2PageCount ≤ start / hashTreePageSize then some (0, state)
      else if start / hashTreePageSize = beginPage ∧
          bitCeil length / hashTreePageSize = 2 ^ log2PageCount then
        some (state.current + 2,
          ⟨state.current + 1, state.nodes.set (state.current + 2)
            ⟨.range state.current, parent, log2PageCount + hashTreeLog2PageSize⟩⟩)
      else none

/-- This is `append_nodes`. The root has no parent and a node of its own from the start. -/
def appendNodes (extents : List Extent) : Nat → Nat → Nat → Appended → Nat × Appended
  | 0, beginPage, parent, state =>
      match placeRange extents 0 beginPage parent state with
      | some placed => placed
      | none => (0, state)
  | half + 1, beginPage, parent, state =>
      match placeRange extents (half + 1) beginPage parent state with
      | some placed => placed
      | none =>
          let innerIndex := if parent = 0 then 1 else state.nodes.length
          let nodes := if parent = 0 then state.nodes else state.nodes ++ [default]
          let left := appendNodes extents half beginPage innerIndex ⟨state.current, nodes⟩
          let right := appendNodes extents half (beginPage + 2 ^ half) innerIndex left.2
          (innerIndex,
            ⟨right.2.current, right.2.nodes.set innerIndex
              ⟨.inner left.1 right.1, parent, half + 1 + hashTreeLog2PageSize⟩⟩)

/-- This is `create_nodes`. -/
def createNodes (extents : List Extent) : Except Failure (List SparseNode) := do
  checkAddressRanges [] extents
  let appended := appendNodes extents 52 0 0 ⟨0, List.replicate (2 + extents.length) default⟩
  check (appended.1 = 1) .unexpectedRootIndex
  return appended.2.nodes

variable {Hash : Type} (hasher : Hasher Hash)

/-- A hash that was never computed is all zeros. -/
def noHash : Hash := hasher.ofBytes (List.replicate 32 0)

/-- This is the constructor of `hash_tree` for new address ranges, after `create_nodes`. -/
def create (entryCount : Nat) (extents : List Extent) : Except Failure (Tree Hash) := do
  checkAddressRanges [] extents
  let appended := appendNodes extents 52 0 0 ⟨0, List.replicate (2 + extents.length) default⟩
  check (appended.1 = 1) .unexpectedRootIndex
  check (0 < entryCount) .noCacheEntries
  return {
    count := extents.length
    range := fun index =>
      Range.create (noHash hasher) (extents.getD index (0, 0)).1 (extents.getD index (0, 0)).2
    cache := PageHashTreeCache.create hasher entryCount
    nodes := appended.2.nodes
    hash := fun _ => noHash hasher
    marked := fun _ => false }

end Create

section Update

variable {Hash : Type} [DecidableEq Hash] (hasher : Hasher Hash) (memory : Memory)

def Tree.modifyRange (tree : Tree Hash) (arIndex : Nat) (change : Range Hash → Range Hash) :
    Tree Hash :=
  { tree with range := Function.update tree.range arIndex (change (tree.range arIndex)) }

/-- This is `enqueue_hash_dirty_page` on a borrowed entry, with the flush of its queue. -/
def enqueueHashDirtyPage (arIndex paddrPage : Nat) (tree : Tree Hash) : Bool × Tree Hash :=
  if (tree.range arIndex).containsAbsolute paddrPage hashTreePageSize then
    (true, { tree with
      cache := tree.cache.modify paddrPage (hashEntry hasher (Range.pageData memory paddrPage)) })
  else (false, tree)

/-- The root hash of a borrowed entry is copied to the dense tree when it differs there. -/
def copyPageHash (arIndex paddrPage : Nat) (tree : Tree Hash) : Bool × Tree Hash :=
  let range := tree.range arIndex
  let position := range.position (paddrPage - range.start) hashTreeLog2PageSize
  match tree.cache.find paddrPage with
  | none => (false, tree)
  | some entry =>
      if entry.tree 1 = range.dense position then (false, tree)
      else (true, tree.modifyRange arIndex fun range => range.setDense position (entry.tree 1))

/-- This is `update_dirty_page`: whether it succeeds, and whether the hash changes. -/
def updateDirtyPage (arIndex paddrPage : Nat) (tree : Tree Hash) : Bool × Bool × Tree Hash :=
  let enqueued := enqueueHashDirtyPage hasher memory arIndex paddrPage tree
  if enqueued.1 then (true, copyPageHash arIndex paddrPage enqueued.2)
  else (false, false, tree)

/-- This is `dirty_page`: an address range and the page of a borrowed entry. -/
abbrev DirtyPage := Nat × Nat

/-- The first loop of `return_updated_dirty_pages`: whether a page fails, and which hashes change. -/
def hashBatch : List DirtyPage → Tree Hash → Bool × List Bool × Tree Hash
  | [], tree => (false, [], tree)
  | (arIndex, paddrPage) :: batch, tree =>
      let enqueued := enqueueHashDirtyPage hasher memory arIndex paddrPage tree
      let copied := copyPageHash arIndex paddrPage enqueued.2
      let rest := hashBatch batch copied.2
      (!enqueued.1 || rest.1, copied.1 :: rest.2.1, rest.2.2)

/-- The second loop of `return_updated_dirty_pages`. -/
def returnBatch : List DirtyPage → List Bool → List Nat → Tree Hash →
    Except Failure (List Nat × Tree Hash)
  | (arIndex, paddrPage) :: batch, changed :: flags, changedArs, tree => do
      let cache ← tree.cache.returnEntry paddrPage
      let returned := { tree with cache }
      if changed then returnBatch batch flags (tryPushBack changedArs arIndex) returned
      else
        returnBatch batch flags changedArs (returned.modifyRange arIndex fun range =>
          range.markCleanPageAndUp (paddrPage - range.start))
  | _, _, changedArs, tree => .ok (changedArs, tree)

/-- This is `return_updated_dirty_pages`, whose answer says whether a page failed. -/
def returnUpdatedDirtyPages (batch : List DirtyPage) (changedArs : List Nat) (tree : Tree Hash) :
    Except Failure (Bool × List Nat × Tree Hash) := do
  let hashed := hashBatch hasher memory batch tree
  let returned ← returnBatch batch hashed.2.1 changedArs hashed.2.2
  return (hashed.1, returned)

/-- The loop state of `update_dirty_pages`. -/
structure Sweep (Hash : Type) where
  tree : Tree Hash
  batch : List DirtyPage
  changedArs : List Nat
  failed : Bool

/-- One dirty page of `update_dirty_pages`, and whether the loop goes on. -/
def visitDirtyPage (arIndex position : Nat) (sweep : Sweep Hash) :
    Except Failure (Bool × Sweep Hash) :=
  let range := sweep.tree.range arIndex
  let offset := (position - range.leafBegin) * hashTreePageSize
  if range.length ≤ offset then
    .ok (true, { sweep with
      tree := sweep.tree.modifyRange arIndex fun range =>
        range.setDense (range.position offset hashTreeLog2PageSize) (pristineHash hasher 7) })
  else do
    let paddrPage := range.start + offset
    match ← sweep.tree.cache.borrowEntry paddrPage with
    | some borrowed =>
        return (true, { sweep with
          tree := { sweep.tree with cache := borrowed.2 }
          batch := sweep.batch ++ [(arIndex, paddrPage)] })
    | none =>
        let returned ← returnUpdatedDirtyPages hasher memory sweep.batch sweep.changedArs sweep.tree
        match ← returned.2.2.cache.borrowEntry paddrPage with
        | some borrowed =>
            return (true, {
              tree := { returned.2.2 with cache := borrowed.2 }
              batch := [(arIndex, paddrPage)]
              changedArs := returned.2.1
              failed := sweep.failed || returned.1 })
        | none => return (false, ⟨returned.2.2, [], returned.2.1, true⟩)

/-- The dirty pages of one range, where the iterator reads the marks as they are when it advances. -/
def visitDirtyPages (arIndex : Nat) : Nat → Option Nat → Sweep Hash → Except Failure (Sweep Hash)
  | _, none, sweep => .ok sweep
  | 0, some _, _ => .error .nonTermination
  | steps + 1, some position, sweep => do
      let visited ← visitDirtyPage hasher memory arIndex position sweep
      if visited.1 then
        let range := visited.2.tree.range arIndex
        visitDirtyPages arIndex steps (range.dirty.next range.levels range.leafBegin position) visited.2
      else return visited.2

def visitRange (sweep : Sweep Hash) (arIndex : Nat) : Except Failure (Sweep Hash) :=
  if sweep.failed then .ok sweep
  else
    let range := sweep.tree.range arIndex
    visitDirtyPages hasher memory arIndex range.leafBegin
      (range.dirty.first range.levels range.leafBegin) sweep

/-- This is `update_dirty_pages`, with the ranges it finds changed. -/
def updateDirtyPages (tree : Tree Hash) : Except Failure (Bool × List Nat × Tree Hash) := do
  let sweep ← (List.range tree.count).foldlM (visitRange hasher memory) ⟨tree, [], [], false⟩
  let returned ← returnUpdatedDirtyPages hasher memory sweep.batch sweep.changedArs sweep.tree
  if sweep.failed || returned.1 then
    let cleared := { returned.2.2 with cache := returned.2.2.cache.clear hasher }
    return (false, returned.2.1, cleared)
  else return (true, returned.2)

/-- The links of the dense tree of a range. -/
def Range.denseLinks (range : Range Hash) : Rehash.Links Nat Hash :=
  Rehash.heap hasher.concatHash range.leafBegin

/-- This is `dirty_offsets_view` of a level, as positions. It is empty above the root. -/
def Range.dirtyPositions (range : Range Hash) (level : Nat) : List Nat :=
  if level < range.levels then range.dirty.positions range.levels (2 ^ (range.levels - level - 1))
  else []

def Range.rehashLevel (range : Range Hash) (level : Nat) : Range Hash :=
  { range with
    dense := (range.dirtyPositions level).foldl (range.denseLinks hasher).rehash range.dense }

/-- The part of `update_dense_trees` for one level. -/
def updateDenseLevel (changedArs : List Nat) (tree : Tree Hash) (level : Nat) : Tree Hash :=
  changedArs.foldl (fun tree arIndex =>
    if (tree.range arIndex).levels < level then tree
    else tree.modifyRange arIndex fun range => range.rehashLevel hasher level) tree

/-- This is `update_dense_trees`. -/
def updateDenseTrees (changedArs : List Nat) (tree : Tree Hash) : Tree Hash :=
  let maxLevelCount := (changedArs.map fun arIndex => (tree.range arIndex).levels).foldl max 0
  (List.range' 1 (maxLevelCount - 1)).foldl (updateDenseLevel hasher changedArs) tree

/-- The sparse nodes that wait for an update, with their sizes first. -/
abbrev SparseQueue := List (Nat × Nat)

/-- The queue stays in order, so that the smallest pair is at the front. -/
def SparseQueue.push (queue : SparseQueue) (entry : Nat × Nat) : SparseQueue :=
  match queue with
  | [] => [entry]
  | first :: rest =>
      if entry.1 < first.1 ∨ entry.1 = first.1 ∧ entry.2 ≤ first.2 then entry :: first :: rest
      else first :: SparseQueue.push rest entry

def Tree.node (tree : Tree Hash) (index : Nat) : SparseNode := tree.nodes.getD index default

/-- The index is enqueued unless its mark says that it already is. -/
def enqueueSparse (log2Size index : Nat) (state : Tree Hash × SparseQueue) :
    Tree Hash × SparseQueue :=
  if state.1.marked index then state
  else
    ({ state.1 with marked := Function.update state.1.marked index true },
      state.2.push (log2Size, index))

/-- The root of a dense tree is copied to its sparse node, and the parent is enqueued. -/
def copyArRoot (state : Tree Hash × SparseQueue) (arIndex : Nat) : Tree Hash × SparseQueue :=
  let tree := state.1
  let parent := (tree.node (arIndex + 2)).parent
  enqueueSparse (tree.node parent).log2Size parent
    ({ tree with hash := Function.update tree.hash (arIndex + 2) ((tree.range arIndex).dense 1) },
      state.2)

/-- The loop that brings a sparse node back in line with its dense tree. -/
def synchronizeAr (state : Tree Hash × SparseQueue) (arIndex : Nat) : Tree Hash × SparseQueue :=
  if (state.1.range arIndex).dense 1 = state.1.hash (arIndex + 2) then state
  else copyArRoot state arIndex

/-- This is `get_sparse_node_hash_view`. -/
def sparseNodeHashView (hashes : Nat → Hash) (index log2Size : Nat) : Hash :=
  if index = 0 then pristineHash hasher (log2Size - hashTreeLog2WordSize) else hashes index

/-- The hash of an inner sparse node from its children. -/
def sparseNodeHash (nodes : List SparseNode) (hashes : Nat → Hash) (index log2Size : Nat) : Hash :=
  match (nodes.getD index default).links with
  | .range _ => hashes index
  | .inner left right =>
      hasher.concatHash (sparseNodeHashView hasher hashes left (log2Size - 1))
        (sparseNodeHashView hasher hashes right (log2Size - 1))

def Tree.rehashSparse (tree : Tree Hash) (index log2Size : Nat) : Tree Hash :=
  { tree with
    hash := Function.update tree.hash index (sparseNodeHash hasher tree.nodes tree.hash index log2Size) }

/-- The last loop of `update_sparse_tree`, where one size is hashed before the next. -/
def settleSparse : Nat → Tree Hash × SparseQueue → Except Failure (Tree Hash)
  | _, (tree, []) => .ok tree
  | 0, (_, _ :: _) => .error .nonTermination
  | rounds + 1, (tree, (log2Size, index) :: queue) =>
      let cleared := { tree with marked := Function.update tree.marked index false }
      let hashed := cleared.rehashSparse hasher index log2Size
      let parent := (tree.node index).parent
      if parent = 0 then settleSparse rounds (hashed, queue)
      else settleSparse rounds (enqueueSparse (log2Size + 1) parent (hashed, queue))

/-- This is `update_sparse_tree`. A node has at most as many ancestors as the root size has bits. -/
def updateSparseTree (changedArs : List Nat) (tree : Tree Hash) : Except Failure (Tree Hash) :=
  let copied := changedArs.foldl copyArRoot (tree, [])
  let synchronized := (List.range tree.count).foldl synchronizeAr copied
  settleSparse hasher ((hashTreeLog2RootSize + 1) * synchronized.2.length) synchronized

/-- This is `update`. -/
def update (tree : Tree Hash) : Except Failure (Bool × Tree Hash) := do
  let swept ← updateDirtyPages hasher memory tree
  if swept.1 then
    let settled ← updateSparseTree hasher swept.2.1 (updateDenseTrees hasher swept.2.1 swept.2.2)
    return (true, swept.2.1.foldl (fun tree arIndex => tree.modifyRange arIndex Range.cleanAll) settled)
  else return (false, swept.2.2)

end Update

end MachineEmulator.HashTree
