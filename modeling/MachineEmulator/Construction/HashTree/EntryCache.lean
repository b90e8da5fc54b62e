/-
This file gives the cache of page hash trees with its entries at their places: the array of entries,
the list of those in use, the map from page addresses and the queues of the hasher.
-/

import MachineEmulator.Construction.HashTree.PageHashTreeCache
import MachineEmulator.Library.JobQueue
import MachineEmulator.Library.LinkedRing

namespace MachineEmulator.HashTree

open JobQueue (Job)

/-- The lanes of a hasher: `MAX_LANE_COUNT` and `get_optimal_lane_count`. -/
structure Lanes where
  maxLaneCount : Nat
  optimalLaneCount : Nat

/-- The number of lanes that `flush` hashes next in parallel. -/
def Lanes.group (lanes : Lanes) (count : Nat) : Nat :=
  if 16 ≤ lanes.maxLaneCount ∧ 16 ≤ count then 16
  else if 8 ≤ count then 8
  else if 4 ≤ count then 4
  else if 2 ≤ count then 2
  else 1

def Lanes.optimalQueueSize (lanes : Lanes) : Nat := min lanes.maxLaneCount lanes.optimalLaneCount

/-- This is `page_hash_tree_cache`. The entries stand at the indices below the capacity. The ring goes
from the most to the least recently used one of those in use. The hash of a node of an entry is at the
pair of both. -/
structure EntryCache (Hash : Type) where
  capacity : Nat
  paddrPage : Nat → Nat
  borrowed : Nat → Bool
  page : Nat → List Byte
  trees : Nat × Nat → Hash
  lru : LinkedRing Nat
  map : Nat → Option Nat

/-- This is `simd_page_hasher`. -/
structure SimdPageHasher (Hash : Type) where
  leavesQueue : List (Job (Nat × Nat) Hash)
  dirtyQueue : List (Nat × Nat)

namespace EntryCache

variable {Hash : Type}

def entry (cache : EntryCache Hash) (index : Nat) : CacheEntry Hash where
  paddrPage := cache.paddrPage index
  borrowed := cache.borrowed index
  page := cache.page index
  tree position := cache.trees (index, position)

section Lending

variable (cache : EntryCache Hash)

def setBorrowed (index : Nat) (borrowed : Bool) : EntryCache Hash :=
  { cache with borrowed := Function.update cache.borrowed index borrowed }

def setPaddrPage (index paddrPage : Nat) : EntryCache Hash :=
  { cache with paddrPage := Function.update cache.paddrPage index paddrPage }

/-- This is `m_map.emplace`, which keeps an address that is there. -/
def emplace (paddrPage index : Nat) : EntryCache Hash :=
  let place := (cache.map paddrPage).getD index
  { cache with map := Function.update cache.map paddrPage (some place) }

def erase (paddrPage : Nat) : EntryCache Hash :=
  { cache with map := Function.update cache.map paddrPage none }

/-- This is `borrow_entry_if_hit`. -/
def borrowEntryIfHit (paddrPage : Nat) : Except Failure (Option (Nat × EntryCache Hash)) :=
  match cache.map paddrPage with
  | some index => do
      check (cache.borrowed index = false) .entryAlreadyBorrowed
      return some (index, cache.setBorrowed index true)
  | none => return none

/-- This is `borrow_entry`, with whether the page was found. The ring of a full cache is not empty. -/
def borrowEntry (paddrPage : Nat) : Except Failure (Option (Bool × Nat × EntryCache Hash)) :=
  match cache.map paddrPage with
  | some index => do
      check (cache.borrowed index = false) .entryAlreadyBorrowed
      let front := { cache with lru := cache.lru.moveToFront index }
      return some (true, index, front.setBorrowed index true)
  | none =>
      if cache.lru.size < cache.capacity then do
        let index := cache.lru.size
        check (cache.borrowed index = false) .entryAlreadyBorrowed
        let front := { cache with lru := cache.lru.pushFront index }
        return some (false, index,
          ((front.emplace paddrPage index).setBorrowed index true).setPaddrPage index paddrPage)
      else
        match cache.lru.back with
        | none => .error .undefinedBehavior
        | some index =>
            if cache.borrowed index then .ok none
            else
              let erased := cache.erase (cache.paddrPage index)
              let front := { erased with lru := erased.lru.popBack.pushFront index }
              .ok (some (false, index,
                ((front.emplace paddrPage index).setBorrowed index true).setPaddrPage index
                  paddrPage))

/-- This is `return_entry`. -/
def returnEntry (index : Nat) : Except Failure (EntryCache Hash) := do
  check (cache.borrowed index = true) .entryNotBorrowed
  return cache.setBorrowed index false

variable (hasher : Hasher Hash)

/-- This is `clear`. -/
def clear : EntryCache Hash where
  capacity := cache.capacity
  paddrPage _ := 0
  borrowed _ := false
  page _ := List.replicate hashTreePageSize 0
  trees node := pristinePageHashTree hasher node.2
  lru := LinkedRing.empty
  map _ := none

/-- This is the constructor over fresh memory. -/
def create (entryCount : Nat) : Except Failure (EntryCache Hash) := do
  check (entryCount ≠ 0) .cacheWithoutEntries
  return {
    capacity := entryCount
    paddrPage _ := 0
    borrowed _ := false
    page _ := List.replicate hashTreePageSize 0
    trees node := pristinePageHashTree hasher node.2
    lru := LinkedRing.empty
    map _ := none }

end Lending

section Hashing

variable (hasher : Hasher Hash) (lanes : Lanes)

/-- A word is hashed to a leaf. -/
def leafJob (word : List Byte) (node : Nat × Nat) : Job (Nat × Nat) Hash :=
  ⟨node, fun _ => hasher.hash word⟩

/-- The hashes of the children are hashed to a node. -/
def concatJob (node : Nat × Nat) : Job (Nat × Nat) Hash :=
  ⟨node, fun trees =>
    hasher.concatHash (trees (node.1, 2 * node.2)) (trees (node.1, 2 * node.2 + 1))⟩

/-- This is `enqueue_leaf`. -/
def enqueueLeaf (word : List Byte) (node : Nat × Nat)
    (state : EntryCache Hash × SimdPageHasher Hash) : EntryCache Hash × SimdPageHasher Hash :=
  let queued := JobQueue.enqueue lanes.group lanes.optimalQueueSize (leafJob hasher word node)
    (state.1.trees, state.2.leavesQueue)
  ({ state.1 with trees := queued.1 },
    ⟨queued.2, tryPushBack state.2.dirtyQueue (node.1, node.2 / 2)⟩)

/-- The words of the page that differ from those of the entry are queued. -/
def enqueueWords (index : Nat) (page : List Byte)
    (state : EntryCache Hash × SimdPageHasher Hash) : EntryCache Hash × SimdPageHasher Hash :=
  (List.range pageWordCount).foldl (fun current word =>
    if pageWord (state.1.page index) word ≠ pageWord page word then
      enqueueLeaf hasher lanes (pageWord page word) (index, pageWordCount + word) current
    else current) state

/-- This is `enqueue_hash_entry`, which fails for data that is not a page. -/
def enqueueHashEntry (index : Nat) (page : List Byte)
    (state : EntryCache Hash × SimdPageHasher Hash) :
    Option (EntryCache Hash × SimdPageHasher Hash) :=
  if page.length ≠ hashTreePageSize then none
  else if page.all (· = 0) then
    let trees := fun node =>
      if node.1 = index then pristinePageHashTree hasher node.2 else state.1.trees node
    let zeros := List.replicate hashTreePageSize 0
    some ({ state.1 with trees, page := Function.update state.1.page index zeros }, state.2)
  else
    let queued := enqueueWords hasher lanes index page state
    some ({ queued.1 with page := Function.update queued.1.page index page }, queued.2)

/-- The next dirty queue of `flush`. -/
def nextDirtyQueue (dirtyQueue : List (Nat × Nat)) : List (Nat × Nat) :=
  dirtyQueue.foldl (fun next node =>
    if 1 < node.2 then tryPushBack next (node.1, node.2 / 2) else next) []

/-- One round of the loop of `flush`. -/
def flushLevel (dirtyQueue : List (Nat × Nat)) (trees : Nat × Nat → Hash) : Nat × Nat → Hash :=
  let queued := dirtyQueue.foldl (fun current node =>
    JobQueue.enqueue lanes.group lanes.optimalQueueSize (concatJob hasher node) current) (trees, [])
  JobQueue.runAll lanes.group queued.2 queued.1

/-- The loop of `flush`, with a bound for its rounds, and the dirty queue that it leaves. -/
def flushLevels : Nat → List (Nat × Nat) → (Nat × Nat → Hash) →
    (Nat × Nat → Hash) × List (Nat × Nat)
  | 0, dirtyQueue, trees => (trees, dirtyQueue)
  | rounds + 1, dirtyQueue, trees =>
      if dirtyQueue = [] then (trees, [])
      else flushLevels rounds (nextDirtyQueue dirtyQueue) (flushLevel hasher lanes dirtyQueue trees)

/-- This is `flush`, whose loop has one round for each level above the leaves. -/
def flush (state : EntryCache Hash × SimdPageHasher Hash) :
    EntryCache Hash × SimdPageHasher Hash :=
  let trees := JobQueue.runAll lanes.group state.2.leavesQueue state.1.trees
  let flushed := flushLevels hasher lanes 7 state.2.dirtyQueue trees
  ({ state.1 with trees := flushed.1 }, ⟨[], flushed.2⟩)

/-- The update of a block of entries: all of them are queued, and then the queue is flushed. -/
def updateEntries (block : List (Nat × List Byte)) (cache : EntryCache Hash) : EntryCache Hash :=
  (flush hasher lanes (block.foldl (fun current update =>
    (enqueueHashEntry hasher lanes update.1 update.2 current).getD current) (cache, ⟨[], []⟩))).1

end Hashing

section Calls

/-- A call of the cache. An update is a block of entries that one queue hashes. -/
inductive Call where
  | borrow (paddrPage : Nat)
  | borrowIfHit (paddrPage : Nat)
  | giveBack (index : Nat)
  | update (block : List (Nat × List Byte))
  | clear

variable (hasher : Hasher Hash) (lanes : Lanes)

/-- The cache that a call leaves. A call that lends nothing leaves the cache as it is. -/
def perform (cache : EntryCache Hash) : Call → Except Failure (EntryCache Hash)
  | .borrow paddrPage => do
      let lent ← cache.borrowEntry paddrPage
      return (lent.map fun lent => lent.2.2).getD cache
  | .borrowIfHit paddrPage => do
      let lent ← cache.borrowEntryIfHit paddrPage
      return (lent.map Prod.snd).getD cache
  | .giveBack index => cache.returnEntry index
  | .update block => return cache.updateEntries hasher lanes block
  | .clear => return cache.clear hasher

end Calls

end EntryCache

end MachineEmulator.HashTree
