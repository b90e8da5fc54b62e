/-
This file gives the cache of page hash trees: entries that are lent out, hashed and returned, and
reused for another page when the cache is full.
-/

import MachineEmulator.Construction.Failure
import MachineEmulator.Construction.Hasher
import MachineEmulator.Library.Rehash

namespace MachineEmulator.HashTree

/-- This is `try_push_back`, which looks at the last element only. -/
def tryPushBack {A : Type} [DecidableEq A] (container : List A) (value : A) : List A :=
  if container.getLast? = some value then container else container ++ [value]

/-- The number of tree words in a page. -/
def pageWordCount : Nat := 128

/-- This is `entry`, with the tree as an array whose root is at 1 and whose leaves start at 128. -/
structure CacheEntry (Hash : Type) where
  paddrPage : Nat
  borrowed : Bool
  page : List Byte
  tree : Nat → Hash

section Hashing

variable {Hash : Type} (hasher : Hasher Hash)

/-- This is `get_pristine_hashes`, counted from the tree word. -/
def pristineHash : Nat → Hash
  | 0 => hasher.hash (List.replicate hashTreeWordSize 0)
  | level + 1 => hasher.concatHash (pristineHash level) (pristineHash level)

/-- This is `get_pristine_page_hash_tree`. -/
def pristinePageHashTree (position : Nat) : Hash := pristineHash hasher (7 - position.log2)

def pageWord (page : List Byte) (index : Nat) : List Byte :=
  (page.drop (hashTreeWordSize * index)).take hashTreeWordSize

/-- The links of the tree of a page. -/
def pageLinks : Rehash.Links Nat Hash := Rehash.heap hasher.concatHash pageWordCount

/-- A tree with the nodes that are still to be recomputed, all of one level. -/
abbrev Queued (Hash : Type) := (Nat → Hash) × List Nat

def enqueueLeaf (word : List Byte) (position : Nat) (queued : Queued Hash) : Queued Hash :=
  (Function.update queued.1 position (hasher.hash word), tryPushBack queued.2 (position / 2))

/-- One round of `flush` recomputes a level and queues the level above. -/
def flushLevel (queued : Queued Hash) : Queued Hash :=
  queued.2.foldl (fun current position =>
    ((pageLinks hasher).rehash current.1 position,
      if 1 < position then tryPushBack current.2 (position / 2) else current.2)) (queued.1, [])

/-- This is `flush`, with the number of levels as a bound for its rounds. -/
def flush : Nat → Queued Hash → (Nat → Hash)
  | 0, queued => queued.1
  | rounds + 1, queued =>
      if queued.2 = [] then queued.1 else flush rounds (flushLevel hasher queued)

/-- The words of the page that differ from the entry are copied and queued. -/
def enqueueHashEntry (page : List Byte) (entry : CacheEntry Hash) : CacheEntry Hash × List Nat :=
  if page.all (· = 0) then
    ({ entry with page := List.replicate hashTreePageSize 0, tree := pristinePageHashTree hasher }, [])
  else
    let queued := (List.range pageWordCount).foldl (fun queued index =>
      if pageWord entry.page index ≠ pageWord page index then
        enqueueLeaf hasher (pageWord page index) (pageWordCount + index) queued
      else queued) (entry.tree, [])
    ({ entry with page := page, tree := queued.1 }, queued.2)

/-- An entry takes the data of a page, and its tree is brought up to date. -/
def hashEntry (page : List Byte) (entry : CacheEntry Hash) : CacheEntry Hash :=
  let (enqueued, queue) := enqueueHashEntry hasher page entry
  { enqueued with tree := flush hasher 7 (enqueued.tree, queue) }

end Hashing

/-- This is `page_hash_tree_cache`: the entries in use from the most to the least recent, and those
that were never used. -/
structure PageHashTreeCache (Hash : Type) where
  lru : List (CacheEntry Hash)
  unused : List (CacheEntry Hash)

namespace PageHashTreeCache

variable {Hash : Type} (cache : PageHashTreeCache Hash)

/-- The map from page addresses to entries. -/
def find (paddrPage : Nat) : Option (CacheEntry Hash) :=
  cache.lru.find? fun entry => entry.paddrPage = paddrPage

/-- An entry is changed where it is. -/
def modify (paddrPage : Nat) (change : CacheEntry Hash → CacheEntry Hash) :
    PageHashTreeCache Hash :=
  { cache with lru := cache.lru.map fun entry =>
      if entry.paddrPage = paddrPage then change entry else entry }

/-- This is `borrow_entry`. It says whether the page was found, and gives nothing when all entries
have been lent out. -/
def borrowEntry (paddrPage : Nat) : Except Failure (Option (Bool × PageHashTreeCache Hash)) :=
  match cache.find paddrPage with
  | some entry => do
      check (entry.borrowed = false) .entryAlreadyBorrowed
      let others := cache.lru.filter fun other => other.paddrPage ≠ paddrPage
      return some (true, { cache with lru := { entry with borrowed := true } :: others })
  | none =>
      match cache.unused with
      | entry :: rest => do
          check (entry.borrowed = false) .entryAlreadyBorrowed
          return some (false, ⟨{ entry with borrowed := true, paddrPage } :: cache.lru, rest⟩)
      | [] =>
          match cache.lru.getLast? with
          | none => .ok none
          | some entry =>
              if entry.borrowed then .ok none
              else
                .ok (some (false,
                  { cache with
                    lru := { entry with borrowed := true, paddrPage } :: cache.lru.dropLast }))

/-- This is `return_entry`. -/
def returnEntry (paddrPage : Nat) : Except Failure (PageHashTreeCache Hash) :=
  match cache.find paddrPage with
  | none => .error .entryNotBorrowed
  | some entry => do
      check (entry.borrowed = true) .entryNotBorrowed
      return cache.modify paddrPage fun entry => { entry with borrowed := false }

/-- This is `clear`. -/
def clear (hasher : Hasher Hash) : PageHashTreeCache Hash where
  lru := []
  unused := List.replicate (cache.lru.length + cache.unused.length)
    ⟨0, false, List.replicate hashTreePageSize 0, pristinePageHashTree hasher⟩

/-- A cache of fresh entries. -/
def create (hasher : Hasher Hash) (entryCount : Nat) : PageHashTreeCache Hash where
  lru := []
  unused := List.replicate entryCount
    ⟨0, false, List.replicate hashTreePageSize 0, pristinePageHashTree hasher⟩

end PageHashTreeCache

end MachineEmulator.HashTree
