/-
This file gives the mapped memory of the cache of page hash trees: where its parts are, the file that
it is stored to and the constructor over such a file.
-/

import MachineEmulator.Construction.HashTree.EntryCache

namespace MachineEmulator.HashTree

/-- This is `machine_hash`. -/
abbrev MachineHash := Fin 32 → Byte

/-- The bytes of a memory map, by their distance from its start. The start is aligned to a page. -/
abbrev Image := Nat → Byte

namespace Image

variable (image : Image)

def readWord (position : Nat) : Word :=
  wordOfBytes ((List.range 8).map fun index => image (position + index))

def readHash (position : Nat) : MachineHash := fun index => image (position + index)

def readBytes (position length : Nat) : List Byte :=
  (List.range length).map fun index => image (position + index)

def writeBytes (position : Nat) (data : List Byte) : Image := fun place =>
  if position ≤ place ∧ place < position + data.length then data.getD (place - position) 0
  else image place

def writeWord (position : Nat) (value : Word) : Image := image.writeBytes position (wordToBytes value)

/-- This is `offset_ptr`, which keeps the distance from its own place. The distance 1 is the null
pointer. -/
def pointer (position : Nat) : Option Nat :=
  if image.readWord position = 1 then none
  else some ((position + (image.readWord position).toNat) % 2 ^ 64)

/-- This is the part of `mapped_memory` that maps a file of the length of the map. The rest of the
last host page is zero. -/
def map (length : Nat) : Option (List Byte) → Except Failure Image
  | none => .ok fun _ => 0
  | some file => do
      check (file.length ≤ length) .backingFileTooLong
      check (length ≤ file.length) .backingFileTooShort
      return fun position => file.getD position 0

end Image

section Layout

/-- The order of the fields of `boost::intrusive::list`, which has a root node and a size. -/
inductive ListLayout where
  | rootFirst
  | sizeFirst
deriving DecidableEq, Repr

/-- The place of the root node, behind the tag. -/
def ListLayout.root : ListLayout → Nat
  | .rootFirst => 8
  | .sizeFirst => 16

def ListLayout.size : ListLayout → Nat
  | .rootFirst => 24
  | .sizeFirst => 8

/-- This is `initialized_tag::initialized`. -/
def initializedTag : Word := 0x50485443

/-- This is `sizeof(lru)`. -/
def lruSize : Nat := 24

/-- This is `sizeof(entry)`: the hook of the list, the page and 256 hashes. -/
def entrySize : Nat := 16 + 4096 + 256 * 32

/-- The entries stand behind the tag and the list. -/
def entryPosition (index : Nat) : Nat := 8 + lruSize + entrySize * index

/-- The place of a page, behind the hook. -/
def pagePosition (index : Nat) : Nat := entryPosition index + 16

/-- The place of a node of `m_hash_tree`. -/
def nodePosition (index node : Nat) : Nat := entryPosition index + 4112 + 32 * node

def getStorageLength (numEntries : Nat) : Nat := (lruSize + numEntries * entrySize) % 2 ^ 64

end Layout

/-- The part of `page_hash_tree_cache` that its memory map does not hold is the capacity and the map
from page addresses to the places of entries. -/
structure MappedCache where
  capacity : Nat
  image : Image
  map : Nat → Option Nat
  positive : 0 < capacity
  fits : entryPosition capacity ≤ 2 ^ 64

namespace MappedCache

section Constructor

variable (layout : ListLayout) (hasher : Hasher MachineHash)

/-- An entry with a pristine tree. The first hash is not used: the page address and the borrowed flag
stand there. -/
def freshEntry : List Byte :=
  wordToBytes 1 ++ (wordToBytes 1 ++ (List.replicate hashTreePageSize 0 ++ (List.replicate 32 0 ++
    (List.range' 1 255).flatMap fun node => List.ofFn (pristinePageHashTree hasher node))))

/-- The entries are written one after the other. -/
def writeEntries (count : Nat) (image : Image) : Image :=
  (List.range count).foldl (fun written index =>
    written.writeBytes (entryPosition index) (freshEntry hasher)) image

/-- The memory of an empty list, whose root points at itself. -/
def writeList (image : Image) : Image :=
  ((image.writeWord layout.root 0).writeWord (layout.root + 8) (-8)).writeWord layout.size 0

/-- The branch of the constructor for memory that is not initialized. -/
def freshImage (numEntries : Nat) (image : Image) : Image :=
  (writeEntries hasher numEntries (writeList layout image)).writeWord 0 initializedTag

/-- The loop over the list that checks all of its pointers. More steps than aligned places never end. -/
def validateLru (capacity : Nat) (image : Image) : Nat → Nat → Except Failure (List Nat)
  | 0, _ => .error .nonTermination
  | steps + 1, node =>
      match image.pointer node with
      | none => .error .cacheInvalidEntryPointer
      | some target =>
          if target = layout.root then .ok []
          else do
            check (entryPosition 0 ≤ target ∧ target < entryPosition capacity)
              .cacheInvalidEntryPointer
            check (target % 8 = 0) .cacheUnalignedEntryPointer
            let rest ← validateLru capacity image steps target
            return target :: rest

/-- The page address of the entry at a place. -/
def getPaddrPage (image : Image) (position : Nat) : Nat := (image.readWord (position + 4112)).toNat

/-- The loop that reconstructs the map of the entries. -/
def rebuildMap (image : Image) (lru : List Nat) : Nat → Option Nat :=
  lru.foldl (fun map position =>
    let paddrPage := getPaddrPage image position
    Function.update map paddrPage (some ((map paddrPage).getD position))) fun _ => none

/-- The branch of the constructor for memory that an earlier cache wrote, with the list. -/
def validate (capacity : Nat) (image : Image) : Except Failure (List Nat) := do
  check (image.readWord 0 = initializedTag) .cacheTagMismatch
  check ((image.readWord layout.size).toNat ≤ capacity) .cacheSizeExceedsCapacity
  let lru ← validateLru layout capacity image (capacity * (entrySize / 8) + 1) layout.root
  check ((image.readWord layout.size).toNat = lru.length) .cacheSizeMismatch
  return lru

/-- This is the constructor over no file or over the bytes of a file. Entries that leave the address
space cannot be accessed. -/
def create (numEntries : Nat) (backing : Option (List Byte)) : Except Failure MappedCache := do
  let image ← Image.map (getStorageLength numEntries) backing
  if positive : 0 < numEntries then
    if fits : entryPosition numEntries ≤ 2 ^ 64 then
      if image.readWord 0 = 0 then
        return ⟨numEntries, freshImage layout hasher numEntries image, fun _ => none, positive, fits⟩
      else do
        let lru ← validate layout numEntries image
        return ⟨numEntries, image, rebuildMap image lru, positive, fits⟩
    else .error .undefinedBehavior
  else .error .cacheWithoutEntries

end Constructor

/-- This is `get_storage_data`. -/
def getStorageData (mapped : MappedCache) : List Byte :=
  mapped.image.readBytes 0 (getStorageLength mapped.capacity)

/-- The list in the memory, whose nodes are the places of the entries. The null pointer leads to the
tag, where no entry is. -/
def lru (layout : ListLayout) (image : Image) : LinkedRing Nat where
  next place := follow (place.getD layout.root)
  prev place := follow (place.getD layout.root + 8)
  size := (image.readWord layout.size).toNat
where
  follow (position : Nat) : Option Nat :=
    let target := (image.pointer position).getD 0
    if target = layout.root then none else some target

/-- The memory holds the list and the entries of a cache. -/
structure Holds (layout : ListLayout) (mapped : MappedCache) (cache : EntryCache MachineHash) :
    Prop where
  capacity : mapped.capacity = cache.capacity
  tag : mapped.image.readWord 0 = initializedTag
  lru : ∃ nodes, cache.lru.Represents nodes ∧ (∀ node ∈ nodes, node < mapped.capacity) ∧
    (MappedCache.lru layout mapped.image).Represents (nodes.map entryPosition)
  paddrPage : ∀ index < mapped.capacity,
    (mapped.image.readWord (nodePosition index 0)).toNat = cache.paddrPage index
  borrowed : ∀ index < mapped.capacity,
    (mapped.image.readWord (nodePosition index 0 + 8) ≠ 0 ↔ cache.borrowed index = true)
  page : ∀ index < mapped.capacity,
    mapped.image.readBytes (pagePosition index) hashTreePageSize = cache.page index
  trees : ∀ index < mapped.capacity, ∀ node, 1 ≤ node → node < 256 →
    mapped.image.readHash (nodePosition index node) = cache.trees (index, node)

end MappedCache

end MachineEmulator.HashTree
