/-
This file gives the two trees over the pages of an address range: the marks of the dirty pages and
the hashes.
-/

import Mathlib.Data.Nat.Log
import MachineEmulator.Construction.Hasher

namespace MachineEmulator.HashTree

/-- This is `std::bit_ceil` for a positive number. -/
def bitCeil (value : Nat) : Nat := 2 ^ Nat.clog 2 value

/-- This is `get_level_count` for a range that is not empty: the levels from a page to the root. -/
def levelCount (length : Nat) : Nat := Nat.clog 2 (length / hashTreePageSize) + 1

section DirtyPageTree

/-- This is `dirty_page_tree`, whose root is at position 1. -/
abbrev DirtyPageTree := Nat → Bool

namespace DirtyPageTree

variable (dirty : DirtyPageTree)

/-- This is `do_mark_dirty_leaf_position_and_up`, cut off after the number of levels. -/
def markDirtyAndUp (dirty : DirtyPageTree) : Nat → Nat → DirtyPageTree
  | 0, _ => dirty
  | levels + 1, position =>
      if position = 1 then Function.update dirty 1 true
      else if dirty position then dirty
      else markDirtyAndUp (Function.update dirty position true) levels (position / 2)

/-- The other child of the same parent. -/
def sibling (position : Nat) : Nat := if position % 2 = 0 then position + 1 else position - 1

/-- This is `do_mark_clean_leaf_position_and_up`, cut off after the number of levels. -/
def markCleanAndUp (dirty : DirtyPageTree) : Nat → Nat → DirtyPageTree
  | 0, _ => dirty
  | levels + 1, position =>
      let cleaned := Function.update dirty position false
      if position = 1 then cleaned
      else if cleaned (sibling position) then cleaned
      else markCleanAndUp cleaned levels (position / 2)

/-- This is `down`: the first dirty position of a level below a dirty position. -/
def down (levelBegin : Nat) : Nat → Nat → Option Nat
  | 0, _ => none
  | levels + 1, position =>
      if levelBegin ≤ position ∧ position < 2 * levelBegin then some position
      else if dirty (2 * position) then down levelBegin levels (2 * position)
      else if dirty (2 * position + 1) then down levelBegin levels (2 * position + 1)
      else none

/-- This is `up_then_down`: the next dirty position of a level. -/
def upThenDown (levelBegin levels : Nat) : Nat → Nat → Option Nat
  | 0, _ => none
  | steps + 1, position =>
      if position = 1 then none
      else if position % 2 = 0 ∧ dirty (position + 1) then
        dirty.down levelBegin levels (position + 1)
      else upThenDown levelBegin levels steps (position / 2)

/-- The next position of `dirty_iterator` behind a position. -/
def next (levels levelBegin position : Nat) : Option Nat :=
  dirty.upThenDown levelBegin levels levels position

/-- The first position of `dirty_iterator`. -/
def first (levels levelBegin : Nat) : Option Nat :=
  if dirty levelBegin then some levelBegin else dirty.next levels levelBegin levelBegin

/-- The positions behind a position that the iterator visits while the marks stay as they are. -/
def positionsFrom (levels levelBegin : Nat) : Nat → Option Nat → List Nat
  | _, none => []
  | 0, some _ => []
  | steps + 1, some position =>
      position :: positionsFrom levels levelBegin steps (dirty.next levels levelBegin position)

/-- This is `dirty_positions_view` of a level. -/
def positions (levels levelBegin : Nat) : List Nat :=
  dirty.positionsFrom levels levelBegin levelBegin (dirty.first levels levelBegin)

/-- The loop of `do_clean`, which cleans the tree that it iterates over. -/
def cleanFrom (levels levelBegin : Nat) : Nat → Option Nat → DirtyPageTree → DirtyPageTree
  | _, none, dirty => dirty
  | 0, some _, dirty => dirty
  | steps + 1, some position, dirty =>
      let cleaned := markCleanAndUp dirty levels position
      cleanFrom levels levelBegin steps (cleaned.next levels levelBegin position) cleaned

def clean (levels levelBegin : Nat) : DirtyPageTree :=
  cleanFrom levels levelBegin levelBegin (dirty.first levels levelBegin) dirty

end DirtyPageTree

end DirtyPageTree

/-- An address range that the hash tree covers, with its `dense_hash_tree` and `dirty_page_tree`.
Both trees have one leaf for each page, up to a power of two. -/
structure Range (Hash : Type) where
  start : Nat
  length : Nat
  dense : Nat → Hash
  dirty : DirtyPageTree

namespace Range

variable {Hash : Type} (range : Range Hash)

def levels : Nat := levelCount range.length

/-- The position of the first page. -/
def leafBegin : Nat := 2 ^ (range.levels - 1)

/-- This is `to_index` and `to_position` for a node of the range. -/
def position (offset log2Size : Nat) : Nat :=
  2 ^ (range.levels - (log2Size - hashTreeLog2PageSize) - 1) + offset / 2 ^ log2Size

/-- This is `contains_absolute`. -/
def containsAbsolute (start length : Nat) : Bool :=
  range.start ≤ start && start + length ≤ range.start + range.length

/-- The range takes a power of two in the tree. -/
def log2Size : Nat := hashTreeLog2PageSize + range.levels - 1

def setDense (position : Nat) (hash : Hash) : Range Hash :=
  { range with dense := Function.update range.dense position hash }

def markDirtyPageAndUp (offset : Nat) : Range Hash :=
  { range with dirty :=
    range.dirty.markDirtyAndUp range.levels (range.position offset hashTreeLog2PageSize) }

def markCleanPageAndUp (offset : Nat) : Range Hash :=
  { range with dirty :=
    range.dirty.markCleanAndUp range.levels (range.position offset hashTreeLog2PageSize) }

def cleanAll : Range Hash :=
  { range with dirty := range.dirty.clean range.levels range.leafBegin }

/-- The data of a page in the memory of the host. -/
def pageData (memory : Memory) (paddrPage : Nat) : List Byte :=
  memory.load (BitVec.ofNat 64 paddrPage) hashTreePageSize

/-- A new range has no hashes, and all its pages and their padding are dirty. -/
def create (noHash : Hash) (start length : Nat) : Range Hash where
  start := start
  length := length
  dense := fun _ => noHash
  dirty := fun _ => true

end Range

end MachineEmulator.HashTree
