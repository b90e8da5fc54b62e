/-
This file gives the interface of the tree of dirty pages: how it is built, the calls with offsets
into its range, and the offsets that its view of a level shows.
-/

import MachineEmulator.Construction.HashTree.PageTrees
import MachineEmulator.Construction.Machine.VirtualMemory

namespace MachineEmulator.HashTree.DirtyPageTree

open Machine (pageMask)

/-- This is `check_level_count`, for a tree that has a root. -/
def checkLevelCount (levels leafCount : Nat) : Prop :=
  1 ≤ levels ∧ levels < 64 ∧ leafCount ≤ 2 ^ (levels - 1)
deriving Decidable

/-- This is `level_positions_view`: the first position of a level, which is also their number. -/
def levelBegin (levels level : Nat) : Nat := 2 ^ (levels - level - 1)

/-- The leaves as the constructor fills them: the pages as they are asked for, the padding dirty. -/
def leaves (levels leafCount : Nat) (init : Bool) : DirtyPageTree := fun position =>
  let firstLeaf := levelBegin levels 0
  if position < firstLeaf then false
  else if position < firstLeaf + leafCount then init
  else decide (position < 2 * firstLeaf)

/-- One round of the inner loop of `build_from_leaves`. -/
def buildPosition (dirty : DirtyPageTree) (position : Nat) : DirtyPageTree :=
  if dirty (2 * position) || dirty (2 * position + 1) then Function.update dirty position true
  else dirty

def buildLevel (dirty : DirtyPageTree) (start : Nat) : DirtyPageTree :=
  (List.range start).foldl (fun dirty index => dirty.buildPosition (start + index)) dirty

/-- This is `build_from_leaves`, for a number of levels above the leaves. -/
def buildFromLeaves (levels : Nat) (dirty : DirtyPageTree) : Nat → DirtyPageTree
  | 0 => dirty
  | level + 1 => (buildFromLeaves levels dirty level).buildLevel (levelBegin levels (level + 1))

/-- This is the constructor, for a backing file that holds no tree yet. -/
def create (levels leafCount : Nat) (init : Bool) : DirtyPageTree :=
  buildFromLeaves levels (leaves levels leafCount init) (levels - 1)

/-- This is `to_position` for a page; there is none behind the last leaf. -/
def pagePosition (levels : Nat) (offset : Word) : Option Nat :=
  let index := offset.toNat / 2 ^ hashTreeLog2PageSize
  if index < levelBegin levels 0 then some (levelBegin levels 0 + index) else none

/-- This is `mark_dirty_page_and_up`. -/
def markDirtyPageAndUp (levels : Nat) (offset : Word) (dirty : DirtyPageTree) : DirtyPageTree :=
  match pagePosition levels offset with
  | some position => dirty.markDirtyAndUp levels position
  | none => dirty

/-- This is `mark_clean_page_and_up`. -/
def markCleanPageAndUp (levels : Nat) (offset : Word) (dirty : DirtyPageTree) : DirtyPageTree :=
  match pagePosition levels offset with
  | some position => dirty.markCleanAndUp levels position
  | none => dirty

/-- The loop of `mark_dirty_pages_and_up`, cut off after a number of rounds. -/
def markDirtyPagesLoop (levels : Nat) (stop : Word) : Nat → Word → DirtyPageTree →
    Except Failure DirtyPageTree
  | 0, _, _ => .error .nonTermination
  | rounds + 1, offset, dirty =>
      if offset < stop then
        markDirtyPagesLoop levels stop rounds (offset + 4096)
          (markDirtyPageAndUp levels offset dirty)
      else .ok dirty

/-- This is `mark_dirty_pages_and_up`. -/
def markDirtyPagesAndUp (levels rounds : Nat) (offset length : Word) (dirty : DirtyPageTree) :
    Except Failure DirtyPageTree :=
  markDirtyPagesLoop levels (offset + length) rounds (offset &&& ~~~pageMask) dirty

/-- This is `dirty_offsets_view` of a level of the tree. -/
def dirtyOffsetsView (levels level : Nat) (dirty : DirtyPageTree) : List Nat :=
  (dirty.positions levels (levelBegin levels level)).map fun position =>
    (position - levelBegin levels level) * 2 ^ (hashTreeLog2PageSize + level)

/-- The calls that change the tree. -/
inductive Mark where
  | dirtyPage (offset : Word)
  | dirtyPages (offset length : Word)
  | cleanPage (offset : Word)
  | clean

def Mark.perform (levels rounds : Nat) (dirty : DirtyPageTree) : Mark → Except Failure DirtyPageTree
  | .dirtyPage offset => .ok (markDirtyPageAndUp levels offset dirty)
  | .dirtyPages offset length => markDirtyPagesAndUp levels rounds offset length dirty
  | .cleanPage offset => .ok (markCleanPageAndUp levels offset dirty)
  | .clean => .ok (dirty.clean levels (levelBegin levels 0))

/-- A run of calls, in which every loop ends within a number of rounds. -/
def performAll (levels rounds : Nat) (marks : List Mark) (dirty : DirtyPageTree) :
    Except Failure DirtyPageTree :=
  marks.foldlM (Mark.perform levels rounds) dirty

end MachineEmulator.HashTree.DirtyPageTree
