/-
This file gives the root of a byte string at the base of a tree over words.
-/

import MachineEmulator.Construction.Hasher

namespace MachineEmulator.Outputs

variable {Hash : Type} (hasher : Hasher Hash)

inductive RootHashError where
  | dataDoesNotFit
deriving DecidableEq, Repr

/-- Level zero has one hash per word, a trailing partial word padded with zeros. -/
def wordHashes (data : List Byte) : List Hash :=
  let full := data.length - data.length % 32
  let level := (List.range (full / 32)).map fun word =>
    hasher.hash ((data.drop (32 * word)).take 32)
  if full < data.length then
    let word := data.drop full
    level ++ [hasher.hash (word ++ List.replicate (32 - word.length) 0)]
  else level

/-- The pristine hash stands in for the sibling of an odd last node. -/
def pairUp (pristine : Hash) : List Hash → List Hash
  | [] => []
  | [last] => [hasher.concatHash last pristine]
  | left :: right :: rest => hasher.concatHash left right :: pairUp pristine rest

/-- The loop over the levels. -/
def climbLevels : Nat → List Hash → Hash → List Hash
  | 0, level, _ => level
  | steps + 1, level, pristine =>
      climbLevels steps (pairUp hasher pristine level) (hasher.concatHash pristine pristine)

/-- This is `get_root_hash`. The size of the tree is a 64-bit integer with a sign, and the first
entry of an empty level is nil. -/
def getRootHash (data : List Byte) (log2RootSize : Nat) : Except RootHashError (Option Hash) := do
  if ((1 : BitVec 64) <<< log2RootSize).toInt < data.length then throw .dataDoesNotFit
  let pristine := hasher.hash (List.replicate 32 0)
  return (climbLevels hasher (log2RootSize - 5) (wordHashes hasher data) pristine)[0]?

end MachineEmulator.Outputs
