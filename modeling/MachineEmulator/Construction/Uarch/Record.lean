/-
This file gives the accesses that are logged while the microarchitecture runs.
-/

import MachineEmulator.Construction.Cmio.LogSendCmioResponse

namespace MachineEmulator.Uarch

/-- This is `adjust_access`: the node that holds an access of a size. -/
def adjustAccess (paddr : Word) (log2Size : Nat) : Word × Nat :=
  let aligned := (paddr >>> log2Size) <<< log2Size
  let log2AccessSize := max log2Size hashTreeLog2WordSize
  ((aligned >>> log2AccessSize) <<< log2AccessSize, log2AccessSize)

section Record

variable {Hash : Type} (hasher : Hasher Hash)

/-- This is `log_read_word_access`, and with the size of a tree word also the access to the revert
root hash. -/
def logReadAccess (memory : Memory) (paddr : Word) (log2Size : Nat) : Access Hash :=
  let node := adjustAccess paddr log2Size
  { type := .read
    address := paddr
    log2Size
    read := some (memory.load node.1 (2 ^ node.2))
    readHash := hasher.regionHash memory node.2 (node.1.toNat / 2 ^ node.2)
    written := none
    writtenHash := none
    siblingHashes := some (Cmio.getSiblingHashes hasher memory node.1 node.2) }

/-- This is `log_write_access`, with the memory before and after the write. The data of large nodes
is kept only in logs with large data. -/
def logWriteAccess (largeData : Bool) (before after : Memory) (paddr : Word) (log2Size : Nat) :
    Access Hash :=
  let node := adjustAccess paddr log2Size
  let keepsData := log2Size < hashTreeLog2WordSize ∨ largeData
  { type := .write
    address := paddr
    log2Size
    read := if keepsData then some (before.load node.1 (2 ^ node.2)) else none
    readHash := hasher.regionHash before node.2 (node.1.toNat / 2 ^ node.2)
    written := if keepsData then some (after.load node.1 (2 ^ node.2)) else none
    writtenHash := some (hasher.regionHash after node.2 (node.1.toNat / 2 ^ node.2))
    siblingHashes := some (Cmio.getSiblingHashes hasher before node.1 node.2) }

end Record

end MachineEmulator.Uarch
