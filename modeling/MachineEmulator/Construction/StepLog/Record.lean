/-
This file gives the format of a step log and the log that a recorded step leaves in a file.
-/

import MachineEmulator.Construction.StepLog.Replay

namespace MachineEmulator.StepLog

def HashFunctionType.value : HashFunctionType → Word
  | .keccak256 => 0
  | .sha256 => 1

section Format

/-- A page as it stands in a file. -/
structure LogPage where
  index : Word
  data : List Byte
  scratch : List Byte
deriving DecidableEq

def LogPage.bytes (page : LogPage) : List Byte :=
  wordToBytes page.index ++ (page.data ++ page.scratch)

/-- A file with a header, its pages and its sibling hashes. -/
structure LogFile where
  rootHashBefore : List Byte
  mcycleCount : Word
  rootHashAfter : List Byte
  hashFunction : HashFunctionType
  pages : List LogPage
  siblingHashes : List (List Byte)
  before_size : rootHashBefore.length = machineHashSize
  after_size : rootHashAfter.length = machineHashSize
  has_pages : pages ≠ []
  page_size : ∀ page ∈ pages,
    page.data.length = arPageSize ∧ page.scratch.length = machineHashSize
  sibling_size : ∀ hash ∈ siblingHashes, hash.length = machineHashSize

namespace LogFile

/-- The log format: the counts stand in front of what they count. -/
def bytes (file : LogFile) : List Byte :=
  file.rootHashBefore ++ (wordToBytes file.mcycleCount ++ (file.rootHashAfter ++
    (wordToBytes file.hashFunction.value ++ (wordToBytes (BitVec.ofNat 64 file.pages.length) ++
      ((file.pages.map LogPage.bytes).flatten ++
        (wordToBytes (BitVec.ofNat 64 file.siblingHashes.length) ++ file.siblingHashes.flatten))))))

/-- What a file says. -/
def context {Hash : Type} (ofBytes : List Byte → Hash) (file : LogFile) : Context Hash where
  loggedRootHashBefore := ofBytes file.rootHashBefore
  loggedMcycleCount := file.mcycleCount
  loggedRootHashAfter := ofBytes file.rootHashAfter
  hashFunction := file.hashFunction
  pages := file.pages.map fun page => ⟨page.index, page.data, ofBytes page.scratch⟩
  siblingHashes := file.siblingHashes.map ofBytes

end LogFile

end Format

section Siblings

variable {Hash : Type} (getNodeHash : Nat → Nat → Hash)

/-- This is `get_sibling_hashes_impl` for a hash tree that answers with an address and the logarithm
of a size. It returns the hashes that it pushes and the indices that it has not visited. -/
def getSiblingHashesImpl : Nat → Nat → List Word → List Hash × List Word
  | pageCountLog2Size, pageIndex, [] =>
      ([getNodeHash (pageIndex * arPageSize) (pageCountLog2Size + arLog2PageSize)], [])
  | pageCountLog2Size, pageIndex, next :: rest =>
      if pageIndex + 2 ^ pageCountLog2Size ≤ next.toNat then
        ([getNodeHash (pageIndex * arPageSize) (pageCountLog2Size + arLog2PageSize)], next :: rest)
      else
        match pageCountLog2Size with
        | below + 1 =>
            let left := getSiblingHashesImpl below pageIndex (next :: rest)
            let right := getSiblingHashesImpl below (pageIndex + 2 ^ below) left.2
            (left.1 ++ right.1, right.2)
        | 0 => ([], rest)

def getSiblingHashes (pageIndices : List Word) : Except Failure (List Hash) := do
  let (siblingHashes, unvisited) := getSiblingHashesImpl getNodeHash
    (hashTreeLog2RootSize - hashTreeLog2PageSize) 0 pageIndices
  check (unvisited.isEmpty) .pagesNotConsumed
  return siblingHashes

/-- This is `machine_hash`. -/
@[ext]
structure MachineHash where
  bytes : List Byte
  size : bytes.length = machineHashSize
deriving DecidableEq

/-- Only blocks of the right size are read as a hash. -/
def MachineHash.ofBytes (data : List Byte) : MachineHash :=
  if size : data.length = machineHashSize then ⟨data, size⟩
  else ⟨List.replicate machineHashSize 0, List.length_replicate⟩

def pageIndexOf (address : Word) : Word := address >>> hashTreeLog2PageSize

/-- A touched page is logged under its index, with room for its hash. -/
def touchedPageBytes (touched : Word × List Byte) : List Byte :=
  wordToBytes (pageIndexOf touched.1) ++ (touched.2 ++ List.replicate machineHashSize 0)

/-- This is `record_step_state_access::finish`. The touched pages are a map in the order of its
keys, which are the addresses of the pages. -/
def recordFinish (getNodeHash : Nat → Nat → MachineHash) (rootHashBefore : MachineHash)
    (mcycleCount : Word) (rootHashAfter : MachineHash) (hashFunction : HashFunctionType)
    (touchedPages : List (Word × List Byte)) : Except Failure (List Byte) := do
  let siblingHashes ← getSiblingHashes getNodeHash
    (touchedPages.map fun touched => pageIndexOf touched.1)
  return rootHashBefore.bytes ++ (wordToBytes mcycleCount ++ (rootHashAfter.bytes ++
    (wordToBytes hashFunction.value ++ (wordToBytes (BitVec.ofNat 64 touchedPages.length) ++
      ((touchedPages.map touchedPageBytes).flatten ++
        (wordToBytes (BitVec.ofNat 64 siblingHashes.length) ++
          (siblingHashes.map MachineHash.bytes).flatten))))))

end Siblings

end MachineEmulator.StepLog
