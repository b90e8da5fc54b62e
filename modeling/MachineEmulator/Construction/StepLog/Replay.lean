/-
This file gives the verifier of a step log: it reads the image of the log, checks it against the
logged root hashes and answers the interpreter from the logged pages.
-/

import MachineEmulator.Construction.Uarch.ResetState

namespace MachineEmulator.StepLog

open Effects

def arLog2PageSize : Nat := 12

def arPageSize : Nat := 2 ^ arLog2PageSize

def machineHashSize : Nat := 32

inductive HashFunctionType where
  | keccak256
  | sha256
deriving DecidableEq, Repr

/-- A logged page with its scratch area for a hash. -/
structure PageType (Hash : Type) where
  index : Word
  data : List Byte
  hash : Hash

/-- This is `sizeof(page_type)`, which is packed. -/
def pageTypeSize : Word := 8 + 4096 + 32

/-- This is `context`; the counts are the lengths of the lists. The mock address ranges and the hot
TLB only cache what the pages hold. -/
structure Context (Hash : Type) where
  loggedRootHashBefore : Hash
  loggedMcycleCount : Word
  loggedRootHashAfter : Hash
  hashFunction : HashFunctionType
  pages : List (PageType Hash)
  siblingHashes : List Hash

section Image

/-- This is `validate_and_advance_offset`: the size and the offset must not overflow, and the block
must end inside the buffer. -/
def validateAndAdvanceOffset (max : Nat) (current elsize elcount : Word) (failure : Failure) :
    Except Failure Word := do
  check (elsize.toNat * elcount.toNat < 2 ^ 64) failure
  check (current.toNat + (elsize * elcount).toNat < 2 ^ 64) failure
  check ((current + elsize * elcount).toNat ≤ max) failure
  return current + elsize * elcount

variable (image : List Byte)

/-- A read outside the image has no meaning. -/
def bytesAt (offset : Word) (length : Nat) : Except Failure (List Byte) := do
  check (offset.toNat + length ≤ image.length) .undefinedBehavior
  return (image.drop offset.toNat).take length

def uint64At (offset : Word) : Except Failure Word := do
  let data ← bytesAt image offset 8
  return wordOfBytes data

/-- The elements of an array in the image. -/
def arrayAt {A : Type} (first size : Word) (count : Nat) (element : Word → Except Failure A) :
    Except Failure (List A) :=
  (List.range count).mapM fun position => element (first + BitVec.ofNat 64 position * size)

variable {Hash : Type} (ofBytes : List Byte → Hash)

def hashAt (offset : Word) : Except Failure Hash := do
  let data ← bytesAt image offset machineHashSize
  return ofBytes data

def pageAt (offset : Word) : Except Failure (PageType Hash) := do
  let index ← uint64At image offset
  let data ← bytesAt image (offset + 8) arPageSize
  let hash ← hashAt image ofBytes (offset + 4104)
  return { index := index, data := data, hash := hash }

def hashFunctionOf (value : Word) : Except Failure HashFunctionType :=
  if value = 0 then .ok .keccak256
  else if value = 1 then .ok .sha256
  else .error .unsupportedHashFunction

/-- The fields of the log, one after the other to the end of the image. -/
def readContext : Except Failure (Context Hash) := do
  let logSize := image.length
  let mcycleCountOffset ← validateAndAdvanceOffset logSize 0 32 1 .rootHashBeforePastEnd
  let rootHashBefore ← hashAt image ofBytes 0
  let rootHashAfterOffset ←
    validateAndAdvanceOffset logSize mcycleCountOffset 8 1 .mcycleCountPastEnd
  let mcycleCount ← uint64At image mcycleCountOffset
  let hashFunctionOffset ←
    validateAndAdvanceOffset logSize rootHashAfterOffset 32 1 .rootHashAfterPastEnd
  let rootHashAfter ← hashAt image ofBytes rootHashAfterOffset
  let pageCountOffset ← validateAndAdvanceOffset logSize hashFunctionOffset 8 1 .hashFunctionPastEnd
  let hashFunctionValue ← uint64At image hashFunctionOffset
  let hashFunction ← hashFunctionOf hashFunctionValue
  let firstPageOffset ← validateAndAdvanceOffset logSize pageCountOffset 8 1 .pageCountPastEnd
  let pageCount ← uint64At image pageCountOffset
  check (pageCount ≠ 0) .pageCountZero
  let siblingCountOffset ←
    validateAndAdvanceOffset logSize firstPageOffset pageTypeSize pageCount .pageDataPastEnd
  let firstSiblingOffset ←
    validateAndAdvanceOffset logSize siblingCountOffset 8 1 .siblingCountPastEnd
  let siblingCount ← uint64At image siblingCountOffset
  let endOffset ←
    validateAndAdvanceOffset logSize firstSiblingOffset 32 siblingCount .siblingHashesPastEnd
  check (endOffset.toNat = logSize) .extraDataAtEnd
  let pages ← arrayAt firstPageOffset pageTypeSize pageCount.toNat (pageAt image ofBytes)
  let siblingHashes ← arrayAt firstSiblingOffset 32 siblingCount.toNat (hashAt image ofBytes)
  return {
    loggedRootHashBefore := rootHashBefore
    loggedMcycleCount := mcycleCount
    loggedRootHashAfter := rootHashAfter
    hashFunction := hashFunction
    pages := pages
    siblingHashes := siblingHashes }

end Image

section RootHash

variable {Hash : Type} [DecidableEq Hash]

/-- The pages come in increasing order, each with an empty scratch area. Their data lies in one
array, so its addresses are in order too. -/
def checkPages (allZeros : Hash) : Option Word → List (PageType Hash) → Except Failure Unit
  | _, [] => .ok ()
  | previous, page :: rest => do
      check (∀ index ∈ previous, index < page.index) .pageIndexNotIncreasing
      check (page.hash = allZeros) .scratchHashNotZero
      checkPages allZeros (some page.index) rest

variable (hasher : Hasher Hash)

/-- The pages and the sibling hashes that the walk has not visited yet. -/
structure Unvisited (Hash : Type) where
  pages : List (PageType Hash)
  siblings : List Hash

def nextSibling (unvisited : Unvisited Hash) : Except Failure (Hash × Unvisited Hash) :=
  match unvisited.siblings with
  | [] => .error .tooFewSiblingHashes
  | hash :: rest => .ok (hash, { unvisited with siblings := rest })

/-- This is `compute_root_hash_impl`. The page index stays below 2^52, so it is a number. -/
def computeRootHashImpl : Nat → Nat → Unvisited Hash → Except Failure (Hash × Unvisited Hash)
  | log2PageCount, pageIndex, unvisited =>
      match unvisited.pages with
      | [] => nextSibling unvisited
      | page :: rest =>
          if pageIndex + 2 ^ log2PageCount ≤ page.index.toNat then nextSibling unvisited
          else
            match log2PageCount with
            | below + 1 => do
                let (left, unvisited) ← computeRootHashImpl below pageIndex unvisited
                let (right, unvisited) ←
                  computeRootHashImpl below (pageIndex + 2 ^ (below + 1) / 2) unvisited
                return (hasher.concatHash left right, unvisited)
            | 0 =>
                if page.index.toNat = pageIndex then
                  .ok (page.hash, { unvisited with pages := rest })
                else nextSibling unvisited

/-- The scratch area of a page receives the hash of its data. -/
def hashPage (page : PageType Hash) : Except Failure (PageType Hash) :=
  match hasher.getMerkleTreeHash page.data with
  | some hash => .ok { page with hash := hash }
  | none => .error .badMerkleDataSize

variable (hashers : HashFunctionType → Hasher Hash)

def computeRootHash (context : Context Hash) : Except Failure (Hash × Context Hash) := do
  let hasher := hashers context.hashFunction
  let pages ← context.pages.mapM (hashPage hasher)
  let (rootHash, unvisited) ← computeRootHashImpl hasher
    (hashTreeLog2RootSize - arLog2PageSize) 0 ⟨pages, context.siblingHashes⟩
  check (unvisited.pages.isEmpty) .tooManyPages
  check (unvisited.siblings.isEmpty) .tooManySiblingHashes
  return (rootHash, { context with pages := pages })

variable (ofBytes : List Byte → Hash)

/-- This is the constructor of `replay_step_state_access`. -/
def replayStepStateAccess (image : List Byte) : Except Failure (Context Hash) := do
  let context ← readContext image ofBytes
  checkPages (ofBytes (List.replicate machineHashSize 0)) none context.pages
  let (computed, context) ← computeRootHash hashers context
  check (computed = context.loggedRootHashBefore) .initialRootHashMismatch
  return context

end RootHash

section Access

variable {Hash : Type}

def pageOffsetMask : Word := 0xfff

/-- The binary search finds the first page that is not before the wanted one. -/
def tryFindPage (pages : List (PageType Hash)) (paddrPage : Word) : Option (PageType Hash) :=
  match pages.dropWhile (fun page => page.index < paddrPage >>> arLog2PageSize) with
  | [] => none
  | page :: _ => if page.index = paddrPage >>> arLog2PageSize then some page else none

def findPage (pages : List (PageType Hash)) (paddrPage : Word) : Except Failure (PageType Hash) :=
  match tryFindPage pages paddrPage with
  | some page => .ok page
  | none => .error .requiredPageNotFound

/-- The interpreter reads and writes words through the addresses of their pages' data. -/
inductive Op where
  | read (paddr : Word) (length : Nat)
  | write (paddr : Word) (data : List Byte)

abbrev Op.Answer : Op → Type
  | .read _ _ => List Byte
  | .write _ _ => Unit

abbrev Action := Program Op Op.Answer Failure

def pageOffset (paddr : Word) : Nat := (paddr &&& pageOffsetMask).toNat

def readPage (pages : List (PageType Hash)) (paddr : Word) (length : Nat) :
    Except Failure (List Byte) := do
  let page ← findPage pages (paddr &&& ~~~ pageOffsetMask)
  check (pageOffset paddr + length ≤ arPageSize) .undefinedBehavior
  return (page.data.drop (pageOffset paddr)).take length

def writeData (page : PageType Hash) (offset : Nat) (data : List Byte) : PageType Hash :=
  { page with data := page.data.take offset ++ data ++ page.data.drop (offset + data.length) }

def writePage (pages : List (PageType Hash)) (paddr : Word) (data : List Byte) :
    Except Failure (List (PageType Hash)) := do
  let found ← findPage pages (paddr &&& ~~~ pageOffsetMask)
  check (pageOffset paddr + data.length ≤ arPageSize) .undefinedBehavior
  return pages.map fun page =>
    if page.index = found.index then writeData page (pageOffset paddr) data else page

/-- An aligned word never leaves its page, and no other access reaches the log. -/
def replayAccess : Handler Op Op.Answer Failure (Context Hash)
  | .read paddr length, context => do
      let data ← readPage context.pages paddr length
      return (data, context)
  | .write paddr data, context => do
      let pages ← writePage context.pages paddr data
      return ((), { context with pages := pages })

def readShadowRegister (context : Context Hash) (paddr : Word) : Except Failure Word := do
  let data ← readPage context.pages paddr 8
  return wordOfBytes data

def htifDevField (tohost : Word) : Word := (tohost &&& 0xFF00000000000000) >>> 56

def htifCmdField (tohost : Word) : Word := (tohost &&& 0x00FF000000000000) >>> 48

def htifReasonField (tohost : Word) : Word := (tohost &&& 0x0000FFFF00000000) >>> 32

def isRejectedManualYield (context : Context Hash) : Except Failure Bool := do
  let iflagsY ← readShadowRegister context Uarch.iflagsYAddress
  if iflagsY = 0 then return false
  else do
    let tohost ← readShadowRegister context Uarch.htifTohostAddress
    return htifDevField tohost = Uarch.htifDevYield &&
      htifCmdField tohost = Uarch.htifYieldCmdManual &&
      htifReasonField tohost = Uarch.htifYieldManualReasonRxRejected

variable [DecidableEq Hash] (hashers : HashFunctionType → Hasher Hash)
  (ofBytes : List Byte → Hash)

def readRevertRootHash (context : Context Hash) : Except Failure Hash := do
  let data ← readPage context.pages Uarch.revertRootHashStart machineHashSize
  return ofBytes data

def obtainedRootHash (rejected : Bool) (context : Context Hash) : Except Failure Hash :=
  if rejected then readRevertRootHash ofBytes context
  else (computeRootHash hashers context).map Prod.fst

/-- A rejected input makes the recorded root hash the canonical one. -/
def finish (context : Context Hash) : Except Failure Hash := do
  let rejected ← isRejectedManualYield context
  let obtained ← obtainedRootHash hashers ofBytes rejected context
  check (obtained = context.loggedRootHashAfter) .finalRootHashMismatch
  return obtained

def mcycleAddress : Word := 0x100

def saturatingAdd (a b : Word) : Word :=
  if BitVec.allOnes 64 - b < a then BitVec.allOnes 64 else a + b

/-- This is `machine::verify_step` for an interpreter that runs to a target cycle. -/
def verifyStep (interpret : Word → Action Unit) (rootHashBefore : Hash) (image : List Byte)
    (mcycleCount : Word) (rootHashAfter : Option Hash) : Except Failure Hash := do
  let context ← replayStepStateAccess hashers ofBytes image
  check (context.loggedRootHashBefore = rootHashBefore) .rootHashBeforeNotInHeader
  check (context.loggedMcycleCount = mcycleCount) .mcycleCountNotInHeader
  let mcycle ← readShadowRegister context mcycleAddress
  let (_, replayed) ←
    (interpret (saturatingAdd mcycle context.loggedMcycleCount)).run replayAccess context
  let obtained ← finish hashers ofBytes replayed
  check (∀ expected ∈ rootHashAfter, obtained = expected) .rootHashAfterNotInHeader
  return obtained

end Access

end MachineEmulator.StepLog
