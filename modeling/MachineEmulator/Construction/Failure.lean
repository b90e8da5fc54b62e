/-
This file lists the ways in which the modelled functions stop without a result.
-/

import Mathlib.Tactic

namespace MachineEmulator

/-- Each constructor is one `throw` or one failing `assert` of the source, the point where the
language gives the source no meaning, or a loop without an end; the texts that name an access by its
position or its address are left out. -/
inductive Failure where
  | assertionFailed
  | unsupportedEcall
  | uarchAborted
  | illegalInstruction
  | missingAccess
  | wrongAccessType
  | unexpectedWrittenData
  | unexpectedWrittenHash
  | wrongAccessAddress
  | wrongAccessSize
  | noSiblingHashes
  | readSizeInconsistent
  | writtenSizeInconsistent
  | rootSizeNotPositive
  | rootHashMismatch
  | missingWrittenHash
  | writtenHashMismatch
  | missingReadData
  | readDataMismatch
  | writtenDataMismatch
  | wrongReadDataSize
  | badMerkleDataSize
  | logNotConsumed
  | finalRootHashMismatch
  | emptyLog
  | addressNotAligned
  | missingWrittenData
  | wrongWrittenDataSize
  | writtenWordMismatch
  | writtenDataDiffers
  | writeLengthTooSmall
  | misalignedRead
  | misalignedWrite
  | unhandledShadowWrite
  | registerReadOnly
  | notMemory
  | hostReadOnly
  | protectedRange
  | tlbSlotOutOfBounds
  | undefinedBehavior
  | rootHashBeforePastEnd
  | mcycleCountPastEnd
  | rootHashAfterPastEnd
  | hashFunctionPastEnd
  | unsupportedHashFunction
  | pageCountPastEnd
  | pageCountZero
  | pageDataPastEnd
  | siblingCountPastEnd
  | siblingHashesPastEnd
  | extraDataAtEnd
  | pageIndexNotIncreasing
  | scratchHashNotZero
  | tooFewSiblingHashes
  | tooManyPages
  | tooManySiblingHashes
  | initialRootHashMismatch
  | requiredPageNotFound
  | pagesNotConsumed
  | rootHashBeforeNotInHeader
  | mcycleCountNotInHeader
  | rootHashAfterNotInHeader
  | log2MaxLeavesNegative
  | log2MaxLeavesTooLarge
  | tooManyLeaves
  | padHashesSizeMismatch
  | backTreeIncomplete
  | mcycleIsPast
  | mcyclePeriodZero
  | mcyclePhaseOutOfRange
  | backTreeIncompatible
  | machineUnreproducible
  | softYieldEnabled
  | uarchNotReset
  | nonTermination
  | iflagsYNotSet
  | responseTooLarge
  | notWaitingForInput
  | revertRootHashMismatch
  | cacheWithoutEntries
  | entryAlreadyBorrowed
  | entryNotBorrowed
  | pageNotInMemory
  | emptyRange
  | rangeLengthOverflows
  | rangeStartNotAligned
  | rangeOverflows
  | rangesOverlap
  | unexpectedRootIndex
  | log2RootSizeTooSmall
  | log2RootSizeTooLarge
  | log2TargetSizeTooSmall
  | log2TargetSizeTooLarge
  | addressNotAlignedToTarget
  | invalidLog2Size
  | updateHashTreeFailed
  | noCacheEntries
  | backingFileTooLong
  | backingFileTooShort
  | cacheTagMismatch
  | cacheSizeExceedsCapacity
  | cacheInvalidEntryPointer
  | cacheUnalignedEntryPointer
  | cacheSizeMismatch
  | levelCountNegative
  | tooManyLeavesForLevels
  | tooManyLevels
  | revertTailRequired
  | revertTailTooShort
  | revertTailWrongEnd
  | uarchCycleOverflow
  | outputDestinationNotBuffer
  | inputSourceNotBuffer
  | consoleOutputFlushFailed
  | consoleInputRefillFailed
  | consoleOutputFilenameSet
  | consoleInputFilenameSet
  | consoleOutputFdSet
  | consoleInputFdSet
  | consoleOutputBufferEmpty
  | consoleInputBufferEmpty
  | consoleOutputBufferShrinks
  | consoleInputBufferShrinks
  | invalidFileDescriptor
  | dupFailed
  | openFileFailed
  | openTtyFailed
  | allocationFailed
  | consoleOutputSpaceTooSmall
  | log2TargetSizeNegative
  | log2TargetSizeGreaterThanRoot
  | log2SizeOutOfRange
  | slicedProofInvalid
  | invalidDataBuffer
  | deviceMemoryRange
  | notSingleMemoryRange
  | tlbCorrupt
  | pageFault
  | rangeOutOfBounds
  | rangeNotPageAligned
  | rangeLengthNotPageAligned
  | emptyRangeNotAtZero
  | emptyRangeHasFlags
  | rangeNotRegistered
  | rangeNotAddressable
  | rangeOverlapsExisting
  | tooManyPmas
  | invalidRangeAccess
  | noHostMemory
deriving DecidableEq, Repr

/-- A check passes or stops with its own failure. -/
def check (condition : Prop) [Decidable condition] (failure : Failure) : Except Failure Unit :=
  if condition then .ok () else .error failure

theorem check_ok {condition : Prop} [Decidable condition] {failure : Failure} {result : Unit} :
    check condition failure = .ok result ↔ condition := by
  unfold check
  split <;> simp_all

theorem check_pos {condition : Prop} [Decidable condition] {failure : Failure}
    (holds : condition) : check condition failure = .ok () := check_ok.mpr holds

/-- A sequence succeeds when its first part does and the rest does with the answer. -/
theorem bind_ok {A B E : Type} {first : Except E A} {next : A → Except E B} {result : B} :
    (first >>= next) = .ok result ↔ ∃ answer, first = .ok answer ∧ next answer = .ok result := by
  cases first with
  | ok answer =>
      constructor
      · intro done
        exact ⟨answer, rfl, done⟩
      · rintro ⟨_, ⟨⟩, done⟩
        exact done
  | error failure =>
      constructor
      · rintro ⟨⟩
      · rintro ⟨_, ⟨⟩, _⟩

end MachineEmulator
