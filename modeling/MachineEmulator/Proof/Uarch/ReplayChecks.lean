/-
This file says what each accepted access of a log gives: its place, its siblings and its data.
-/

import MachineEmulator.Construction.Uarch.Replay
import MachineEmulator.Proof.AccessChecks

namespace MachineEmulator.Uarch

variable {Hash : Type} {platform : Word → Nat → Bool} {hasher : Hasher Hash}

section Parts

theorem checkAccessType_ok {access : Access Hash} {type : AccessType} {result : Unit}
    (passed : checkAccessType access type = .ok result) : access.type = type := by
  simp only [checkAccessType, bind_ok, check_ok] at passed
  exact passed.choose_spec.1

theorem checkAccessRange_ok {access : Access Hash} {paddr : Word} {log2Size : Nat} {result : Unit}
    (passed : checkAccessRange access paddr log2Size = .ok result) :
    access.address = paddr ∧ access.log2Size = log2Size := by
  simp only [checkAccessRange, bind_ok, check_ok] at passed
  obtain ⟨_, address, size⟩ := passed
  exact ⟨address, size⟩

variable [DecidableEq Hash]

theorem checkReadData_ok {access : Access Hash} {data : List Byte}
    (passed : checkReadData hasher access = .ok data) :
    access.read = some data ∧ hasher.getMerkleTreeHash data = some access.readHash := by
  unfold checkReadData at passed
  cases present : access.read with
  | none => simp [present] at passed
  | some found =>
      simp only [present, bind_ok, check_ok, getAccessHash_ok] at passed
      obtain ⟨computed, hashed, _, same, done⟩ := passed
      cases done
      exact ⟨rfl, same ▸ hashed⟩

theorem checkReadDataIfThere_ok {access : Access Hash} {result : Unit}
    (passed : checkReadDataIfThere hasher access = .ok result) :
    ∀ data ∈ access.read, hasher.getMerkleTreeHash data = some access.readHash := by
  unfold checkReadDataIfThere at passed
  cases present : access.read with
  | none => simp
  | some found =>
      simp only [present, bind_ok, check_ok, getAccessHash_ok] at passed
      obtain ⟨computed, hashed, same⟩ := passed
      rintro data ⟨⟩
      exact same ▸ hashed

theorem checkWrittenHash_ok {access : Access Hash} {expectedHash writtenHash : Hash}
    (passed : checkWrittenHash access expectedHash = .ok writtenHash) :
    writtenHash = expectedHash := by
  unfold checkWrittenHash at passed
  cases present : access.writtenHash with
  | none => simp [present] at passed
  | some found =>
      simp only [present, bind_ok, check_ok] at passed
      obtain ⟨_, same, done⟩ := passed
      cases done
      exact same

end Parts

section Accesses

variable [DecidableEq Hash] {context next : ReplayContext Hash} {paddr : Word}

/-- An accepted write of a node moves the root from its old hash to the expected one. -/
theorem checkWriteAccess_ok {level : Nat} {expectedHash : Hash}
    (passed : checkWriteAccess platform hasher paddr (level + 5) expectedHash context = .ok next) :
    ∃ access siblings, context.accesses[context.nextAccess]? = some access ∧
      access.type = .write ∧ access.proofLog2Size = level + 5 ∧
      access.siblingHashes = some siblings ∧
      (∀ data ∈ access.read, data.length = 2 ^ (level + 5) ∧
        hasher.getMerkleTreeHash data = some access.readHash) ∧
      siblingRoot platform hasher paddr level siblings access.readHash = context.rootHash ∧
      next = ⟨context.accesses, context.nextAccess + 1,
        siblingRoot platform hasher paddr level siblings expectedHash⟩ := by
  simp only [checkWriteAccess, bind_ok, currentAccess_ok] at passed
  obtain ⟨access, here, _, typeOk, _, rangeOk, proof, proofOk, writtenHash, writtenOk, _, readOk, _, _,
    done⟩ := passed
  obtain ⟨rfl, size⟩ := checkAccessRange_ok rangeOk
  obtain ⟨siblings, present, readSize, reached, moves⟩ :=
    checkAccessSiblingsAndReadHash_ok (proofLog2Size_node size) proofOk
  have expected := checkWrittenHash_ok writtenOk
  subst expected
  refine ⟨access, siblings, here, checkAccessType_ok typeOk, proofLog2Size_node size, present,
    fun data found => ⟨readSize data found, checkReadDataIfThere_ok readOk data found⟩, reached, ?_⟩
  rw [← Except.ok.inj done, ReplayContext.advance, ReplayContext.updateRootHash, moves]

/-- An accepted read of a word holds 32 bytes below the root. -/
theorem checkReadWordAccess_ok {value : Word}
    (passed : checkReadWordAccess platform hasher paddr context = .ok (value, next)) :
    ∃ access siblings data, context.accesses[context.nextAccess]? = some access ∧
      access.type = .read ∧ access.read = some data ∧ data.length = 32 ∧
      access.siblingHashes = some siblings ∧
      siblingRoot platform hasher paddr 0 siblings (hasher.hash data) = context.rootHash ∧
      value = wordOfBytes ((data.drop (wordOffset paddr)).take 8) ∧
      next = ⟨context.accesses, context.nextAccess + 1, context.rootHash⟩ := by
  simp only [checkReadWordAccess, bind_ok, currentAccess_ok, getWordAccessData, check_ok] at passed
  obtain ⟨access, here, _, typeOk, _, rangeOk, proof, proofOk, data, dataOk, _, ⟨_, _, valueOk⟩,
    done⟩ := passed
  obtain ⟨rfl, size⟩ := checkAccessRange_ok rangeOk
  obtain ⟨siblings, present, readSize, reached, _⟩ :=
    checkAccessSiblingsAndReadHash_ok (proofLog2Size_word size) proofOk
  obtain ⟨found, hashed⟩ := checkReadData_ok dataOk
  have length : data.length = 32 := readSize data found
  rw [hasher.getMerkleTreeHash_word length] at hashed
  rw [← Option.some.inj hashed] at reached
  cases valueOk
  cases done
  exact ⟨access, siblings, data, here, checkAccessType_ok typeOk, found, length, present, reached,
    rfl, rfl⟩

/-- An accepted write of a word replaces the word in 32 bytes below the root. -/
theorem checkWriteWordAccess_ok {value : Word}
    (passed : checkWriteWordAccess platform hasher paddr value context = .ok next) :
    ∃ access siblings data, context.accesses[context.nextAccess]? = some access ∧
      access.read = some data ∧ data.length = 32 ∧ access.siblingHashes = some siblings ∧
      wordOffset paddr + 8 ≤ 32 ∧
      siblingRoot platform hasher paddr 0 siblings (hasher.hash data) = context.rootHash ∧
      next = ⟨context.accesses, context.nextAccess + 1,
        siblingRoot platform hasher paddr 0 siblings (hasher.hash
          (data.take (wordOffset paddr) ++ wordToBytes value ++
            data.drop (wordOffset paddr + 8)))⟩ := by
  simp only [checkWriteWordAccess, bind_ok, currentAccess_ok, replaceWordAccessData, check_ok] at passed
  obtain ⟨access, here, _, typeOk, _, rangeOk, proof, proofOk, data, dataOk, replaced,
    ⟨_, inside, replacedOk⟩, expected, expectedOk, written, writtenOk, _, _, done⟩ := passed
  obtain ⟨rfl, size⟩ := checkAccessRange_ok rangeOk
  obtain ⟨siblings, present, readSize, reached, moves⟩ :=
    checkAccessSiblingsAndReadHash_ok (proofLog2Size_word size) proofOk
  obtain ⟨found, hashed⟩ := checkReadData_ok dataOk
  have length : data.length = 32 := readSize data found
  rw [length] at inside
  rw [hasher.getMerkleTreeHash_word length] at hashed
  rw [← Option.some.inj hashed] at reached
  cases replacedOk
  have writtenHash := checkWrittenHash_ok writtenOk
  have expectedHash := getAccessHash_word (by simp [length]; omega) expectedOk
  refine ⟨access, siblings, data, here, found, length, present, inside, reached, ?_⟩
  rw [← Except.ok.inj done, ReplayContext.advance, ReplayContext.updateRootHash, moves, writtenHash,
    expectedHash]

/-- An accepted read of the revert root hash holds 32 bytes below the root. -/
theorem checkReadRevertRootHashAccess_ok {hash : Hash}
    (passed : checkReadRevertRootHashAccess platform hasher context = .ok (hash, next)) :
    ∃ access siblings data, context.accesses[context.nextAccess]? = some access ∧
      access.type = .read ∧ data.length = 32 ∧
      siblingRoot platform hasher revertRootHashStart 0 siblings (hasher.hash data) =
        context.rootHash ∧
      hash = hasher.ofBytes data ∧
      next = ⟨context.accesses, context.nextAccess + 1, context.rootHash⟩ := by
  simp only [checkReadRevertRootHashAccess, bind_ok, currentAccess_ok, check_ok] at passed
  obtain ⟨access, here, _, typeOk, _, rangeOk, proof, proofOk, data, dataOk, _, _, done⟩ := passed
  obtain ⟨address, size⟩ := checkAccessRange_ok rangeOk
  have node : access.proofLog2Size = 0 + 5 := by
    simp [Access.proofLog2Size, size, hashTreeLog2WordSize]
  obtain ⟨siblings, _, readSize, reached, _⟩ := checkAccessSiblingsAndReadHash_ok node proofOk
  obtain ⟨found, hashed⟩ := checkReadData_ok dataOk
  have length : data.length = 32 := readSize data found
  rw [hasher.getMerkleTreeHash_word length] at hashed
  rw [← Option.some.inj hashed, address] at reached
  cases done
  exact ⟨access, siblings, data, here, checkAccessType_ok typeOk, length, reached, rfl, rfl⟩

end Accesses

end MachineEmulator.Uarch
