/-
This file says what each accepted access of a response log gives.
-/

import MachineEmulator.Construction.Cmio.SendCmioResponse
import MachineEmulator.Proof.AccessChecks

namespace MachineEmulator.Cmio

open Effects

variable {Hash : Type} {platform : Word → Nat → Bool} {hasher : Hasher Hash}

section Parts

theorem leafOffset_eq (paddr : Word) : leafOffset paddr = paddr.toNat % 32 := by
  have bound := paddr.isLt
  rw [leafOffset, and_not_word, BitVec.toNat_sub, toNat_word]
  omega

variable [DecidableEq Hash]

theorem checkLoggedRead_ok {access : Access Hash} {data : List Byte}
    (passed : checkLoggedRead hasher access = .ok data) :
    access.read = some data ∧ data.length = 32 ∧ access.readHash = hasher.hash data := by
  unfold checkLoggedRead at passed
  cases present : access.read with
  | none => simp [present] at passed
  | some found =>
      simp only [present, bind_ok, check_ok] at passed
      obtain ⟨_, size, computed, hashed, _, same, done⟩ := passed
      cases done
      exact ⟨rfl, size, same.trans (getAccessHash_word size hashed)⟩

/-- The logged new data is the old data with the word replaced. -/
theorem checkLoggedWritten_ok {access : Access Hash} {data : List Byte} {word : Word} {offset : Nat}
    {writtenHash : Hash} (size : data.length = 32)
    (passed : checkLoggedWritten hasher access data word offset = .ok writtenHash) :
    offset + 8 ≤ 32 ∧ writtenHash = hasher.hash
      (data.take offset ++ wordToBytes word ++ data.drop (offset + 8)) := by
  unfold checkLoggedWritten at passed
  cases hashPresent : access.writtenHash with
  | none => simp [hashPresent] at passed
  | some foundHash =>
      cases dataPresent : access.written with
      | none => simp [hashPresent, dataPresent] at passed
      | some found =>
          simp only [hashPresent, dataPresent, bind_ok, check_ok, replaceWordAccessData] at passed
          obtain ⟨_, length, computed, hashed, _, same, _, _, _, _, _, ⟨_, inside, replaced⟩, _,
            equal, done⟩ := passed
          cases done
          cases replaced
          subst equal
          rw [size] at inside length
          exact ⟨inside, same.trans (getAccessHash_word length hashed)⟩

theorem checkHashIfThere_ok {data : Option (List Byte)} {hash : Hash} {failure : Failure}
    {result : Unit} (passed : checkHashIfThere hasher data hash failure = .ok result) :
    ∀ found ∈ data, hasher.getMerkleTreeHash found = some hash := by
  unfold checkHashIfThere at passed
  cases data with
  | none => simp
  | some present =>
      simp only [bind_ok, check_ok, getAccessHash_ok] at passed
      obtain ⟨computed, hashed, same⟩ := passed
      rintro found ⟨⟩
      exact same ▸ hashed

end Parts

section Accesses

variable [DecidableEq Hash] {context next : ReplayContext Hash} {paddr : Word}

theorem checkRead_ok {value : Word}
    (passed : checkRead platform hasher paddr context = .ok (value, next)) :
    ∃ access siblings data, context.accesses[context.nextAccess]? = some access ∧
      access.read = some data ∧ data.length = 32 ∧
      siblingRoot platform hasher paddr 0 siblings (hasher.hash data) = context.rootHash ∧
      value = wordOfBytes ((data.drop (paddr.toNat % 32)).take 8) ∧
      next = ⟨context.accesses, context.nextAccess + 1, context.rootHash⟩ := by
  simp only [checkRead, bind_ok, currentAccess_ok, check_ok, getWordAccessData] at passed
  obtain ⟨_, _, access, here, _, type, _, address, _, size, data, dataOk, proof, proofOk, _,
    ⟨_, _, valueOk⟩, done⟩ := passed
  obtain ⟨found, length, hashed⟩ := checkLoggedRead_ok dataOk
  obtain ⟨siblings, _, _, reached, _⟩ :=
    checkAccessSiblingsAndReadHash_ok (proofLog2Size_word size) proofOk
  rw [hashed, address] at reached
  cases valueOk
  cases done
  rw [leafOffset_eq]
  exact ⟨access, siblings, data, here, found, length, reached, rfl, rfl⟩

theorem checkWrite_ok {word : Word}
    (passed : checkWrite platform hasher paddr word context = .ok next) :
    ∃ access siblings data, context.accesses[context.nextAccess]? = some access ∧
      access.read = some data ∧ data.length = 32 ∧ paddr.toNat % 32 + 8 ≤ 32 ∧
      siblingRoot platform hasher paddr 0 siblings (hasher.hash data) = context.rootHash ∧
      next = ⟨context.accesses, context.nextAccess + 1,
        siblingRoot platform hasher paddr 0 siblings (hasher.hash
          (data.take (paddr.toNat % 32) ++ wordToBytes word ++
            data.drop (paddr.toNat % 32 + 8)))⟩ := by
  simp only [checkWrite, bind_ok, currentAccess_ok, check_ok] at passed
  obtain ⟨_, _, access, here, _, type, _, address, _, size, data, dataOk, writtenHash, writtenOk,
    proof, proofOk, done⟩ := passed
  obtain ⟨found, length, hashed⟩ := checkLoggedRead_ok dataOk
  obtain ⟨inside, written⟩ := checkLoggedWritten_ok length writtenOk
  obtain ⟨siblings, _, _, reached, moves⟩ :=
    checkAccessSiblingsAndReadHash_ok (proofLog2Size_word size) proofOk
  rw [hashed, address] at reached
  rw [leafOffset_eq] at inside written
  refine ⟨access, siblings, data, here, found, length, inside, reached, ?_⟩
  rw [← Except.ok.inj done, ReplayContext.advance, ReplayContext.updateRootHash, moves, written,
    address]

/-- An accepted padded write moves the root to the hash of the padded data. -/
theorem checkWriteMemoryWithPadding_ok {data : List Byte} {level : Nat}
    (passed : checkWriteMemoryWithPadding platform hasher paddr data (level + 5) context =
      .ok next) :
    ∃ access siblings written, context.accesses[context.nextAccess]? = some access ∧
      access.type = .write ∧ access.proofLog2Size = level + 5 ∧
      access.siblingHashes = some siblings ∧ data.length ≤ 2 ^ (level + 5) ∧
      (∀ found ∈ access.read, found.length = 2 ^ (level + 5) ∧
        hasher.getMerkleTreeHash found = some access.readHash) ∧
      hasher.getMerkleTreeHash (paddedData data (level + 5)) = some written ∧
      siblingRoot platform hasher paddr level siblings access.readHash = context.rootHash ∧
      next = ⟨context.accesses, context.nextAccess + 1,
        siblingRoot platform hasher paddr level siblings written⟩ := by
  simp only [checkWriteMemoryWithPadding, bind_ok, currentAccess_ok, check_ok] at passed
  obtain ⟨_, fits, access, here, _, address, _, size, _, type, _, readOk, rest⟩ := passed
  cases present : access.writtenHash with
  | none => simp [present] at rest
  | some writtenHash =>
      simp only [present, bind_ok, check_ok, getAccessHash_ok] at rest
      obtain ⟨computed, hashed, _, same, _, _, proof, proofOk, done⟩ := rest
      subst same
      obtain ⟨siblings, there, readSize, reached, moves⟩ :=
        checkAccessSiblingsAndReadHash_ok (proofLog2Size_node size) proofOk
      rw [address] at reached
      refine ⟨access, siblings, writtenHash, here, type, proofLog2Size_node size, there, fits,
        fun found member => ⟨readSize found member, checkHashIfThere_ok readOk found member⟩,
        hashed, reached, ?_⟩
      rw [← Except.ok.inj done, ReplayContext.advance, ReplayContext.updateRootHash, moves, address]

end Accesses

end MachineEmulator.Cmio
