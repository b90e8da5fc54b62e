/-
This file says which accesses the replay accepts.
-/

import MachineEmulator.Proof.AccessAccepts
import MachineEmulator.Proof.Uarch.ReplaySound

namespace MachineEmulator.Uarch

variable {Hash : Type} [DecidableEq Hash] {platform : Word → Nat → Bool} {hasher : Hasher Hash}
  {context : ReplayContext Hash} {access : Access Hash} {siblings : List Hash}

/-- A read of a word passes with its tree word and siblings up to the root. -/
theorem checkReadWordAccess_accepts {paddr : Word} {data : List Byte}
    (here : context.accesses[context.nextAccess]? = some access)
    (type : access.type = .read) (address : access.address = paddr)
    (log2Size : access.log2Size = 3) (read : access.read = some data) (size : data.length = 32)
    (readHash : access.readHash = hasher.hash data) (written : access.written = none)
    (writtenHash : access.writtenHash = none) (present : access.siblingHashes = some siblings)
    (inside : wordOffset paddr + 8 ≤ 32)
    (reached : siblingRoot platform hasher paddr 0 siblings (hasher.hash data) = context.rootHash) :
    checkReadWordAccess platform hasher paddr context =
      .ok (wordOfBytes ((data.drop (wordOffset paddr)).take 8), context.advance) := by
  subst address
  rw [← readHash] at reached
  obtain ⟨proof, proves, _⟩ := checkAccessSiblingsAndReadHash_accepts
    (proofLog2Size_word log2Size) present (by simp [read, size]) (by simp [written]) reached
  simp only [checkReadWordAccess, bind_ok, currentAccess_ok]
  refine ⟨access, here, (), ?_, (), ?_, proof, proves, data, ?_, _, ?_, rfl⟩
  · exact bind_ok.mpr ⟨(), check_pos type, bind_ok.mpr ⟨(), check_pos fun _ => written,
      check_pos fun _ => writtenHash⟩⟩
  · exact bind_ok.mpr ⟨(), check_pos rfl, check_pos log2Size⟩
  · simp only [checkReadData, read, bind_ok]
    exact ⟨_, getAccessHash_accepts size, (), check_pos readHash, rfl⟩
  · exact bind_ok.mpr ⟨(), check_pos (by omega), rfl⟩

/-- A write of a node passes without its old data, whatever number of siblings reaches the root. -/
theorem checkWriteAccess_accepts {paddr : Word} {level : Nat} {expectedHash : Hash}
    (here : context.accesses[context.nextAccess]? = some access)
    (type : access.type = .write) (address : access.address = paddr)
    (log2Size : access.log2Size = (level + 5 : Nat)) (read : access.read = none)
    (written : access.written = none) (writtenHash : access.writtenHash = some expectedHash)
    (present : access.siblingHashes = some siblings)
    (reached : siblingRoot platform hasher paddr level siblings access.readHash =
      context.rootHash) :
    checkWriteAccess platform hasher paddr (level + 5) expectedHash context =
      .ok ⟨context.accesses, context.nextAccess + 1,
        siblingRoot platform hasher paddr level siblings expectedHash⟩ := by
  subst address
  obtain ⟨proof, proves, moves⟩ := checkAccessSiblingsAndReadHash_accepts
    (proofLog2Size_node log2Size) present (by simp [read]) (by simp [written]) reached
  simp only [checkWriteAccess, bind_ok, currentAccess_ok]
  refine ⟨access, here, (), ?_, (), ?_, proof, proves, expectedHash, ?_, (), ?_, (), ?_, ?_⟩
  · exact bind_ok.mpr ⟨(), check_pos type, bind_ok.mpr ⟨(), check_pos (by simp),
      check_pos (by simp)⟩⟩
  · exact bind_ok.mpr ⟨(), check_pos rfl, check_pos log2Size⟩
  · simp only [checkWrittenHash, writtenHash]
    exact bind_ok.mpr ⟨(), check_pos trivial, rfl⟩
  · simp only [checkReadDataIfThere, read]
  · simp only [checkWrittenDataIfThere, written]
  · rw [← moves]
    rfl

/-- The honest read of a word passes and returns the word. -/
theorem checkReadWordAccess_honest {memory : Memory} {paddr : Word} (aligned : paddr.toNat % 8 = 0)
    (here : context.accesses[context.nextAccess]? = some (wordReadAccess hasher memory paddr))
    (root : context.rootHash = hasher.merkleRoot memory) :
    checkReadWordAccess platform hasher paddr context =
      .ok (memory.loadWord paddr, context.advance) := by
  have offset := wordOffset_aligned aligned
  have accepted : checkReadWordAccess platform hasher paddr context = _ :=
    checkReadWordAccess_accepts here rfl rfl rfl rfl (Memory.length_load _ _ _) rfl rfl rfl rfl
      (by omega) ((siblingRoot_siblingsOf_word hasher memory paddr platform).trans root.symm)
  rw [accepted, offset, loadWord_eq aligned]

end MachineEmulator.Uarch
