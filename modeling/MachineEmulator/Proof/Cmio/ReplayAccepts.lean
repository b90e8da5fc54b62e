/-
This file says which accesses the replay of a response accepts.
-/

import MachineEmulator.Proof.AccessAccepts
import MachineEmulator.Proof.Cmio.ReplayHandler

namespace MachineEmulator.Cmio

variable {Hash : Type} [DecidableEq Hash] {platform : Word → Nat → Bool} {hasher : Hasher Hash}
  {context : ReplayContext Hash} {access : Access Hash} {siblings : List Hash} {paddr : Word}

theorem checkLoggedRead_accepts {data : List Byte} (read : access.read = some data)
    (size : data.length = 32) (readHash : access.readHash = hasher.hash data) :
    checkLoggedRead hasher access = .ok data := by
  simp only [checkLoggedRead, read, bind_ok]
  exact ⟨(), check_pos size, _, getAccessHash_accepts size, (), check_pos readHash, rfl⟩

/-- A read of a word passes with its tree word and siblings up to the root. -/
theorem checkRead_accepts {data : List Byte} (aligned : paddr &&& 7 = 0)
    (here : context.accesses[context.nextAccess]? = some access)
    (type : access.type = .read) (address : access.address = paddr)
    (log2Size : access.log2Size = 3) (read : access.read = some data) (size : data.length = 32)
    (readHash : access.readHash = hasher.hash data) (written : access.written = none)
    (present : access.siblingHashes = some siblings)
    (reached : siblingRoot platform hasher paddr 0 siblings (hasher.hash data) = context.rootHash) :
    checkRead platform hasher paddr context =
      .ok (wordOfBytes ((data.drop (paddr.toNat % 32)).take 8), context.advance) := by
  subst address
  rw [← readHash] at reached
  obtain ⟨proof, proves, _⟩ := checkAccessSiblingsAndReadHash_accepts
    (proofLog2Size_word log2Size) present (by simp [read, size]) (by simp [written]) reached
  have offset := toNat_aligned aligned
  rw [← leafOffset_eq]
  have inside : leafOffset access.address + 8 ≤ data.length := by
    rw [leafOffset_eq, size]
    omega
  simp only [checkRead, bind_ok, currentAccess_ok]
  refine ⟨(), check_pos aligned, access, here, (), check_pos type, (), check_pos rfl, (),
    check_pos log2Size, data, checkLoggedRead_accepts read size readHash, proof, proves, _, ?_, rfl⟩
  exact bind_ok.mpr ⟨(), check_pos inside, rfl⟩

/-- The new data of a word write passes when it is the old data with the word replaced. -/
theorem checkLoggedWritten_accepts {data : List Byte} {word : Word} {offset : Nat}
    (inside : offset + 8 ≤ 32) (size : data.length = 32)
    (written : access.written =
      some (data.take offset ++ wordToBytes word ++ data.drop (offset + 8)))
    (writtenHash : access.writtenHash =
      some (hasher.hash (data.take offset ++ wordToBytes word ++ data.drop (offset + 8)))) :
    checkLoggedWritten hasher access data word offset =
      .ok (hasher.hash (data.take offset ++ wordToBytes word ++ data.drop (offset + 8))) := by
  have before : (data.take offset).length = offset := by
    rw [List.length_take]
    omega
  have newSize : (data.take offset ++ wordToBytes word ++ data.drop (offset + 8)).length = 32 := by
    simp [size]
    omega
  have wordThere : wordOfBytes (((data.take offset ++ wordToBytes word ++
      data.drop (offset + 8)).drop offset).take 8) = word := by
    rw [List.append_assoc, List.drop_left' before, List.take_left' (length_wordToBytes word),
      wordOfBytes_wordToBytes]
  simp only [checkLoggedWritten, writtenHash, written, bind_ok]
  refine ⟨(), check_pos (newSize.trans size.symm), _, getAccessHash_accepts newSize, (),
    check_pos rfl, word, ?_, (), check_pos rfl, _, ?_, (), check_pos rfl, rfl⟩
  · exact bind_ok.mpr ⟨(), check_pos (by omega), by rw [wordThere]; rfl⟩
  · exact bind_ok.mpr ⟨(), check_pos (by omega), rfl⟩

/-- A write of a word passes with its old and new tree word and siblings up to the root. -/
theorem checkWrite_accepts {data : List Byte} {word : Word} (aligned : paddr &&& 7 = 0)
    (here : context.accesses[context.nextAccess]? = some access)
    (type : access.type = .write) (address : access.address = paddr)
    (log2Size : access.log2Size = 3) (read : access.read = some data) (size : data.length = 32)
    (readHash : access.readHash = hasher.hash data)
    (written : access.written = some (data.take (paddr.toNat % 32) ++ wordToBytes word ++
      data.drop (paddr.toNat % 32 + 8)))
    (writtenHash : access.writtenHash = some (hasher.hash (data.take (paddr.toNat % 32) ++
      wordToBytes word ++ data.drop (paddr.toNat % 32 + 8))))
    (present : access.siblingHashes = some siblings)
    (reached : siblingRoot platform hasher paddr 0 siblings (hasher.hash data) = context.rootHash) :
    checkWrite platform hasher paddr word context =
      .ok ⟨context.accesses, context.nextAccess + 1, siblingRoot platform hasher paddr 0 siblings
        (hasher.hash (data.take (paddr.toNat % 32) ++ wordToBytes word ++
          data.drop (paddr.toNat % 32 + 8)))⟩ := by
  subst address
  rw [← readHash] at reached
  have offset := toNat_aligned aligned
  have inside : access.address.toNat % 32 + 8 ≤ 32 := by omega
  obtain ⟨proof, proves, moves⟩ := checkAccessSiblingsAndReadHash_accepts
    (proofLog2Size_word log2Size) present (by simp [read, size])
    (by
      simp [written, size]
      omega)
    reached
  simp only [checkWrite, bind_ok, currentAccess_ok, leafOffset_eq]
  refine ⟨(), check_pos aligned, access, here, (), check_pos type, (), check_pos rfl, (),
    check_pos log2Size, data, checkLoggedRead_accepts read size readHash, _,
    checkLoggedWritten_accepts inside size written writtenHash, proof, proves, ?_⟩
  rw [← moves]
  rfl

theorem checkHashIfThere_accepts {data : Option (List Byte)} {hash : Hash} {failure : Failure}
    (hashed : ∀ found ∈ data, hasher.getMerkleTreeHash found = some hash) :
    checkHashIfThere hasher data hash failure = .ok () := by
  cases data with
  | none => rfl
  | some found =>
      simp only [checkHashIfThere, bind_ok, getAccessHash_ok]
      exact ⟨hash, hashed found rfl, check_pos rfl⟩

/-- A padded write passes with or without its data, whatever number of siblings reaches the root. -/
theorem checkWriteMemoryWithPadding_accepts {data : List Byte} {level : Nat} {value : Hash}
    (room : data.length ≤ 2 ^ (level + 5))
    (here : context.accesses[context.nextAccess]? = some access)
    (type : access.type = .write) (address : access.address = paddr)
    (log2Size : access.log2Size = (level + 5 : Nat))
    (readSize : ∀ found ∈ access.read, found.length = 2 ^ (level + 5))
    (readHashed : ∀ found ∈ access.read, hasher.getMerkleTreeHash found = some access.readHash)
    (writtenSize : ∀ found ∈ access.written, found.length = 2 ^ (level + 5))
    (writtenHashed : ∀ found ∈ access.written, hasher.getMerkleTreeHash found = some value)
    (writtenHash : access.writtenHash = some value)
    (hashed : hasher.getMerkleTreeHash (paddedData data (level + 5)) = some value)
    (present : access.siblingHashes = some siblings)
    (reached : siblingRoot platform hasher paddr level siblings access.readHash =
      context.rootHash) :
    checkWriteMemoryWithPadding platform hasher paddr data (level + 5) context =
      .ok ⟨context.accesses, context.nextAccess + 1,
        siblingRoot platform hasher paddr level siblings value⟩ := by
  subst address
  obtain ⟨proof, proves, moves⟩ := checkAccessSiblingsAndReadHash_accepts
    (proofLog2Size_node log2Size) present readSize writtenSize reached
  simp only [checkWriteMemoryWithPadding, bind_ok, currentAccess_ok]
  refine ⟨(), check_pos room, access, here, (), check_pos rfl, (), check_pos log2Size, (),
    check_pos type, (), checkHashIfThere_accepts readHashed, ?_⟩
  simp only [writtenHash, bind_ok, getAccessHash_ok]
  refine ⟨value, hashed, (), check_pos rfl, (), checkHashIfThere_accepts writtenHashed, proof,
    proves, ?_⟩
  rw [← moves]
  rfl

section Honest

variable {memory : Memory}

/-- The honest read of a word passes and returns the word. -/
theorem checkRead_honest (aligned : paddr &&& 7 = 0)
    (here : context.accesses[context.nextAccess]? = some (wordReadAccess hasher memory paddr))
    (root : context.rootHash = hasher.merkleRoot memory) :
    checkRead platform hasher paddr context = .ok (memory.loadWord paddr, context.advance) := by
  have reached := siblingRoot_siblingsOf_word hasher memory paddr platform
  have accepted : checkRead platform hasher paddr context = _ :=
    checkRead_accepts aligned here rfl rfl rfl rfl (Memory.length_load _ _ _) rfl rfl rfl
      (reached.trans root.symm)
  rw [accepted, loadWord_eq (toNat_aligned aligned)]

/-- The honest write of a word passes and moves to the root of the written memory. -/
theorem checkWrite_honest {word : Word} (aligned : paddr &&& 7 = 0)
    (here : context.accesses[context.nextAccess]? = some (wordWriteAccess hasher memory paddr word))
    (root : context.rootHash = hasher.merkleRoot memory) :
    checkWrite platform hasher paddr word context =
      .ok ⟨context.accesses, context.nextAccess + 1,
        hasher.merkleRoot (memory.storeWord paddr word)⟩ := by
  have number := toNat_aligned aligned
  have replaced := load_storeWord memory word number
  have reached := siblingRoot_siblingsOf_word hasher memory paddr platform
  have accepted : checkWrite platform hasher paddr word context = _ :=
    checkWrite_accepts aligned here rfl rfl rfl rfl (Memory.length_load _ _ _) rfl
      (congrArg some replaced) (congrArg (some ∘ hasher.hash) replaced) rfl
      (reached.trans root.symm)
  rw [accepted, ← replaced, siblingRoot_storeWord hasher memory paddr platform number word]

/-- The honest padded write of a node passes and moves to the root of the written memory. -/
theorem checkWriteMemoryWithPadding_honest {data : List Byte} {level : Nat} {value : Hash}
    (inside : level ≤ 59) (room : data.length ≤ 2 ^ (level + 5))
    (aligned : paddr.toNat % 2 ^ (level + 5) = 0) (fits : paddr.toNat + 2 ^ (level + 5) ≤ 2 ^ 64)
    (hashed : hasher.getMerkleTreeHash (paddedData data (level + 5)) = some value)
    (here : context.accesses[context.nextAccess]? =
      some (nodeWriteAccess hasher memory paddr level value))
    (root : context.rootHash = hasher.merkleRoot memory) :
    checkWriteMemoryWithPadding platform hasher paddr data (level + 5) context =
      .ok ⟨context.accesses, context.nextAccess + 1,
        hasher.merkleRoot (memory.store paddr (paddedData data (level + 5)))⟩ := by
  have reached := siblingRoot_siblingsOf hasher memory paddr platform level inside
  rw [← siblingRoot_store_whole hasher memory paddr platform inside aligned
    (length_paddedData room) fits hashed]
  exact checkWriteMemoryWithPadding_accepts room here rfl rfl rfl nofun nofun nofun nofun rfl hashed
    rfl (reached.trans root.symm)

end Honest

end MachineEmulator.Cmio
