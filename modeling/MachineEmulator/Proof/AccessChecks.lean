/-
This file says what the shared parts of the replays give: the proof of an access, the data that
binds it and the accesses consumed so far.
-/

import MachineEmulator.Proof.AccessBinding

namespace MachineEmulator

variable {Hash : Type} {platform : Word → Nat → Bool} {hasher : Hasher Hash}

section Parts

theorem currentAccess_ok {context : ReplayContext Hash} {access : Access Hash} :
    context.currentAccess = .ok access ↔ context.accesses[context.nextAccess]? = some access := by
  unfold ReplayContext.currentAccess
  split <;> simp_all

theorem getAccessHash_ok {data : List Byte} {value : Hash} :
    getAccessHash hasher data = .ok value ↔ hasher.getMerkleTreeHash data = some value := by
  unfold getAccessHash
  split <;> simp_all

theorem getAccessHash_word {data : List Byte} {value : Hash} (size : data.length = 32)
    (passed : getAccessHash hasher data = .ok value) : value = hasher.hash data := by
  rw [getAccessHash_ok, hasher.getMerkleTreeHash_word size] at passed
  exact (Option.some.inj passed).symm

theorem getAccessHash_accepts {data : List Byte} (size : data.length = 32) :
    getAccessHash hasher data = .ok (hasher.hash data) :=
  getAccessHash_ok.mpr (hasher.getMerkleTreeHash_word size)

theorem makeProof_ok {access : Access Hash} {rootHash : Hash} {proof : HashTreeProof Hash}
    (made : access.makeProof rootHash = .ok proof) :
    ∃ siblings, access.siblingHashes = some siblings ∧
      (∀ data ∈ access.read, data.length = 2 ^ access.proofLog2Size) ∧
      proof = {
        log2TargetSize := access.proofLog2Size
        log2RootSize := access.proofLog2Size + siblings.length
        targetAddress := access.address &&& ~~~ BitVec.ofNat 64 (hashTreeWordSize - 1)
        targetHash := access.readHash
        rootHash
        siblingHashes := siblings } := by
  unfold Access.makeProof at made
  cases present : access.siblingHashes with
  | none => simp [present] at made
  | some siblings =>
      simp only [present, bind_ok, check_ok] at made
      obtain ⟨_, readSize, _, _, _, _, made⟩ := made
      exact ⟨siblings, rfl, readSize, (Except.ok.inj made).symm⟩

theorem proofLog2Size_word {access : Access Hash} (size : access.log2Size = (3 : Nat)) :
    access.proofLog2Size = 0 + 5 := by
  simp [Access.proofLog2Size, size, hashTreeLog2WordSize]

theorem proofLog2Size_node {access : Access Hash} {level : Nat}
    (size : access.log2Size = (level + 5 : Nat)) : access.proofLog2Size = level + 5 := by
  rw [Access.proofLog2Size, size, Int.toNat_natCast, hashTreeLog2WordSize]
  omega

variable [DecidableEq Hash]

/-- The proof of an access walks from its node to the root. -/
theorem checkAccessSiblingsAndReadHash_ok {access : Access Hash} {rootHash : Hash}
    {proof : HashTreeProof Hash} {level : Nat} (node : access.proofLog2Size = level + 5)
    (passed : checkAccessSiblingsAndReadHash platform hasher access rootHash = .ok proof) :
    ∃ siblings, access.siblingHashes = some siblings ∧
      (∀ data ∈ access.read, data.length = 2 ^ (level + 5)) ∧
      siblingRoot platform hasher access.address level siblings access.readHash = rootHash ∧
      ∀ hash, proof.bubbleUp platform hasher hash =
        siblingRoot platform hasher access.address level siblings hash := by
  simp only [checkAccessSiblingsAndReadHash, bind_ok, check_ok] at passed
  obtain ⟨made, madeOk, _, verified, done⟩ := passed
  cases done
  obtain ⟨siblings, present, readSize, rfl⟩ := makeProof_ok madeOk
  rw [HashTreeProof.verify, decide_eq_true_iff] at verified
  rw [node] at readSize
  simp only [HashTreeProof.bubbleUp, node] at verified ⊢
  exact ⟨siblings, present, readSize, verified, fun hash => rfl⟩

end Parts

section Words

variable {memory : Memory} {paddr : Word}

/-- A word read below the root of a memory returns the memory's word. -/
theorem read_word (collisionFree : hasher.CollisionFree) (aligned : paddr.toNat % 8 = 0)
    {siblings : List Hash} {data : List Byte} (size : data.length = 32)
    (reached : siblingRoot platform hasher paddr 0 siblings (hasher.hash data) =
      hasher.merkleRoot memory) :
    wordOfBytes ((data.drop (paddr.toNat % 32)).take 8) = memory.loadWord paddr := by
  obtain ⟨_, rfl⟩ := siblingRoot_word collisionFree size reached
  exact loadWord_eq aligned

/-- A word written below the root of a memory gives the root of the written memory. -/
theorem write_word (collisionFree : hasher.CollisionFree) (aligned : paddr.toNat % 8 = 0)
    {siblings : List Hash} {data : List Byte} (value : Word) (size : data.length = 32)
    (reached : siblingRoot platform hasher paddr 0 siblings (hasher.hash data) =
      hasher.merkleRoot memory) :
    siblingRoot platform hasher paddr 0 siblings (hasher.hash
      (data.take (paddr.toNat % 32) ++ wordToBytes value ++ data.drop (paddr.toNat % 32 + 8))) =
      hasher.merkleRoot (memory.storeWord paddr value) := by
  obtain ⟨count, rfl⟩ := siblingRoot_word collisionFree size reached
  have bound := paddr.isLt
  have replaced := siblingRoot_replaces collisionFree 0 (memory.storeWord paddr value)
    (by omega) (by
      intro position inside away
      have disjoint : 32 * position + 32 ≤ paddr.toNat ∨ paddr.toNat + 8 ≤ 32 * position := by
        rcases away with before | after <;> omega
      exact wordHash_store_of_disjoint (by simp; omega) inside (by simpa using disjoint)) reached
  rw [← load_storeWord memory value aligned]
  exact replaced

end Words

section Nodes

variable {memory : Memory} {paddr : Word} {access : Access Hash} {siblings : List Hash}

/-- A write of a node is a write of the memory when its siblings have the right number, and
misplaces its leaves otherwise. -/
theorem node_outcome (collisionFree : hasher.CollisionFree) (level : Nat) (changed : Memory)
    (outside : ∀ position < 2 ^ 59,
      (position < paddr.toNat / 2 ^ (level + 5) * 2 ^ level ∨
        (paddr.toNat / 2 ^ (level + 5) + 1) * 2 ^ level ≤ position) →
      hasher.wordHash changed position = hasher.wordHash memory position)
    (type : access.type = .write) (size : access.proofLog2Size = level + 5)
    (present : access.siblingHashes = some siblings)
    (readData : ∀ data ∈ access.read, data.length = 2 ^ (level + 5) ∧
      hasher.getMerkleTreeHash data = some access.readHash)
    (reached : siblingRoot platform hasher paddr level siblings access.readHash =
      hasher.merkleRoot memory) :
    (access.Bound ∧ siblingRoot platform hasher paddr level siblings
        (Merkle.nodeHash hasher.concatHash (hasher.wordHash changed) level
          (paddr.toNat / 2 ^ (level + 5))) = hasher.merkleRoot changed) ∨
      (¬ access.Bound ∧ Misplaced hasher (siblingRoot platform hasher paddr level siblings
        (Merkle.nodeHash hasher.concatHash (hasher.wordHash changed) level
          (paddr.toNat / 2 ^ (level + 5))))) := by
  by_cases whole : level + siblings.length = 59
  · left
    refine ⟨?_, siblingRoot_replaces collisionFree level changed whole outside reached⟩
    intro _ _ found same
    rw [present] at same
    cases same
    rw [size]
    omega
  · right
    constructor
    · intro bound
      cases data : access.read with
      | none =>
          have count := bound type data siblings present
          rw [size] at count
          omega
      | some found =>
          obtain ⟨length, hashed⟩ := readData found data
          exact whole (siblingRoot_length collisionFree (leafAt_data length hashed) reached)
    · refine ⟨level + siblings.length, whole, ?_⟩
      exact Merkle.LeafAt.climb _ _ siblings
        (Merkle.nodeHash_leafAt (hasher.isLeaf_wordHash changed) level _)

end Nodes

section Consumed

/-- The accesses that the replay has consumed are bound. -/
def ReplayContext.BoundSoFar (context : ReplayContext Hash) : Prop :=
  ∀ position < context.nextAccess, ∀ access, context.accesses[position]? = some access →
    access.Bound

theorem ReplayContext.BoundSoFar.next {context next : ReplayContext Hash}
    (bound : context.BoundSoFar) {access : Access Hash}
    (here : context.accesses[context.nextAccess]? = some access)
    (log : next.accesses = context.accesses) (advanced : next.nextAccess = context.nextAccess + 1)
    (fine : access.Bound) : next.BoundSoFar := by
  intro position earlier found present
  rw [log] at present
  rw [advanced] at earlier
  rcases Nat.lt_succ_iff_lt_or_eq.mp earlier with before | rfl
  · exact bound position before found present
  · rw [here] at present
    cases present
    exact fine

/-- The conclusion for an operation that writes a whole node. -/
theorem write_node_state {context next : ReplayContext Hash} {after : Memory} {access : Access Hash}
    (here : context.accesses[context.nextAccess]? = some access)
    (log : next.accesses = context.accesses) (advanced : next.nextAccess = context.nextAccess + 1)
    (outcome : (access.Bound ∧ next.rootHash = hasher.merkleRoot after) ∨
      (¬ access.Bound ∧ Misplaced hasher next.rootHash)) :
    (next.rootHash = hasher.merkleRoot after ∧ (context.BoundSoFar → next.BoundSoFar)) ∨
      ((∃ access ∈ context.accesses, ¬ access.Bound) ∧ Misplaced hasher next.rootHash) := by
  rcases outcome with ⟨fine, root⟩ | ⟨wrong, misplaced⟩
  · exact Or.inl ⟨root, fun bound => bound.next here log advanced fine⟩
  · exact Or.inr ⟨⟨access, List.mem_of_getElem? here, wrong⟩, misplaced⟩

/-- The root hash of a replay is that of the memory when all accesses of its log are bound. -/
def Tracks (hasher : Hasher Hash) (context : ReplayContext Hash) (memory : Memory) : Prop :=
  context.rootHash = hasher.merkleRoot memory ∧ ∀ access ∈ context.accesses, access.Bound

/-- The replay has met only bound accesses of a log and stands at the root of some memory. -/
def Faithful (hasher : Hasher Hash) (log : List (Access Hash)) (context : ReplayContext Hash) :
    Prop :=
  context.accesses = log ∧ context.BoundSoFar ∧ ∃ memory, context.rootHash = hasher.merkleRoot memory

theorem Faithful.start (memory : Memory) (log : List (Access Hash)) :
    Faithful hasher log ⟨log, 0, hasher.merkleRoot memory⟩ :=
  ⟨rfl, fun _ earlier => absurd earlier (Nat.not_lt_zero _), memory, rfl⟩

theorem Faithful.all_bound {context : ReplayContext Hash} {log : List (Access Hash)} (faithful : Faithful hasher log context)
    (consumed : context.nextAccess = context.accesses.length) : ∀ access ∈ log, access.Bound := by
  intro access member
  rw [← faithful.1] at member
  obtain ⟨position, inside, found⟩ := List.mem_iff_getElem.mp member
  exact faithful.2.1 position (consumed ▸ inside) access (List.getElem?_eq_some_iff.mpr ⟨inside, found⟩)

end Consumed

end MachineEmulator
