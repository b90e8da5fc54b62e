/-
This file proves that the sibling hashes of a recorded step are those that the verifier consumes.
-/

import MachineEmulator.Construction.StepLog.Record
import MachineEmulator.Construction.SymbolicHasher
import MachineEmulator.Proof.StepLog.PageOverlay

namespace MachineEmulator.StepLog

variable {Hash : Type}

/-- The answers of a hash tree that is up to date with a memory. -/
def referenceNodeHash (hasher : Hasher Hash) (memory : Memory) (address log2Size : Nat) : Hash :=
  hasher.regionHash memory log2Size (address / 2 ^ log2Size)

section Gather

variable {hasher : Hasher Hash} {memory : Memory}

theorem referenceNodeHash_page (level index : Nat) :
    referenceNodeHash hasher memory (index * 2 ^ level * arPageSize) (level + arLog2PageSize) =
      Merkle.nodeHash hasher.concatHash (pageHash hasher memory) level index := by
  have size : arPageSize = 2 ^ 12 := rfl
  have log : arLog2PageSize = 12 := rfl
  have start : index * 2 ^ level * 2 ^ 12 / 2 ^ (level + 12) = index := by
    rw [Nat.mul_assoc, ← pow_add, Nat.mul_div_cancel _ (by positivity)]
  have depth : level + 12 - 5 = 7 + level := by omega
  have nested := Merkle.nodeHash_nested hasher.concatHash (hasher.wordHash memory) 7 level index
  rw [referenceNodeHash, Hasher.regionHash, size, log, start, depth]
  exact nested.symm

/-- The recorder gathers the hashes that close the sketch of the touched pages. -/
theorem getSiblingHashesImpl_eq (level index : Nat) (indices : List Word) :
    ((getSiblingHashesImpl (referenceNodeHash hasher memory) level (index * 2 ^ level) indices).1,
      (getSiblingHashesImpl (referenceNodeHash hasher memory) level
        (index * 2 ^ level) indices).2.map BitVec.toNat) =
      Merkle.gather hasher.concatHash (pageHash hasher memory) level index
        (indices.map BitVec.toNat) := by
  induction level generalizing index indices with
  | zero =>
      cases indices with
      | nil =>
          have node := @referenceNodeHash_page Hash hasher memory 0 index
          simp only [getSiblingHashesImpl, node, List.map_nil, Merkle.gather]
      | cons first rest =>
          have node := @referenceNodeHash_page Hash hasher memory 0 index
          rw [List.map_cons, Merkle.gather, getSiblingHashesImpl, node, pow_zero, mul_one]
          split
          · rfl
          · rfl
  | succ level ih =>
      cases indices with
      | nil =>
          have node := @referenceNodeHash_page Hash hasher memory (level + 1) index
          simp only [getSiblingHashesImpl, node, List.map_nil, Merkle.gather]
      | cons first rest =>
          have node := @referenceNodeHash_page Hash hasher memory (level + 1) index
          have total : index * 2 ^ (level + 1) + 2 ^ (level + 1) =
              (index + 1) * 2 ^ (level + 1) := by ring
          have start : index * 2 ^ (level + 1) = 2 * index * 2 ^ level := by ring
          have middle : 2 * index * 2 ^ level + 2 ^ level = (2 * index + 1) * 2 ^ level := by ring
          rw [List.map_cons, Merkle.gather, getSiblingHashesImpl, node, total]
          split
          · rfl
          · have left := ih (2 * index) (first :: rest)
            have right := ih (2 * index + 1)
              (getSiblingHashesImpl (referenceNodeHash hasher memory) level (2 * index * 2 ^ level)
                (first :: rest)).2
            rw [start, middle]
            rw [List.map_cons] at left
            simp only [← left, ← right]

end Gather

/-- The recorder visits all the pages of the address space. -/
theorem gather_visits {hasher : Hasher Hash} {memory : Memory} {positions : List Nat}
    (increasing : positions.Pairwise (· < ·)) (inside : ∀ number ∈ positions, number < 2 ^ 52) :
    (Merkle.gather hasher.concatHash (pageHash hasher memory) 52 0 positions).2 = [] := by
  obtain ⟨_, gathers⟩ := @Merkle.exists_gathers Hash hasher.concatHash (pageHash hasher memory) 52 0
    positions increasing (fun _ _ => by omega) []
  apply List.eq_nil_iff_forall_not_mem.mpr
  intro position member
  have beyond := gathers.beyond position member
  have bounded := inside position (gathers.suffix.subset member)
  omega

section Complete

variable {hashers : HashFunctionType → Hasher Hash} {memory : Memory}

/-- The siblings of touched pages that come in order, with any contents, give the root hash of the
memory under the pages. -/
theorem computeRootHash_siblings {context : Context Hash} (ordered : Ordered context.pages)
    (inside : ∀ number ∈ numbers context.pages, number < 2 ^ 52)
    (siblings : context.siblingHashes =
      (Merkle.gather (hashers context.hashFunction).concatHash
        (pageHash (hashers context.hashFunction) memory) 52 0 (numbers context.pages)).1)
    : ∃ after, computeRootHash hashers context =
        .ok ((hashers context.hashFunction).merkleRoot (overwrite memory context.pages), after) := by
  obtain ⟨sketch, gathers⟩ := @Merkle.exists_gathers Hash
    (hashers context.hashFunction).concatHash (pageHash (hashers context.hashFunction) memory) 52 0
    (numbers context.pages) ordered.increasing (fun _ _ => by omega) []
  have empty := @gather_visits Hash (hashers context.hashFunction) memory _ ordered.increasing inside
  have planned := gathers.planned
  rw [List.append_nil, ← siblings, empty] at planned
  obtain ⟨rootHash, after, computed⟩ := @computeRootHash_of_plan Hash hashers _ ordered _ planned
  refine ⟨after, ?_⟩
  rw [computed, rootHash_overwrite gathers.agrees planned ordered computed]

theorem getSiblingHashes_eq {hasher : Hasher Hash} {indices : List Word}
    (increasing : (indices.map BitVec.toNat).Pairwise (· < ·))
    (inside : ∀ number ∈ indices.map BitVec.toNat, number < 2 ^ 52) :
    getSiblingHashes (referenceNodeHash hasher memory) indices =
      .ok (Merkle.gather hasher.concatHash (pageHash hasher memory) 52 0
        (indices.map BitVec.toNat)).1 := by
  have gathered := @getSiblingHashesImpl_eq Hash hasher memory 52 0 indices
  have visited := @gather_visits Hash hasher memory _ increasing inside
  rw [← gathered] at visited ⊢
  have none := List.map_eq_nil_iff.mp visited
  exact bind_ok.mpr ⟨(), check_pos (List.isEmpty_iff.mpr none), rfl⟩

/-- The recorder produces siblings for every set of touched pages. The verifier consumes exactly
these and the pages, and computes the root of the memory under the pages, whatever they hold. -/
theorem getSiblingHashes_complete (hashers : HashFunctionType → Hasher Hash)
    (function : HashFunctionType) (memory : Memory) (indices : List Word)
    (increasing : indices.Pairwise (· < ·)) (inside : ∀ index ∈ indices, index.toNat < 2 ^ 52) :
    ∃ siblings, getSiblingHashes (referenceNodeHash (hashers function) memory) indices =
        .ok siblings ∧
      ∀ context : Context Hash, context.hashFunction = function →
        context.siblingHashes = siblings → context.pages.map PageType.index = indices →
        (∀ page ∈ context.pages, page.data.length = arPageSize) →
        (∃ after, computeRootHash hashers context =
          .ok ((hashers function).merkleRoot (overwrite memory context.pages), after)) ∧
        ((∀ page ∈ context.pages,
            page.data = memory.load (pageStart page.number) arPageSize) →
          ∃ after, computeRootHash hashers context =
            .ok ((hashers function).merkleRoot memory, after)) := by
  have increasing' : (indices.map BitVec.toNat).Pairwise (· < ·) :=
    List.pairwise_map.mpr (increasing.imp BitVec.lt_def.mp)
  have inside' : ∀ number ∈ indices.map BitVec.toNat, number < 2 ^ 52 := by
    intro number member
    obtain ⟨index, touched, rfl⟩ := List.mem_map.mp member
    exact inside index touched
  refine ⟨_, getSiblingHashes_eq increasing' inside', ?_⟩
  intro context sameFunction siblings places whole
  have same : numbers context.pages = indices.map BitVec.toNat := by
    rw [← places, List.map_map]
    rfl
  have ordered : Ordered context.pages := ⟨by rw [same]; exact increasing', whole⟩
  have computed := @computeRootHash_siblings Hash hashers memory context ordered
    (by rw [same]; exact inside') (by rw [siblings, same, sameFunction])
  rw [sameFunction] at computed
  refine ⟨computed, fun kept => ?_⟩
  rw [overwrite_same kept] at computed
  exact computed

/-- The first two pages and the last one of a blank memory. -/
theorem getSiblingHashes_complete_blank :
    ∃ siblings, getSiblingHashes (referenceNodeHash symbolicHasher zeroMemory)
        [0, 1, 0xfffffffffffff] = .ok siblings ∧
      ∃ after, computeRootHash (fun _ => symbolicHasher)
        { loggedRootHashBefore := .word [], loggedMcycleCount := 0, loggedRootHashAfter := .word []
          hashFunction := .sha256
          pages := [0, 1, 0xfffffffffffff].map fun index =>
            ⟨index, zeroMemory.load (pageStart index.toNat) arPageSize, .word []⟩
          siblingHashes := siblings } =
        .ok (symbolicHasher.merkleRoot zeroMemory, after) := by
  obtain ⟨siblings, gathered, complete⟩ := getSiblingHashes_complete (fun _ => symbolicHasher)
    .sha256 zeroMemory [0, 1, 0xfffffffffffff] (by decide) (by simp)
  refine ⟨siblings, gathered, ?_⟩
  refine (complete _ rfl rfl rfl ?_).2 ?_
  · intro page member
    obtain ⟨index, _, rfl⟩ := List.mem_map.mp member
    rw [Memory.length_load]
  · intro page member
    obtain ⟨index, _, rfl⟩ := List.mem_map.mp member
    rw [PageType.number]

end Complete

end MachineEmulator.StepLog
