/-
This file puts the pages of a step log over a memory and relates their hashes.
-/

import MachineEmulator.Proof.StepLog.RootHash

namespace MachineEmulator.StepLog

variable {Hash : Type} {hasher : Hasher Hash}

/-- The memory with the logged pages written over it. -/
def overwrite (memory : Memory) (pages : List (PageType Hash)) : Memory := fun address =>
  match pageWith pages (address.toNat / arPageSize) with
  | some page => page.data.getD (address.toNat % arPageSize) 0
  | none => memory address

def pageStart (number : Nat) : Word := BitVec.ofNat 64 (number * arPageSize)

section Addresses

theorem toNat_pageStart_add {number offset : Nat} (inside : number < 2 ^ 52)
    (within : offset < arPageSize) :
    (pageStart number + BitVec.ofNat 64 offset).toNat = number * arPageSize + offset := by
  have size : arPageSize = 4096 := rfl
  rw [size] at within
  rw [pageStart, size, BitVec.toNat_add, BitVec.toNat_ofNat, BitVec.toNat_ofNat]
  omega

theorem pageStart_div {number offset : Nat} (inside : number < 2 ^ 52)
    (within : offset < arPageSize) :
    (pageStart number + BitVec.ofNat 64 offset).toNat / arPageSize = number ∧
      (pageStart number + BitVec.ofNat 64 offset).toNat % arPageSize = offset := by
  have size : arPageSize = 4096 := rfl
  rw [toNat_pageStart_add inside within]
  rw [size] at within ⊢
  omega

end Addresses

section Overlay

variable {memory : Memory} {pages : List (PageType Hash)}

theorem overwrite_page {page : PageType Hash} (ordered : Ordered pages) (member : page ∈ pages)
    (inside : page.number < 2 ^ 52) {offset : Nat} (within : offset < arPageSize) :
    overwrite memory pages (pageStart page.number + BitVec.ofNat 64 offset) =
      page.data.getD offset 0 := by
  obtain ⟨number, position⟩ := pageStart_div inside within
  rw [overwrite, number, pageWith_of_mem ordered.increasing member, position]

theorem overwrite_outside {number : Nat} (absent : number ∉ numbers pages)
    (inside : number < 2 ^ 52) {offset : Nat} (within : offset < arPageSize) :
    overwrite memory pages (pageStart number + BitVec.ofNat 64 offset) =
      memory (pageStart number + BitVec.ofNat 64 offset) := by
  rw [overwrite, (pageStart_div inside within).1, pageWith_eq_none absent]

/-- A part of a logged page lies over the memory at its own place. -/
theorem load_overwrite {page : PageType Hash} (ordered : Ordered pages) (member : page ∈ pages)
    (inside : page.number < 2 ^ 52) {offset length : Nat} (within : offset + length ≤ arPageSize) :
    (overwrite memory pages).load (pageStart page.number + BitVec.ofNat 64 offset) length =
      (page.data.drop offset).take length := by
  have whole := ordered.whole page member
  apply List.ext_getElem?
  intro index
  by_cases covered : index < length
  · have position : offset + index < page.data.length := by omega
    rw [Memory.getElem?_load _ _ covered, BitVec.add_assoc, ← BitVec.ofNat_add,
      overwrite_page ordered member inside (by omega), List.getElem?_take_of_lt covered,
      List.getElem?_drop, List.getD_eq_getElem?_getD, List.getElem?_eq_getElem position]
    rfl
  · rw [List.getElem?_eq_none (by simp; omega), List.getElem?_eq_none (by simp; omega)]

/-- Pages that hold what the memory holds do not change it. -/
theorem overwrite_same
    (same : ∀ page ∈ pages, page.data = memory.load (pageStart page.number) arPageSize) :
    overwrite memory pages = memory := by
  funext address
  unfold overwrite
  split
  · next page found =>
      obtain ⟨member, number⟩ := pageWith_mem found
      have size : arPageSize = 4096 := rfl
      have bound := address.isLt
      have within : address.toNat % arPageSize < arPageSize := Nat.mod_lt _ (by decide)
      have place : pageStart page.number + BitVec.ofNat 64 (address.toNat % arPageSize) = address := by
        apply BitVec.eq_of_toNat_eq
        rw [toNat_pageStart_add (by rw [number, size]; omega) within, number, size]
        omega
      rw [same page member, List.getD_eq_getElem?_getD, Memory.getElem?_load _ _ within, place]
      rfl
  · rfl

end Overlay

section Hashes

/-- The hash of a page of the memory. -/
def pageHash (hasher : Hasher Hash) (memory : Memory) (number : Nat) : Hash :=
  Merkle.nodeHash hasher.concatHash (hasher.wordHash memory) 7 number

theorem merkleRoot_pages (memory : Memory) :
    hasher.merkleRoot memory =
      Merkle.nodeHash hasher.concatHash (pageHash hasher memory) 52 0 :=
  (Merkle.nodeHash_nested hasher.concatHash (hasher.wordHash memory) 7 52 0).symm

/-- The data of a page of the memory hashes to the page's node. -/
theorem getMerkleTreeHash_page (memory : Memory) {number : Nat} (inside : number < 2 ^ 52) :
    hasher.getMerkleTreeHash (memory.load (pageStart number) arPageSize) =
      some (pageHash hasher memory number) := by
  have size : arPageSize = 4096 := rfl
  apply hasher.getMerkleTreeHash_eq 7 _ (by rw [Memory.length_load]; rfl)
  intro position within
  rw [Memory.load_drop_take _ _ (by omega), Hasher.wordHash]
  congr 2
  apply BitVec.eq_of_toNat_eq
  rw [toNat_pageStart_add inside (by omega), BitVec.toNat_ofNat, size]
  omega

/-- The hash of a block combines the hashes of its halves. -/
theorem getMerkleTreeHash_halves {level : Nat} {data : List Byte} {hash : Hash}
    (size : data.length = 32 * 2 ^ (level + 1))
    (hashed : hasher.getMerkleTreeHash data = some hash) :
    ∃ left right, hasher.getMerkleTreeHash (data.take (32 * 2 ^ level)) = some left ∧
      hasher.getMerkleTreeHash (data.drop (32 * 2 ^ level)) = some right ∧
      hasher.concatHash left right = hash := by
  have positive : 0 < 2 ^ level := by positivity
  have total : data.length = 2 * (32 * 2 ^ level) := by
    rw [size, pow_succ]
    ring
  have half : data.length / 2 = 32 * 2 ^ level := by omega
  rw [Hasher.getMerkleTreeHash, if_pos (by omega), if_neg (by omega), half] at hashed
  obtain ⟨left, leftHash, hashed⟩ := Option.bind_eq_some_iff.mp hashed
  obtain ⟨right, rightHash, hashed⟩ := Option.bind_eq_some_iff.mp hashed
  exact ⟨left, right, leftHash, rightHash, Option.some.inj hashed⟩

/-- Two blocks of data with one hash are the same. -/
theorem getMerkleTreeHash_injective (collisionFree : hasher.CollisionFree) (level : Nat)
    {first second : List Byte} {hash : Hash} (firstSize : first.length = 32 * 2 ^ level)
    (secondSize : second.length = 32 * 2 ^ level)
    (firstHash : hasher.getMerkleTreeHash first = some hash)
    (secondHash : hasher.getMerkleTreeHash second = some hash) : first = second := by
  induction level generalizing first second hash with
  | zero =>
      have firstLength : first.length = 32 := by simpa using firstSize
      have secondLength : second.length = 32 := by simpa using secondSize
      rw [hasher.getMerkleTreeHash_word firstLength] at firstHash
      rw [hasher.getMerkleTreeHash_word secondLength] at secondHash
      apply collisionFree.word first second firstLength secondLength
      exact Option.some.inj (firstHash.trans secondHash.symm)
  | succ level ih =>
      obtain ⟨left, right, leftHash, rightHash, combined⟩ := getMerkleTreeHash_halves firstSize firstHash
      obtain ⟨left', right', leftHash', rightHash', combined'⟩ :=
        getMerkleTreeHash_halves secondSize secondHash
      obtain ⟨sameLeft, sameRight⟩ :=
        collisionFree.pair left right left' right' (combined.trans combined'.symm)
      subst sameLeft sameRight
      rw [pow_succ] at firstSize secondSize
      have heads := ih (by simp; omega) (by simp; omega) leftHash leftHash'
      have tails := ih (by simp; omega) (by simp; omega) rightHash rightHash'
      rw [← List.take_append_drop (32 * 2 ^ level) first, heads, tails, List.take_append_drop]

theorem pageHash_congr {first second : Memory} {number : Nat} (inside : number < 2 ^ 52)
    (same : ∀ offset < arPageSize, first (pageStart number + BitVec.ofNat 64 offset) =
      second (pageStart number + BitVec.ofNat 64 offset)) :
    pageHash hasher first number = pageHash hasher second number := by
  have loads : first.load (pageStart number) arPageSize =
      second.load (pageStart number) arPageSize := Memory.load_congr _ same
  have hashes := @getMerkleTreeHash_page Hash hasher first _ inside
  rw [loads, getMerkleTreeHash_page second inside] at hashes
  exact (Option.some.inj hashes).symm

end Hashes

section Logged

variable {hasher : Hasher Hash} {pages hashed : List (PageType Hash)}

theorem exists_related {A B : Type} {related : A → B → Prop} {first : List A} {second : List B}
    (pairs : List.Forall₂ related first second) {item : A} (member : item ∈ first) :
    ∃ other ∈ second, related item other := by
  induction pairs with
  | nil => cases member
  | cons head _ ih =>
      rcases List.mem_cons.mp member with rfl | later
      · exact ⟨_, List.mem_cons_self, head⟩
      · obtain ⟨other, found, relates⟩ := ih later
        exact ⟨other, List.mem_cons_of_mem _ found, relates⟩

theorem exists_unhashed (pairs : List.Forall₂ (Hashed hasher) pages hashed) {page : PageType Hash}
    (member : page ∈ hashed) : ∃ old ∈ pages, Hashed hasher old page := by
  have flipped : List.Forall₂ (flip (Hashed hasher)) hashed pages := List.Forall₂.flip pairs
  exact exists_related flipped member

theorem ordered_hashed (ordered : Ordered pages)
    (pairs : List.Forall₂ (Hashed hasher) pages hashed) : Ordered hashed := by
  constructor
  · rw [numbers_hashed pairs]
    exact ordered.increasing
  · intro page member
    obtain ⟨old, before, _, sameData, _⟩ := exists_unhashed pairs member
    rw [sameData]
    exact ordered.whole old before

/-- The hash of a page's data is the hash of its place in the memory under the pages. -/
theorem pageHash_overwrite {memory : Memory} (ordered : Ordered pages) {page other : PageType Hash}
    (member : page ∈ pages) (inside : page.number < 2 ^ 52) (hashes : Hashed hasher page other) :
    pageHash hasher (overwrite memory pages) page.number = other.hash := by
  have loaded := @load_overwrite Hash memory _ page ordered member inside 0 arPageSize (by omega)
  have start : pageStart page.number + 0#64 = pageStart page.number := BitVec.add_zero _
  have whole : page.data.take arPageSize = page.data :=
    List.take_of_length_le (le_of_eq (ordered.whole page member))
  rw [start, List.drop_zero, whole] at loaded
  have hashed := @getMerkleTreeHash_page Hash hasher (overwrite memory pages) _ inside
  rw [loaded, hashes.2.2] at hashed
  exact (Option.some.inj hashed).symm

/-- The hash of a page outside the log is the hash of the memory's page. -/
theorem pageHash_outside {memory : Memory} {number : Nat} (absent : number ∉ numbers pages)
    (inside : number < 2 ^ 52) :
    pageHash hasher (overwrite memory pages) number = pageHash hasher memory number := by
  apply pageHash_congr inside
  intro offset within
  exact overwrite_outside absent inside within

end Logged

section RootHash

variable {hashers : HashFunctionType → Hasher Hash}

/-- A finished computation over the same sketch is the root of the memory under the final pages. -/
theorem rootHash_overwrite {memory : Memory} {context after : Context Hash} {rootHash : Hash}
    {sketch : Merkle.Sketch Hash 52}
    (agrees : sketch.Agrees (hashers context.hashFunction).concatHash
      (pageHash (hashers context.hashFunction) memory) 0)
    (planned : Merkle.plan 52 0 (numbers context.pages) context.siblingHashes =
      some (sketch, [], []))
    (ordered : Ordered context.pages)
    (computed : computeRootHash hashers context = .ok (rootHash, after)) :
    rootHash = (hashers context.hashFunction).merkleRoot (overwrite memory context.pages) := by
  obtain ⟨sketch', planned', values', reached', pairs, named, _⟩ :=
    computeRootHash_sketch ordered.increasing computed
  rw [planned] at planned'
  cases planned'
  have leaves : numbers context.pages = sketch.leaves 0 := by
    have consumed := Merkle.plan_leaves planned
    rw [List.append_nil] at consumed
    exact consumed
  rw [merkleRoot_pages, ← reached']
  apply agrees.replaces
  · intro number member
    have bounds := sketch.leaves_bounds member
    rw [← leaves] at member
    obtain ⟨page, logged, rfl⟩ := List.mem_map.mp member
    obtain ⟨other, found, hashes⟩ := exists_related pairs logged
    have sameNumber : other.number = page.number := congrArg BitVec.toNat hashes.1
    rw [pageHash_overwrite ordered logged (by omega) hashes, ← named other found, sameNumber]
  · intro number away _ upper
    rw [← leaves] at away
    exact pageHash_outside away (by omega)

end RootHash

end MachineEmulator.StepLog
