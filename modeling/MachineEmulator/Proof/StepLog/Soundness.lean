/-
This file proves that an accepted step log binds its pages and its final root hash.
-/

import MachineEmulator.Proof.StepLog.Acceptance

namespace MachineEmulator.StepLog

open Effects

variable {Hash : Type}

section Image

variable {image : List Byte} {ofBytes : List Byte → Hash} {context : Context Hash}

/-- Every page of an accepted image is whole. -/
theorem readContext_whole (read : readContext image ofBytes = .ok context) :
    ∀ page ∈ context.pages, page.data.length = arPageSize := by
  obtain ⟨file, _, rfl, _⟩ := readContext_file read
  intro page member
  obtain ⟨logged, found, rfl⟩ := List.mem_map.mp member
  exact (file.page_size logged found).1

theorem checkPages_increasing [DecidableEq Hash] {allZeros : Hash} {previous : Option Word}
    {pages : List (PageType Hash)} {done : Unit}
    (checked : checkPages allZeros previous pages = .ok done) :
    (numbers pages).Pairwise (· < ·) ∧
      ∀ index ∈ previous, ∀ number ∈ numbers pages, index.toNat < number := by
  induction pages generalizing previous with
  | nil => exact ⟨List.Pairwise.nil, fun _ _ _ member => absurd member List.not_mem_nil⟩
  | cons page rest ih =>
      obtain ⟨_, ordered, checked⟩ := bind_ok.mp checked
      obtain ⟨_, _, checked⟩ := bind_ok.mp checked
      obtain ⟨increasing, above⟩ := ih checked
      have first : ∀ number ∈ numbers rest, page.number < number := above page.index rfl
      constructor
      · exact List.pairwise_cons.mpr ⟨first, increasing⟩
      · intro index before number member
        have below : index.toNat < page.number :=
          BitVec.lt_def.mp (check_ok.mp ordered index before)
        rcases List.mem_cons.mp member with same | later
        · omega
        · exact below.trans (first number later)

end Image

section Replay

/-- What a replay keeps of the log that it started from. -/
structure Replays (start context : Context Hash) : Prop where
  header : context = { start with pages := context.pages }
  places : numbers context.pages = numbers start.pages
  whole : ∀ page ∈ context.pages, page.data.length = arPageSize

theorem length_writeData {page : PageType Hash} {offset : Nat} {data : List Byte}
    (whole : page.data.length = arPageSize) (within : offset + data.length ≤ arPageSize) :
    (writeData page offset data).data.length = arPageSize := by
  simp [writeData]
  omega

theorem replayAccess_replays {start : Context Hash} (op : Op) (context : Context Hash)
    (answer : op.Answer) (next : Context Hash) (replays : Replays start context)
    (called : replayAccess op context = .ok (answer, next)) : Replays start next := by
  cases op with
  | read paddr length =>
      obtain ⟨_, _, called⟩ := bind_ok.mp called
      cases called
      exact replays
  | write paddr data =>
      obtain ⟨pages, written, called⟩ := bind_ok.mp called
      cases called
      obtain ⟨found, _, written⟩ := bind_ok.mp written
      obtain ⟨_, within, written⟩ := bind_ok.mp written
      cases written
      have fits := check_ok.mp within
      constructor
      · rw [replays.header]
      · rw [← replays.places, numbers, numbers, List.map_map]
        apply List.map_congr_left
        intro page _
        simp only [Function.comp_apply]
        split <;> rfl
      · intro page member
        obtain ⟨old, before, rfl⟩ := List.mem_map.mp member
        have whole := replays.whole old before
        split
        · exact length_writeData whole fits
        · exact whole

/-- Every program of the interpreter keeps the header and the places of the pages. -/
theorem run_replays {A : Type} {start context : Context Hash} {program : Action A} {result : A}
    (whole : ∀ page ∈ start.pages, page.data.length = arPageSize)
    (ran : program.run replayAccess start = .ok (result, context)) : Replays start context :=
  Program.run_invariant (Replays start)
    (fun op state answer next _ replays called => replayAccess_replays op state answer next replays called)
    (Program.Calls.any program) ⟨rfl, rfl, whole⟩ ran

end Replay

section Reads

variable {memory : Memory} {context : Context Hash}

theorem pageOffset_eq (paddr : Word) : pageOffset paddr = paddr.toNat % arPageSize :=
  Uarch.toNat_and_low paddr 12 (by omega)

theorem pageNumber_eq (paddr : Word) :
    ((paddr &&& ~~~ pageOffsetMask) >>> arLog2PageSize).toNat = paddr.toNat / arPageSize := by
  have mask : pageOffsetMask = (BitVec.allOnes 12).setWidth 64 := rfl
  have shifted : (paddr &&& ~~~ pageOffsetMask) >>> arLog2PageSize = paddr >>> arLog2PageSize := by
    apply BitVec.eq_of_getLsbD_eq
    intro position inside
    simp only [mask, arLog2PageSize, BitVec.getLsbD_ushiftRight, BitVec.getLsbD_and,
      BitVec.getLsbD_not, BitVec.getLsbD_setWidth, BitVec.getLsbD_allOnes]
    by_cases high : 12 + position < 64
    · simp [high]
    · rw [BitVec.getLsbD_of_ge paddr _ (by omega)]
      simp
  rw [shifted, BitVec.toNat_ushiftRight, Nat.shiftRight_eq_div_pow]
  rfl

theorem findPage_ok {pages : List (PageType Hash)} {paddrPage : Word} {page : PageType Hash}
    (found : findPage pages paddrPage = .ok page) :
    page ∈ pages ∧ page.index = paddrPage >>> arLog2PageSize := by
  unfold findPage tryFindPage at found
  split at found
  · next searched =>
      cases found
      split at searched
      · cases searched
      · next first rest left =>
          split at searched
          · next same =>
              cases searched
              have member : page ∈ pages.dropWhile fun page =>
                  page.index < paddrPage >>> arLog2PageSize := by
                rw [left]
                exact List.mem_cons_self
              exact ⟨(List.dropWhile_sublist _).subset member, same⟩
          · cases searched
  · cases found

/-- A read of the log reads the memory under the logged pages. -/
theorem readPage_overwrite {pages : List (PageType Hash)} (ordered : Ordered pages) {paddr : Word}
    {length : Nat} {data : List Byte} (read : readPage pages paddr length = .ok data) :
    data = (overwrite memory pages).load paddr length := by
  obtain ⟨page, found, read⟩ := bind_ok.mp read
  obtain ⟨_, within, read⟩ := bind_ok.mp read
  cases read
  obtain ⟨member, index⟩ := findPage_ok found
  have fits := check_ok.mp within
  have number : page.number = paddr.toNat / arPageSize := by
    rw [PageType.number, index, pageNumber_eq]
  have bound := paddr.isLt
  have size : arPageSize = 4096 := rfl
  have address : pageStart page.number + BitVec.ofNat 64 (pageOffset paddr) = paddr := by
    apply BitVec.eq_of_toNat_eq
    rw [pageStart, BitVec.toNat_add, BitVec.toNat_ofNat, BitVec.toNat_ofNat, number,
      pageOffset_eq, size]
    omega
  have loaded := @load_overwrite Hash memory _ page ordered member (by rw [number, size]; omega)
    (pageOffset paddr) length fits
  rw [address] at loaded
  exact loaded.symm

theorem readShadowRegister_overwrite (ordered : Ordered context.pages) {paddr value : Word}
    (read : readShadowRegister context paddr = .ok value) :
    value = (overwrite memory context.pages).loadWord paddr := by
  obtain ⟨data, loaded, read⟩ := bind_ok.mp read
  cases read
  rw [readPage_overwrite ordered loaded]
  rfl

theorem isRejectedManualYield_overwrite (ordered : Ordered context.pages) {rejected : Bool}
    (decided : isRejectedManualYield context = .ok rejected) :
    rejected = Uarch.isRejectedManualYield (overwrite memory context.pages) := by
  obtain ⟨iflagsY, flagRead, decided⟩ := bind_ok.mp decided
  have flag := @readShadowRegister_overwrite Hash memory context ordered _ _ flagRead
  rw [Uarch.isRejectedManualYield, ← flag]
  split at decided
  · next clear =>
      cases decided
      simp [clear]
  · next set =>
      obtain ⟨tohost, hostRead, decided⟩ := bind_ok.mp decided
      cases decided
      rw [← readShadowRegister_overwrite ordered hostRead]
      simp only [ne_eq, set, not_false_eq_true, decide_true, Bool.true_and]
      rfl

end Reads

section Soundness

variable {hashers : HashFunctionType → Hasher Hash} {ofBytes : List Byte → Hash}
  {memory : Memory}

/-- What the checks of the constructor say about the log. -/
theorem replayStepStateAccess_ok [DecidableEq Hash] {image : List Byte} {context : Context Hash}
    (constructed : replayStepStateAccess hashers ofBytes image = .ok context) :
    Ordered context.pages ∧
    ∃ sketch : Merkle.Sketch Hash 52,
      Merkle.plan 52 0 (numbers context.pages) context.siblingHashes = some (sketch, [], []) ∧
      ∃ values : Nat → Hash,
        sketch.hash (hashers context.hashFunction).concatHash values 0 =
          context.loggedRootHashBefore ∧
        ∀ page ∈ context.pages,
          (hashers context.hashFunction).getMerkleTreeHash page.data = some (values page.number) := by
  obtain ⟨first, read, constructed⟩ := bind_ok.mp constructed
  obtain ⟨_, checked, constructed⟩ := bind_ok.mp constructed
  obtain ⟨⟨computed, after⟩, rootHash, constructed⟩ := bind_ok.mp constructed
  obtain ⟨_, same, constructed⟩ := bind_ok.mp constructed
  cases constructed
  have ordered : Ordered first.pages :=
    ⟨(checkPages_increasing checked).1, readContext_whole read⟩
  obtain ⟨sketch, planned, values, reached, pairs, named, header⟩ :=
    computeRootHash_sketch ordered.increasing rootHash
  have sameHash : computed = context.loggedRootHashBefore := check_ok.mp same
  have sameFunction : context.hashFunction = first.hashFunction := by rw [header]
  have sameSiblings : context.siblingHashes = first.siblingHashes := by rw [header]
  rw [sameFunction, sameSiblings, numbers_hashed pairs, ← sameHash]
  refine ⟨ordered_hashed ordered pairs, sketch, planned, values, reached, ?_⟩
  intro page member
  obtain ⟨old, _, _, sameData, hashes⟩ := exists_unhashed pairs member
  rw [sameData, named page member]
  exact hashes

/-- A sketch of the memory's tree that the log plans binds the logged pages. -/
theorem page_bound {hasher : Hasher Hash} (collisionFree : hasher.CollisionFree)
    {sketch : Merkle.Sketch Hash 52} {values : Nat → Hash} {page : PageType Hash}
    (reached : sketch.hash hasher.concatHash values 0 = hasher.merkleRoot memory)
    (member : page.number ∈ sketch.leaves 0) (whole : page.data.length = arPageSize)
    (hashes : hasher.getMerkleTreeHash page.data = some (values page.number)) :
    page.number < 2 ^ 52 ∧ page.data = memory.load (pageStart page.number) arPageSize := by
  have inside : page.number < 2 ^ 52 := by
    have bounds := sketch.leaves_bounds member
    omega
  rw [merkleRoot_pages] at reached
  rw [sketch.reaches collisionFree.pair reached member] at hashes
  constructor
  · exact inside
  · exact getMerkleTreeHash_injective collisionFree 7 whole (Memory.length_load _ _ _) hashes
      (getMerkleTreeHash_page memory inside)

/-- A successful finish returns the logged root hash and the canonical hash of the memory under the
final pages. -/
theorem finish_ok [DecidableEq Hash] {context : Context Hash} {rootHash : Hash}
    {sketch : Merkle.Sketch Hash 52}
    (agrees : sketch.Agrees (hashers context.hashFunction).concatHash
      (pageHash (hashers context.hashFunction) memory) 0)
    (planned : Merkle.plan 52 0 (numbers context.pages) context.siblingHashes =
      some (sketch, [], []))
    (ordered : Ordered context.pages) (finished : finish hashers ofBytes context = .ok rootHash) :
    rootHash = context.loggedRootHashAfter ∧
      rootHash =
        if Uarch.isRejectedManualYield (overwrite memory context.pages) then
          ofBytes ((overwrite memory context.pages).load Uarch.revertRootHashStart 32)
        else (hashers context.hashFunction).merkleRoot (overwrite memory context.pages) := by
  obtain ⟨rejected, decided, finished⟩ := bind_ok.mp finished
  obtain ⟨obtained, chosen, finished⟩ := bind_ok.mp finished
  obtain ⟨_, same, finished⟩ := bind_ok.mp finished
  cases finished
  constructor
  · exact check_ok.mp same
  · rw [← isRejectedManualYield_overwrite ordered decided]
    cases rejected with
    | true =>
        obtain ⟨data, read, chosen⟩ := bind_ok.mp chosen
        cases chosen
        rw [readPage_overwrite ordered read]
        rfl
    | false =>
        cases computed : computeRootHash hashers context with
        | error failure => simp [obtainedRootHash, computed, Except.map] at chosen
        | ok outcome =>
            simp only [obtainedRootHash, computed, Except.map, Bool.false_eq_true, if_false,
              Except.ok.injEq] at chosen
            rw [← chosen]
            exact rootHash_overwrite agrees planned ordered computed

/-- An accepted log binds its pages to the memory, and a replay of it can only finish with the
canonical hash of the memory under the final pages. -/
theorem replayStepStateAccess_sound [DecidableEq Hash] (hashers : HashFunctionType → Hasher Hash)
    (ofBytes : List Byte → Hash) (image : List Byte) (memory : Memory) (context : Context Hash)
    (collisionFree : ∀ function, (hashers function).CollisionFree)
    (constructed : replayStepStateAccess hashers ofBytes image = .ok context)
    (before : context.loggedRootHashBefore = (hashers context.hashFunction).merkleRoot memory) :
    (∀ page ∈ context.pages, page.number < 2 ^ 52 ∧
      page.data = memory.load (pageStart page.number) arPageSize) ∧
    ∀ (A : Type) (interpret : Action A) (result : A) (final : Context Hash) (rootHash : Hash),
      interpret.run replayAccess context = .ok (result, final) →
      finish hashers ofBytes final = .ok rootHash →
      rootHash = context.loggedRootHashAfter ∧
      numbers final.pages = numbers context.pages ∧
      rootHash =
        if Uarch.isRejectedManualYield (overwrite memory final.pages) then
          ofBytes ((overwrite memory final.pages).load Uarch.revertRootHashStart 32)
        else (hashers context.hashFunction).merkleRoot (overwrite memory final.pages) := by
  obtain ⟨ordered, sketch, planned, values, reached, hashes⟩ := replayStepStateAccess_ok constructed
  rw [before] at reached
  have leaves := Merkle.plan_leaves planned
  rw [List.append_nil] at leaves
  constructor
  · intro page member
    apply page_bound (collisionFree _) reached
    · rw [← leaves]
      exact List.mem_map_of_mem member
    · exact ordered.whole page member
    · exact hashes page member
  · intro A interpret result final rootHash ran finished
    have replays := run_replays ordered.whole ran
    have sameFunction : final.hashFunction = context.hashFunction := by rw [replays.header]
    have sameSiblings : final.siblingHashes = context.siblingHashes := by rw [replays.header]
    have sameAfter : final.loggedRootHashAfter = context.loggedRootHashAfter := by
      rw [replays.header]
    have finalOrdered : Ordered final.pages := by
      constructor
      · rw [replays.places]
        exact ordered.increasing
      · exact replays.whole
    rw [merkleRoot_pages] at reached
    have agrees := sketch.agrees_of_reaches (collisionFree _).pair reached
    rw [← sameFunction] at agrees ⊢
    rw [← replays.places, ← sameSiblings] at planned
    obtain ⟨logged, canonical⟩ := finish_ok agrees planned finalOrdered finished
    rw [← sameAfter]
    exact ⟨logged, replays.places, canonical⟩

end Soundness

section BlankLog

/-- The bytes that stand for a hash in a log of the blank machine. -/
def hashName (number : Nat) : List Byte := BitVec.ofNat 8 number :: List.replicate 31 0

def blankSiblings : List Digest :=
  (Merkle.gather symbolicHasher.concatHash (pageHash symbolicHasher zeroMemory) 52 0 [0]).1

/-- The name one stands for the root, and the later ones for the siblings of the first page. -/
def hashOfName (name : List Byte) : Digest :=
  match (name.headD 0).toNat with
  | 0 => .word name
  | 1 => symbolicHasher.merkleRoot zeroMemory
  | position + 2 => blankSiblings.getD position (.word name)

/-- The log of a step that touches the first page of the blank machine and leaves it as it is. -/
def blankFile : LogFile where
  rootHashBefore := hashName 1
  mcycleCount := 0
  rootHashAfter := hashName 1
  hashFunction := .keccak256
  pages := [⟨0, List.replicate arPageSize 0, List.replicate machineHashSize 0⟩]
  siblingHashes := (List.range 52).map fun position => hashName (position + 2)
  before_size := rfl
  after_size := rfl
  has_pages := List.cons_ne_nil _ _
  page_size := by simp
  sibling_size := by
    intro hash member
    obtain ⟨position, _, rfl⟩ := List.mem_map.mp member
    rfl

theorem length_blankSiblings : blankSiblings.length = 52 := rfl

theorem siblings_blankFile : (blankFile.context hashOfName).siblingHashes = blankSiblings := by
  have names : (blankFile.context hashOfName).siblingHashes =
      ((List.range 52).map fun position => hashName (position + 2)).map hashOfName := rfl
  rw [names]
  apply List.ext_getElem?
  intro position
  by_cases inside : position < 52
  · have name : hashOfName (hashName (position + 2)) =
        blankSiblings.getD position (.word (hashName (position + 2))) := by
      have number : (BitVec.ofNat 8 (position + 2)).toNat = position + 2 := by
        rw [BitVec.toNat_ofNat]
        omega
      simp only [hashOfName, hashName, List.headD_cons, number]
    rw [List.getElem?_map, List.getElem?_map, List.getElem?_range inside, Option.map_some,
      Option.map_some, name, List.getD_eq_getElem?_getD,
      List.getElem?_eq_getElem (by rw [length_blankSiblings]; exact inside)]
    rfl
  · rw [List.getElem?_eq_none (by simp; omega),
      List.getElem?_eq_none (by rw [length_blankSiblings]; omega)]

theorem load_zeroMemory (start : Word) (length : Nat) :
    zeroMemory.load start length = List.replicate length 0 := by
  simp [Memory.load, zeroMemory]

theorem blankFile_accepted :
    ∃ context, replayStepStateAccess (fun _ => symbolicHasher) hashOfName blankFile.bytes =
        .ok context ∧
      context.loggedRootHashBefore = symbolicHasher.merkleRoot zeroMemory := by
  have root : (blankFile.context hashOfName).loggedRootHashBefore =
      symbolicHasher.merkleRoot zeroMemory := rfl
  have only : (blankFile.context hashOfName).pages =
      [⟨0, List.replicate arPageSize 0, hashOfName (List.replicate machineHashSize 0)⟩] := rfl
  have ordered : Ordered (blankFile.context hashOfName).pages := by
    refine ⟨List.pairwise_singleton _ _, ?_⟩
    rw [only]
    simp
  have inside : ∀ number ∈ numbers (blankFile.context hashOfName).pages, number < 2 ^ 52 := by
    rw [only]
    simp [numbers, PageType.number]
  have kept : ∀ page ∈ (blankFile.context hashOfName).pages,
      page.data = zeroMemory.load (pageStart page.number) arPageSize := by
    intro page member
    rw [only, List.mem_singleton] at member
    rw [member, load_zeroMemory]
  have checked : checkPages (hashOfName (List.replicate machineHashSize 0)) none
      (blankFile.context hashOfName).pages = .ok () := by
    rw [only, checkPages, check_pos (by simp), checkPages]
    exact bind_ok.mpr ⟨(), rfl, bind_ok.mpr ⟨(), check_pos rfl, rfl⟩⟩
  obtain ⟨after, computed⟩ := @computeRootHash_siblings Digest (fun _ => symbolicHasher) zeroMemory
    (blankFile.context hashOfName) ordered inside siblings_blankFile
  rw [overwrite_same kept] at computed
  have fits : blankFile.bytes.length < 2 ^ 64 := by
    rw [blankFile.length_bytes]
    decide
  have header : after.loggedRootHashBefore = symbolicHasher.merkleRoot zeroMemory :=
    congrArg Context.loggedRootHashBefore (computeRootHash_context computed)
  refine ⟨after, ?_, header⟩
  refine bind_ok.mpr ⟨_, readContext_bytes blankFile fits, bind_ok.mpr ⟨(), checked, ?_⟩⟩
  exact bind_ok.mpr ⟨_, computed, bind_ok.mpr ⟨(), check_pos header.symm, rfl⟩⟩

/-- The log of the blank machine binds its page, and it ends in the blank root. -/
theorem replayStepStateAccess_sound_blank :
    ∃ context, replayStepStateAccess (fun _ => symbolicHasher) hashOfName blankFile.bytes =
        .ok context ∧
      (∀ page ∈ context.pages, page.number < 2 ^ 52 ∧
        page.data = zeroMemory.load (pageStart page.number) arPageSize) ∧
      ∀ rootHash, finish (fun _ => symbolicHasher) hashOfName context = .ok rootHash →
        rootHash = context.loggedRootHashAfter := by
  obtain ⟨context, accepted, before⟩ := blankFile_accepted
  obtain ⟨bound, finishes⟩ := replayStepStateAccess_sound (fun _ => symbolicHasher) hashOfName
    blankFile.bytes zeroMemory context (fun _ => symbolicHasher_collisionFree) accepted before
  exact ⟨context, accepted, bound, fun rootHash finished =>
    (finishes Unit (pure ()) () context rootHash rfl finished).1⟩

end BlankLog

end MachineEmulator.StepLog
