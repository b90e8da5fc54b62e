/-
This file proves which images the verifier of step logs accepts, and that it accepts those that a
recorded step writes.
-/

import MachineEmulator.Proof.StepLog.Completeness
import MachineEmulator.Proof.StepLog.Format

namespace MachineEmulator.StepLog

section Safety

variable {A B : Type}

/-- A computation never does what the language gives no meaning to. -/
def Safe (computation : Except Failure A) : Prop := computation ≠ .error .undefinedBehavior

theorem Safe.bind {first : Except Failure A} {next : A → Except Failure B} (safe : Safe first)
    (rest : ∀ answer, first = .ok answer → Safe (next answer)) : Safe (first >>= next) := by
  cases first with
  | error failure => exact fun stopped => safe (by cases stopped; rfl)
  | ok answer => exact rest answer rfl

theorem Safe.ok (answer : A) : Safe (.ok answer) := fun stopped => by cases stopped

theorem Safe.check {condition : Prop} [Decidable condition] {failure : Failure}
    (named : failure ≠ .undefinedBehavior) : Safe (check condition failure) := by
  unfold MachineEmulator.check
  split
  · exact Safe.ok ()
  · intro stopped
    cases stopped
    exact named rfl

theorem Safe.mapM {items : List A} {read : A → Except Failure B}
    (safe : ∀ item ∈ items, Safe (read item)) : Safe (items.mapM read) := by
  induction items with
  | nil => exact Safe.ok []
  | cons item rest ih =>
      rw [List.mapM_cons]
      apply (safe item List.mem_cons_self).bind
      intro first _
      apply (ih fun other member => safe other (List.mem_cons_of_mem _ member)).bind
      intro others _
      exact Safe.ok _

end Safety

section Reading

variable {image : List Byte} {Hash : Type} {ofBytes : List Byte → Hash}

theorem safe_validateAndAdvanceOffset {max : Nat} {current elsize elcount : Word}
    {failure : Failure} (named : failure ≠ .undefinedBehavior) :
    Safe (validateAndAdvanceOffset max current elsize elcount failure) := by
  apply (Safe.check named).bind
  intro _ _
  apply (Safe.check named).bind
  intro _ _
  apply (Safe.check named).bind
  intro _ _
  exact Safe.ok _

theorem safe_bytesAt {offset : Word} {length : Nat}
    (inside : offset.toNat + length ≤ image.length) : Safe (bytesAt image offset length) := by
  rw [bytesAt_iff.mpr ⟨inside, rfl⟩]
  exact Safe.ok _

theorem safe_uint64At {offset : Word} (inside : offset.toNat + 8 ≤ image.length) :
    Safe (uint64At image offset) := by
  rw [uint64At_iff.mpr ⟨inside, rfl⟩]
  exact Safe.ok _

theorem safe_hashAt {offset : Word} (inside : offset.toNat + 32 ≤ image.length) :
    Safe (hashAt image ofBytes offset) := by
  rw [hashAt_iff.mpr ⟨inside, rfl⟩]
  exact Safe.ok _

theorem safe_hashFunctionOf (value : Word) : Safe (hashFunctionOf value) := by
  unfold hashFunctionOf
  split
  · exact Safe.ok _
  · split
    · exact Safe.ok _
    · intro stopped
      cases stopped

/-- No count in a header makes the verifier read outside the image. -/
theorem safe_readContext : Safe (readContext image ofBytes) := by
  have one : (1 : Word).toNat = 1 := rfl
  have eight : (8 : Word).toNat = 8 := rfl
  have thirtyTwo : (32 : Word).toNat = 32 := rfl
  have zero : (0 : Word).toNat = 0 := rfl
  have pageSize : pageTypeSize.toNat = 4136 := rfl
  apply (safe_validateAndAdvanceOffset (by decide)).bind
  intro offset1 advanced1
  have place1 := validateAndAdvanceOffset_iff.mp advanced1
  rw [one, thirtyTwo, zero] at place1
  apply (safe_hashAt (by omega)).bind
  intro before _
  apply (safe_validateAndAdvanceOffset (by decide)).bind
  intro offset2 advanced2
  have place2 := validateAndAdvanceOffset_iff.mp advanced2
  rw [one, eight] at place2
  apply (safe_uint64At (by omega)).bind
  intro mcycleCount _
  apply (safe_validateAndAdvanceOffset (by decide)).bind
  intro offset3 advanced3
  have place3 := validateAndAdvanceOffset_iff.mp advanced3
  rw [one, thirtyTwo] at place3
  apply (safe_hashAt (by omega)).bind
  intro after _
  apply (safe_validateAndAdvanceOffset (by decide)).bind
  intro offset4 advanced4
  have place4 := validateAndAdvanceOffset_iff.mp advanced4
  rw [one, eight] at place4
  apply (safe_uint64At (by omega)).bind
  intro value _
  apply (safe_hashFunctionOf value).bind
  intro function _
  apply (safe_validateAndAdvanceOffset (by decide)).bind
  intro offset5 advanced5
  have place5 := validateAndAdvanceOffset_iff.mp advanced5
  rw [one, eight] at place5
  apply (safe_uint64At (by omega)).bind
  intro pageCount _
  apply (Safe.check (by decide)).bind
  intro _ _
  apply (safe_validateAndAdvanceOffset (by decide)).bind
  intro offset6 advanced6
  have place6 := validateAndAdvanceOffset_iff.mp advanced6
  rw [pageSize] at place6
  apply (safe_validateAndAdvanceOffset (by decide)).bind
  intro offset7 advanced7
  have place7 := validateAndAdvanceOffset_iff.mp advanced7
  rw [one, eight] at place7
  apply (safe_uint64At (by omega)).bind
  intro siblingCount _
  apply (safe_validateAndAdvanceOffset (by decide)).bind
  intro offset8 advanced8
  have place8 := validateAndAdvanceOffset_iff.mp advanced8
  rw [thirtyTwo] at place8
  have bound6 := offset6.isLt
  have bound8 := offset8.isLt
  apply (Safe.check (by decide)).bind
  intro _ _
  rw [(arrayAt_pages (by omega) (by omega)).mpr rfl, (arrayAt_hashes (by omega) (by omega)).mpr rfl]
  exact Safe.ok _

end Reading

section RootHash

variable {Hash : Type} {hasher : Hasher Hash}

theorem safe_nextSibling (unvisited : Unvisited Hash) : Safe (nextSibling unvisited) := by
  unfold nextSibling
  split
  · intro stopped
    cases stopped
  · exact Safe.ok _

theorem safe_computeRootHashImpl (level pageIndex : Nat) (unvisited : Unvisited Hash) :
    Safe (computeRootHashImpl hasher level pageIndex unvisited) := by
  induction level generalizing pageIndex unvisited with
  | zero =>
      rw [computeRootHashImpl]
      split
      · exact safe_nextSibling _
      · split
        · exact safe_nextSibling _
        · dsimp only
          split
          · exact Safe.ok _
          · exact safe_nextSibling _
  | succ level ih =>
      rw [computeRootHashImpl]
      split
      · exact safe_nextSibling _
      · split
        · exact safe_nextSibling _
        · apply (ih _ _).bind
          intro left _
          apply (ih _ _).bind
          intro right _
          exact Safe.ok _

theorem safe_hashPage (page : PageType Hash) : Safe (hashPage hasher page) := by
  unfold hashPage
  split
  · exact Safe.ok _
  · intro stopped
    cases stopped

theorem safe_computeRootHash (hashers : HashFunctionType → Hasher Hash) (context : Context Hash) :
    Safe (computeRootHash hashers context) := by
  apply (Safe.mapM fun page _ => safe_hashPage page).bind
  intro pages _
  apply (safe_computeRootHashImpl _ _ _).bind
  intro walked _
  apply (Safe.check (by decide)).bind
  intro _ _
  apply (Safe.check (by decide)).bind
  intro _ _
  exact Safe.ok _

theorem safe_checkPages [DecidableEq Hash] (allZeros : Hash) (previous : Option Word)
    (pages : List (PageType Hash)) : Safe (checkPages allZeros previous pages) := by
  induction pages generalizing previous with
  | nil => exact Safe.ok ()
  | cons page rest ih =>
      apply (Safe.check (by decide)).bind
      intro _ _
      apply (Safe.check (by decide)).bind
      intro _ _
      exact ih _

theorem safe_replayStepStateAccess [DecidableEq Hash] (hashers : HashFunctionType → Hasher Hash)
    (ofBytes : List Byte → Hash) (image : List Byte) :
    Safe (replayStepStateAccess hashers ofBytes image) := by
  apply safe_readContext.bind
  intro context _
  apply (safe_checkPages _ _ _).bind
  intro _ _
  apply (safe_computeRootHash _ _).bind
  intro computed _
  apply (Safe.check (by decide)).bind
  intro _ _
  exact Safe.ok _

end RootHash

section Accepts

/-- The computation of a root hash fills in the scratch areas and changes nothing else. -/
theorem computeRootHash_context {Hash : Type} {hashers : HashFunctionType → Hasher Hash}
    {context after : Context Hash} {rootHash : Hash}
    (computed : computeRootHash hashers context = .ok (rootHash, after)) :
    after = { context with pages := after.pages } := by
  obtain ⟨hashed, _, computed⟩ := bind_ok.mp computed
  obtain ⟨walked, _, computed⟩ := bind_ok.mp computed
  obtain ⟨_, _, computed⟩ := bind_ok.mp computed
  obtain ⟨_, _, computed⟩ := bind_ok.mp computed
  cases computed
  rfl

theorem ofBytes_of_size {data : List Byte} (size : data.length = machineHashSize) :
    MachineHash.ofBytes data = ⟨data, size⟩ := by
  rw [MachineHash.ofBytes, dif_pos size]

theorem ofBytes_bytes (hash : MachineHash) : MachineHash.ofBytes hash.bytes = hash :=
  ofBytes_of_size hash.size

/-- Two blocks that are read as one hash are the same. -/
theorem ofBytes_inj {first second : List Byte} (firstSize : first.length = machineHashSize)
    (secondSize : second.length = machineHashSize) :
    MachineHash.ofBytes first = MachineHash.ofBytes second ↔ first = second := by
  rw [ofBytes_of_size firstSize, ofBytes_of_size secondSize]
  exact MachineHash.mk.injEq first firstSize second secondSize ▸ Iff.rfl

theorem checkPages_iff {Hash : Type} [DecidableEq Hash] {allZeros : Hash} {previous : Option Word}
    {pages : List (PageType Hash)} {done : Unit} :
    checkPages allZeros previous pages = .ok done ↔
      (pages.map PageType.index).Pairwise (· < ·) ∧ (∀ page ∈ pages, page.hash = allZeros) ∧
        ∀ index ∈ previous, ∀ page ∈ pages, index < page.index := by
  induction pages generalizing previous with
  | nil => simp [checkPages]
  | cons page rest ih =>
      rw [checkPages, bind_ok, List.map_cons, List.pairwise_cons]
      constructor
      · rintro ⟨_, above, checked⟩
        obtain ⟨_, empty, checked⟩ := bind_ok.mp checked
        obtain ⟨increasing, zeros, later⟩ := ih.mp checked
        have first := later page.index rfl
        refine ⟨⟨?_, increasing⟩, ?_, ?_⟩
        · intro index member
          obtain ⟨other, found, rfl⟩ := List.mem_map.mp member
          exact first other found
        · intro other member
          rcases List.mem_cons.mp member with rfl | found
          · exact check_ok.mp empty
          · exact zeros other found
        · intro index before other member
          have below := check_ok.mp above index before
          rcases List.mem_cons.mp member with rfl | found
          · exact below
          · exact BitVec.lt_trans below (first other found)
      · rintro ⟨⟨first, increasing⟩, zeros, above⟩
        refine ⟨(), check_pos fun index before => above index before page List.mem_cons_self, ?_⟩
        refine bind_ok.mpr ⟨(), check_pos (zeros page List.mem_cons_self), ih.mpr ?_⟩
        refine ⟨increasing, fun other member => zeros other (List.mem_cons_of_mem _ member), ?_⟩
        rintro index ⟨⟩ other member
        exact first other.index (List.mem_map_of_mem member)

variable {hashers : HashFunctionType → Hasher MachineHash}

/-- The files that the verifier accepts, before it looks at their hashes. -/
structure WellFormed (file : LogFile) : Prop where
  fits : file.bytes.length < 2 ^ 64
  increasing : (file.pages.map LogPage.index).Pairwise (· < ·)
  zeroed : ∀ page ∈ file.pages, page.scratch = List.replicate machineHashSize 0

theorem checkPages_file (file : LogFile) {done : Unit} :
    checkPages (MachineHash.ofBytes (List.replicate machineHashSize 0)) none
        (file.context MachineHash.ofBytes).pages = .ok done ↔
      (file.pages.map LogPage.index).Pairwise (· < ·) ∧
        ∀ page ∈ file.pages, page.scratch = List.replicate machineHashSize 0 := by
  have indices : (file.context MachineHash.ofBytes).pages.map PageType.index =
      file.pages.map LogPage.index := by
    rw [LogFile.context, List.map_map]
    rfl
  rw [checkPages_iff, indices]
  constructor
  · rintro ⟨increasing, zeros, _⟩
    refine ⟨increasing, fun page member => ?_⟩
    have zero := zeros _ (List.mem_map_of_mem member)
    exact (ofBytes_inj (file.page_size page member).2 List.length_replicate).mp zero
  · rintro ⟨increasing, zeros⟩
    refine ⟨increasing, fun page member => ?_, fun _ before => by cases before⟩
    obtain ⟨logged, found, rfl⟩ := List.mem_map.mp member
    exact congrArg MachineHash.ofBytes (zeros logged found)

/-- The verifier accepts exactly the well-formed files with the root hash that they log. -/
theorem replayStepStateAccess_iff {image : List Byte} {context : Context MachineHash} :
    replayStepStateAccess hashers MachineHash.ofBytes image = .ok context ↔
      ∃ file : LogFile, file.bytes = image ∧ WellFormed file ∧
        computeRootHash hashers (file.context MachineHash.ofBytes) =
          .ok (MachineHash.ofBytes file.rootHashBefore, context) := by
  constructor
  · intro accepted
    obtain ⟨first, read, accepted⟩ := bind_ok.mp accepted
    obtain ⟨_, checked, accepted⟩ := bind_ok.mp accepted
    obtain ⟨⟨rootHash, after⟩, computed, accepted⟩ := bind_ok.mp accepted
    obtain ⟨_, matches', accepted⟩ := bind_ok.mp accepted
    cases accepted
    obtain ⟨file, rfl, rfl, fits⟩ := readContext_file read
    obtain ⟨increasing, zeroed⟩ := (checkPages_file file).mp checked
    have header : context.loggedRootHashBefore = MachineHash.ofBytes file.rootHashBefore :=
      congrArg Context.loggedRootHashBefore (computeRootHash_context computed)
    have same : rootHash = context.loggedRootHashBefore := check_ok.mp matches'
    rw [same, header] at computed
    exact ⟨file, rfl, ⟨fits, increasing, zeroed⟩, computed⟩
  · rintro ⟨file, rfl, wellFormed, computed⟩
    have header : context.loggedRootHashBefore = MachineHash.ofBytes file.rootHashBefore :=
      congrArg Context.loggedRootHashBefore (computeRootHash_context computed)
    have checked := (@checkPages_file file ()).mpr ⟨wellFormed.increasing, wellFormed.zeroed⟩
    refine bind_ok.mpr ⟨_, readContext_bytes file wellFormed.fits, ?_⟩
    refine bind_ok.mpr ⟨(), checked, bind_ok.mpr ⟨_, computed, ?_⟩⟩
    exact bind_ok.mpr ⟨(), check_pos header.symm, rfl⟩

end Accepts

section Recorded

variable {hashers : HashFunctionType → Hasher MachineHash}

/-- The pages that a step touched, with what they held before the step. -/
structure Touched (memory : Memory) (touchedPages : List (Word × List Byte)) : Prop where
  some : touchedPages ≠ []
  increasing : (touchedPages.map Prod.fst).Pairwise (· < ·)
  aligned : ∀ touched ∈ touchedPages, touched.1.toNat % arPageSize = 0
  saved : ∀ touched ∈ touchedPages, touched.2 = memory.load touched.1 arPageSize

variable {memory : Memory} {touchedPages : List (Word × List Byte)}

theorem toNat_pageIndexOf (address : Word) :
    (pageIndexOf address).toNat = address.toNat / arPageSize := by
  rw [pageIndexOf, BitVec.toNat_ushiftRight, Nat.shiftRight_eq_div_pow]
  rfl

theorem Touched.indices_increasing (touched : Touched memory touchedPages) :
    (touchedPages.map fun page => pageIndexOf page.1).Pairwise (· < ·) := by
  have size : arPageSize = 4096 := rfl
  have increasing := List.pairwise_map.mp touched.increasing
  apply List.pairwise_map.mpr
  apply increasing.imp_of_mem
  intro first second firstTouched secondTouched below
  have firstAligned := touched.aligned first firstTouched
  have secondAligned := touched.aligned second secondTouched
  rw [BitVec.lt_def] at below ⊢
  rw [toNat_pageIndexOf, toNat_pageIndexOf]
  rw [size] at *
  omega

theorem Touched.numbers_increasing (touched : Touched memory touchedPages) :
    ((touchedPages.map fun page => pageIndexOf page.1).map BitVec.toNat).Pairwise (· < ·) :=
  List.pairwise_map.mpr (touched.indices_increasing.imp BitVec.lt_def.mp)

theorem numbers_inside (touchedPages : List (Word × List Byte)) :
    ∀ number ∈ (touchedPages.map fun page => pageIndexOf page.1).map BitVec.toNat,
      number < 2 ^ 52 := by
  have size : arPageSize = 4096 := rfl
  intro number member
  obtain ⟨index, found, rfl⟩ := List.mem_map.mp member
  obtain ⟨page, _, rfl⟩ := List.mem_map.mp found
  have bound := page.1.isLt
  rw [toNat_pageIndexOf, size]
  omega

/-- The file of a recorded step. -/
def recordedFile (rootHashBefore : MachineHash) (mcycleCount : Word) (rootHashAfter : MachineHash)
    (hashFunction : HashFunctionType) (touched : Touched memory touchedPages)
    (siblingHashes : List MachineHash) : LogFile where
  rootHashBefore := rootHashBefore.bytes
  mcycleCount := mcycleCount
  rootHashAfter := rootHashAfter.bytes
  hashFunction := hashFunction
  pages := touchedPages.map fun page =>
    ⟨pageIndexOf page.1, page.2, List.replicate machineHashSize 0⟩
  siblingHashes := siblingHashes.map MachineHash.bytes
  before_size := rootHashBefore.size
  after_size := rootHashAfter.size
  has_pages := fun empty => touched.some (List.map_eq_nil_iff.mp empty)
  page_size := by
    intro page member
    obtain ⟨saved, found, rfl⟩ := List.mem_map.mp member
    refine ⟨?_, List.length_replicate⟩
    rw [touched.saved saved found, Memory.length_load]
  sibling_size := by
    intro hash member
    obtain ⟨sibling, _, rfl⟩ := List.mem_map.mp member
    exact sibling.size

theorem recordFinish_eq (rootHashBefore : MachineHash) (mcycleCount : Word)
    (rootHashAfter : MachineHash) (hashFunction : HashFunctionType)
    (touched : Touched memory touchedPages) {getNodeHash : Nat → Nat → MachineHash}
    {siblings : List MachineHash}
    (gathered : getSiblingHashes getNodeHash (touchedPages.map fun page => pageIndexOf page.1) =
      .ok siblings) :
    recordFinish getNodeHash rootHashBefore mcycleCount rootHashAfter hashFunction touchedPages =
      .ok (recordedFile rootHashBefore mcycleCount rootHashAfter hashFunction touched
        siblings).bytes := by
  unfold recordFinish
  rw [gathered]
  show Except.ok _ = Except.ok _
  rw [LogFile.bytes, recordedFile, List.length_map, List.length_map, List.map_map]
  rfl

/-- The verifier accepts the file of a recorded step. -/
theorem recordedFile_accepted (mcycleCount : Word) (rootHashAfter : MachineHash)
    (function : HashFunctionType) (touched : Touched memory touchedPages)
    {siblings : List MachineHash}
    (gathered : getSiblingHashes (referenceNodeHash (hashers function) memory)
      (touchedPages.map fun page => pageIndexOf page.1) = .ok siblings)
    (fits : (recordedFile ((hashers function).merkleRoot memory) mcycleCount rootHashAfter function
      touched siblings).bytes.length < 2 ^ 64) :
    ∃ context, replayStepStateAccess hashers MachineHash.ofBytes
        (recordedFile ((hashers function).merkleRoot memory) mcycleCount rootHashAfter function
          touched siblings).bytes = .ok context ∧
      context.loggedMcycleCount = mcycleCount ∧ context.loggedRootHashAfter = rootHashAfter ∧
      context.hashFunction = function ∧
      context.pages.map PageType.index = touchedPages.map (fun page => pageIndexOf page.1) ∧
      context.pages.map PageType.data = touchedPages.map Prod.snd ∧
      context.siblingHashes = siblings := by
  have size : arPageSize = 4096 := rfl
  let file := recordedFile ((hashers function).merkleRoot memory) mcycleCount rootHashAfter function
    touched siblings
  have siblingsBack : (file.context MachineHash.ofBytes).siblingHashes = siblings := by
    show (siblings.map MachineHash.bytes).map MachineHash.ofBytes = siblings
    have back : MachineHash.ofBytes ∘ MachineHash.bytes = id := funext ofBytes_bytes
    rw [List.map_map, back, List.map_id]
  have indices : (file.context MachineHash.ofBytes).pages.map PageType.index =
      touchedPages.map fun page => pageIndexOf page.1 := by
    show ((touchedPages.map _).map _).map _ = _
    rw [List.map_map, List.map_map]
    rfl
  have data : (file.context MachineHash.ofBytes).pages.map PageType.data =
      touchedPages.map Prod.snd := by
    show ((touchedPages.map _).map _).map _ = _
    rw [List.map_map, List.map_map]
    rfl
  have placed : numbers (file.context MachineHash.ofBytes).pages =
      (touchedPages.map fun page => pageIndexOf page.1).map BitVec.toNat := by
    rw [← indices, List.map_map]
    rfl
  have increasing := touched.numbers_increasing
  have inside := numbers_inside touchedPages
  have ordered : Ordered (file.context MachineHash.ofBytes).pages := by
    constructor
    · rw [placed]
      exact increasing
    · intro page member
      obtain ⟨logged, found, rfl⟩ := List.mem_map.mp member
      exact (file.page_size logged found).1
  have kept : ∀ page ∈ (file.context MachineHash.ofBytes).pages,
      page.data = memory.load (pageStart page.number) arPageSize := by
    intro page member
    obtain ⟨logged, found, rfl⟩ := List.mem_map.mp member
    obtain ⟨saved, was, rfl⟩ := List.mem_map.mp found
    have aligned := touched.aligned saved was
    have start : pageStart (pageIndexOf saved.1).toNat = saved.1 := by
      apply BitVec.eq_of_toNat_eq
      have bound := saved.1.isLt
      rw [pageStart, BitVec.toNat_ofNat, toNat_pageIndexOf]
      rw [size] at aligned ⊢
      omega
    show saved.2 = memory.load (pageStart (pageIndexOf saved.1).toNat) arPageSize
    rw [start]
    exact touched.saved saved was
  have gathers := @getSiblingHashes_eq MachineHash memory (hashers function) _ increasing inside
  rw [gathered] at gathers
  obtain ⟨after, computed⟩ := @computeRootHash_siblings MachineHash hashers memory
    (file.context MachineHash.ofBytes) ordered (by rw [placed]; exact inside)
    (by rw [siblingsBack, placed]; exact Except.ok.inj gathers)
  rw [overwrite_same kept] at computed
  have wellFormed : WellFormed file := by
    refine ⟨fits, ?_, ?_⟩
    · show ((touchedPages.map _).map LogPage.index).Pairwise (· < ·)
      rw [List.map_map]
      exact touched.indices_increasing
    · intro page member
      obtain ⟨saved, _, rfl⟩ := List.mem_map.mp member
      rfl
  have before : MachineHash.ofBytes file.rootHashBefore = (hashers function).merkleRoot memory :=
    ofBytes_bytes _
  have pairs := (computeRootHash_sketch ordered.increasing computed).choose_spec.2.choose_spec.2.1
  refine ⟨after, replayStepStateAccess_iff.mpr ⟨file, rfl, wellFormed, ?_⟩, ?_⟩
  · rw [before]
    exact computed
  · rw [computeRootHash_context computed]
    refine ⟨rfl, ofBytes_bytes _, rfl, ?_, ?_, siblingsBack⟩
    · rw [← indices]
      exact map_hashed (fun _ _ hashes => hashes.1) pairs
    · rw [← data]
      exact map_hashed (fun _ _ hashes => hashes.2.1) pairs

/-- The step-log format. The verifier accepts exactly the well-formed files whose recomputed root
hash is the logged one; its offsets never overflow and it never reads outside the image; and it
accepts every file of a recorded step and reads back what the step wrote. -/
theorem stepLog_format (hashers : HashFunctionType → Hasher MachineHash) :
    (∀ (image : List Byte) (context : Context MachineHash),
      replayStepStateAccess hashers MachineHash.ofBytes image = .ok context ↔
        ∃ file : LogFile, file.bytes = image ∧ WellFormed file ∧
          computeRootHash hashers (file.context MachineHash.ofBytes) =
            .ok (MachineHash.ofBytes file.rootHashBefore, context)) ∧
    (∀ image : List Byte,
      replayStepStateAccess hashers MachineHash.ofBytes image ≠ .error .undefinedBehavior) ∧
    (∀ (max : Nat) (current elsize elcount next : Word) (failure : Failure),
      validateAndAdvanceOffset max current elsize elcount failure = .ok next ↔
        next.toNat = current.toNat + elsize.toNat * elcount.toNat ∧ next.toNat ≤ max) ∧
    (∀ (memory : Memory) (touchedPages : List (Word × List Byte)) (mcycleCount : Word)
        (rootHashAfter : MachineHash) (function : HashFunctionType),
      Touched memory touchedPages →
      ∃ siblings image,
        getSiblingHashes (referenceNodeHash (hashers function) memory)
          (touchedPages.map fun page => pageIndexOf page.1) = .ok siblings ∧
        recordFinish (referenceNodeHash (hashers function) memory)
          ((hashers function).merkleRoot memory) mcycleCount rootHashAfter function touchedPages =
          .ok image ∧
        (image.length < 2 ^ 64 →
          ∃ context, replayStepStateAccess hashers MachineHash.ofBytes image = .ok context ∧
            context.loggedMcycleCount = mcycleCount ∧
            context.loggedRootHashAfter = rootHashAfter ∧ context.hashFunction = function ∧
            context.pages.map PageType.index = touchedPages.map (fun page => pageIndexOf page.1) ∧
            context.pages.map PageType.data = touchedPages.map Prod.snd ∧
            context.siblingHashes = siblings)) := by
  refine ⟨fun _ _ => replayStepStateAccess_iff, safe_replayStepStateAccess hashers _,
    fun _ _ _ _ _ _ => validateAndAdvanceOffset_iff, ?_⟩
  intro memory touchedPages mcycleCount rootHashAfter function touched
  have increasing := touched.numbers_increasing
  have inside := numbers_inside touchedPages
  have gathered := @getSiblingHashes_eq MachineHash memory (hashers function) _ increasing inside
  refine ⟨_, _, gathered, recordFinish_eq _ _ _ _ touched gathered, ?_⟩
  exact recordedFile_accepted mcycleCount rootHashAfter function touched gathered

end Recorded

end MachineEmulator.StepLog
