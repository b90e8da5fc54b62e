/-
This file proves that the verifier reads exactly the files of the log format.
-/

import MachineEmulator.Construction.StepLog.Record
import MachineEmulator.Proof.Uarch.SubWordAccess

namespace MachineEmulator.StepLog

section Blocks

variable {image : List Byte}

/-- A block of the image, by numbers. -/
def slice (image : List Byte) (offset length : Nat) : List Byte := (image.drop offset).take length

theorem length_slice {offset length : Nat} (inside : offset + length ≤ image.length) :
    (slice image offset length).length = length := by
  rw [slice, List.length_take, List.length_drop]
  omega

theorem drop_eq_slice_append (offset length : Nat) :
    image.drop offset = slice image offset length ++ image.drop (offset + length) := by
  rw [slice, ← List.drop_drop, List.take_append_drop]

/-- Adjacent blocks of one size make up one block. -/
theorem drop_eq_slices_append (first size count : Nat) :
    image.drop first =
      ((List.range count).map fun position => slice image (first + position * size) size).flatten ++
        image.drop (first + count * size) := by
  induction count with
  | zero => simp
  | succ count ih =>
      have next : first + count * size + size = first + (count + 1) * size := by ring
      rw [List.range_succ, List.map_append, List.flatten_append, List.append_assoc]
      nth_rewrite 1 [ih]
      rw [drop_eq_slice_append (first + count * size) size, next]
      simp

theorem slice_add (offset first second : Nat) :
    slice image offset (first + second) =
      slice image offset first ++ slice image (offset + first) second := by
  rw [slice, List.take_add, List.drop_drop]
  rfl

theorem slice_slice {offset length inner count : Nat} (inside : inner + count ≤ length) :
    slice (slice image offset length) inner count = slice image (offset + inner) count := by
  rw [slice, slice, slice, List.drop_take, List.drop_drop, List.take_take, Nat.min_eq_left (by omega)]

theorem slice_append {first rest : List Byte} {size : Nat} (measured : first.length = size)
    (offset length : Nat) :
    slice (first ++ rest) (size + offset) length = slice rest offset length := by
  rw [slice, List.drop_append, List.drop_eq_nil_of_le (by omega), List.nil_append, measured,
    Nat.add_sub_cancel_left]
  rfl

theorem slice_head {first rest : List Byte} {length : Nat} (size : first.length = length) :
    slice (first ++ rest) 0 length = first := by
  rw [slice, List.drop_zero, ← size, List.take_left]

theorem length_flatten {blocks : List (List Byte)} {size : Nat}
    (sizes : ∀ block ∈ blocks, block.length = size) :
    blocks.flatten.length = blocks.length * size := by
  induction blocks with
  | nil => simp
  | cons block others ih =>
      rw [List.flatten_cons, List.length_append, sizes block List.mem_cons_self,
        ih fun other member => sizes other (List.mem_cons_of_mem _ member), List.length_cons]
      ring

/-- A block of a list of blocks of one size stands at its multiple of the size. -/
theorem slice_flatten {blocks : List (List Byte)} {size : Nat}
    (sizes : ∀ block ∈ blocks, block.length = size) (rest : List Byte) {position : Nat}
    {block : List Byte} (found : blocks[position]? = some block) :
    slice (blocks.flatten ++ rest) (position * size) size = block := by
  induction blocks generalizing position with
  | nil => simp at found
  | cons head others ih =>
      have first := sizes head List.mem_cons_self
      rw [List.flatten_cons, List.append_assoc]
      cases position with
      | zero =>
          rw [List.getElem?_cons_zero, Option.some.injEq] at found
          rw [Nat.zero_mul, slice_head first, found]
      | succ position =>
          have start : (position + 1) * size = size + position * size := by ring
          rw [start, slice_append first]
          exact ih (fun other member => sizes other (List.mem_cons_of_mem _ member)) found

end Blocks

section Reads

variable {image : List Byte} {Hash : Type} {ofBytes : List Byte → Hash}

theorem bytesAt_iff {offset : Word} {length : Nat} {data : List Byte} :
    bytesAt image offset length = .ok data ↔
      offset.toNat + length ≤ image.length ∧ data = slice image offset.toNat length := by
  constructor
  · intro read
    obtain ⟨_, inside, read⟩ := bind_ok.mp read
    cases read
    exact ⟨check_ok.mp inside, rfl⟩
  · rintro ⟨inside, rfl⟩
    exact bind_ok.mpr ⟨(), check_pos inside, rfl⟩

theorem uint64At_iff {offset value : Word} :
    uint64At image offset = .ok value ↔
      offset.toNat + 8 ≤ image.length ∧ value = wordOfBytes (slice image offset.toNat 8) := by
  constructor
  · intro read
    obtain ⟨data, loaded, read⟩ := bind_ok.mp read
    cases read
    obtain ⟨inside, rfl⟩ := bytesAt_iff.mp loaded
    exact ⟨inside, rfl⟩
  · rintro ⟨inside, rfl⟩
    exact bind_ok.mpr ⟨_, bytesAt_iff.mpr ⟨inside, rfl⟩, rfl⟩

theorem hashAt_iff {offset : Word} {hash : Hash} :
    hashAt image ofBytes offset = .ok hash ↔
      offset.toNat + machineHashSize ≤ image.length ∧
        hash = ofBytes (slice image offset.toNat machineHashSize) := by
  constructor
  · intro read
    obtain ⟨data, loaded, read⟩ := bind_ok.mp read
    cases read
    obtain ⟨inside, rfl⟩ := bytesAt_iff.mp loaded
    exact ⟨inside, rfl⟩
  · rintro ⟨inside, rfl⟩
    exact bind_ok.mpr ⟨_, bytesAt_iff.mpr ⟨inside, rfl⟩, rfl⟩

/-- An offset advances without overflow, or not at all. -/
theorem validateAndAdvanceOffset_iff {max : Nat} {current elsize elcount next : Word}
    {failure : Failure} :
    validateAndAdvanceOffset max current elsize elcount failure = .ok next ↔
      next.toNat = current.toNat + elsize.toNat * elcount.toNat ∧ next.toNat ≤ max := by
  have bound := next.isLt
  constructor
  · intro advanced
    obtain ⟨_, product, advanced⟩ := bind_ok.mp advanced
    obtain ⟨_, sum, advanced⟩ := bind_ok.mp advanced
    obtain ⟨_, fits, advanced⟩ := bind_ok.mp advanced
    cases advanced
    have exact : (elsize * elcount).toNat = elsize.toNat * elcount.toNat := by
      rw [BitVec.toNat_mul, Nat.mod_eq_of_lt (check_ok.mp product)]
    have total := check_ok.mp sum
    rw [exact] at total
    refine ⟨?_, check_ok.mp fits⟩
    rw [BitVec.toNat_add, exact, Nat.mod_eq_of_lt total]
  · rintro ⟨total, fits⟩
    have product : elsize.toNat * elcount.toNat < 2 ^ 64 := by omega
    have exact : (elsize * elcount).toNat = elsize.toNat * elcount.toNat := by
      rw [BitVec.toNat_mul, Nat.mod_eq_of_lt product]
    have same : current + elsize * elcount = next := by
      apply BitVec.eq_of_toNat_eq
      rw [BitVec.toNat_add, exact, ← total, Nat.mod_eq_of_lt bound]
    unfold validateAndAdvanceOffset
    rw [check_pos product, check_pos (by rw [exact]; omega), check_pos (by rw [same]; exact fits),
      same]
    rfl

theorem mapM_iff {A B : Type} {items : List A} {read : A → Except Failure B} {results : List B} :
    items.mapM read = .ok results ↔
      List.Forall₂ (fun item result => read item = .ok result) items results := by
  induction items generalizing results with
  | nil =>
      constructor
      · intro done
        cases done
        exact .nil
      · rintro ⟨⟩
        rfl
  | cons item rest ih =>
      rw [List.mapM_cons]
      constructor
      · intro done
        obtain ⟨first, firstDone, done⟩ := bind_ok.mp done
        obtain ⟨others, restDone, done⟩ := bind_ok.mp done
        cases done
        exact .cons firstDone (ih.mp restDone)
      · rintro ⟨⟩
        next first others firstDone restDone =>
          exact bind_ok.mpr ⟨first, firstDone, bind_ok.mpr ⟨others, ih.mpr restDone, rfl⟩⟩

end Reads

section Arrays

variable {image : List Byte} {A : Type}

/-- The offset of an element of an array that ends inside 64 bits. -/
theorem toNat_elementOffset {first size : Word} {count position : Nat}
    (fits : first.toNat + size.toNat * count < 2 ^ 64) (inside : position < count) :
    (first + BitVec.ofNat 64 position * size).toNat = first.toNat + position * size.toNat := by
  have product : size.toNat * position ≤ size.toNat * count := Nat.mul_le_mul_left _ inside.le
  have sizeBound := size.isLt
  rcases Nat.eq_zero_or_pos size.toNat with none | some
  · rw [BitVec.toNat_add, BitVec.toNat_mul, none, Nat.mul_zero, Nat.zero_mod, Nat.mul_zero,
      Nat.add_zero, Nat.mod_eq_of_lt first.isLt]
  · have small : position < 2 ^ 64 := by
      have wide : count ≤ size.toNat * count := Nat.le_mul_of_pos_left count some
      omega
    have commuted : position * size.toNat = size.toNat * position := Nat.mul_comm _ _
    rw [BitVec.toNat_add, BitVec.toNat_mul, BitVec.toNat_ofNat, Nat.mod_eq_of_lt small, commuted,
      Nat.mod_eq_of_lt (by omega : size.toNat * position < 2 ^ 64), Nat.mod_eq_of_lt (by omega)]

theorem arrayAt_iff {first size : Word} {count : Nat} {element : Word → Except Failure A}
    {elements : List A} :
    arrayAt first size count element = .ok elements ↔
      List.Forall₂ (fun position item =>
        element (first + BitVec.ofNat 64 position * size) = .ok item) (List.range count) elements :=
  mapM_iff

/-- Elements that each position determines make up one list. -/
theorem forall₂_iff_map {Position : Type} {positions : List Position}
    {related : Position → A → Prop} {result : Position → A}
    (determined : ∀ position ∈ positions, ∀ item, related position item ↔ item = result position)
    {elements : List A} :
    List.Forall₂ related positions elements ↔ elements = positions.map result := by
  induction positions generalizing elements with
  | nil => simp
  | cons position rest ih =>
      have first := determined position List.mem_cons_self
      have others := @ih fun other member => determined other (List.mem_cons_of_mem _ member)
      rw [List.map_cons]
      constructor
      · rintro ⟨⟩
        next item items relates relate =>
          rw [(first item).mp relates, others.mp relate]
      · rintro rfl
        exact .cons ((first _).mpr rfl) (others.mpr rfl)

end Arrays

section Pages

variable {image : List Byte} {Hash : Type} {ofBytes : List Byte → Hash}

theorem wordToBytes_wordOfBytes {data : List Byte} (size : data.length = 8) :
    wordToBytes (wordOfBytes data) = data := by
  apply List.ext_getElem?
  intro index
  by_cases inside : index < 8
  · have byte : (wordOfBytes data).extractLsb' (8 * index) 8 = data.getD index 0 := by
      apply BitVec.eq_of_getLsbD_eq
      intro position within
      have place : (8 * index + position) / 8 = index := by omega
      have bit : (8 * index + position) % 8 = position := by omega
      rw [BitVec.getLsbD_extractLsb', Uarch.getLsbD_wordOfBytes data (by omega), place, bit]
      simp [within]
    rw [wordToBytes, List.getElem?_map, List.getElem?_range inside, Option.map_some, byte,
      List.getD_eq_getElem?_getD, List.getElem?_eq_getElem (by omega)]
    rfl
  · rw [List.getElem?_eq_none (by simp; omega), List.getElem?_eq_none (by omega)]

/-- The page that stands at an offset of the image. -/
def logPageAt (image : List Byte) (offset : Nat) : LogPage where
  index := wordOfBytes (slice image offset 8)
  data := slice image (offset + 8) arPageSize
  scratch := slice image (offset + 4104) machineHashSize

def LogPage.pageType (ofBytes : List Byte → Hash) (page : LogPage) : PageType Hash :=
  ⟨page.index, page.data, ofBytes page.scratch⟩

theorem pageAt_iff {offset : Word} (room : offset.toNat + 4136 < 2 ^ 64) {page : PageType Hash} :
    pageAt image ofBytes offset = .ok page ↔
      offset.toNat + 4136 ≤ image.length ∧
        page = (logPageAt image offset.toNat).pageType ofBytes := by
  have data : (offset + 8).toNat = offset.toNat + 8 := by
    rw [BitVec.toNat_add]
    exact Nat.mod_eq_of_lt (by simp; omega)
  have scratch : (offset + 4104).toNat = offset.toNat + 4104 := by
    rw [BitVec.toNat_add]
    exact Nat.mod_eq_of_lt (by simp; omega)
  have pageSize : arPageSize = 4096 := rfl
  have hashSize : machineHashSize = 32 := rfl
  constructor
  · intro read
    obtain ⟨index, indexRead, read⟩ := bind_ok.mp read
    obtain ⟨bytes, dataRead, read⟩ := bind_ok.mp read
    obtain ⟨hash, hashRead, read⟩ := bind_ok.mp read
    cases read
    obtain ⟨_, rfl⟩ := uint64At_iff.mp indexRead
    obtain ⟨_, rfl⟩ := bytesAt_iff.mp dataRead
    obtain ⟨inside, rfl⟩ := hashAt_iff.mp hashRead
    rw [data, scratch] at *
    exact ⟨by omega, rfl⟩
  · rintro ⟨inside, rfl⟩
    apply bind_ok.mpr
    refine ⟨_, uint64At_iff.mpr ⟨by omega, rfl⟩, bind_ok.mpr ?_⟩
    refine ⟨_, bytesAt_iff.mpr ⟨by omega, rfl⟩, bind_ok.mpr ?_⟩
    refine ⟨_, hashAt_iff.mpr ⟨by omega, rfl⟩, ?_⟩
    rw [data, scratch]
    rfl

theorem bytes_logPageAt {offset : Nat} (inside : offset + 4136 ≤ image.length) :
    (logPageAt image offset).bytes = slice image offset 4136 := by
  have index : (slice image offset 8).length = 8 := length_slice (by omega)
  have first : slice image offset 4136 = slice image offset 8 ++ slice image (offset + 8) 4128 :=
    slice_add offset 8 4128
  have second : slice image (offset + 8) 4128 =
      slice image (offset + 8) 4096 ++ slice image (offset + 8 + 4096) 32 :=
    slice_add (offset + 8) 4096 32
  rw [LogPage.bytes, logPageAt, wordToBytes_wordOfBytes index, first, second]
  rfl

theorem logPageAt_of_slice {offset : Nat} {page : LogPage} (data : page.data.length = arPageSize)
    (scratch : page.scratch.length = machineHashSize)
    (whole : slice image offset 4136 = page.bytes) : logPageAt image offset = page := by
  have part : ∀ inner count, inner + count ≤ 4136 →
      slice image (offset + inner) count = slice page.bytes inner count := by
    intro inner count inside
    rw [← whole, slice_slice inside]
  have index : slice image offset 8 = wordToBytes page.index := by
    rw [← Nat.add_zero offset, part 0 8 (by omega), LogPage.bytes,
      slice_head (length_wordToBytes _)]
  have bytes : slice image (offset + 8) arPageSize = page.data := by
    rw [part 8 arPageSize (by decide), LogPage.bytes]
    exact (slice_append (length_wordToBytes _) 0 arPageSize).trans (slice_head data)
  have hash : slice image (offset + 4104) machineHashSize = page.scratch := by
    have size : page.data.length = 4096 := data
    rw [part 4104 machineHashSize (by decide), LogPage.bytes]
    refine (slice_append (length_wordToBytes _) 4096 machineHashSize).trans ?_
    refine (slice_append size 0 machineHashSize).trans ?_
    have alone := @slice_head page.scratch [] machineHashSize scratch
    rw [List.append_nil] at alone
    exact alone
  rw [logPageAt, index, bytes, hash, wordOfBytes_wordToBytes]

/-- The pages that stand one after the other from an offset on. -/
def logPagesAt (image : List Byte) (first count : Nat) : List LogPage :=
  (List.range count).map fun position => logPageAt image (first + position * 4136)

theorem arrayAt_pages {first : Word} {count : Nat} {pages : List (PageType Hash)}
    (room : first.toNat + 4136 * count < 2 ^ 64)
    (inside : first.toNat + 4136 * count ≤ image.length) :
    arrayAt first pageTypeSize count (pageAt image ofBytes) = .ok pages ↔
      pages = (logPagesAt image first.toNat count).map (LogPage.pageType ofBytes) := by
  have size : pageTypeSize.toNat = 4136 := rfl
  have element : ∀ position ∈ List.range count, ∀ page : PageType Hash,
      pageAt image ofBytes (first + BitVec.ofNat 64 position * pageTypeSize) = .ok page ↔
        page = (logPageAt image (first.toNat + position * 4136)).pageType ofBytes := by
    intro position member page
    have bounded := List.mem_range.mp member
    have place := @toNat_elementOffset first pageTypeSize count position (by rw [size]; omega) bounded
    rw [size] at place
    rw [pageAt_iff (by omega), place]
    constructor
    · exact fun read => read.2
    · exact fun same => ⟨by omega, same⟩
  rw [arrayAt_iff, logPagesAt, List.map_map, forall₂_iff_map element]
  rfl

theorem arrayAt_hashes {first : Word} {count : Nat} {hashes : List Hash}
    (room : first.toNat + 32 * count < 2 ^ 64)
    (inside : first.toNat + 32 * count ≤ image.length) :
    arrayAt first 32 count (hashAt image ofBytes) = .ok hashes ↔
      hashes = ((List.range count).map fun position =>
        slice image (first.toNat + position * 32) 32).map ofBytes := by
  have size : (32 : Word).toNat = 32 := rfl
  have hashSize : machineHashSize = 32 := rfl
  have element : ∀ position ∈ List.range count, ∀ hash : Hash,
      hashAt image ofBytes (first + BitVec.ofNat 64 position * 32) = .ok hash ↔
        hash = ofBytes (slice image (first.toNat + position * 32) 32) := by
    intro position member hash
    have bounded := List.mem_range.mp member
    have place := @toNat_elementOffset first 32 count position (by rw [size]; omega) bounded
    rw [size] at place
    rw [hashAt_iff, place]
    constructor
    · exact fun read => read.2
    · exact fun same => ⟨by omega, same⟩
  rw [arrayAt_iff, List.map_map, forall₂_iff_map element]
  rfl

end Pages

section Files

variable {image : List Byte} {Hash : Type} {ofBytes : List Byte → Hash}

theorem hashFunctionOf_iff {value : Word} {function : HashFunctionType} :
    hashFunctionOf value = .ok function ↔ value = function.value := by
  unfold hashFunctionOf
  constructor
  · intro decoded
    split at decoded
    · next zero =>
        cases decoded
        exact zero
    · split at decoded
      · next one =>
          cases decoded
          exact one
      · cases decoded
  · rintro rfl
    cases function <;> rfl

namespace LogFile

variable (file : LogFile)

theorem before_length : file.rootHashBefore.length = 32 := file.before_size

theorem after_length : file.rootHashAfter.length = 32 := file.after_size

theorem length_page (page : LogPage) (member : page ∈ file.pages) : page.bytes.length = 4136 := by
  have pageSize : arPageSize = 4096 := rfl
  have hashSize : machineHashSize = 32 := rfl
  obtain ⟨data, scratch⟩ := file.page_size page member
  rw [LogPage.bytes, List.length_append, List.length_append, length_wordToBytes, data, scratch]
  omega

theorem length_pages : (file.pages.map LogPage.bytes).flatten.length = 4136 * file.pages.length := by
  have sizes : ∀ block ∈ file.pages.map LogPage.bytes, block.length = 4136 := by
    intro block member
    obtain ⟨page, logged, rfl⟩ := List.mem_map.mp member
    exact file.length_page page logged
  rw [length_flatten sizes, List.length_map, Nat.mul_comm]

theorem length_siblings : file.siblingHashes.flatten.length = 32 * file.siblingHashes.length := by
  rw [length_flatten file.sibling_size, Nat.mul_comm]
  rfl

theorem length_bytes :
    file.bytes.length = 96 + 4136 * file.pages.length + 32 * file.siblingHashes.length := by
  have hashSize : machineHashSize = 32 := rfl
  simp only [bytes, List.length_append, length_wordToBytes, file.before_size, file.after_size,
    file.length_pages, file.length_siblings]
  omega

theorem slice_before : slice file.bytes 0 32 = file.rootHashBefore := slice_head file.before_length

theorem slice_mcycleCount : slice file.bytes 32 8 = wordToBytes file.mcycleCount := by
  show slice file.bytes (32 + 0) 8 = _
  rw [bytes, slice_append file.before_length, slice_head (length_wordToBytes _)]

theorem slice_after : slice file.bytes 40 32 = file.rootHashAfter := by
  show slice file.bytes (32 + (8 + 0)) 32 = _
  rw [bytes, slice_append file.before_length, slice_append (length_wordToBytes _),
    slice_head file.after_length]

theorem slice_hashFunction : slice file.bytes 72 8 = wordToBytes file.hashFunction.value := by
  show slice file.bytes (32 + (8 + (32 + 0))) 8 = _
  rw [bytes, slice_append file.before_length, slice_append (length_wordToBytes _),
    slice_append file.after_length, slice_head (length_wordToBytes _)]

theorem slice_pageCount :
    slice file.bytes 80 8 = wordToBytes (BitVec.ofNat 64 file.pages.length) := by
  show slice file.bytes (32 + (8 + (32 + (8 + 0)))) 8 = _
  rw [bytes, slice_append file.before_length, slice_append (length_wordToBytes _),
    slice_append file.after_length, slice_append (length_wordToBytes _),
    slice_head (length_wordToBytes _)]

/-- The part of a file after its page count. -/
theorem slice_pages (offset length : Nat) :
    slice file.bytes (88 + offset) length =
      slice ((file.pages.map LogPage.bytes).flatten ++
        (wordToBytes (BitVec.ofNat 64 file.siblingHashes.length) ++ file.siblingHashes.flatten))
        offset length := by
  have start : 88 + offset = 32 + (8 + (32 + (8 + (8 + offset)))) := by omega
  rw [start, bytes, slice_append file.before_length, slice_append (length_wordToBytes _),
    slice_append file.after_length, slice_append (length_wordToBytes _),
    slice_append (length_wordToBytes _)]

theorem slice_siblingCount :
    slice file.bytes (88 + 4136 * file.pages.length) 8 =
      wordToBytes (BitVec.ofNat 64 file.siblingHashes.length) := by
  rw [file.slice_pages, ← Nat.add_zero (4136 * _), slice_append file.length_pages,
    slice_head (length_wordToBytes _)]

/-- The part of a file after its sibling count. -/
theorem slice_siblings (offset length : Nat) :
    slice file.bytes (96 + 4136 * file.pages.length + offset) length =
      slice file.siblingHashes.flatten offset length := by
  have start : 96 + 4136 * file.pages.length + offset =
      88 + (4136 * file.pages.length + (8 + offset)) := by omega
  rw [start, file.slice_pages, slice_append file.length_pages, slice_append (length_wordToBytes _)]

theorem logPagesAt_bytes : logPagesAt file.bytes 88 file.pages.length = file.pages := by
  have sizes : ∀ block ∈ file.pages.map LogPage.bytes, block.length = 4136 := by
    intro block member
    obtain ⟨page, logged, rfl⟩ := List.mem_map.mp member
    exact file.length_page page logged
  apply List.ext_getElem?
  intro position
  by_cases inside : position < file.pages.length
  · have found : (file.pages.map LogPage.bytes)[position]? =
        some (file.pages.get ⟨position, inside⟩).bytes := by
      simp [inside]
    have whole := slice_flatten sizes
      (wordToBytes (BitVec.ofNat 64 file.siblingHashes.length) ++ file.siblingHashes.flatten) found
    rw [← file.slice_pages] at whole
    have same := logPageAt_of_slice (file.page_size _ (List.get_mem _ _)).1
      (file.page_size _ (List.get_mem _ _)).2 whole
    rw [logPagesAt, List.getElem?_map, List.getElem?_range inside, Option.map_some, same]
    simp [inside]
  · rw [List.getElem?_eq_none (by simp [logPagesAt]; omega), List.getElem?_eq_none (by omega)]

theorem siblingsAt_bytes :
    ((List.range file.siblingHashes.length).map fun position =>
      slice file.bytes (96 + 4136 * file.pages.length + position * 32) 32) = file.siblingHashes := by
  apply List.ext_getElem?
  intro position
  by_cases inside : position < file.siblingHashes.length
  · have found : file.siblingHashes[position]? =
        some (file.siblingHashes.get ⟨position, inside⟩) := by
      simp [inside]
    have whole := slice_flatten file.sibling_size [] found
    rw [List.append_nil, show machineHashSize = 32 from rfl, ← file.slice_siblings] at whole
    rw [List.getElem?_map, List.getElem?_range inside, Option.map_some, whole, found]
  · rw [List.getElem?_eq_none (by simp; omega), List.getElem?_eq_none (by omega)]

end LogFile

/-- The sibling hashes that stand one after the other from an offset on. -/
def siblingSlices (image : List Byte) (first count : Nat) : List (List Byte) :=
  (List.range count).map fun position => slice image (first + position * 32) 32

theorem length_logPagesAt (first count : Nat) : (logPagesAt image first count).length = count := by
  rw [logPagesAt, List.length_map, List.length_range]

theorem map_bytes_logPagesAt {first count : Nat} (inside : first + 4136 * count ≤ image.length) :
    (logPagesAt image first count).map LogPage.bytes =
      (List.range count).map fun position => slice image (first + position * 4136) 4136 := by
  rw [logPagesAt, List.map_map]
  apply List.map_congr_left
  intro position member
  have bounded := List.mem_range.mp member
  exact bytes_logPageAt (by omega)

/-- An image of the right size is the sequence of its fields. -/
theorem image_layout (image : List Byte) (pages siblings : Nat)
    (size : image.length = 96 + 4136 * pages + 32 * siblings) :
    image = slice image 0 32 ++ (slice image 32 8 ++ (slice image 40 32 ++ (slice image 72 8 ++
      (slice image 80 8 ++
        (((List.range pages).map fun position => slice image (88 + position * 4136) 4136).flatten ++
          (slice image (88 + 4136 * pages) 8 ++
            (siblingSlices image (96 + 4136 * pages) siblings).flatten)))))) := by
  have before : image.drop 0 = slice image 0 32 ++ image.drop 32 := drop_eq_slice_append 0 32
  have mcycle : image.drop 32 = slice image 32 8 ++ image.drop 40 := drop_eq_slice_append 32 8
  have after : image.drop 40 = slice image 40 32 ++ image.drop 72 := drop_eq_slice_append 40 32
  have function : image.drop 72 = slice image 72 8 ++ image.drop 80 := drop_eq_slice_append 72 8
  have count : image.drop 80 = slice image 80 8 ++ image.drop 88 := drop_eq_slice_append 80 8
  have logged := @drop_eq_slices_append image 88 4136 pages
  have siblingCount := @drop_eq_slice_append image (88 + pages * 4136) 8
  have last := @drop_eq_slices_append image (88 + pages * 4136 + 8) 32 siblings
  have done : image.drop (88 + pages * 4136 + 8 + siblings * 32) = [] :=
    List.drop_eq_nil_of_le (by omega)
  have start : 88 + pages * 4136 + 8 = 96 + 4136 * pages := by ring
  have commuted : pages * 4136 = 4136 * pages := Nat.mul_comm _ _
  rw [done, List.append_nil] at last
  rw [last, start, commuted] at siblingCount
  rw [commuted, siblingCount] at logged
  rw [logged] at count
  rw [count] at function
  rw [function] at after
  rw [after] at mcycle
  rw [mcycle] at before
  exact before

/-- The verifier reads every file of the format back. -/
theorem readContext_bytes (file : LogFile) (fits : file.bytes.length < 2 ^ 64) :
    readContext file.bytes ofBytes = .ok (file.context ofBytes) := by
  have total := file.length_bytes
  have hashSize : machineHashSize = 32 := rfl
  have one : (1 : Word).toNat = 1 := rfl
  have eight : (8 : Word).toNat = 8 := rfl
  have thirtyTwo : (32 : Word).toNat = 32 := rfl
  have pageSize : pageTypeSize.toNat = 4136 := rfl
  have pageCount : (BitVec.ofNat 64 file.pages.length).toNat = file.pages.length := by
    rw [BitVec.toNat_ofNat]
    omega
  have siblingCount :
      (BitVec.ofNat 64 file.siblingHashes.length).toNat = file.siblingHashes.length := by
    rw [BitVec.toNat_ofNat]
    omega
  have pagesEnd : (BitVec.ofNat 64 (88 + 4136 * file.pages.length)).toNat =
      88 + 4136 * file.pages.length := by
    rw [BitVec.toNat_ofNat]
    omega
  have countEnd : (BitVec.ofNat 64 (96 + 4136 * file.pages.length)).toNat =
      96 + 4136 * file.pages.length := by
    rw [BitVec.toNat_ofNat]
    omega
  have whole : (BitVec.ofNat 64 file.bytes.length).toNat = file.bytes.length := by
    rw [BitVec.toNat_ofNat]
    omega
  have some : (BitVec.ofNat 64 file.pages.length : Word) ≠ 0 := by
    intro none
    have empty : file.pages.length = 0 := by rw [← pageCount, none]; rfl
    exact file.has_pages (List.length_eq_zero_iff.mp empty)
  have start88 : (88 : Word).toNat = 88 := rfl
  have pages : arrayAt 88 pageTypeSize file.pages.length (pageAt file.bytes ofBytes) =
      .ok (file.pages.map (LogPage.pageType ofBytes)) := by
    apply (arrayAt_pages (by omega) (by omega)).mpr
    rw [start88, file.logPagesAt_bytes]
  have siblings : arrayAt (BitVec.ofNat 64 (96 + 4136 * file.pages.length)) 32
      file.siblingHashes.length (hashAt file.bytes ofBytes) =
      .ok (file.siblingHashes.map ofBytes) := by
    apply (arrayAt_hashes (by omega) (by omega)).mpr
    rw [countEnd, file.siblingsAt_bytes]
  have word : ∀ {offset : Word} {value : Word}, offset.toNat + 8 ≤ file.bytes.length →
      slice file.bytes offset.toNat 8 = wordToBytes value →
      uint64At file.bytes offset = .ok value := by
    intro offset value inside found
    apply uint64At_iff.mpr
    rw [found, wordOfBytes_wordToBytes]
    exact ⟨inside, rfl⟩
  have hash : ∀ {offset : Word} {value : List Byte}, offset.toNat + 32 ≤ file.bytes.length →
      slice file.bytes offset.toNat 32 = value →
      hashAt file.bytes ofBytes offset = .ok (ofBytes value) := by
    intro offset value inside found
    apply hashAt_iff.mpr
    rw [hashSize, found]
    exact ⟨inside, rfl⟩
  unfold readContext
  refine bind_ok.mpr ⟨32, validateAndAdvanceOffset_iff.mpr ⟨rfl, by omega⟩, bind_ok.mpr ?_⟩
  refine ⟨_, hash (by simp; omega) file.slice_before, bind_ok.mpr ?_⟩
  refine ⟨40, validateAndAdvanceOffset_iff.mpr ⟨rfl, ?_⟩, bind_ok.mpr ?_⟩
  · show 40 ≤ _
    omega
  refine ⟨_, word (by omega) file.slice_mcycleCount, bind_ok.mpr ?_⟩
  refine ⟨72, validateAndAdvanceOffset_iff.mpr ⟨rfl, ?_⟩, bind_ok.mpr ?_⟩
  · show 72 ≤ _
    omega
  refine ⟨_, hash ?_ file.slice_after, bind_ok.mpr ?_⟩
  · show 40 + 32 ≤ _
    omega
  refine ⟨80, validateAndAdvanceOffset_iff.mpr ⟨rfl, ?_⟩, bind_ok.mpr ?_⟩
  · show 80 ≤ _
    omega
  refine ⟨_, word ?_ file.slice_hashFunction, bind_ok.mpr ?_⟩
  · show 72 + 8 ≤ _
    omega
  refine ⟨_, hashFunctionOf_iff.mpr rfl, bind_ok.mpr ?_⟩
  refine ⟨88, validateAndAdvanceOffset_iff.mpr ⟨rfl, ?_⟩, bind_ok.mpr ?_⟩
  · show 88 ≤ _
    omega
  refine ⟨_, word ?_ file.slice_pageCount, bind_ok.mpr ⟨(), check_pos some, bind_ok.mpr ?_⟩⟩
  · show 80 + 8 ≤ _
    omega
  refine ⟨BitVec.ofNat 64 (88 + 4136 * file.pages.length),
    validateAndAdvanceOffset_iff.mpr ⟨?_, by omega⟩, bind_ok.mpr ?_⟩
  · rw [pagesEnd, pageCount]
    rfl
  refine ⟨BitVec.ofNat 64 (96 + 4136 * file.pages.length),
    validateAndAdvanceOffset_iff.mpr ⟨?_, by omega⟩, bind_ok.mpr ?_⟩
  · rw [countEnd, pagesEnd, eight, one]
    omega
  refine ⟨_, word (by omega) (by rw [pagesEnd]; exact file.slice_siblingCount), bind_ok.mpr ?_⟩
  refine ⟨BitVec.ofNat 64 file.bytes.length,
    validateAndAdvanceOffset_iff.mpr ⟨?_, by omega⟩, bind_ok.mpr ?_⟩
  · rw [whole, countEnd, siblingCount, thirtyTwo, total]
  refine ⟨(), check_pos whole, bind_ok.mpr ?_⟩
  rw [pageCount, siblingCount]
  exact ⟨_, pages, bind_ok.mpr ⟨_, siblings, rfl⟩⟩

/-- An image that the verifier reads is a file of the format. -/
theorem readContext_file {context : Context Hash}
    (read : readContext image ofBytes = .ok context) :
    ∃ file : LogFile, file.bytes = image ∧ file.context ofBytes = context ∧
      image.length < 2 ^ 64 := by
  obtain ⟨offset1, advanced1, read⟩ := bind_ok.mp read
  obtain ⟨before, beforeRead, read⟩ := bind_ok.mp read
  obtain ⟨offset2, advanced2, read⟩ := bind_ok.mp read
  obtain ⟨mcycleCount, mcycleRead, read⟩ := bind_ok.mp read
  obtain ⟨offset3, advanced3, read⟩ := bind_ok.mp read
  obtain ⟨after, afterRead, read⟩ := bind_ok.mp read
  obtain ⟨offset4, advanced4, read⟩ := bind_ok.mp read
  obtain ⟨value, valueRead, read⟩ := bind_ok.mp read
  obtain ⟨function, functionRead, read⟩ := bind_ok.mp read
  obtain ⟨offset5, advanced5, read⟩ := bind_ok.mp read
  obtain ⟨pageCount, pageCountRead, read⟩ := bind_ok.mp read
  obtain ⟨_, positive, read⟩ := bind_ok.mp read
  obtain ⟨offset6, advanced6, read⟩ := bind_ok.mp read
  obtain ⟨offset7, advanced7, read⟩ := bind_ok.mp read
  obtain ⟨siblingCount, siblingCountRead, read⟩ := bind_ok.mp read
  obtain ⟨offset8, advanced8, read⟩ := bind_ok.mp read
  obtain ⟨_, exact, read⟩ := bind_ok.mp read
  obtain ⟨pages, pagesRead, read⟩ := bind_ok.mp read
  obtain ⟨siblings, siblingsRead, read⟩ := bind_ok.mp read
  cases read
  obtain ⟨place1, _⟩ := validateAndAdvanceOffset_iff.mp advanced1
  obtain ⟨place2, _⟩ := validateAndAdvanceOffset_iff.mp advanced2
  obtain ⟨place3, _⟩ := validateAndAdvanceOffset_iff.mp advanced3
  obtain ⟨place4, _⟩ := validateAndAdvanceOffset_iff.mp advanced4
  obtain ⟨place5, _⟩ := validateAndAdvanceOffset_iff.mp advanced5
  obtain ⟨place6, _⟩ := validateAndAdvanceOffset_iff.mp advanced6
  obtain ⟨place7, _⟩ := validateAndAdvanceOffset_iff.mp advanced7
  obtain ⟨place8, _⟩ := validateAndAdvanceOffset_iff.mp advanced8
  have size := check_ok.mp exact
  have bound8 := offset8.isLt
  have one : (1 : Word).toNat = 1 := rfl
  have eight : (8 : Word).toNat = 8 := rfl
  have thirtyTwo : (32 : Word).toNat = 32 := rfl
  have pageSize : pageTypeSize.toNat = 4136 := rfl
  have hashSize : machineHashSize = 32 := rfl
  rw [one, thirtyTwo] at place1 place3
  rw [one, eight] at place2 place4 place5 place7
  rw [pageSize] at place6
  rw [thirtyTwo] at place8
  have start1 : offset1.toNat = 32 := place1
  have start2 : offset2.toNat = 40 := by omega
  have start3 : offset3.toNat = 72 := by omega
  have start4 : offset4.toNat = 80 := by omega
  have start5 : offset5.toNat = 88 := by omega
  have start6 : offset6.toNat = 88 + 4136 * pageCount.toNat := by omega
  have start7 : offset7.toNat = 96 + 4136 * pageCount.toNat := by omega
  obtain ⟨_, rfl⟩ := hashAt_iff.mp beforeRead
  obtain ⟨_, rfl⟩ := uint64At_iff.mp mcycleRead
  obtain ⟨_, rfl⟩ := hashAt_iff.mp afterRead
  obtain ⟨_, valueEq⟩ := uint64At_iff.mp valueRead
  obtain ⟨_, countEq⟩ := uint64At_iff.mp pageCountRead
  obtain ⟨_, siblingEq⟩ := uint64At_iff.mp siblingCountRead
  have functionEq := hashFunctionOf_iff.mp functionRead
  have pagesEq := (arrayAt_pages (by omega) (by omega)).mp pagesRead
  have siblingsEq := (arrayAt_hashes (by omega) (by omega)).mp siblingsRead
  rw [start3] at valueEq
  rw [start4] at countEq
  rw [start6] at siblingEq
  rw [start5] at pagesEq
  rw [start7] at siblingsEq
  have layout := image_layout image pageCount.toNat siblingCount.toNat (by omega)
  refine ⟨{
    rootHashBefore := slice image 0 32
    mcycleCount := wordOfBytes (slice image 32 8)
    rootHashAfter := slice image 40 32
    hashFunction := function
    pages := logPagesAt image 88 pageCount.toNat
    siblingHashes := siblingSlices image (96 + 4136 * pageCount.toNat) siblingCount.toNat
    before_size := length_slice (by omega)
    after_size := length_slice (by omega)
    has_pages := ?_
    page_size := ?_
    sibling_size := ?_ }, ?_, ?_, by omega⟩
  · intro empty
    have none : pageCount.toNat = 0 := by simpa [logPagesAt] using congrArg List.length empty
    exact check_ok.mp positive (BitVec.toNat_inj.mp none)
  · intro page member
    obtain ⟨position, counted, rfl⟩ := List.mem_map.mp member
    have bounded := List.mem_range.mp counted
    have dataSize : arPageSize = 4096 := rfl
    exact ⟨length_slice (by omega), length_slice (by omega)⟩
  · intro hash member
    obtain ⟨position, counted, rfl⟩ := List.mem_map.mp member
    have bounded := List.mem_range.mp counted
    exact length_slice (by omega)
  · have valueBytes : wordToBytes function.value = slice image 72 8 := by
      rw [← functionEq, valueEq, wordToBytes_wordOfBytes (length_slice (by omega))]
    have countBytes : wordToBytes (BitVec.ofNat 64 (logPagesAt image 88 pageCount.toNat).length) =
        slice image 80 8 := by
      rw [length_logPagesAt, BitVec.ofNat_toNat, BitVec.setWidth_eq, countEq,
        wordToBytes_wordOfBytes (length_slice (by omega))]
    have siblingBytes : wordToBytes (BitVec.ofNat 64
          (siblingSlices image (96 + 4136 * pageCount.toNat) siblingCount.toNat).length) =
        slice image (88 + 4136 * pageCount.toNat) 8 := by
      rw [siblingSlices, List.length_map, List.length_range, BitVec.ofNat_toNat,
        BitVec.setWidth_eq, siblingEq, wordToBytes_wordOfBytes (length_slice (by omega))]
    show slice image 0 32 ++ (wordToBytes (wordOfBytes (slice image 32 8)) ++ _) = image
    rw [wordToBytes_wordOfBytes (length_slice (by omega)), valueBytes, countBytes, siblingBytes,
      map_bytes_logPagesAt (by omega)]
    exact layout.symm
  · rw [pagesEq, siblingsEq, start1, start2]
    rfl

end Files

end MachineEmulator.StepLog
