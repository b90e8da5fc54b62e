/-
This file proves what a cache of page hash trees becomes when its memory is stored to a file and read
back: the same cache, but for the last hash of the last entry.
-/

import MachineEmulator.Construction.HashTree.CacheStorage

namespace MachineEmulator.HashTree

namespace Image

variable {image other : Image} {position : Nat}

theorem readWord_congr (same : ∀ index < 8, other (position + index) = image (position + index)) :
    other.readWord position = image.readWord position := by
  rw [readWord, readWord]
  congr 1
  apply List.map_congr_left
  intro index member
  exact same index (List.mem_range.mp member)

theorem pointer_congr (same : ∀ index < 8, other (position + index) = image (position + index)) :
    other.pointer position = image.pointer position := by
  rw [pointer, pointer, readWord_congr same]

theorem readBytes_congr {length : Nat}
    (same : ∀ index < length, other (position + index) = image (position + index)) :
    other.readBytes position length = image.readBytes position length := by
  apply List.map_congr_left
  intro index member
  exact same index (List.mem_range.mp member)

theorem readHash_congr (same : ∀ index < 32, other (position + index) = image (position + index)) :
    other.readHash position = image.readHash position := by
  funext index
  exact same index.val index.isLt

theorem getD_readBytes (length place : Nat) : (image.readBytes position length).getD place 0 =
    if place < length then image (position + place) else 0 := by
  rw [readBytes, List.getD_eq_getElem?_getD, List.getElem?_map]
  by_cases inside : place < length
  · rw [List.getElem?_range inside, if_pos inside]
    rfl
  · rw [List.getElem?_eq_none (by simpa using inside), if_neg inside]
    rfl

theorem writeBytes_inside {data : List Byte} {place : Nat} (above : position ≤ place)
    (below : place < position + data.length) :
    image.writeBytes position data place = data.getD (place - position) 0 := if_pos ⟨above, below⟩

theorem writeBytes_outside {data : List Byte} {place : Nat}
    (outside : place < position ∨ position + data.length ≤ place) :
    image.writeBytes position data place = image place := if_neg (by omega)

theorem readWord_writeWord (value : Word) : (image.writeWord position value).readWord position = value := by
  have bytes : (List.range 8).map (fun index => image.writeWord position value (position + index)) =
      wordToBytes value := by
    apply List.ext_getElem
    · rfl
    · intro index inside inside'
      have length : (wordToBytes value).length = 8 := length_wordToBytes value
      rw [List.getElem_map, List.getElem_range, writeWord, writeBytes_inside (by omega) (by omega),
        Nat.add_sub_cancel_left, List.getD_eq_getElem _ _ inside']
  rw [readWord, bytes, wordOfBytes_wordToBytes]

theorem readWord_writeWord_apart {place : Nat} {value : Word}
    (apart : place + 8 ≤ position ∨ position + 8 ≤ place) :
    (image.writeWord position value).readWord place = image.readWord place := by
  apply readWord_congr
  intro index inside
  apply writeBytes_outside
  rw [length_wordToBytes]
  omega

theorem readWord_zero (zero : ∀ index < 8, image (position + index) = 0) :
    image.readWord position = 0 := by
  have same : image.readWord position = readWord (fun _ => 0) position := readWord_congr zero
  rw [same]
  show wordOfBytes ((List.range 8).map fun _ => 0) = 0
  decide

end Image

namespace MappedCache

section Walk

variable {layout : ListLayout} {image : Image} {position : Nat}

theorem root_bounds (layout : ListLayout) : 8 ≤ layout.root ∧ layout.root + 16 ≤ 32 := by
  cases layout <;> decide

theorem size_bounds (layout : ListLayout) : 8 ≤ layout.size ∧ layout.size + 8 ≤ 32 := by
  cases layout <;> decide

theorem entryPosition_eq (index : Nat) : entryPosition index = 32 + 12304 * index := rfl

theorem nodePosition_eq (index node : Nat) :
    nodePosition index node = 4144 + 12304 * index + 32 * node := by
  rw [nodePosition, entryPosition_eq]
  omega

theorem pagePosition_eq (index : Nat) : pagePosition index = 48 + 12304 * index := by
  rw [pagePosition, entryPosition_eq]
  omega

/-- A place that is not the tag is where the pointer leads. -/
theorem pointer_of_getD {target : Nat} (nonzero : target ≠ 0)
    (leads : (image.pointer position).getD 0 = target) : image.pointer position = some target := by
  cases pointer : image.pointer position with
  | none =>
      rw [pointer] at leads
      exact absurd leads.symm nonzero
  | some place =>
      rw [pointer] at leads
      exact congrArg some leads

theorem pointer_of_follow_none (back : lru.follow layout image position = none) :
    image.pointer position = some layout.root := by
  have root := root_bounds layout
  unfold lru.follow at back
  extract_lets target at back
  split at back
  next here => exact pointer_of_getD (by omega) here
  next => exact absurd back nofun

theorem pointer_of_follow_some {target : Nat} (nonzero : target ≠ 0)
    (forth : lru.follow layout image position = some target) :
    image.pointer position = some target ∧ target ≠ layout.root := by
  unfold lru.follow at forth
  extract_lets place at forth
  split at forth
  next => exact absurd forth nofun
  next apart =>
    obtain rfl := Option.some.inj forth
    exact ⟨pointer_of_getD nonzero rfl, apart⟩

/-- The loop of the constructor goes once around a list of entries. -/
theorem validateLru_chain {capacity : Nat} {start : Option Nat} {nodes : List Nat}
    (inside : ∀ node ∈ nodes, node < capacity)
    (chain : List.IsChain (lru layout image).Joined
      (start :: ((nodes.map entryPosition).map some ++ [none])))
    {steps : Nat} (enough : nodes.length < steps) :
    validateLru layout capacity image steps (start.getD layout.root) =
      .ok (nodes.map entryPosition) := by
  induction nodes generalizing start steps with
  | nil =>
      obtain ⟨steps, rfl⟩ : ∃ rest, steps = rest + 1 := ⟨steps - 1, by simp at enough; omega⟩
      have back := pointer_of_follow_none (List.isChain_cons_cons.mp chain).1.1
      rw [validateLru, back]
      exact if_pos rfl
  | cons node nodes ih =>
      obtain ⟨steps, rfl⟩ : ∃ rest, steps = rest + 1 := ⟨steps - 1, by simp at enough; omega⟩
      obtain ⟨⟨next, prev⟩, rest⟩ := List.isChain_cons_cons.mp chain
      have place := entryPosition_eq node
      have low : node < capacity := inside node List.mem_cons_self
      obtain ⟨leads, apart⟩ := pointer_of_follow_some (by omega) next
      have bounded : entryPosition 0 ≤ entryPosition node ∧
          entryPosition node < entryPosition capacity := by
        rw [entryPosition_eq, entryPosition_eq, entryPosition_eq]
        omega
      have aligned : entryPosition node % 8 = 0 := by omega
      have follows := ih (fun other member => inside other (List.mem_cons_of_mem _ member)) rest
        (by simpa using enough : nodes.length < steps)
      rw [validateLru, leads]
      show (if entryPosition node = layout.root then _ else _) = _
      rw [if_neg apart, check_pos bounded, check_pos aligned]
      show (validateLru layout capacity image steps (entryPosition node) >>= _) = _
      rw [show entryPosition node = (some (entryPosition node)).getD layout.root from rfl, follows]
      rfl

end Walk

section Stored

variable {layout : ListLayout} {mapped : MappedCache} {cache : EntryCache MachineHash}

theorem getStorageLength_eq (mapped : MappedCache) :
    getStorageLength mapped.capacity = 24 + 12304 * mapped.capacity := by
  have fits := mapped.fits
  rw [entryPosition_eq] at fits
  have length : lruSize + mapped.capacity * entrySize = 24 + 12304 * mapped.capacity := by
    show 24 + mapped.capacity * 12304 = _
    rw [mul_comm]
  rw [getStorageLength, length]
  exact Nat.mod_eq_of_lt (by omega)

/-- The memory over the stored file: the bytes behind the file are zero. -/
def storedImage (mapped : MappedCache) : Image := fun place =>
  if place < 24 + 12304 * mapped.capacity then mapped.image place else 0

theorem storedImage_eq {place : Nat} (inside : place < 24 + 12304 * mapped.capacity) :
    mapped.storedImage place = mapped.image place := if_pos inside

theorem map_getStorageData (mapped : MappedCache) :
    Image.map (getStorageLength mapped.capacity) (some mapped.getStorageData) =
      .ok mapped.storedImage := by
  have length : mapped.getStorageData.length = getStorageLength mapped.capacity := by
    rw [getStorageData, Image.readBytes, List.length_map, List.length_range]
  rw [Image.map, check_pos length.le, check_pos length.ge]
  show Except.ok _ = _
  congr 1
  funext place
  rw [getStorageData, Image.getD_readBytes, getStorageLength_eq, Nat.zero_add]
  rfl

theorem readWord_storedImage {position : Nat}
    (inside : position + 8 ≤ 24 + 12304 * mapped.capacity) :
    mapped.storedImage.readWord position = mapped.image.readWord position :=
  Image.readWord_congr fun _ bound => storedImage_eq (by omega)

theorem follow_storedImage {position : Nat}
    (inside : position + 8 ≤ 24 + 12304 * mapped.capacity) :
    lru.follow layout mapped.storedImage position = lru.follow layout mapped.image position := by
  have pointer : mapped.storedImage.pointer position = mapped.image.pointer position :=
    Image.pointer_congr fun _ bound => storedImage_eq (by omega)
  rw [lru.follow, lru.follow, pointer]

/-- The file has the list as it was. -/
theorem lru_storedImage {nodes : List Nat} (inside : ∀ node ∈ nodes, node < mapped.capacity)
    (represents : (lru layout mapped.image).Represents (nodes.map entryPosition)) :
    (lru layout mapped.storedImage).Represents (nodes.map entryPosition) := by
  have positive := mapped.positive
  have root := root_bounds layout
  have size := size_bounds layout
  apply represents.congr
  · exact congrArg BitVec.toNat (readWord_storedImage (by omega))
  · intro place known
    have low : place.getD layout.root + 16 ≤ 24 + 12304 * mapped.capacity := by
      rcases known with rfl | ⟨node, member, rfl⟩
      · show layout.root + 16 ≤ _
        omega
      · obtain ⟨index, listed, rfl⟩ := List.mem_map.mp member
        have bound := inside index listed
        show entryPosition index + 16 ≤ _
        rw [entryPosition_eq]
        omega
    exact ⟨follow_storedImage (by omega), follow_storedImage (by omega)⟩

theorem validate_storedImage (holds : mapped.Holds layout cache) {nodes : List Nat}
    (inside : ∀ node ∈ nodes, node < mapped.capacity)
    (represents : (lru layout mapped.image).Represents (nodes.map entryPosition)) :
    validate layout mapped.capacity mapped.storedImage = .ok (nodes.map entryPosition) := by
  have positive := mapped.positive
  have stored := lru_storedImage inside represents
  have tag : mapped.storedImage.readWord 0 = initializedTag :=
    (readWord_storedImage (by omega)).trans holds.tag
  have size : (mapped.storedImage.readWord layout.size).toNat = (nodes.map entryPosition).length :=
    stored.size
  have nodup : nodes.Nodup := List.Nodup.of_map entryPosition represents.nodup
  have few : nodes.length ≤ mapped.capacity := by
    have subset : nodes ⊆ List.range mapped.capacity :=
      fun node member => List.mem_range.mpr (inside node member)
    calc nodes.length ≤ (List.range mapped.capacity).length := (nodup.subperm subset).length_le
      _ = mapped.capacity := List.length_range
  have bounded : (mapped.storedImage.readWord layout.size).toNat ≤ mapped.capacity := by
    rw [size, List.length_map]
    exact few
  have steps : nodes.length < mapped.capacity * (entrySize / 8) + 1 := by
    show nodes.length < mapped.capacity * 1538 + 1
    omega
  have walk := validateLru_chain inside stored.chain steps
  rw [validate, check_pos tag, check_pos bounded]
  show (validateLru layout mapped.capacity mapped.storedImage _ layout.root >>= _) = _
  rw [show layout.root = (none : Option Nat).getD layout.root from rfl, walk]
  show (check _ _ >>= _) = _
  rw [check_pos size]
  rfl

/-- The constructor accepts the stored file. -/
theorem create_getStorageData (holds : mapped.Holds layout cache) (hasher : Hasher MachineHash) :
    ∃ map, create layout hasher mapped.capacity (some mapped.getStorageData) =
      .ok ⟨mapped.capacity, mapped.storedImage, map, mapped.positive, mapped.fits⟩ := by
  have positive := mapped.positive
  obtain ⟨nodes, _, inside, represents⟩ := holds.lru
  have tag : mapped.storedImage.readWord 0 ≠ 0 := by
    rw [readWord_storedImage (by omega), holds.tag]
    decide
  use rebuildMap mapped.storedImage (nodes.map entryPosition)
  rw [create, map_getStorageData]
  show (if positive : 0 < mapped.capacity then _ else _) = _
  rw [dif_pos positive, dif_pos mapped.fits, if_neg tag, validate_storedImage holds inside represents]
  rfl

theorem readHash_storedImage {index node : Nat}
    (early : nodePosition index node + 32 ≤ 24 + 12304 * mapped.capacity) :
    mapped.storedImage.readHash (nodePosition index node) =
      mapped.image.readHash (nodePosition index node) :=
  Image.readHash_congr fun _ bound => storedImage_eq (by omega)

/-- The last eight bytes of the last hash stand behind the file. -/
theorem storedImage_tail {byte : Fin 32} (late : 24 ≤ byte.val) :
    mapped.storedImage.readHash (nodePosition (mapped.capacity - 1) 255) byte = 0 := by
  have positive := mapped.positive
  have place := nodePosition_eq (mapped.capacity - 1) 255
  exact if_neg (by omega)

/-- The last hash is as it was when its last eight bytes are zero. -/
theorem readHash_last (zero : ∀ byte : Fin 32, 24 ≤ byte.val →
      mapped.image.readHash (nodePosition (mapped.capacity - 1) 255) byte = 0) :
    mapped.storedImage.readHash (nodePosition (mapped.capacity - 1) 255) =
      mapped.image.readHash (nodePosition (mapped.capacity - 1) 255) := by
  have positive := mapped.positive
  have place := nodePosition_eq (mapped.capacity - 1) 255
  funext byte
  by_cases late : 24 ≤ byte.val
  · rw [storedImage_tail late, zero byte late]
  · exact storedImage_eq (by omega)

/-- All that the file has is as it was, and it has all but the last eight bytes. -/
theorem Holds.stored (holds : mapped.Holds layout cache)
    (zero : ∀ byte : Fin 32, 24 ≤ byte.val → cache.trees (cache.capacity - 1, 255) byte = 0)
    (map : Nat → Option Nat) :
    Holds layout ⟨mapped.capacity, mapped.storedImage, map, mapped.positive, mapped.fits⟩ cache where
  capacity := holds.capacity
  tag := by
    have positive := mapped.positive
    exact (readWord_storedImage (by omega)).trans holds.tag
  lru := by
    obtain ⟨nodes, listed, inside, represents⟩ := holds.lru
    exact ⟨nodes, listed, inside, lru_storedImage inside represents⟩
  paddrPage index inside := by
    have place := nodePosition_eq index 0
    have inside' : index < mapped.capacity := inside
    show (mapped.storedImage.readWord _).toNat = _
    rw [readWord_storedImage (by omega)]
    exact holds.paddrPage index inside
  borrowed index inside := by
    have place := nodePosition_eq index 0
    have inside' : index < mapped.capacity := inside
    show mapped.storedImage.readWord _ ≠ 0 ↔ _
    rw [readWord_storedImage (by omega)]
    exact holds.borrowed index inside
  page index inside := by
    have place := pagePosition_eq index
    have inside' : index < mapped.capacity := inside
    rw [← holds.page index inside]
    apply Image.readBytes_congr
    intro byte bound
    have bound' : byte < 4096 := bound
    exact storedImage_eq (by omega)
  trees index inside node low high := by
    have place := nodePosition_eq index node
    have inside' : index < mapped.capacity := inside
    rw [← holds.trees index inside node low high]
    by_cases last : nodePosition index node + 32 ≤ 24 + 12304 * mapped.capacity
    · exact readHash_storedImage last
    · have final : index = mapped.capacity - 1 ∧ node = 255 := by omega
      obtain ⟨rfl, rfl⟩ := final
      apply readHash_last
      intro byte late
      rw [holds.trees _ inside 255 low high, holds.capacity]
      exact zero byte late

/-- A cache that comes back from its file has zeros at the end of its last hash. -/
theorem Holds.zero_tail {map : Nat → Option Nat}
    (again : Holds layout ⟨mapped.capacity, mapped.storedImage, map, mapped.positive, mapped.fits⟩
      cache) {byte : Fin 32} (late : 24 ≤ byte.val) :
    cache.trees (cache.capacity - 1, 255) byte = 0 := by
  have positive := mapped.positive
  have same : mapped.capacity = cache.capacity := again.capacity
  have hash := again.trees (mapped.capacity - 1) (Nat.sub_lt positive Nat.one_pos) 255 (by decide)
    (by decide)
  rw [← same, ← hash]
  exact storedImage_tail late

/-- A cache that is stored and read back is the same if and only if the last hash of its last entry
ends in eight zeros. -/
theorem reopened_iff (hasher : Hasher MachineHash) (holds : mapped.Holds layout cache) :
    (∃ reopened, create layout hasher mapped.capacity (some mapped.getStorageData) = .ok reopened ∧
      reopened.Holds layout cache) ↔
    ∀ byte : Fin 32, 24 ≤ byte.val → cache.trees (cache.capacity - 1, 255) byte = 0 := by
  obtain ⟨map, created⟩ := create_getStorageData holds hasher
  constructor
  · rintro ⟨reopened, opened, again⟩ byte late
    obtain rfl := Except.ok.inj (created.symm.trans opened)
    exact again.zero_tail late
  · intro zero
    exact ⟨_, created, holds.stored zero map⟩

end Stored

section Fresh

variable {layout : ListLayout} {hasher : Hasher MachineHash} {image : Image}

/-- Blocks of one length stand one after the other. -/
theorem getD_flatMap_ofFn (hashes : Nat → MachineHash) (start count : Nat) {index : Nat}
    (inside : index < count) (byte : Fin 32) :
    ((List.range' start count).flatMap fun node => List.ofFn (hashes node)).getD
      (32 * index + byte) 0 = hashes (start + index) byte := by
  induction count generalizing start index with
  | zero => omega
  | succ count ih =>
      rw [List.range'_succ, List.flatMap_cons]
      cases index with
      | zero =>
          have low : 32 * 0 + byte.val < (List.ofFn (hashes start)).length := by
            rw [List.length_ofFn]
            omega
          rw [List.getD_append _ _ _ _ low, List.getD_eq_getElem _ _ low, List.getElem_ofFn]
          congr 1
          apply Fin.ext
          exact Nat.zero_add _
      | succ index =>
          have high : (List.ofFn (hashes start)).length ≤ 32 * (index + 1) + byte := by
            rw [List.length_ofFn]
            omega
          rw [List.getD_append_right _ _ _ _ high, List.length_ofFn]
          have place : 32 * (index + 1) + byte.val - 32 = 32 * index + byte := by omega
          have follows := ih (start + 1) (Nat.lt_of_succ_lt_succ inside)
          rw [place, follows]
          congr 1
          omega

theorem length_freshNodes (start count : Nat) : ((List.range' start count).flatMap fun node =>
    List.ofFn (pristinePageHashTree hasher node)).length = 32 * count := by
  rw [List.length_flatMap]
  simp [mul_comm]

theorem length_freshEntry : (freshEntry hasher).length = 12304 := by
  simp only [freshEntry, List.length_append, length_wordToBytes, List.length_replicate,
    length_freshNodes]
  rfl

/-- The part of a new entry behind the hook. -/
theorem getD_freshEntry (place : Nat) : (freshEntry hasher).getD (16 + place) 0 =
    (List.replicate hashTreePageSize 0 ++ (List.replicate 32 0 ++ (List.range' 1 255).flatMap
      fun node => List.ofFn (pristinePageHashTree hasher node))).getD place 0 := by
  rw [freshEntry, List.getD_append_right _ _ _ _ (by rw [length_wordToBytes]; omega),
    length_wordToBytes, List.getD_append_right _ _ _ _ (by rw [length_wordToBytes]; omega),
    length_wordToBytes]
  congr 1
  omega

theorem freshEntry_zero {place : Nat} (low : place < 4128) :
    (freshEntry hasher).getD (16 + place) 0 = 0 := by
  have inside : place < (List.replicate (hashTreePageSize + 32) (0 : Byte)).length := by
    rw [List.length_replicate]
    exact low
  rw [getD_freshEntry, ← List.append_assoc, List.replicate_append_replicate,
    List.getD_append _ _ _ _ inside, List.getD_eq_getElem _ _ inside, List.getElem_replicate]

theorem freshEntry_node {node : Nat} (low : 1 ≤ node) (high : node < 256) (byte : Fin 32) :
    (freshEntry hasher).getD (4112 + 32 * node + byte) 0 = pristinePageHashTree hasher node byte := by
  have place : 4112 + 32 * node + byte.val = 16 + (4128 + (32 * (node - 1) + byte)) := by omega
  rw [place, getD_freshEntry, ← List.append_assoc, List.replicate_append_replicate]
  have behind : (List.replicate (hashTreePageSize + 32) (0 : Byte)).length = 4128 :=
    List.length_replicate
  rw [List.getD_append_right _ _ _ _ (by rw [behind]; omega), behind, Nat.add_sub_cancel_left,
    getD_flatMap_ofFn _ 1 255 (by omega), Nat.add_sub_cancel' low]

theorem writeEntries_below (count : Nat) {place : Nat} (low : place < 32) :
    writeEntries hasher count image place = image place := by
  induction count with
  | zero => rfl
  | succ count ih =>
      have position := entryPosition_eq count
      rw [writeEntries, List.range_succ, List.foldl_append]
      exact (Image.writeBytes_outside (Or.inl (by omega))).trans ih

theorem writeEntries_entry (count : Nat) {index offset : Nat} (inside : index < count)
    (low : offset < 12304) : writeEntries hasher count image (entryPosition index + offset) =
      (freshEntry hasher).getD offset 0 := by
  induction count with
  | zero => omega
  | succ count ih =>
      have length : (freshEntry hasher).length = 12304 := length_freshEntry
      have position := entryPosition_eq index
      have last := entryPosition_eq count
      rw [writeEntries, List.range_succ, List.foldl_append]
      show Image.writeBytes (writeEntries hasher count image) (entryPosition count) _ _ = _
      by_cases same : index = count
      · subst same
        rw [Image.writeBytes_inside (by omega) (by omega), Nat.add_sub_cancel_left]
      · rw [Image.writeBytes_outside (Or.inl (by omega))]
        exact ih (by omega)

variable {numEntries : Nat}

theorem freshImage_entry {index offset : Nat} (inside : index < numEntries) (low : offset < 12304) :
    freshImage layout hasher numEntries image (entryPosition index + offset) =
      (freshEntry hasher).getD offset 0 := by
  have position := entryPosition_eq index
  have tag : (wordToBytes initializedTag).length = 8 := length_wordToBytes _
  rw [freshImage, Image.writeWord, Image.writeBytes_outside (Or.inr (by omega))]
  exact writeEntries_entry numEntries inside low

/-- The page, the page address and the borrowed flag of a new entry are zero. -/
theorem freshImage_zero {index place : Nat} (inside : index < numEntries)
    (above : entryPosition index + 16 ≤ place) (below : place < entryPosition index + 4144) :
    freshImage layout hasher numEntries image place = 0 := by
  obtain ⟨offset, rfl⟩ := Nat.exists_eq_add_of_le above
  rw [Nat.add_assoc, freshImage_entry inside (by omega)]
  exact freshEntry_zero (by omega)

theorem readWord_freshImage {position : Nat} (above : 8 ≤ position) (below : position + 8 ≤ 32) :
    (freshImage layout hasher numEntries image).readWord position =
      (writeList layout image).readWord position := by
  rw [freshImage, Image.readWord_writeWord_apart (Or.inr (by omega))]
  apply Image.readWord_congr
  intro index inside
  exact writeEntries_below numEntries (by omega)

/-- The root of the new list points at itself. -/
theorem writeList_words : (writeList layout image).readWord layout.root = 0 ∧
    (writeList layout image).readWord (layout.root + 8) = -8 ∧
    (writeList layout image).readWord layout.size = 0 := by
  have apart : layout.size + 8 ≤ layout.root ∨ layout.root + 16 ≤ layout.size := by
    cases layout <;> decide
  constructor
  · rw [writeList, Image.readWord_writeWord_apart (by omega),
      Image.readWord_writeWord_apart (by omega), Image.readWord_writeWord]
  constructor
  · rw [writeList, Image.readWord_writeWord_apart (by omega), Image.readWord_writeWord]
  · rw [writeList, Image.readWord_writeWord]

theorem lru_freshImage :
    (lru layout (freshImage layout hasher numEntries image)).Represents [] := by
  have bounds := root_bounds layout
  have size := size_bounds layout
  obtain ⟨next, prev, length⟩ := @writeList_words layout image
  rw [← @readWord_freshImage layout hasher image numEntries _ (by omega) (by omega)] at next prev length
  generalize freshImage layout hasher numEntries image = fresh at *
  have forth : fresh.pointer layout.root = some layout.root := by
    have distance : (0 : Word).toNat = 0 := rfl
    rw [Image.pointer, next, if_neg (by decide), distance, Nat.add_zero,
      Nat.mod_eq_of_lt (by omega)]
  have back : fresh.pointer (layout.root + 8) = some layout.root := by
    have distance : (-8 : Word).toNat = 2 ^ 64 - 8 := by decide
    have turn : (layout.root + 8 + (2 ^ 64 - 8)) % 2 ^ 64 = layout.root := by omega
    rw [Image.pointer, prev, if_neg (by decide), distance, turn]
  constructor
  · apply List.isChain_cons_cons.mpr
    constructor
    · constructor
      · show lru.follow layout fresh layout.root = none
        rw [lru.follow, forth]
        exact if_pos rfl
      · show lru.follow layout fresh (layout.root + 8) = none
        rw [lru.follow, back]
        exact if_pos rfl
    · exact List.isChain_singleton none
  · exact List.nodup_nil
  · show (fresh.readWord layout.size).toNat = 0
    rw [length]
    rfl

/-- The constructor makes the empty cache in new memory. -/
theorem create_fresh (layout : ListLayout) (hasher : Hasher MachineHash) {numEntries : Nat}
    (positive : 0 < numEntries) (fits : entryPosition numEntries ≤ 2 ^ 64) :
    ∃ mapped cache, create layout hasher numEntries none = .ok mapped ∧
      mapped.capacity = numEntries ∧ EntryCache.create hasher numEntries = .ok cache ∧
      mapped.Holds layout cache := by
  refine ⟨⟨numEntries, freshImage layout hasher numEntries fun _ => 0, fun _ => none, positive, fits⟩,
    ⟨numEntries, fun _ => 0, fun _ => false, fun _ => List.replicate hashTreePageSize 0,
      fun node => pristinePageHashTree hasher node.2, LinkedRing.empty, fun _ => none⟩, ?_, rfl, ?_, ?_⟩
  · rw [create]
    show (if positive : 0 < numEntries then _ else _) = _
    rw [dif_pos positive, dif_pos fits]
    rfl
  · rw [EntryCache.create, check_pos (by omega)]
    rfl
  · constructor
    · rfl
    · exact Image.readWord_writeWord initializedTag
    · exact ⟨[], LinkedRing.empty_represents, nofun, lru_freshImage⟩
    · intro index inside
      have place := nodePosition_eq index 0
      have entry := entryPosition_eq index
      show (Image.readWord _ (nodePosition index 0)).toNat = 0
      rw [Image.readWord_zero fun byte low => freshImage_zero inside (by omega) (by omega)]
      rfl
    · intro index inside
      have place := nodePosition_eq index 0
      have entry := entryPosition_eq index
      show Image.readWord _ (nodePosition index 0 + 8) ≠ 0 ↔ _
      rw [Image.readWord_zero fun byte low => freshImage_zero inside (by omega) (by omega)]
      simp
    · intro index inside
      have place := pagePosition_eq index
      have entry := entryPosition_eq index
      apply List.ext_getElem
      · rw [Image.readBytes, List.length_map, List.length_range, List.length_replicate]
      · intro byte low low'
        rw [List.length_replicate, hashTreePageSize, hashTreeLog2PageSize] at low'
        rw [List.getElem_replicate]
        simp only [Image.readBytes, List.getElem_map, List.getElem_range]
        exact freshImage_zero inside (by omega) (by omega)
    · intro index inside node low high
      funext byte
      show freshImage layout hasher numEntries _ (nodePosition index node + byte) = _
      rw [nodePosition, Nat.add_assoc, Nat.add_assoc, freshImage_entry inside (by omega),
        ← Nat.add_assoc]
      exact freshEntry_node low high byte

end Fresh

section Keccak

/-- The hash whose 32 bytes are a number from the most significant byte on. -/
def hashOfNat (value : Nat) : MachineHash := fun byte => BitVec.ofNat 8 (value >>> (8 * (31 - byte.val)))

/-- The Keccak-256 hashes of a word of zeros and of the pairs above it, up to a page. -/
def keccakPristineHashes : List MachineHash :=
  [hashOfNat 0x290decd9548b62a8d60345a988386fc84ba6bc95484008f6362f93160ef3e563,
    hashOfNat 0x633dc4d7da7256660a892f8f1604a44b5432649cc8ec5cb3ced4c4e6ac94dd1d,
    hashOfNat 0x890740a8eb06ce9be422cb8da5cdafc2b58c0a5e24036c578de2a433c828ff7d,
    hashOfNat 0x3b8ec09e026fdc305365dfc94e189a81b38c7597b3d941c279f042e8206e0bd8,
    hashOfNat 0xecd50eee38e386bd62be9bedb990706951b65fe053bd9d8a521af753d139e2da,
    hashOfNat 0xdefff6d330bb5403f63b14f33b578274160de3a50df4efecf0e0db73bcdd3da5,
    hashOfNat 0x617bdd11f7c0a11f49db22f629387a12da7596f9d1704d7465177c63d88ec7d7,
    hashOfNat 0x292c23a9aa1d8bea7e2435e555a4a60e379a5a35f3f452bae60121073fb6eead]

/-- This is Keccak-256 on the hashes of a pristine page. -/
def keccakPristine : Hasher MachineHash where
  hash _ := keccakPristineHashes.getD 0 0
  concatHash left _ := keccakPristineHashes.getD (keccakPristineHashes.findIdx (· = left) + 1) 0
  ofBytes data byte := data.getD byte 0

/-- A new cache with two entries. -/
theorem reopened_iff_fresh : ∃ mapped : MappedCache, ∃ cache : EntryCache MachineHash,
    mapped.Holds .sizeFirst cache ∧
    ((∃ reopened, create .sizeFirst keccakPristine mapped.capacity (some mapped.getStorageData) =
        .ok reopened ∧ reopened.Holds .sizeFirst cache) ↔
      ∀ byte : Fin 32, 24 ≤ byte.val → cache.trees (cache.capacity - 1, 255) byte = 0) := by
  obtain ⟨mapped, cache, _, _, _, holds⟩ :=
    create_fresh .sizeFirst keccakPristine (by decide : 0 < 2) (by decide)
  exact ⟨mapped, cache, holds, reopened_iff keccakPristine holds⟩

/-- A new cache with one entry does not come back from its file: the hash of a word of zeros does not
end in zeros. -/
theorem not_reopened : ∃ mapped cache, create .sizeFirst keccakPristine 1 none = .ok mapped ∧
    mapped.Holds .sizeFirst cache ∧
    ¬∃ reopened, create .sizeFirst keccakPristine 1 (some mapped.getStorageData) = .ok reopened ∧
      reopened.Holds .sizeFirst cache := by
  obtain ⟨mapped, cache, created, capacity, empty, holds⟩ :=
    create_fresh .sizeFirst keccakPristine (by decide : 0 < 1) (by decide)
  refine ⟨mapped, cache, created, holds, ?_⟩
  rintro ⟨reopened, opened, again⟩
  obtain ⟨map, stored⟩ := create_getStorageData holds keccakPristine
  have opened' : create .sizeFirst keccakPristine mapped.capacity (some mapped.getStorageData) =
      .ok reopened := by
    rw [capacity]
    exact opened
  obtain rfl := Except.ok.inj (stored.symm.trans opened')
  have tail := again.zero_tail (by decide : 24 ≤ (31 : Fin 32).val)
  obtain rfl := Except.ok.inj empty
  exact absurd tail (by decide)

end Keccak

end MappedCache

end MachineEmulator.HashTree
