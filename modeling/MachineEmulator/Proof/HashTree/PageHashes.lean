/-
This file proves that a cache entry holds the hash tree of its page after each of its updates.
-/

import MachineEmulator.Construction.HashTree.Increment

namespace MachineEmulator.HashTree

@[simp] theorem mem_tryPushBack {A : Type} [DecidableEq A] {container : List A} {value element : A} :
    element ∈ tryPushBack container value ↔ element ∈ container ∨ element = value := by
  rw [tryPushBack]
  split
  next last =>
    constructor
    · exact Or.inl
    · rintro (member | rfl)
      · exact member
      · exact List.mem_of_getLast? last
  next fresh => rw [List.mem_append, List.mem_singleton]

section Hashing

variable {Hash : Type} (hasher : Hasher Hash)

/-- The reference hash of a node of a page, with its level counted from the tree word. -/
def pageNodeHash (page : List Byte) (level index : Nat) : Hash :=
  Merkle.nodeHash hasher.concatHash (fun index => hasher.hash (pageWord page index)) level index

/-- A cache entry holds a page and the hash tree of that page. -/
structure CacheEntry.WellFormed (entry : CacheEntry Hash) : Prop where
  page_length : entry.page.length = hashTreePageSize
  leaf : ∀ index < pageWordCount,
    entry.tree (pageWordCount + index) = hasher.hash (pageWord entry.page index)
  settled : ∀ position, 1 ≤ position → position < pageWordCount →
    (pageLinks hasher).Settled entry.tree position

variable {hasher}

/-- The nodes of a cache entry are those of its page. -/
theorem CacheEntry.WellFormed.tree_eq {entry : CacheEntry Hash}
    (wellFormed : entry.WellFormed hasher) {level depth index : Nat} (whole : level + depth = 7)
    (inside : index < 2 ^ depth) :
    entry.tree (2 ^ depth + index) = pageNodeHash hasher entry.page level index :=
  Rehash.heap_nodeHash wellFormed.settled wellFormed.leaf level depth whole inside

theorem CacheEntry.WellFormed.root {entry : CacheEntry Hash} (wellFormed : entry.WellFormed hasher) :
    entry.tree 1 = pageNodeHash hasher entry.page 7 0 :=
  wellFormed.tree_eq (rfl : 7 + 0 = 7) (by decide : 0 < 2 ^ 0)

theorem pageNodeHash_pristine (level index : Nat) :
    Merkle.nodeHash hasher.concatHash (fun _ => pristineHash hasher 0) level index =
      pristineHash hasher level := by
  induction level generalizing index with
  | zero => rfl
  | succ level ih => rw [Merkle.nodeHash_succ, ih, ih, pristineHash]

theorem pageWord_zeros {index : Nat} (inside : index < pageWordCount) :
    pageWord (List.replicate hashTreePageSize 0) index = List.replicate hashTreeWordSize 0 := by
  rw [pageWord, List.drop_replicate, List.take_replicate]
  congr 1
  have room : hashTreePageSize - hashTreeWordSize * index ≥ hashTreeWordSize := by
    simp only [pageWordCount, hashTreePageSize, hashTreeWordSize, hashTreeLog2PageSize,
      hashTreeLog2WordSize] at inside ⊢
    omega
  omega

theorem log2_node {depth index : Nat} (inside : index < 2 ^ depth) :
    (2 ^ depth + index).log2 = depth := by
  have positive : 0 < 2 ^ depth := by positivity
  rw [Nat.log2_eq_iff (by omega), pow_succ]
  omega

theorem pristinePageHashTree_settled {position : Nat} (positive : 1 ≤ position)
    (inside : position < pageWordCount) :
    (pageLinks hasher).Settled (pristinePageHashTree hasher) position := by
  have low : 2 ^ position.log2 ≤ position := Nat.log2_self_le (by omega)
  have high : position < 2 ^ (position.log2 + 1) := Nat.lt_log2_self
  have below : position.log2 < 7 := (Nat.log2_lt (by omega)).mpr inside
  rw [pow_succ] at high
  have left : (2 * position).log2 = position.log2 + 1 := by
    rw [Nat.log2_eq_iff (by omega), pow_succ, pow_succ]
    omega
  have right : (2 * position + 1).log2 = position.log2 + 1 := by
    rw [Nat.log2_eq_iff (by omega), pow_succ, pow_succ]
    omega
  have level : 7 - position.log2 = 7 - (position.log2 + 1) + 1 := by omega
  show pristineHash hasher (7 - position.log2) =
    hasher.concatHash (pristineHash hasher (7 - (2 * position).log2))
      (pristineHash hasher (7 - (2 * position + 1).log2))
  rw [left, right, level, pristineHash]

/-- The pristine tree is the tree of the page of zeros. -/
theorem pristine_wellFormed (paddrPage : Nat) (borrowed : Bool) :
    CacheEntry.WellFormed hasher ⟨paddrPage, borrowed, List.replicate hashTreePageSize 0,
      pristinePageHashTree hasher⟩ where
  page_length := List.length_replicate
  leaf := by
    intro index inside
    have depth : (2 ^ 7 + index).log2 = 7 := log2_node inside
    show pristineHash hasher (7 - (2 ^ 7 + index).log2) = _
    rw [depth, pageWord_zeros inside]
    rfl
  settled _ := pristinePageHashTree_settled

variable (hasher) in
/-- All changes of a page tree wait in a queue of the level above the leaves. -/
structure Enqueued (queued : Queued Hash) : Prop where
  pending : (pageLinks hasher).Pending queued.1 fun position => position ∈ queued.2
  level : ∀ position ∈ queued.2, 64 ≤ position ∧ position < pageWordCount

theorem Enqueued.leaf {queued : Queued Hash} (enqueued : Enqueued hasher queued)
    (word : List Byte) {position : Nat} (low : pageWordCount ≤ position)
    (high : position < 2 * pageWordCount) :
    Enqueued hasher (enqueueLeaf hasher word position queued) where
  pending := by
    apply enqueued.pending.write
    · rintro ⟨_, inner⟩
      omega
    · intro other member
      exact mem_tryPushBack.mpr (Or.inl member)
    · intro above parent
      obtain ⟨_, rfl⟩ := Rehash.heap_parent.mp parent
      exact mem_tryPushBack.mpr (Or.inr rfl)
  level := by
    intro other member
    rcases mem_tryPushBack.mp member with member | rfl
    · exact enqueued.level other member
    · simp only [pageWordCount] at low high ⊢
      omega

/-- One round hashes a level: what is left waits at the level above. -/
theorem flushLevel_spec (depth : Nat) {queued : Queued Hash}
    (pending : (pageLinks hasher).Pending queued.1 fun position => position ∈ queued.2)
    (level : ∀ position ∈ queued.2, 2 ^ depth ≤ position ∧ position < 2 * 2 ^ depth) :
    ((pageLinks hasher).Pending (flushLevel hasher queued).1
      fun position => position ∈ (flushLevel hasher queued).2) ∧
    (∀ position ∈ (flushLevel hasher queued).2,
      1 ≤ depth ∧ 2 ^ (depth - 1) ≤ position ∧ position < 2 ^ depth) ∧
    ∀ position, 2 * 2 ^ depth ≤ position → (flushLevel hasher queued).1 position = queued.1 position := by
  obtain ⟨tree, queue⟩ := queued
  have positive : 0 < 2 ^ depth := by positivity
  rw [flushLevel]
  -- The fold goes over the queue while the nodes above wait in a second one.
  suffices general : ∀ next : List Nat,
      ((pageLinks hasher).Pending tree fun position => position ∈ queue ∨ position ∈ next) →
      (∀ position ∈ next, 1 ≤ depth ∧ 2 ^ (depth - 1) ≤ position ∧ position < 2 ^ depth) →
      let result := queue.foldl (fun current position =>
        ((pageLinks hasher).rehash current.1 position,
          if 1 < position then tryPushBack current.2 (position / 2) else current.2)) (tree, next)
      ((pageLinks hasher).Pending result.1 fun position => position ∈ result.2) ∧
      (∀ position ∈ result.2, 1 ≤ depth ∧ 2 ^ (depth - 1) ≤ position ∧ position < 2 ^ depth) ∧
      ∀ position, 2 * 2 ^ depth ≤ position → result.1 position = tree position by
    apply general []
    · exact pending.mono fun position member => Or.inl member
    · intro position member
      exact absurd member List.not_mem_nil
  clear pending
  induction queue generalizing tree with
  | nil =>
      intro next pending above
      constructor
      · apply pending.mono
        rintro position (member | member)
        · exact absurd member List.not_mem_nil
        · exact member
      · exact ⟨above, fun position far => rfl⟩
  | cons position queue ih =>
      intro next pending above
      obtain ⟨low, high⟩ := level position List.mem_cons_self
      have carried : (pageLinks hasher).Pending ((pageLinks hasher).rehash tree position)
          fun other => other ∈ queue ∨
            other ∈ (if 1 < position then tryPushBack next (position / 2) else next) := by
        apply pending.rehash position (Rehash.heap_irreflexive position)
        · rintro other (member | member)
          · rcases List.mem_cons.mp member with rfl | member
            · exact Or.inl rfl
            · exact Or.inr (Or.inl member)
          · apply Or.inr
            apply Or.inr
            split
            · exact mem_tryPushBack.mpr (Or.inl member)
            · exact member
        · intro parent isParent
          obtain ⟨large, rfl⟩ := Rehash.heap_parent.mp isParent
          rw [if_pos (by omega)]
          exact Or.inr (mem_tryPushBack.mpr (Or.inr rfl))
      obtain ⟨settled, levels, kept⟩ := ih ((pageLinks hasher).rehash tree position)
        (fun other member => level other (List.mem_cons_of_mem _ member)) _ carried (by
          intro other member
          split at member
          next large =>
            rcases mem_tryPushBack.mp member with member | rfl
            · exact above other member
            · have deep : 1 ≤ depth := by
                by_contra top
                have root : depth = 0 := by omega
                rw [root, pow_zero] at high
                omega
              have double : 2 ^ depth = 2 * 2 ^ (depth - 1) := by
                rw [← pow_succ']
                congr 1
                omega
              omega
          next root => exact above other member)
      constructor
      · exact settled
      · constructor
        · exact levels
        · intro other far
          have apart : other ≠ position := by omega
          rw [List.foldl_cons, kept other far, Rehash.Links.rehash, Function.update_of_ne apart]

/-- The flush hashes all levels, and leaves the leaves as they are. -/
theorem flush_spec (rounds : Nat) {queued : Queued Hash}
    (pending : (pageLinks hasher).Pending queued.1 fun position => position ∈ queued.2)
    (level : ∀ position ∈ queued.2, 2 ^ (rounds - 1) ≤ position ∧ position < 2 ^ rounds)
    (low : rounds ≤ 7) :
    (∀ position, 1 ≤ position → position < pageWordCount →
      (pageLinks hasher).Settled (flush hasher rounds queued) position) ∧
    ∀ position, pageWordCount ≤ position → flush hasher rounds queued position = queued.1 position := by
  induction rounds generalizing queued with
  | zero =>
      rw [flush]
      constructor
      · intro position positive inside
        apply pending.settled _ ⟨positive, inside⟩
        intro other member
        have bounds := level other member
        omega
      · intro position far
        rfl
  | succ rounds ih =>
      rw [flush]
      split
      next empty =>
        constructor
        · intro position positive inside
          apply pending.settled _ ⟨positive, inside⟩
          intro other member
          rw [empty] at member
          exact List.not_mem_nil member
        · intro position far
          rfl
      next filled =>
        obtain ⟨next, levels, kept⟩ := flushLevel_spec rounds pending (by
          intro position member
          have bounds := level position member
          rw [Nat.add_sub_cancel, pow_succ'] at bounds
          exact bounds)
        obtain ⟨settled, same⟩ := ih next (fun position member => (levels position member).2)
          (by omega)
        constructor
        · exact settled
        · intro position far
          rw [same position far]
          apply kept
          have top : 2 ^ (rounds + 1) ≤ 2 ^ 7 := Nat.pow_le_pow_right (by decide) low
          rw [pow_succ'] at top
          have count : pageWordCount = 2 ^ 7 := rfl
          omega

theorem Enqueued.flush_wellFormed {entry : CacheEntry Hash} {queue : List Nat}
    (enqueued : Enqueued hasher (entry.tree, queue))
    (page_length : entry.page.length = hashTreePageSize)
    (leaf : ∀ index < pageWordCount,
      entry.tree (pageWordCount + index) = hasher.hash (pageWord entry.page index)) :
    CacheEntry.WellFormed hasher { entry with tree := flush hasher 7 (entry.tree, queue) } := by
  obtain ⟨settled, same⟩ := flush_spec 7 enqueued.pending enqueued.level le_rfl
  constructor
  · exact page_length
  · intro index inside
    rw [← leaf index inside]
    exact same (pageWordCount + index) (by omega)
  · exact settled

theorem CacheEntry.WellFormed.enqueued {entry : CacheEntry Hash}
    (wellFormed : entry.WellFormed hasher) : Enqueued hasher (entry.tree, []) where
  pending := by
    rintro position ⟨positive, inside⟩ broken
    exact absurd (wellFormed.settled position positive inside) broken
  level := by
    intro position member
    exact absurd member List.not_mem_nil

theorem eq_zeros {page : List Byte} (length : page.length = hashTreePageSize)
    (zeros : page.all (· = 0) = true) : page = List.replicate hashTreePageSize 0 := by
  apply List.eq_replicate_iff.mpr
  constructor
  · exact length
  · intro byte member
    simpa using List.all_eq_true.mp zeros byte member

/-- An entry that takes the data of a page holds the tree of that page. -/
theorem CacheEntry.WellFormed.hashEntry {entry : CacheEntry Hash}
    (wellFormed : entry.WellFormed hasher) {page : List Byte}
    (length : page.length = hashTreePageSize) :
    (HashTree.hashEntry hasher page entry).WellFormed hasher ∧
    (HashTree.hashEntry hasher page entry).page = page ∧
    (HashTree.hashEntry hasher page entry).paddrPage = entry.paddrPage ∧
    (HashTree.hashEntry hasher page entry).borrowed = entry.borrowed := by
  unfold HashTree.hashEntry enqueueHashEntry
  by_cases zeros : page.all (· = 0) = true
  · rw [if_pos zeros]
    constructor
    · exact pristine_wellFormed entry.paddrPage entry.borrowed
    · exact ⟨(eq_zeros length zeros).symm, rfl, rfl⟩
  · rw [if_neg zeros]
    -- The words before the index are those of the new page.
    have fold : ∀ count ≤ pageWordCount,
        let queued := (List.range count).foldl (fun queued index =>
          if pageWord entry.page index ≠ pageWord page index then
            enqueueLeaf hasher (pageWord page index) (pageWordCount + index) queued
          else queued) (entry.tree, [])
        Enqueued hasher queued ∧ ∀ index < pageWordCount,
          queued.1 (pageWordCount + index) =
            hasher.hash (pageWord (if index < count then page else entry.page) index) := by
      intro count
      induction count with
      | zero =>
          intro small
          constructor
          · exact wellFormed.enqueued
          · intro index inside
            rw [if_neg (by omega)]
            exact wellFormed.leaf index inside
      | succ count ih =>
          intro small
          obtain ⟨enqueued, leaves⟩ := ih (by omega)
          rw [List.range_succ, List.foldl_append, List.foldl_cons, List.foldl_nil]
          split
          next differs =>
            constructor
            · exact enqueued.leaf _ (by omega) (by omega)
            · intro index inside
              by_cases same : index = count
              · subst same
                rw [if_pos (by omega)]
                exact Function.update_self _ _ _
              · have kept := Function.update_of_ne (by omega : pageWordCount + index ≠
                  pageWordCount + count) (hasher.hash (pageWord page count)) (List.foldl
                    (fun queued index =>
                      if pageWord entry.page index ≠ pageWord page index then
                        enqueueLeaf hasher (pageWord page index) (pageWordCount + index) queued
                      else queued) (entry.tree, []) (List.range count)).1
                have before : (index < count + 1) = (index < count) := by
                  apply propext
                  omega
                simp only [before]
                rw [← leaves index inside]
                exact kept
          next equal =>
            constructor
            · exact enqueued
            · intro index inside
              rw [leaves index inside]
              by_cases same : index = count
              · subst same
                rw [if_neg (by omega), if_pos (by omega), not_not.mp equal]
              · have before : (index < count + 1) = (index < count) := by
                  apply propext
                  omega
                simp only [before]
    obtain ⟨enqueued, leaves⟩ := fold pageWordCount le_rfl
    constructor
    · apply Enqueued.flush_wellFormed enqueued length
      intro index inside
      have leaf := leaves index inside
      rw [if_pos inside] at leaf
      exact leaf
    · exact ⟨rfl, rfl, rfl⟩

/-- A word of a page with one word replaced. -/
theorem pageWord_splice {page data : List Byte} (length : page.length = hashTreePageSize)
    (size : data.length = hashTreeWordSize) {position index : Nat} (inside : position < pageWordCount)
    (within : index < pageWordCount) :
    pageWord (page.take (hashTreeWordSize * position) ++ data ++
      page.drop (hashTreeWordSize * position + hashTreeWordSize)) index =
      if index = position then data else pageWord page index := by
  simp only [pageWord, hashTreeWordSize, hashTreePageSize, hashTreeLog2WordSize,
    hashTreeLog2PageSize, pageWordCount] at *
  apply List.ext_getElem?
  intro offset
  by_cases outside : 2 ^ 5 ≤ offset
  · have far : 2 ^ 5 ≤ offset := outside
    rw [List.getElem?_eq_none (by rw [List.length_take]; omega)]
    split
    · rw [List.getElem?_eq_none (by omega)]
    · rw [List.getElem?_eq_none (by rw [List.length_take]; omega)]
  · rw [List.getElem?_take_of_lt (by omega), List.getElem?_drop]
    split
    next same =>
      subst same
      rw [List.append_assoc, List.getElem?_append_right (by rw [List.length_take]; omega),
        List.getElem?_append_left (by rw [List.length_take]; omega), List.length_take]
      congr 1
      omega
    next apart =>
      rw [List.getElem?_take_of_lt (by omega), List.getElem?_drop]
      by_cases before : index < position
      · rw [List.append_assoc, List.getElem?_append_left (by rw [List.length_take]; omega),
          List.getElem?_take_of_lt (by omega)]
      · rw [List.getElem?_append_right (by
            rw [List.length_append, List.length_take]
            omega), List.length_append, List.length_take, List.getElem?_drop]
        congr 1
        omega

end Hashing

end MachineEmulator.HashTree
