/-
This file proves that an update of a block of cache entries leaves each of them with the hash tree of
its page, in whatever groups the queues of the hasher run.
-/

import MachineEmulator.Construction.HashTree.EntryCache
import MachineEmulator.Proof.HashTree.PageHashes

namespace MachineEmulator.HashTree

open JobQueue (Job Independent Done)

namespace EntryCache

variable {Hash : Type} {hasher : Hasher Hash} (lanes : Lanes)

theorem group_pos : ∀ count, 0 < count → 0 < lanes.group count := by
  intro count _
  rw [Lanes.group]
  split_ifs <;> decide

variable (hasher) in
/-- The links of the trees of all entries. -/
abbrev entryLinks : Rehash.Links (Nat × Nat) Hash := (pageLinks hasher).indexed Nat

theorem entryLinks_parent {node above : Nat × Nat} :
    (entryLinks hasher).parent node = some above ↔
      2 ≤ node.2 ∧ above = (node.1, node.2 / 2) := by
  show ((pageLinks hasher).parent node.2).map _ = some above ↔ _
  rw [Option.map_eq_some_iff]
  constructor
  · rintro ⟨position, parent, rfl⟩
    obtain ⟨large, rfl⟩ := Rehash.heap_parent.mp parent
    exact ⟨large, rfl⟩
  · rintro ⟨large, rfl⟩
    exact ⟨node.2 / 2, Rehash.heap_parent.mpr ⟨large, rfl⟩, rfl⟩

variable (hasher) in
/-- The leaves are the hashes of the words that are wanted, and all other changes wait in a queue. -/
structure Waiting (want : Nat → Nat → List Byte) (dirty : List (Nat × Nat))
    (memory : Nat × Nat → Hash) : Prop where
  leaf : ∀ index, ∀ word < pageWordCount,
    memory (index, pageWordCount + word) = hasher.hash (want index word)
  pending : (entryLinks hasher).Pending memory fun node => node ∈ dirty

section Leaves

variable (hasher) in
/-- The leaves that still wait in their queue are written to places of their own. -/
structure Queued (want : Nat → Nat → List Byte) (busy : Nat × Nat → Prop)
    (state : EntryCache Hash × SimdPageHasher Hash) : Prop where
  independent : Independent state.2.leavesQueue
  constant : ∀ job ∈ state.2.leavesQueue, ∀ first second, job.value first = job.value second
  places : ∀ job ∈ state.2.leavesQueue, busy job.target
  level : ∀ node ∈ state.2.dirtyQueue, 2 ^ 6 ≤ node.2 ∧ node.2 < 2 * 2 ^ 6
  waiting : ∃ memory, Done state.2.leavesQueue state.1.trees memory ∧
    Waiting hasher want state.2.dirtyQueue memory

variable {want : Nat → Nat → List Byte} {busy : Nat × Nat → Prop}
  {state : EntryCache Hash × SimdPageHasher Hash}

theorem Queued.mono {later : Nat × Nat → Prop} (queued : Queued hasher want busy state)
    (weaker : ∀ node, busy node → later node) : Queued hasher want later state where
  independent := queued.independent
  constant := queued.constant
  places job member := weaker job.target (queued.places job member)
  level := queued.level
  waiting := queued.waiting

theorem Queued.congr {want' : Nat → Nat → List Byte} (queued : Queued hasher want busy state)
    (same : ∀ index, ∀ word < pageWordCount, want index word = want' index word) :
    Queued hasher want' busy state where
  independent := queued.independent
  constant := queued.constant
  places := queued.places
  level := queued.level
  waiting := by
    obtain ⟨memory, done, waiting⟩ := queued.waiting
    refine ⟨memory, done, ?_, waiting.pending⟩
    intro index word inside
    rw [← same index word inside]
    exact waiting.leaf index word inside

/-- A job with a place of its own can be added to the queue. -/
theorem Queued.independent_append (queued : Queued hasher want busy state) {node : Nat × Nat}
    (free : ¬busy node) (word : List Byte) :
    Independent (state.2.leavesQueue ++ [leafJob hasher word node]) where
  reads job member first second _ := by
    rcases List.mem_append.mp member with before | last
    · exact queued.constant job before first second
    · rw [List.mem_singleton.mp last]
      rfl
  agree job member other member' same := by
    rcases List.mem_append.mp member with before | last <;>
      rcases List.mem_append.mp member' with before' | last'
    · exact queued.independent.agree job before other before' same
    · have target : job.target = node := same.trans (by rw [List.mem_singleton.mp last']; rfl)
      exact absurd (target ▸ queued.places job before) free
    · have target : other.target = node := same.symm.trans (by rw [List.mem_singleton.mp last]; rfl)
      exact absurd (target ▸ queued.places other before') free
    · rw [List.mem_singleton.mp last, List.mem_singleton.mp last']

theorem Waiting.write {dirty : List (Nat × Nat)} {memory : Nat × Nat → Hash}
    (waiting : Waiting hasher want dirty memory) (index : Nat) (data : List Byte) (word : Nat) :
    Waiting hasher (Function.update want index (Function.update (want index) word data))
      (tryPushBack dirty (index, (pageWordCount + word) / 2))
      (Function.update memory (index, pageWordCount + word) (hasher.hash data)) where
  leaf other place inside := by
    by_cases same : other = index
    · subst same
      rw [Function.update_self]
      by_cases here : place = word
      · subst here
        rw [Function.update_self, Function.update_self]
      · rw [Function.update_of_ne here, Function.update_of_ne (by simp [here])]
        exact waiting.leaf other place inside
    · rw [Function.update_of_ne same, Function.update_of_ne (by simp [same])]
      exact waiting.leaf other place inside
  pending := by
    apply waiting.pending.write
    · rintro ⟨_, inner⟩
      simp only at inner
      omega
    · intro other member
      exact mem_tryPushBack.mpr (Or.inl member)
    · intro above parent
      obtain ⟨_, rfl⟩ := entryLinks_parent.mp parent
      exact mem_tryPushBack.mpr (Or.inr rfl)

/-- A leaf is queued, and its parent is to be hashed again. -/
theorem Queued.leaf (queued : Queued hasher want busy state) (index : Nat) (data : List Byte)
    {word : Nat} (inside : word < pageWordCount) (free : ¬busy (index, pageWordCount + word)) :
    Queued hasher (Function.update want index (Function.update (want index) word data))
      (fun node => busy node ∨ node = (index, pageWordCount + word))
      (enqueueLeaf hasher lanes data (index, pageWordCount + word) state) := by
  obtain ⟨memory, done, waiting⟩ := queued.waiting
  have independent := queued.independent_append free data
  have whole : Done (state.2.leavesQueue ++ [leafJob hasher data (index, pageWordCount + word)])
      state.1.trees
      (Function.update memory (index, pageWordCount + word) (hasher.hash data)) := by
    apply done.append independent
    constructor
    · intro job member
      rw [List.mem_singleton.mp member]
      exact Function.update_self _ _ _
    · intro address outside
      exact Function.update_of_ne (outside _ List.mem_cons_self).symm _ _
  rw [← List.append_nil (state.2.leavesQueue ++ _)] at whole independent
  have left := JobQueue.enqueue_done (group_pos lanes) lanes.optimalQueueSize independent whole
  rw [List.append_nil] at left independent
  constructor
  · apply independent.subset
    intro job member
    exact JobQueue.mem_enqueue member
  · intro job member
    rcases List.mem_append.mp (JobQueue.mem_enqueue member) with before | last
    · exact queued.constant job before
    · rw [List.mem_singleton.mp last]
      exact fun _ _ => rfl
  · intro job member
    rcases List.mem_append.mp (JobQueue.mem_enqueue member) with before | last
    · exact Or.inl (queued.places job before)
    · rw [List.mem_singleton.mp last]
      exact Or.inr rfl
  · intro node member
    rcases mem_tryPushBack.mp member with before | rfl
    · exact queued.level node before
    · simp only [pageWordCount] at inside ⊢
      omega
  · exact ⟨_, left, waiting.write index data word⟩

/-- The words that differ are queued, and the others have their leaves. -/
theorem Queued.words (queued : Queued hasher want busy state) (index : Nat) (page : List Byte)
    (current : ∀ word < pageWordCount, want index word = pageWord (state.1.page index) word)
    (free : ∀ position, ¬busy (index, position)) :
    Queued hasher (Function.update want index (pageWord page))
      (fun node => busy node ∨ node.1 = index) (enqueueWords hasher lanes index page state) := by
  -- The words before the count are those of the new page.
  have loop : ∀ count ≤ pageWordCount,
      Queued hasher
        (Function.update want index fun word =>
          if word < count then pageWord page word else want index word)
        (fun node => busy node ∨ node.1 = index ∧ node.2 < pageWordCount + count)
        ((List.range count).foldl (fun current word =>
          if pageWord (state.1.page index) word ≠ pageWord page word then
            enqueueLeaf hasher lanes (pageWord page word) (index, pageWordCount + word) current
          else current) state) := by
    intro count
    induction count with
    | zero =>
        intro _
        apply (queued.mono fun node => Or.inl).congr
        intro other word inside
        by_cases same : other = index
        · rw [same, Function.update_self, if_neg (by omega)]
        · rw [Function.update_of_ne same]
    | succ count ih =>
        intro small
        have before := ih (by omega)
        rw [List.range_succ, List.foldl_append, List.foldl_cons, List.foldl_nil]
        split
        next differs =>
          have fresh : ¬(busy (index, pageWordCount + count) ∨
              index = index ∧ pageWordCount + count < pageWordCount + count) := by
            rintro (taken | ⟨_, less⟩)
            · exact free _ taken
            · omega
          have after := before.leaf lanes index (pageWord page count) small fresh
          apply (after.mono _).congr
          · intro other word inside
            by_cases same : other = index
            · subst same
              simp only [Function.update_self]
              by_cases last : word = count
              · rw [last, Function.update_self, if_pos (by omega)]
              · rw [Function.update_of_ne last]
                simp only [(by omega : word < count + 1 ↔ word < count)]
            · simp only [Function.update_of_ne same]
          · rintro node ((taken | ⟨rfl, less⟩) | rfl)
            · exact Or.inl taken
            · exact Or.inr ⟨rfl, by omega⟩
            · exact Or.inr ⟨rfl, by simp only; omega⟩
        next equal =>
          apply (before.mono _).congr
          · intro other word inside
            by_cases same : other = index
            · subst same
              simp only [Function.update_self]
              by_cases last : word = count
              · rw [last, if_neg (by omega), if_pos (by omega), current count small,
                  not_not.mp equal]
              · simp only [(by omega : word < count + 1 ↔ word < count)]
            · simp only [Function.update_of_ne same]
          · rintro node (taken | ⟨rfl, less⟩)
            · exact Or.inl taken
            · exact Or.inr ⟨rfl, by omega⟩
  apply ((loop pageWordCount le_rfl).mono _).congr
  · intro other word inside
    by_cases same : other = index
    · rw [same, Function.update_self, Function.update_self, if_pos inside]
    · rw [Function.update_of_ne same, Function.update_of_ne same]
  · rintro node (taken | ⟨here, _⟩)
    · exact Or.inl taken
    · exact Or.inr here

/-- The tree of a page of zeros takes the place of the tree of an entry that has no queued leaves. -/
theorem Queued.pristine (queued : Queued hasher want busy state) (index : Nat)
    (free : ∀ position, ¬busy (index, position)) {cache : EntryCache Hash}
    (trees : cache.trees = fun node =>
      if node.1 = index then pristinePageHashTree hasher node.2 else state.1.trees node) :
    Queued hasher
      (Function.update want index fun _ => List.replicate hashTreeWordSize 0)
      busy (cache, state.2) where
  independent := queued.independent
  constant := queued.constant
  places := queued.places
  level := queued.level
  waiting := by
    obtain ⟨memory, done, waiting⟩ := queued.waiting
    refine ⟨fun node => if node.1 = index then pristinePageHashTree hasher node.2 else memory node,
      ?_, ?_, ?_⟩
    · constructor
      · intro job member
        have elsewhere : job.target.1 ≠ index := by
          rintro rfl
          exact free job.target.2 (queued.places job member)
        rw [if_neg elsewhere, done.computed job member]
        exact queued.constant job member _ _
      · intro address outside
        rw [trees]
        dsimp only
        split
        · rfl
        · exact done.kept address outside
    · intro other word inside
      by_cases same : other = index
      · subst same
        rw [Function.update_self, if_pos rfl]
        have depth : (2 ^ 7 + word).log2 = 7 := log2_node inside
        show pristineHash hasher (7 - (2 ^ 7 + word).log2) = _
        rw [depth]
        rfl
      · rw [Function.update_of_ne same, if_neg same]
        exact waiting.leaf other word inside
    · rintro ⟨other, position⟩ inner broken
      by_cases same : other = index
      · subst same
        apply absurd _ broken
        rw [Rehash.Links.indexed_settled]
        simp only [if_true]
        exact pristinePageHashTree_settled inner.1 inner.2
      · apply waiting.pending (other, position) inner
        rw [Rehash.Links.indexed_settled] at broken ⊢
        simp only [if_neg same] at broken
        exact broken

end Leaves

section Block

variable {state : EntryCache Hash × SimdPageHasher Hash}

variable (hasher) in
/-- The entries in a queue hold their new pages, and only trees and pages have changed. -/
structure Enqueued (before : EntryCache Hash) (busy : Nat → Prop)
    (state : EntryCache Hash × SimdPageHasher Hash) : Prop where
  queued : Queued hasher (fun index => pageWord (state.1.page index)) (fun node => busy node.1) state
  length : ∀ index, (state.1.page index).length = hashTreePageSize
  frame : state.1 = { before with trees := state.1.trees, page := state.1.page }

variable (hasher state) in
theorem enqueueWords_frame (index : Nat) (page : List Byte) :
    (enqueueWords hasher lanes index page state).1 =
      { state.1 with trees := (enqueueWords hasher lanes index page state).1.trees } := by
  rw [enqueueWords]
  generalize List.range pageWordCount = words
  generalize old : state.1.page index = oldPage
  clear old
  induction words generalizing state with
  | nil => rfl
  | cons word words ih =>
      rw [List.foldl_cons, ih]
      split <;> rfl

/-- A page enters the queue when it has the right size. -/
theorem Enqueued.next {before : EntryCache Hash} {busy : Nat → Prop}
    (enqueued : Enqueued hasher before busy state) {index : Nat} (free : ¬busy index)
    {page : List Byte} (length : page.length = hashTreePageSize) :
    ∃ next, enqueueHashEntry hasher lanes index page state = some next ∧
      Enqueued hasher before (fun other => busy other ∨ other = index) next ∧
      next.1.page = Function.update state.1.page index page := by
  have lengths : ∀ other,
      (Function.update state.1.page index page other).length = hashTreePageSize := by
    intro other
    by_cases same : other = index
    · rw [same, Function.update_self, length]
    · rw [Function.update_of_ne same, enqueued.length other]
  rw [enqueueHashEntry, if_neg (not_not.mpr length)]
  by_cases zeros : page.all (· = 0) = true
  · have page_eq := eq_zeros length zeros
    rw [if_pos zeros]
    refine ⟨_, rfl, ⟨?_, ?_, ?_⟩, by rw [page_eq]⟩
    · apply ((enqueued.queued.pristine index (fun _ => free) rfl).mono fun node => Or.inl).congr
      intro other word inside
      by_cases same : other = index
      · subst same
        simp only [Function.update_self]
        exact (pageWord_zeros inside).symm
      · simp only [Function.update_of_ne same]
    · rw [← page_eq]
      exact lengths
    · rw [enqueued.frame]
  · have words := enqueued.queued.words lanes index page (fun _ _ => rfl) fun _ => free
    have frame := enqueueWords_frame hasher lanes state index page
    rw [if_neg zeros]
    refine ⟨_, rfl, ⟨?_, ?_, ?_⟩, ?_⟩
    · have wanted : (fun other => pageWord
          (Function.update (enqueueWords hasher lanes index page state).1.page index page other)) =
          Function.update (fun other => pageWord (state.1.page other)) index (pageWord page) := by
        funext other
        rw [frame]
        by_cases same : other = index
        · rw [same, Function.update_self, Function.update_self]
        · rw [Function.update_of_ne same, Function.update_of_ne same]
      dsimp only
      rw [wanted]
      exact ⟨words.independent, words.constant, words.places, words.level, words.waiting⟩
    · rw [frame]
      exact lengths
    · dsimp only
      rw [frame, enqueued.frame]
    · dsimp only
      rw [frame]

/-- All pages of a block enter the queue. -/
theorem Enqueued.block {before : EntryCache Hash} {busy : Nat → Prop}
    (enqueued : Enqueued hasher before busy state) {block : List (Nat × List Byte)}
    (apart : (block.map Prod.fst).Nodup) (free : ∀ update ∈ block, ¬busy update.1) :
    ∃ busy', Enqueued hasher before busy' (block.foldl (fun current update =>
        (enqueueHashEntry hasher lanes update.1 update.2 current).getD current) state) ∧
      ∀ index, (block.foldl (fun current update =>
        (enqueueHashEntry hasher lanes update.1 update.2 current).getD current) state).1.page index =
        (block.foldl (fun pages update =>
          if update.2.length = hashTreePageSize then Function.update pages update.1 update.2
          else pages) state.1.page) index := by
  induction block generalizing busy state with
  | nil => exact ⟨busy, enqueued, fun _ => rfl⟩
  | cons update block ih =>
      rw [List.map_cons, List.nodup_cons] at apart
      rw [List.foldl_cons, List.foldl_cons]
      have later : ∀ other ∈ block, other.1 ≠ update.1 := by
        intro other member same
        exact apart.1 (same ▸ List.mem_map_of_mem member)
      by_cases length : update.2.length = hashTreePageSize
      · obtain ⟨next, result, enqueued', pages⟩ :=
          enqueued.next lanes (free update List.mem_cons_self) length
        rw [result, if_pos length, ← pages]
        apply ih enqueued' apart.2
        rintro other member (taken | same)
        · exact free other (List.mem_cons_of_mem _ member) taken
        · exact later other member same
      · have failed : enqueueHashEntry hasher lanes update.1 update.2 state = none := by
          rw [enqueueHashEntry, if_pos length]
        rw [failed, if_neg length]
        exact ih enqueued apart.2 fun other member => free other (List.mem_cons_of_mem _ member)

end Block

section Levels

variable {want : Nat → Nat → List Byte} {dirty : List (Nat × Nat)} {memory : Nat × Nat → Hash}

theorem mem_nextDirtyQueue {node : Nat × Nat} :
    node ∈ nextDirtyQueue dirty ↔ ∃ below ∈ dirty, 1 < below.2 ∧ node = (below.1, below.2 / 2) := by
  rw [nextDirtyQueue]
  suffices general : ∀ next : List (Nat × Nat),
      node ∈ dirty.foldl (fun next node =>
        if 1 < node.2 then tryPushBack next (node.1, node.2 / 2) else next) next ↔
      node ∈ next ∨ ∃ below ∈ dirty, 1 < below.2 ∧ node = (below.1, below.2 / 2) by
    rw [general []]
    simp
  induction dirty with
  | nil => simp
  | cons first dirty ih =>
      intro next
      rw [List.foldl_cons, ih]
      by_cases large : 1 < first.2
      · simp [large, or_assoc]
      · simp [large]

variable (hasher memory) in
/-- The nodes of one level are hashed, and no other hash changes. -/
theorem flushLevel_done (depth : Nat)
    (level : ∀ node ∈ dirty, 2 ^ depth ≤ node.2 ∧ node.2 < 2 * 2 ^ depth) :
    Done (dirty.map (concatJob hasher)) memory (flushLevel hasher lanes dirty memory) := by
  have independent : Independent (dirty.map (concatJob hasher)) := by
    constructor
    · intro job member first second same
      obtain ⟨node, inside, rfl⟩ := List.mem_map.mp member
      have below : ∀ position, 2 * node.2 ≤ position →
          first (node.1, position) = second (node.1, position) := by
        intro position far
        apply same
        intro other member'
        obtain ⟨other, inside', rfl⟩ := List.mem_map.mp member'
        rintro equal
        have position_eq : other.2 = position := congrArg Prod.snd equal
        have low := level node inside
        have high := level other inside'
        omega
      show hasher.concatHash _ _ = hasher.concatHash _ _
      rw [below _ le_rfl, below _ (by omega)]
    · intro job member other member' same
      obtain ⟨node, _, rfl⟩ := List.mem_map.mp member
      obtain ⟨node', _, rfl⟩ := List.mem_map.mp member'
      have equal : node = node' := same
      rw [equal]
  have done := JobQueue.runAll_done (group_pos lanes) independent memory
  rw [← List.nil_append (dirty.map _)] at independent done
  have queued := JobQueue.enqueueAll_done (group_pos lanes) lanes.optimalQueueSize independent done
  rw [List.foldl_map] at queued
  rw [flushLevel, queued]
  exact done

/-- One round leaves the level above to be hashed. -/
theorem Waiting.flushLevel (waiting : Waiting hasher want dirty memory) {depth : Nat}
    (small : depth < 7) (level : ∀ node ∈ dirty, 2 ^ depth ≤ node.2 ∧ node.2 < 2 * 2 ^ depth) :
    Waiting hasher want (nextDirtyQueue dirty) (flushLevel hasher lanes dirty memory) := by
  have done := flushLevel_done hasher lanes memory depth level
  have kept : ∀ node, node ∉ dirty → EntryCache.flushLevel hasher lanes dirty memory node = memory node := by
    intro node outside
    apply done.kept
    intro job member
    obtain ⟨other, inside, rfl⟩ := List.mem_map.mp member
    rintro rfl
    exact outside inside
  constructor
  · intro index word inside
    rw [kept]
    · exact waiting.leaf index word inside
    · intro member
      have high := (level _ member).2
      have bound : 2 ^ depth ≤ 2 ^ 6 := Nat.pow_le_pow_right (by decide) (by omega)
      simp only [pageWordCount] at high
      omega
  · apply waiting.pending.level
    · intro node member
      exact done.computed _ (List.mem_map_of_mem member)
    · exact kept
    · intro node member above parent
      obtain ⟨large, rfl⟩ := entryLinks_parent.mp parent
      exact mem_nextDirtyQueue.mpr ⟨node, member, large, rfl⟩

/-- The rounds go up to the root, where nothing is left to be hashed. -/
theorem Waiting.flushLevels (rounds : Nat) (small : rounds ≤ 7)
    (waiting : Waiting hasher want dirty memory)
    (level : ∀ node ∈ dirty, 2 ^ (rounds - 1) ≤ node.2 ∧ node.2 < 2 ^ rounds) :
    (flushLevels hasher lanes rounds dirty memory).2 = [] ∧
      Waiting hasher want [] (flushLevels hasher lanes rounds dirty memory).1 := by
  induction rounds generalizing dirty memory with
  | zero =>
      have empty : dirty = [] := by
        apply List.eq_nil_iff_forall_not_mem.mpr
        intro node member
        have bounds := level node member
        omega
      rw [EntryCache.flushLevels, empty]
      rw [empty] at waiting
      exact ⟨rfl, waiting⟩
  | succ rounds ih =>
      rw [EntryCache.flushLevels]
      split
      next empty =>
        rw [empty] at waiting
        exact ⟨rfl, waiting⟩
      next filled =>
        rw [Nat.add_sub_cancel, pow_succ'] at level
        apply ih (by omega) (waiting.flushLevel lanes (by omega) level)
        intro node member
        obtain ⟨below, inside, large, rfl⟩ := mem_nextDirtyQueue.mp member
        have bounds := level below inside
        have deep : 1 ≤ rounds := by
          by_contra top
          have root : rounds = 0 := by omega
          rw [root, pow_zero] at bounds
          omega
        have double : 2 ^ rounds = 2 * 2 ^ (rounds - 1) := by
          rw [← pow_succ']
          congr 1
          omega
        simp only
        omega

end Levels

section Update

/-- A queue that is flushed leaves every entry with the hash tree of its page. -/
theorem Enqueued.flush {state : EntryCache Hash × SimdPageHasher Hash} {before : EntryCache Hash}
    {busy : Nat → Prop} (enqueued : Enqueued hasher before busy state) (index : Nat) :
    CacheEntry.WellFormed hasher ((EntryCache.flush hasher lanes state).1.entry index) := by
  obtain ⟨memory, done, waiting⟩ := enqueued.queued.waiting
  have leaves : JobQueue.runAll lanes.group state.2.leavesQueue state.1.trees = memory :=
    (JobQueue.runAll_done (group_pos lanes) enqueued.queued.independent _).unique done
  obtain ⟨_, hashed⟩ := waiting.flushLevels lanes 7 le_rfl enqueued.queued.level
  have trees : (EntryCache.flush hasher lanes state).1.trees =
      (flushLevels hasher lanes 7 state.2.dirtyQueue memory).1 := by
    rw [EntryCache.flush, leaves]
  constructor
  · exact enqueued.length index
  · intro word inside
    show (EntryCache.flush hasher lanes state).1.trees _ = _
    rw [trees]
    exact hashed.leaf index word inside
  · intro position positive inside
    have inner : (entryLinks hasher).inner (index, position) := ⟨positive, inside⟩
    have settled := hashed.pending.settled (fun _ => List.not_mem_nil) inner
    rw [← trees, Rehash.Links.indexed_settled] at settled
    exact settled

theorem enqueued_start {cache : EntryCache Hash}
    (hashed : ∀ index, (cache.entry index).WellFormed hasher) :
    Enqueued hasher cache (fun _ => False) (cache, ⟨[], []⟩) where
  queued := by
    refine ⟨⟨?_, ?_⟩, ?_, ?_, ?_, cache.trees, Done.nil _, ?_, ?_⟩
    · exact fun job member => absurd member List.not_mem_nil
    · exact fun job member => absurd member List.not_mem_nil
    · exact fun job member => absurd member List.not_mem_nil
    · exact fun job member => absurd member List.not_mem_nil
    · exact fun node member => absurd member List.not_mem_nil
    · exact fun index => (hashed index).leaf
    · rintro ⟨index, position⟩ inner broken
      exact absurd ((hashed index).settled position inner.1 inner.2) broken
  length index := (hashed index).page_length
  frame := rfl

/-- The pages of a block of distinct entries are stored with their hash trees, and the rest of the
cache is unchanged. -/
theorem updateEntries_spec {cache : EntryCache Hash}
    (hashed : ∀ index, (cache.entry index).WellFormed hasher) {block : List (Nat × List Byte)}
    (apart : (block.map Prod.fst).Nodup) :
    (∀ index, ((cache.updateEntries hasher lanes block).entry index).WellFormed hasher) ∧
    (∀ index, (cache.updateEntries hasher lanes block).page index =
      (block.foldl (fun pages update =>
        if update.2.length = hashTreePageSize then Function.update pages update.1 update.2
        else pages) cache.page) index) ∧
    ∃ trees page, cache.updateEntries hasher lanes block = { cache with trees, page } := by
  obtain ⟨busy, enqueued, pages⟩ := (enqueued_start hashed).block lanes apart
    fun _ _ => not_false
  constructor
  · exact enqueued.flush lanes
  · constructor
    · exact pages
    · exists (cache.updateEntries hasher lanes block).trees
      exists (cache.updateEntries hasher lanes block).page
      rw [updateEntries, EntryCache.flush, enqueued.frame]

end Update

end EntryCache

end MachineEmulator.HashTree
