/-
This file proves that the map, the ring and the hash trees of the page cache agree in every run of its
calls.
-/

import MachineEmulator.Construction.SymbolicHasher
import MachineEmulator.Proof.HashTree.EntryUpdate

namespace MachineEmulator.HashTree

namespace EntryCache

variable {Hash : Type} (hasher : Hasher Hash) (lanes : Lanes)

/-- The entries of a block are lent out one by one, and so no entry is there twice. -/
def Call.Allowed : Call → Prop
  | .update block => (block.map Prod.fst).Nodup
  | _ => True

/-- A run of the cache is a sequence of calls that succeed. A call that fails changes nothing. -/
inductive Reachable (entryCount : Nat) : EntryCache Hash → Prop
  | create {cache : EntryCache Hash} (created : create hasher entryCount = .ok cache) :
      Reachable entryCount cache
  | perform {cache next : EntryCache Hash} (before : Reachable entryCount cache) (call : Call)
      (allowed : call.Allowed) (performed : cache.perform hasher lanes call = .ok next) :
      Reachable entryCount next

/-- The ring holds the entries in use, the map finds each of them under the address of its page, and
the others are unused. -/
structure WellFormed (cache : EntryCache Hash) (order : List Nat) : Prop where
  positive : 0 < cache.capacity
  ring : cache.lru.Represents order
  room : order.length ≤ cache.capacity
  used : ∀ index ∈ order, index < order.length
  found : ∀ paddrPage index,
    cache.map paddrPage = some index ↔ index ∈ order ∧ cache.paddrPage index = paddrPage
  free : ∀ index, index ∉ order → cache.borrowed index = false
  hashed : ∀ index, (cache.entry index).WellFormed hasher

section Lending

variable {hasher} {cache : EntryCache Hash} {order : List Nat}

/-- An entry stays well formed when only its address and its borrower change. -/
theorem entry_wellFormed {other : EntryCache Hash} {index : Nat}
    (wellFormed : (cache.entry index).WellFormed hasher) (page : other.page = cache.page)
    (trees : other.trees = cache.trees) : (other.entry index).WellFormed hasher := by
  obtain ⟨length, leaf, settled⟩ := wellFormed
  simp only [entry] at length leaf settled ⊢
  rw [page, trees]
  exact ⟨length, leaf, settled⟩

/-- An entry in use is lent to the page that it holds. -/
theorem WellFormed.lendFound (wellFormed : cache.WellFormed hasher order) {index : Nat}
    (member : index ∈ order) {lru : LinkedRing Nat}
    (ring : lru.Represents (index :: order.erase index)) :
    WellFormed hasher ({ cache with lru }.setBorrowed index true) (index :: order.erase index) := by
  have same : ∀ other, other ∈ index :: order.erase index ↔ other ∈ order := by
    intro other
    exact (List.perm_cons_erase member).mem_iff.symm
  have length : (index :: order.erase index).length = order.length :=
    (List.perm_cons_erase member).length_eq.symm
  constructor
  · exact wellFormed.positive
  · exact ring
  · rw [length]
    exact wellFormed.room
  · intro other inside
    rw [length]
    exact wellFormed.used other ((same other).mp inside)
  · intro paddrPage other
    rw [same]
    exact wellFormed.found paddrPage other
  · intro other outside
    rw [same] at outside
    have apart : other ≠ index := by
      rintro rfl
      exact outside member
    show Function.update cache.borrowed index true other = false
    rw [Function.update_of_ne apart]
    exact wellFormed.free other outside
  · intro other
    exact entry_wellFormed (wellFormed.hashed other) rfl rfl

/-- An entry takes a page that the map does not find, and the page that it held before is forgotten. -/
theorem WellFormed.lendNew (wellFormed : cache.WellFormed hasher order) {paddrPage index : Nat}
    (missing : cache.map paddrPage = none) {rest : List Nat} {lru : LinkedRing Nat}
    {map : Nat → Option Nat} (ring : lru.Represents (index :: rest))
    (others : ∀ other, other ∈ rest ↔ other ∈ order ∧ other ≠ index)
    (within : ∀ other ∈ index :: rest, other < rest.length + 1) (room : rest.length + 1 ≤ cache.capacity)
    (kept : ∀ page other, other ≠ index → (map page = some other ↔ cache.map page = some other))
    (forgotten : ∀ page, map page ≠ some index) :
    WellFormed hasher
      ((emplace { cache with lru, map } paddrPage index).setBorrowed index true
        |>.setPaddrPage index paddrPage) (index :: rest) := by
  have vacant : map paddrPage = none := by
    rcases result : map paddrPage with _ | other
    · rfl
    · by_cases same : other = index
      · exact absurd (same ▸ result) (forgotten paddrPage)
      · rw [(kept paddrPage other same).mp result] at missing
        exact absurd missing (Option.some_ne_none other)
  constructor
  · exact wellFormed.positive
  · exact ring
  · exact room
  · exact within
  · intro page other
    show Function.update map paddrPage (some ((map paddrPage).getD index)) page = some other ↔
      other ∈ index :: rest ∧ Function.update cache.paddrPage index paddrPage other = page
    rw [vacant, Option.getD_none]
    by_cases same : other = index
    · subst same
      rw [Function.update_self]
      by_cases here : page = paddrPage
      · simp [here]
      · rw [Function.update_of_ne here]
        constructor
        · exact fun result => absurd result (forgotten page)
        · rintro ⟨_, equal⟩
          exact absurd equal.symm here
    · rw [Function.update_of_ne same, List.mem_cons, others]
      by_cases here : page = paddrPage
      · subst here
        rw [Function.update_self]
        constructor
        · intro equal
          exact absurd (Option.some.inj equal).symm same
        · rintro ⟨member, equal⟩
          have present : cache.map page = some other := by
            apply (wellFormed.found page other).mpr
            rcases member with here | ⟨inside, _⟩
            · exact absurd here same
            · exact ⟨inside, equal⟩
          rw [missing] at present
          exact absurd present (Option.some_ne_none other).symm
      · rw [Function.update_of_ne here, kept page other same, wellFormed.found]
        simp [same]
  · intro other outside
    rw [List.mem_cons, not_or, others] at outside
    show Function.update cache.borrowed index true other = false
    rw [Function.update_of_ne outside.1]
    apply wellFormed.free
    exact fun inside => outside.2 ⟨inside, outside.1⟩
  · intro other
    exact entry_wellFormed (wellFormed.hashed other) rfl rfl

/-- What a call to borrow an entry does. -/
inductive Borrowed (cache : EntryCache Hash) (order : List Nat) (paddrPage : Nat) :
    Option (Bool × Nat × EntryCache Hash) → Prop
  | found {index : Nat} (hit : cache.map paddrPage = some index)
      (free : cache.borrowed index = false) :
      Borrowed cache order paddrPage (some (true, index,
        { cache with lru := cache.lru.moveToFront index }.setBorrowed index true))
  | unused (missing : cache.map paddrPage = none) (room : order.length < cache.capacity) :
      Borrowed cache order paddrPage (some (false, order.length,
        (emplace { cache with lru := cache.lru.pushFront order.length } paddrPage order.length
          |>.setBorrowed order.length true).setPaddrPage order.length paddrPage))
  | evicted {rest : List Nat} {index : Nat} (missing : cache.map paddrPage = none)
      (full : order.length = cache.capacity) (last : order = rest ++ [index])
      (free : cache.borrowed index = false) :
      Borrowed cache order paddrPage (some (false, index,
        (emplace { cache.erase (cache.paddrPage index) with
            lru := cache.lru.popBack.pushFront index } paddrPage index
          |>.setBorrowed index true).setPaddrPage index paddrPage))
  | nothing {rest : List Nat} {index : Nat} (missing : cache.map paddrPage = none)
      (full : order.length = cache.capacity) (last : order = rest ++ [index])
      (lent : cache.borrowed index = true) : Borrowed cache order paddrPage none

/-- A call to borrow an entry fails only when the entry of its page is lent out. -/
theorem WellFormed.borrowEntry (wellFormed : cache.WellFormed hasher order) (paddrPage : Nat) :
    (∃ index, cache.map paddrPage = some index ∧ cache.borrowed index = true ∧
      cache.borrowEntry paddrPage = .error .entryAlreadyBorrowed) ∨
    ∃ lent, cache.borrowEntry paddrPage = .ok lent ∧ Borrowed cache order paddrPage lent := by
  have size := wellFormed.ring.size
  rw [EntryCache.borrowEntry]
  rcases result : cache.map paddrPage with _ | index
  · right
    dsimp only
    by_cases room : order.length < cache.capacity
    · have fresh : order.length ∉ order := fun member => by
        have less := wellFormed.used _ member
        omega
      rw [if_pos (size ▸ room), size, check_pos (wellFormed.free _ fresh)]
      exact ⟨_, rfl, .unused result room⟩
    · have full : order.length = cache.capacity := by
        have bound := wellFormed.room
        omega
      rw [if_neg (size ▸ room), wellFormed.ring.back]
      rcases List.eq_nil_or_concat order with empty | ⟨rest, index, last⟩
      · have positive := wellFormed.positive
        rw [empty, List.length_nil] at full
        omega
      · rw [List.concat_eq_append] at last
        have back : order.getLast? = some index := by simp [last]
        rw [back]
        dsimp only
        rcases lent : cache.borrowed index with _ | _
        · exact ⟨_, rfl, .evicted result full last lent⟩
        · exact ⟨_, rfl, .nothing result full last lent⟩
  · rcases lent : cache.borrowed index with _ | _
    · right
      dsimp only
      rw [check_pos lent]
      exact ⟨_, rfl, .found result lent⟩
    · left
      refine ⟨index, rfl, lent, ?_⟩
      dsimp only
      rw [lent]
      rfl

/-- The cache stays well formed when it lends an entry. -/
theorem WellFormed.lend (wellFormed : cache.WellFormed hasher order) {paddrPage : Nat}
    {hit : Bool} {index : Nat} {next : EntryCache Hash}
    (borrowed : Borrowed cache order paddrPage (some (hit, index, next))) :
    ∃ order', next.WellFormed hasher order' := by
  cases borrowed with
  | found hit free =>
      have member := ((wellFormed.found paddrPage index).mp hit).1
      exact ⟨_, wellFormed.lendFound member (wellFormed.ring.moveToFront member)⟩
  | unused missing room =>
      have fresh : order.length ∉ order := fun member => by
        have less := wellFormed.used _ member
        omega
      refine ⟨_, wellFormed.lendNew missing (wellFormed.ring.pushFront fresh) ?_ ?_ room ?_ ?_⟩
      · intro other
        constructor
        · intro member
          exact ⟨member, fun same => fresh (same ▸ member)⟩
        · exact And.left
      · intro other member
        rcases List.mem_cons.mp member with rfl | inside
        · omega
        · have less := wellFormed.used other inside
          omega
      · exact fun _ _ _ => Iff.rfl
      · intro page result
        exact fresh ((wellFormed.found page _).mp result).1
  | evicted missing full last free =>
      rename_i rest
      have ring := wellFormed.ring
      have nodup := ring.nodup
      rw [last] at ring nodup
      have outside : index ∉ rest := fun inside =>
        (List.nodup_append.mp nodup).2.2 index inside index List.mem_cons_self rfl
      have length : order.length = rest.length + 1 := by simp [last]
      have member : index ∈ order := by simp [last]
      refine ⟨_, wellFormed.lendNew missing (ring.popBack.pushFront outside) ?_ ?_ ?_ ?_ ?_⟩
      · intro other
        rw [last, List.mem_append, List.mem_singleton]
        constructor
        · intro inside
          exact ⟨Or.inl inside, fun same => outside (same ▸ inside)⟩
        · rintro ⟨inside | same, apart⟩
          · exact inside
          · exact absurd same apart
      · intro other inside
        rw [← length]
        apply wellFormed.used
        rcases List.mem_cons.mp inside with rfl | inside
        · exact member
        · rw [last]
          exact List.mem_append_left _ inside
      · omega
      · intro page other apart
        by_cases same : page = cache.paddrPage index
        · subst same
          show Function.update cache.map _ none _ = some other ↔ _
          rw [Function.update_self, (wellFormed.found _ index).mpr ⟨member, rfl⟩]
          constructor
          · exact nofun
          · intro equal
            exact absurd (Option.some.inj equal).symm apart
        · show Function.update cache.map _ none page = some other ↔ _
          rw [Function.update_of_ne same]
      · intro page result
        by_cases same : page = cache.paddrPage index
        · subst same
          have erased : Function.update cache.map (cache.paddrPage index) none
            (cache.paddrPage index) = some index := result
          rw [Function.update_self] at erased
          exact absurd erased (Option.some_ne_none index).symm
        · have kept : Function.update cache.map (cache.paddrPage index) none page = some index :=
            result
          rw [Function.update_of_ne same] at kept
          exact same ((wellFormed.found page index).mp kept).2.symm

/-- The cache stays well formed when the borrower of an entry in use changes. -/
theorem WellFormed.setBorrowed (wellFormed : cache.WellFormed hasher order) {index : Nat}
    {borrowed : Bool} (inside : borrowed = true → index ∈ order) :
    (cache.setBorrowed index borrowed).WellFormed hasher order where
  positive := wellFormed.positive
  ring := wellFormed.ring
  room := wellFormed.room
  used := wellFormed.used
  found := wellFormed.found
  free other outside := by
    show Function.update cache.borrowed index borrowed other = false
    by_cases same : other = index
    · subst same
      rw [Function.update_self]
      cases borrowed with
      | false => rfl
      | true => exact absurd (inside rfl) outside
    · rw [Function.update_of_ne same]
      exact wellFormed.free other outside
  hashed other := entry_wellFormed (wellFormed.hashed other) rfl rfl

end Lending

section Runs

variable {hasher lanes} {entryCount : Nat}

/-- Entries that were never used hold the page of zeros. -/
theorem wellFormed_pristine {cache : EntryCache Hash} (positive : 0 < cache.capacity)
    (lru : cache.lru = LinkedRing.empty) (map : cache.map = fun _ => none)
    (borrowed : cache.borrowed = fun _ => false)
    (page : cache.page = fun _ => List.replicate hashTreePageSize 0)
    (trees : cache.trees = fun node => pristinePageHashTree hasher node.2) :
    cache.WellFormed hasher [] where
  positive := positive
  ring := lru ▸ LinkedRing.empty_represents
  room := Nat.zero_le _
  used _ member := absurd member List.not_mem_nil
  found := by simp [map]
  free := by simp [borrowed]
  hashed index := by
    rw [entry, page, trees, borrowed]
    exact pristine_wellFormed (cache.paddrPage index) false

/-- Every call keeps the cache well formed. -/
theorem WellFormed.perform {cache next : EntryCache Hash} {order : List Nat}
    (wellFormed : cache.WellFormed hasher order) {call : Call} (allowed : call.Allowed)
    (performed : cache.perform hasher lanes call = .ok next) :
    next.capacity = cache.capacity ∧ ∃ order', next.WellFormed hasher order' := by
  cases call with
  | borrow paddrPage =>
      obtain ⟨lent, result, kept⟩ := bind_ok.mp performed
      obtain rfl := Except.ok.inj kept
      rcases wellFormed.borrowEntry paddrPage with ⟨_, _, _, failed⟩ | ⟨lent', result', borrowed⟩
      · simp [failed] at result
      · obtain rfl := Except.ok.inj (result.symm.trans result')
        rcases lent with _ | ⟨hit, index, after⟩
        · exact ⟨rfl, order, wellFormed⟩
        · constructor
          · cases borrowed <;> rfl
          · exact wellFormed.lend borrowed
  | borrowIfHit paddrPage =>
      obtain ⟨lent, result, kept⟩ := bind_ok.mp performed
      obtain rfl := Except.ok.inj kept
      rw [borrowEntryIfHit] at result
      split at result
      next index hit =>
        obtain ⟨_, _, returned⟩ := bind_ok.mp result
        obtain rfl := Except.ok.inj returned
        have member := ((wellFormed.found paddrPage index).mp hit).1
        exact ⟨rfl, order, wellFormed.setBorrowed fun _ => member⟩
      next missing =>
        obtain rfl := Except.ok.inj result
        exact ⟨rfl, order, wellFormed⟩
  | giveBack index =>
      obtain ⟨_, _, returned⟩ := bind_ok.mp performed
      obtain rfl := Except.ok.inj returned
      exact ⟨rfl, order, wellFormed.setBorrowed (by simp)⟩
  | update block =>
      obtain rfl := Except.ok.inj performed
      obtain ⟨hashed, _, trees, page, frame⟩ := updateEntries_spec lanes wellFormed.hashed allowed
      rw [frame] at hashed ⊢
      refine ⟨rfl, order, ?_⟩
      exact ⟨wellFormed.positive, wellFormed.ring, wellFormed.room, wellFormed.used,
        wellFormed.found, wellFormed.free, hashed⟩
  | clear =>
      obtain rfl := Except.ok.inj performed
      exact ⟨rfl, [], wellFormed_pristine wellFormed.positive rfl rfl rfl rfl rfl⟩

theorem Reachable.wellFormed {cache : EntryCache Hash}
    (reachable : Reachable hasher lanes entryCount cache) :
    cache.capacity = entryCount ∧ ∃ order, cache.WellFormed hasher order := by
  induction reachable with
  | create created =>
      obtain ⟨_, positive, returned⟩ := bind_ok.mp created
      have counted := Nat.pos_of_ne_zero (check_ok.mp positive)
      obtain rfl := Except.ok.inj returned
      exact ⟨rfl, [], wellFormed_pristine counted rfl rfl rfl rfl rfl⟩
  | perform _ _ allowed performed ih =>
      obtain ⟨capacity, order, wellFormed⟩ := ih
      obtain ⟨same, kept⟩ := wellFormed.perform allowed performed
      exact ⟨same.trans capacity, kept⟩

end Runs

section Agreement

variable {Hash : Type} {hasher : Hasher Hash} {lanes : Lanes} {entryCount : Nat}

variable (hasher) in
/-- The links of the ring go once around the entries in use, the map and these entries belong to each
other, and the entries hold the hash trees of their pages. -/
structure Agrees (cache : EntryCache Hash) (order : List Nat) : Prop where
  size : cache.lru.size = order.length
  cycle : ∀ steps ≤ order.length, cache.lru.next^[steps + 1] none = order[steps]? ∧
    cache.lru.prev (cache.lru.next^[steps + 1] none) = cache.lru.next^[steps] none
  once : order.Nodup
  inside : ∀ index ∈ order, index < cache.capacity
  pages : (order.map cache.paddrPage).Nodup
  found : ∀ paddrPage index,
    cache.map paddrPage = some index ↔ index ∈ order ∧ cache.paddrPage index = paddrPage
  nodes : ∀ index ∈ order, ∀ level depth position, level + depth = 7 → position < 2 ^ depth →
    cache.trees (index, 2 ^ depth + position) =
      pageNodeHash hasher (cache.page index) level position

theorem WellFormed.agrees {cache : EntryCache Hash} {order : List Nat}
    (wellFormed : cache.WellFormed hasher order) : cache.Agrees hasher order where
  size := wellFormed.ring.size
  cycle _ := wellFormed.ring.walk
  once := wellFormed.ring.nodup
  inside index member := (wellFormed.used index member).trans_le wellFormed.room
  pages := by
    apply List.Nodup.map_on _ wellFormed.ring.nodup
    intro first member second member' same
    have left := (wellFormed.found _ first).mpr ⟨member, same⟩
    have right := (wellFormed.found _ second).mpr ⟨member', rfl⟩
    exact Option.some.inj (left.symm.trans right)
  found := wellFormed.found
  nodes index _ _ _ _ whole inside := (wellFormed.hashed index).tree_eq whole inside

/-- A page of a block is stored, since no other page of the block goes to its entry. -/
theorem foldl_pages {block : List (Nat × List Byte)} (apart : (block.map Prod.fst).Nodup)
    {stored : Nat × List Byte} (member : stored ∈ block)
    (length : stored.2.length = hashTreePageSize) (pages : Nat → List Byte) :
    (block.foldl (fun pages update =>
      if update.2.length = hashTreePageSize then Function.update pages update.1 update.2
      else pages) pages) stored.1 = stored.2 := by
  induction block using List.reverseRecOn with
  | nil => exact absurd member List.not_mem_nil
  | append_singleton block last ih =>
      rw [List.foldl_append, List.foldl_cons, List.foldl_nil]
      rw [List.map_append, List.map_singleton] at apart
      obtain ⟨before, _, disjoint⟩ := List.nodup_append.mp apart
      rcases List.mem_append.mp member with inside | here
      · have elsewhere : stored.1 ≠ last.1 :=
          disjoint stored.1 (List.mem_map_of_mem inside) last.1 List.mem_cons_self
        split
        · rw [Function.update_of_ne elsewhere]
          exact ih before inside
        · exact ih before inside
      · obtain rfl := List.mem_singleton.mp here
        rw [if_pos length, Function.update_self]

/-- In every run the map, the ring and the hash trees agree, and an update stores its pages. -/
theorem reachable_agrees {cache : EntryCache Hash}
    (reachable : Reachable hasher lanes entryCount cache) :
    cache.capacity = entryCount ∧ (∃ order, cache.Agrees hasher order) ∧
      ∀ block : List (Nat × List Byte), (block.map Prod.fst).Nodup →
        ∀ update ∈ block, update.2.length = hashTreePageSize →
          (cache.updateEntries hasher lanes block).page update.1 = update.2 := by
  obtain ⟨capacity, order, wellFormed⟩ := reachable.wellFormed
  constructor
  · exact capacity
  · constructor
    · exact ⟨order, wellFormed.agrees⟩
    · intro block apart update member length
      rw [(updateEntries_spec lanes wellFormed.hashed apart).2.1]
      exact foldl_pages apart member length cache.page

/-- The lanes of a hasher that takes eight words at once. -/
def eightLanes : Lanes := ⟨8, 8⟩

/-- Two pages are lent out, one of them is given back and the other is written. -/
theorem writtenCache_agrees : ∃ cache : EntryCache Digest,
    (∃ order, cache.Agrees symbolicHasher order) ∧
      cache.page 0 = List.replicate hashTreePageSize 1 := by
  generalize written : List.replicate hashTreePageSize (1 : Byte) = page
  have length : page.length = hashTreePageSize := by rw [← written, List.length_replicate]
  have start : Reachable symbolicHasher eightLanes 2 _ := .create rfl
  have first := start.perform (.borrow 0x1000) trivial rfl
  have second := first.perform (.borrow 0x2000) trivial rfl
  have given := second.perform (.giveBack 1) trivial rfl
  have updated := given.perform (.update [(0, page)]) (List.nodup_singleton 0) rfl
  have stored := (reachable_agrees given).2.2 [(0, page)] (List.nodup_singleton 0) (0, page)
    List.mem_cons_self length
  exact ⟨_, (reachable_agrees updated).2.1, stored⟩

end Agreement

section Refusal

variable {Hash : Type} {hasher : Hasher Hash} {lanes : Lanes} {entryCount : Nat}

/-- No entry is lent only when all are lent out. Otherwise one that is free is lent to the page, and no
other entry changes hands. A call that fails asks for a page whose entry is lent out. -/
def LendsFreeEntry (cache : EntryCache Hash) (paddrPage : Nat) : Prop :=
  match cache.borrowEntry paddrPage with
  | .error _ => ∃ index, cache.map paddrPage = some index ∧ cache.borrowed index = true
  | .ok none => ∀ index < cache.capacity, cache.borrowed index = true
  | .ok (some (_, index, next)) =>
      index < cache.capacity ∧ cache.borrowed index = false ∧ next.paddrPage index = paddrPage ∧
        next.borrowed = Function.update cache.borrowed index true

/-- The page is not in a full cache whose last entry is lent out while another one is free. -/
structure TailHidesFree (cache : EntryCache Hash) (paddrPage : Nat) : Prop where
  missing : cache.map paddrPage = none
  full : cache.lru.size = cache.capacity
  last : ∃ index, cache.lru.back = some index ∧ cache.borrowed index = true
  free : ∃ index < cache.capacity, cache.borrowed index = false

/-- A free entry is refused exactly when the least recently used entry is lent out before it. -/
theorem lendsFreeEntry_iff {cache : EntryCache Hash}
    (reachable : Reachable hasher lanes entryCount cache) (paddrPage : Nat) :
    cache.LendsFreeEntry paddrPage ↔ ¬cache.TailHidesFree paddrPage := by
  obtain ⟨_, order, wellFormed⟩ := reachable.wellFormed
  have bound : ∀ index ∈ order, index < cache.capacity := fun index member =>
    (wellFormed.used index member).trans_le wellFormed.room
  rw [LendsFreeEntry]
  rcases wellFormed.borrowEntry paddrPage with ⟨index, hit, lent, result⟩ | ⟨lent, result, borrowed⟩
  · rw [result]
    refine iff_of_true ⟨index, hit, lent⟩ ?_
    intro hidden
    rw [hidden.missing] at hit
    exact absurd hit nofun
  · rw [result]
    cases borrowed with
    | @found index hit free =>
        obtain ⟨member, address⟩ := (wellFormed.found paddrPage index).mp hit
        refine iff_of_true ⟨bound index member, free, address, rfl⟩ ?_
        intro hidden
        rw [hidden.missing] at hit
        exact absurd hit nofun
    | unused missing room =>
        have fresh : order.length ∉ order := fun member => by
          have less := wellFormed.used _ member
          omega
        refine iff_of_true
          ⟨room, wellFormed.free _ fresh, Function.update_self _ _ _, rfl⟩ ?_
        intro hidden
        have full := hidden.full
        rw [wellFormed.ring.size] at full
        omega
    | @evicted rest index missing full last free =>
        have back : cache.lru.back = some index := by simp [wellFormed.ring.back, last]
        have member : index ∈ order := by simp [last]
        refine iff_of_true
          ⟨bound index member, free, Function.update_self _ _ _, rfl⟩ ?_
        intro hidden
        obtain ⟨other, same, lent⟩ := hidden.last
        obtain rfl := Option.some.inj (back.symm.trans same)
        rw [free] at lent
        exact absurd lent nofun
    | @nothing rest index missing full last lent =>
        have back : cache.lru.back = some index := by simp [wellFormed.ring.back, last]
        constructor
        · intro all hidden
          obtain ⟨other, inside, free⟩ := hidden.free
          rw [all other inside] at free
          exact absurd free nofun
        · intro visible other inside
          by_contra free
          apply visible
          exact ⟨missing, wellFormed.ring.size.trans full, ⟨index, back, lent⟩, other, inside,
            Bool.not_eq_true _ ▸ free⟩

/-- Of two pages that are lent out the second is given back. -/
theorem lendsFreeEntry_found : ∃ cache : EntryCache Digest,
    cache.LendsFreeEntry 0x2000 ↔ ¬cache.TailHidesFree 0x2000 := by
  have start : Reachable symbolicHasher eightLanes 2 _ := .create rfl
  have first := start.perform (.borrow 0x1000) trivial rfl
  have second := first.perform (.borrow 0x2000) trivial rfl
  have given := second.perform (.giveBack 1) trivial rfl
  exact ⟨_, lendsFreeEntry_iff given 0x2000⟩

/-- A third page gets no entry then, although the second entry is free. -/
theorem not_lendsFreeEntry : ∃ cache : EntryCache Digest,
    Reachable symbolicHasher eightLanes 2 cache ∧ cache.borrowed 1 = false ∧
      cache.borrowEntry 0x3000 = .ok none ∧ ¬cache.LendsFreeEntry 0x3000 := by
  have start : Reachable symbolicHasher eightLanes 2 _ := .create rfl
  have first := start.perform (.borrow 0x1000) trivial rfl
  have second := first.perform (.borrow 0x2000) trivial rfl
  have given := second.perform (.giveBack 1) trivial rfl
  refine ⟨_, given, rfl, rfl, ?_⟩
  intro lends
  exact absurd (lends 1 (by decide)) nofun

end Refusal

end EntryCache

end MachineEmulator.HashTree
