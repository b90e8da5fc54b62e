/-
This file proves that the update of the dense trees, which hashes dirty nodes only, brings all nodes
up to date.
-/

import MachineEmulator.Construction.HashTree.HashTree
import MachineEmulator.Construction.SymbolicHasher
import MachineEmulator.Proof.HashTree.DirtyPages

namespace MachineEmulator.HashTree

open DirtyPageTree (Consistent)

variable {Hash : Type} {hasher : Hasher Hash}

/-- A node of a dense tree is the hash of its children. -/
def Range.Joined (hasher : Hasher Hash) (range : Range Hash) (position : Nat) : Prop :=
  range.dense position =
    hasher.concatHash (range.dense (2 * position)) (range.dense (2 * position + 1))

/-- The marks of a range are consistent, and its clean nodes are up to date. -/
structure Range.Marked (hasher : Hasher Hash) (range : Range Hash) : Prop where
  consistent : Consistent range.dirty range.leafBegin
  clean : ∀ position, 1 ≤ position → position < range.leafBegin → range.dirty position = false →
    range.Joined hasher position

/-- The dirty nodes of a range are hashed up to a level. -/
structure RehashedTo (hasher : Hasher Hash) (range : Range Hash) (level : Nat) (next : Range Hash) :
    Prop where
  start : next.start = range.start
  length : next.length = range.length
  dirty : next.dirty = range.dirty
  clean : ∀ position, range.dirty position = false → next.dense position = range.dense position
  leaf : ∀ position, range.leafBegin ≤ position → next.dense position = range.dense position
  joined : ∀ position, 1 ≤ position → 2 ^ (range.levels - 1 - level) ≤ position →
    position < range.leafBegin → next.Joined hasher position

section Levels

variable {range next : Range Hash} {level : Nat}

theorem Range.levels_pos (range : Range Hash) : 0 < range.levels := Nat.succ_pos _

theorem RehashedTo.levels (rehashed : RehashedTo hasher range level next) :
    next.levels = range.levels := by
  rw [Range.levels, rehashed.length, Range.levels]

theorem RehashedTo.less (rehashed : RehashedTo hasher range (level + 1) next) :
    RehashedTo hasher range level next :=
  { rehashed with
    joined := fun position positive above below =>
      rehashed.joined position positive
        (le_trans (Nat.pow_le_pow_right (by decide) (by omega)) above) below }

/-- The nodes of one level are hashed from nodes that stay as they are. -/
theorem foldl_rehash {combine : Hash → Hash → Hash} {bound start : Nat} (hashes : Nat → Hash)
    (work : List Nat) (inside : ∀ position ∈ work, start ≤ position ∧ position < 2 * start)
    (other : Nat) : work.foldl (Rehash.heap combine bound).rehash hashes other =
      if other ∈ work then combine (hashes (2 * other)) (hashes (2 * other + 1))
      else hashes other := by
  induction work generalizing hashes with
  | nil => rfl
  | cons first work ih =>
      obtain ⟨low, high⟩ := inside first List.mem_cons_self
      have rest := ih ((Rehash.heap combine bound).rehash hashes first) fun position member =>
        inside position (List.mem_cons_of_mem _ member)
      have kept (position : Nat) (apart : position ≠ first) :
          (Rehash.heap combine bound).rehash hashes first position = hashes position :=
        Function.update_of_ne apart _ _
      rw [List.foldl_cons, rest]
      by_cases later : other ∈ work
      · have bounds := inside other (List.mem_cons_of_mem _ later)
        rw [if_pos later, if_pos (List.mem_cons_of_mem _ later), kept _ (by omega),
          kept _ (by omega)]
      · rw [if_neg later]
        by_cases same : other = first
        · rw [if_pos (same ▸ List.mem_cons_self), same]
          exact Function.update_self _ _ _
        · rw [if_neg (by simp [same, later]), kept other same]

/-- A range has no nodes above its root. -/
theorem Range.rehashLevel_above (high : range.levels ≤ level) :
    range.rehashLevel hasher level = range := by
  rw [Range.rehashLevel, Range.dirtyPositions, if_neg (not_lt.mpr high)]
  rfl

/-- One level brings its own nodes up to date. -/
theorem RehashedTo.rehashLevel (marked : range.Marked hasher)
    (rehashed : RehashedTo hasher range level next) :
    RehashedTo hasher range (level + 1) (next.rehashLevel hasher (level + 1)) := by
  have levels := rehashed.levels
  have positiveLevels := range.levels_pos
  by_cases low : level + 1 < range.levels
  · have double : 2 ^ (range.levels - 1 - level) = 2 * 2 ^ (range.levels - (level + 1) - 1) := by
      rw [← pow_succ']
      congr 1
      omega
    have same : range.levels - 1 - (level + 1) = range.levels - (level + 1) - 1 := by omega
    have wide : 2 ^ (range.levels - 1 - level) ≤ range.leafBegin :=
      Nat.pow_le_pow_right (by decide) (by omega)
    have member (position : Nat) : position ∈ next.dirtyPositions (level + 1) ↔
        2 ^ (range.levels - (level + 1) - 1) ≤ position ∧
          position < 2 * 2 ^ (range.levels - (level + 1) - 1) ∧ range.dirty position = true := by
      rw [Range.dirtyPositions, levels, if_pos low, rehashed.dirty]
      exact marked.consistent.mem_positions _ (by omega) (by omega)
    have inside (position : Nat) (visited : position ∈ next.dirtyPositions (level + 1)) :=
      (member position).mp visited
    have hashes (other : Nat) : (next.rehashLevel hasher (level + 1)).dense other =
        if other ∈ next.dirtyPositions (level + 1) then
          hasher.concatHash (next.dense (2 * other)) (next.dense (2 * other + 1))
        else next.dense other :=
      foldl_rehash next.dense _
        (fun position visited => ⟨(inside position visited).1, (inside position visited).2.1⟩) other
    have kept (other : Nat) (outside : 2 * 2 ^ (range.levels - (level + 1) - 1) ≤ other) :
        (next.rehashLevel hasher (level + 1)).dense other = next.dense other := by
      rw [hashes, if_neg]
      intro visited
      exact absurd (inside other visited).2.1 (not_lt.mpr outside)
    have still (other : Nat) (clean : range.dirty other = false) :
        (next.rehashLevel hasher (level + 1)).dense other = next.dense other := by
      rw [hashes, if_neg]
      intro visited
      rw [(inside other visited).2.2] at clean
      cases clean
    refine ⟨rehashed.start, rehashed.length, rehashed.dirty, ?_, ?_, ?_⟩
    · intro position clean
      rw [still position clean, rehashed.clean position clean]
    · intro position behind
      rw [kept position (by omega), rehashed.leaf position behind]
    · intro position positive above below
      rw [same] at above
      rw [Range.Joined, kept (2 * position) (by omega), kept (2 * position + 1) (by omega)]
      by_cases deeper : 2 * 2 ^ (range.levels - (level + 1) - 1) ≤ position
      · rw [kept position deeper]
        exact rehashed.joined position positive (by omega) below
      · cases mark : range.dirty position with
        | true => rw [hashes, if_pos ((member position).mpr ⟨above, by omega, mark⟩)]
        | false =>
            have children := marked.consistent position positive below
            rw [mark] at children
            obtain ⟨left, right⟩ := Bool.or_eq_false_iff.mp children.symm
            rw [still position mark, rehashed.clean position mark, rehashed.clean _ left,
              rehashed.clean _ right]
            exact marked.clean position positive below mark
  · rw [Range.rehashLevel_above (by omega)]
    refine ⟨rehashed.start, rehashed.length, rehashed.dirty, rehashed.clean, rehashed.leaf, ?_⟩
    intro position positive above below
    apply rehashed.joined position positive _ below
    have top : range.levels - 1 - level = 0 := by omega
    rw [top]
    exact positive

theorem rehashedTo_zero (range : Range Hash) : RehashedTo hasher range 0 range := by
  refine ⟨rfl, rfl, rfl, fun _ _ => rfl, fun _ _ => rfl, ?_⟩
  intro position positive above below
  rw [Nat.sub_zero] at above
  exact absurd above (not_le.mpr below)

/-- The clean nodes of a new range are up to date, since there are none. -/
theorem create_marked (none : Hash) (start length : Nat) :
    (Range.create none start length).Marked hasher where
  consistent _ _ _ := rfl
  clean := by
    intro position _ _ clean
    cases clean

end Levels

section Trees

variable (hasher)

/-- The dense trees of the listed ranges have the hashes of their pages, and the other ranges are
left alone. -/
def DenseTreesHashed (changedArs : List Nat) (tree next : Tree Hash) : Prop :=
  (∀ index ∉ changedArs, next.range index = tree.range index) ∧
  ∀ index ∈ changedArs, (next.range index).dirty = (tree.range index).dirty ∧
    ∀ level depth node, level + depth + 1 = (tree.range index).levels → node < 2 ^ depth →
      (next.range index).dense (2 ^ depth + node) = Merkle.nodeHash hasher.concatHash
        (fun page => (tree.range index).dense ((tree.range index).leafBegin + page)) level node

variable {hasher} {tree : Tree Hash} {level : Nat}

/-- The round of a level for one range of the list. -/
def rehashRange (hasher : Hasher Hash) (level : Nat) (tree : Tree Hash) (arIndex : Nat) :
    Tree Hash :=
  if (tree.range arIndex).levels < level then tree
  else tree.modifyRange arIndex fun range => range.rehashLevel hasher level

theorem range_rehashRange (arIndex index : Nat) :
    (rehashRange hasher level tree arIndex).range index =
      if index = arIndex then (tree.range index).rehashLevel hasher level
      else tree.range index := by
  rw [rehashRange]
  split
  next high =>
    split
    next same => rw [same, Range.rehashLevel_above high.le]
    next apart => rfl
  next inside =>
    by_cases same : index = arIndex
    · rw [if_pos same, same]
      exact Function.update_self _ _ _
    · rw [if_neg same]
      exact Function.update_of_ne same _ _

theorem updateDenseLevel_eq [DecidableEq Hash] (changedArs : List Nat) :
    updateDenseLevel hasher changedArs tree level =
      changedArs.foldl (rehashRange hasher level) tree := rfl

theorem foldl_rehashRange_other {changedArs : List Nat} {index : Nat}
    (outside : index ∉ changedArs) :
    (changedArs.foldl (rehashRange hasher level) tree).range index = tree.range index := by
  induction changedArs generalizing tree with
  | nil => rfl
  | cons first rest ih =>
      rw [List.mem_cons, not_or] at outside
      rw [List.foldl_cons, ih outside.2, range_rehashRange, if_neg outside.1]

/-- A level brings the ranges of the list one level further. -/
theorem RehashedTo.foldl_rehashRange {range : Range Hash} (marked : range.Marked hasher)
    {changedArs : List Nat} {index : Nat} (member : index ∈ changedArs)
    (rehashed : RehashedTo hasher range level (tree.range index)) :
    RehashedTo hasher range (level + 1)
      ((changedArs.foldl (rehashRange hasher (level + 1)) tree).range index) := by
  have again (rest : List Nat) {tree : Tree Hash}
      (rehashed : RehashedTo hasher range (level + 1) (tree.range index)) :
      RehashedTo hasher range (level + 1)
        ((rest.foldl (rehashRange hasher (level + 1)) tree).range index) := by
    induction rest generalizing tree with
    | nil => exact rehashed
    | cons first rest ih =>
        apply ih
        rw [range_rehashRange]
        split
        · exact rehashed.less.rehashLevel marked
        · exact rehashed
  induction changedArs generalizing tree with
  | nil => cases member
  | cons first rest ih =>
      rw [List.foldl_cons]
      by_cases same : index = first
      · apply again rest
        rw [range_rehashRange, if_pos same]
        exact rehashed.rehashLevel marked
      · apply ih ((List.mem_cons.mp member).resolve_left same)
        rw [range_rehashRange, if_neg same]
        exact rehashed

variable [DecidableEq Hash]

theorem updateDenseTrees_rehashes {changedArs : List Nat} {index : Nat}
    (member : index ∈ changedArs) (marked : (tree.range index).Marked hasher) (count : Nat) :
    RehashedTo hasher (tree.range index) count
      (((List.range' 1 count).foldl (updateDenseLevel hasher changedArs) tree).range index) := by
  induction count with
  | zero => exact rehashedTo_zero _
  | succ count ih =>
      rw [List.range'_1_concat, List.foldl_append, List.foldl_cons, List.foldl_nil,
        updateDenseLevel_eq, Nat.add_comm 1 count]
      exact ih.foldl_rehashRange marked member

theorem le_foldl_max (levels : List Nat) (least : Nat) :
    least ≤ levels.foldl max least ∧ ∀ level ∈ levels, level ≤ levels.foldl max least := by
  induction levels generalizing least with
  | nil => simp
  | cons first levels ih =>
      obtain ⟨above, all⟩ := ih (max least first)
      constructor
      · exact (le_max_left _ _).trans above
      · intro level member
        rcases List.mem_cons.mp member with rfl | later
        · exact (le_max_right _ _).trans above
        · exact all level later

theorem foldl_updateDenseLevel_other {changedArs : List Nat} {index : Nat}
    (outside : index ∉ changedArs) (levels : List Nat) :
    (levels.foldl (updateDenseLevel hasher changedArs) tree).range index = tree.range index := by
  induction levels generalizing tree with
  | nil => rfl
  | cons level levels ih =>
      rw [List.foldl_cons, ih, updateDenseLevel_eq, foldl_rehashRange_other outside]

/-- The update of the dense trees hashes dirty nodes only, and each node has the hash of its pages
after it when the clean nodes were up to date before it. -/
theorem updateDenseTrees_hashed (changedArs : List Nat)
    (marked : ∀ index ∈ changedArs, (tree.range index).Marked hasher) :
    DenseTreesHashed hasher changedArs tree (updateDenseTrees hasher changedArs tree) := by
  constructor
  · intro index outside
    exact foldl_updateDenseLevel_other outside _
  · intro index member
    have rehashed := updateDenseTrees_rehashes member (marked index member)
      (((changedArs.map fun arIndex => (tree.range arIndex).levels).foldl max 0) - 1)
    have wide := (le_foldl_max (changedArs.map fun arIndex => (tree.range arIndex).levels) 0).2
      (tree.range index).levels (List.mem_map_of_mem member)
    refine ⟨rehashed.dirty, ?_⟩
    intro level depth node whole inside
    have height : level + depth = (tree.range index).levels - 1 := by omega
    apply Rehash.heap_nodeHash _ _ level depth height inside
    · intro position positive below
      apply rehashed.joined position positive _ below
      have top : (tree.range index).levels - 1 -
          ((changedArs.map fun arIndex => (tree.range arIndex).levels).foldl max 0 - 1) = 0 := by
        omega
      rw [top]
      exact positive
    · intro page _
      exact rehashed.leaf _ (Nat.le_add_right _ _)

/-- A hash tree with one new range of two pages. -/
def twoPages : Tree Digest where
  count := 1
  range _ := Range.create (noHash symbolicHasher) 0 8192
  cache := PageHashTreeCache.create symbolicHasher 1
  nodes := []
  hash _ := noHash symbolicHasher
  marked _ := false

theorem updateDenseTrees_hashed_twoPages : DenseTreesHashed symbolicHasher [0] twoPages
    (updateDenseTrees symbolicHasher [0] twoPages) :=
  updateDenseTrees_hashed [0] fun _ _ => create_marked _ _ _

end Trees

end MachineEmulator.HashTree
