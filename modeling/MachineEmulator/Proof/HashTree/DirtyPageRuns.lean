/-
This file proves that the tree of dirty pages stands for a set of pages in every run of its calls,
and when marking a part of the range comes to an end.
-/

import MachineEmulator.Construction.HashTree.DirtyPageTree
import MachineEmulator.Proof.HashTree.DirtyPages
import MachineEmulator.Proof.Machine.VirtualMemory

namespace MachineEmulator.HashTree.DirtyPageTree

open Machine (pageMask page_toNat)

section Pages

/-- The pages of a new tree that are dirty, with the padding. -/
def initialPages (levels leafCount : Nat) (init : Bool) : Set Nat :=
  {page | page < levelBegin levels 0 ∧ (page < leafCount → init = true)}

/-- What a call makes of the set of dirty pages. -/
def Mark.pages (levels : Nat) (pages : Set Nat) : Mark → Set Nat
  | .dirtyPage offset => {page | page ∈ pages ∨
      page < levelBegin levels 0 ∧ page = offset.toNat / 4096}
  | .dirtyPages offset length => {page | page ∈ pages ∨
      page < levelBegin levels 0 ∧ offset.toNat / 4096 ≤ page ∧
        page * 4096 < (offset + length).toNat}
  | .cleanPage offset => {page | page ∈ pages ∧ page ≠ offset.toNat / 4096}
  | .clean => ∅

def pagesAfter (levels : Nat) (marks : List Mark) (pages : Set Nat) : Set Nat :=
  marks.foldl (Mark.pages levels) pages

/-- The end of a part of the range does not lie in the last page of all addresses, or the part is
empty. -/
def Mark.Finishes : Mark → Prop
  | .dirtyPages offset length => (offset + length).toNat ≤ 2 ^ 64 - 4096 ∨
      (offset + length).toNat ≤ offset.toNat / 4096 * 4096
  | _ => True

/-- A tree stands for a set of pages: its leaves are marked as the pages are, and a node above them
is dirty when one of its children is. -/
structure StandsFor (height : Nat) (dirty : DirtyPageTree) (pages : Set Nat) : Prop where
  consistent : Consistent dirty (2 ^ height)
  leaf : ∀ page < 2 ^ height, dirty (2 ^ height + page) = true ↔ page ∈ pages

end Pages

section Building

variable {dirty : DirtyPageTree}

theorem buildPosition_apply (position other : Nat) : dirty.buildPosition position other =
    if other = position then dirty other || (dirty (2 * other) || dirty (2 * other + 1))
    else dirty other := by
  rw [buildPosition]
  by_cases same : other = position
  · subst same
    rw [if_pos rfl]
    split
    next child => rw [Function.update_self, child, Bool.or_true]
    next none => rw [Bool.not_eq_true] at none; rw [none, Bool.or_false]
  · rw [if_neg same]
    split
    · exact Function.update_of_ne same true dirty
    · rfl

/-- The positions of a level take the marks of their children. -/
theorem buildLevel_apply (start count other : Nat) :
    (List.range count).foldl (fun dirty index => dirty.buildPosition (start + index)) dirty other =
      if start ≤ other ∧ other < start + count then
        dirty other || (dirty (2 * other) || dirty (2 * other + 1))
      else dirty other := by
  induction count generalizing other with
  | zero => rw [if_neg (by omega)]; rfl
  | succ count ih =>
      rw [List.range_succ, List.foldl_append, List.foldl_cons, List.foldl_nil, buildPosition_apply]
      by_cases same : other = start + count
      · subst same
        rw [if_pos rfl, ih, ih, ih, if_neg (by omega), if_neg (by omega), if_neg (by omega),
          if_pos (by omega)]
      · rw [if_neg same, ih]
        by_cases inside : start ≤ other ∧ other < start + count
        · rw [if_pos inside, if_pos (by omega)]
        · rw [if_neg inside, if_neg (by omega)]

/-- The levels that are built agree with their children, and nothing is marked above them. -/
theorem buildFromLeaves_spec {height : Nat}
    (blank : ∀ position < 2 ^ height, dirty position = false) (level : Nat) (low : level ≤ height) :
    (∀ position, 2 ^ (height - level) ≤ position → position < 2 ^ height →
      buildFromLeaves (height + 1) dirty level position =
        (buildFromLeaves (height + 1) dirty level (2 * position) ||
          buildFromLeaves (height + 1) dirty level (2 * position + 1))) ∧
    (∀ position < 2 ^ (height - level), buildFromLeaves (height + 1) dirty level position = false) ∧
    ∀ position, 2 ^ height ≤ position →
      buildFromLeaves (height + 1) dirty level position = dirty position := by
  induction level with
  | zero =>
      refine ⟨?_, blank, fun _ _ => rfl⟩
      intro position above below
      rw [Nat.sub_zero] at above
      omega
  | succ level ih =>
      obtain ⟨built, clean, kept⟩ := ih (by omega)
      have start : levelBegin (height + 1) (level + 1) = 2 ^ (height - (level + 1)) := by
        rw [levelBegin]
        congr 1
        omega
      have positive : 0 < 2 ^ (height - (level + 1)) := by positivity
      have double : 2 ^ (height - level) = 2 * 2 ^ (height - (level + 1)) := by
        rw [← pow_succ']
        congr 1
        omega
      have top : 2 ^ (height - level) ≤ 2 ^ height := Nat.pow_le_pow_right (by decide) (by omega)
      have apply := @buildLevel_apply (buildFromLeaves (height + 1) dirty level)
        (2 ^ (height - (level + 1))) (2 ^ (height - (level + 1)))
      rw [buildFromLeaves, buildLevel, start]
      refine ⟨?_, ?_, ?_⟩
      · intro position above below
        rw [apply, apply, apply, if_neg (by omega : ¬(_ ∧ 2 * position < _)),
          if_neg (by omega : ¬(_ ∧ 2 * position + 1 < _))]
        by_cases fresh : position < 2 ^ (height - level)
        · rw [if_pos (by omega), clean position fresh, Bool.false_or]
        · rw [if_neg (by omega)]
          exact built position (by omega) below
      · intro position below
        rw [apply, if_neg (by omega)]
        exact clean position (by omega)
      · intro position above
        rw [apply, if_neg (by omega)]
        exact kept position above

/-- A new tree stands for the pages that it is asked for and the padding. -/
theorem create_standsFor {height leafCount : Nat} (init : Bool) :
    StandsFor height (create (height + 1) leafCount init)
      (initialPages (height + 1) leafCount init) := by
  have first : levelBegin (height + 1) 0 = 2 ^ height := rfl
  have positive : 0 < 2 ^ height := by positivity
  obtain ⟨built, _, kept⟩ := @buildFromLeaves_spec (leaves (height + 1) leafCount init) height
    (fun position below => by rw [leaves, first, if_pos below]) height le_rfl
  constructor
  · intro position above below
    exact built position (by rw [Nat.sub_self]; omega) below
  · intro page inside
    have placed := kept (2 ^ height + page) (Nat.le_add_right _ _)
    rw [create, Nat.add_sub_cancel, placed, leaves, first, if_neg (by omega)]
    simp only [initialPages, first, Set.mem_ofPred_eq, inside, true_and]
    split
    next asked =>
      have within : page < leafCount := by omega
      simp [within]
    next padding =>
      have behind : ¬page < leafCount := by omega
      simp [behind]
      omega

end Building

section Calls

variable {height : Nat} {dirty : DirtyPageTree} {pages : Set Nat}

theorem markDirtyPageAndUp_eq (offset : Word) : markDirtyPageAndUp (height + 1) offset dirty =
    if offset.toNat / 4096 < 2 ^ height then
      dirty.markDirtyAndUp (height + 1) (2 ^ height + offset.toNat / 4096)
    else dirty := by
  have position : pagePosition (height + 1) offset = if offset.toNat / 4096 < 2 ^ height then
      some (2 ^ height + offset.toNat / 4096) else none := rfl
  rw [markDirtyPageAndUp, position]
  by_cases inside : offset.toNat / 4096 < 2 ^ height
  · rw [if_pos inside, if_pos inside]
  · rw [if_neg inside, if_neg inside]

theorem markCleanPageAndUp_eq (offset : Word) : markCleanPageAndUp (height + 1) offset dirty =
    if offset.toNat / 4096 < 2 ^ height then
      dirty.markCleanAndUp (height + 1) (2 ^ height + offset.toNat / 4096)
    else dirty := by
  have position : pagePosition (height + 1) offset = if offset.toNat / 4096 < 2 ^ height then
      some (2 ^ height + offset.toNat / 4096) else none := rfl
  rw [markCleanPageAndUp, position]
  by_cases inside : offset.toNat / 4096 < 2 ^ height
  · rw [if_pos inside, if_pos inside]
  · rw [if_neg inside, if_neg inside]

theorem StandsFor.markDirtyPageAndUp (stands : StandsFor height dirty pages) (offset : Word) :
    StandsFor height (DirtyPageTree.markDirtyPageAndUp (height + 1) offset dirty)
      {page | page ∈ pages ∨ page < 2 ^ height ∧ page = offset.toNat / 4096} := by
  rw [markDirtyPageAndUp_eq]
  by_cases inside : offset.toNat / 4096 < 2 ^ height
  · have fits : 2 ^ height + offset.toNat / 4096 < 2 ^ (height + 1) := by
      rw [pow_succ]
      omega
    rw [if_pos inside]
    constructor
    · exact stands.consistent.markDirtyAndUp (by omega) (by omega) fits
    · intro page below
      rw [markDirtyAndUp_leaf (height + 1) _
        (by omega : 2 ^ height + offset.toNat / 4096 < 2 * (2 ^ height + page)) (by omega) fits]
      have leaf := stands.leaf page below
      by_cases same : page = offset.toNat / 4096
      · simp [same, inside]
      · simp [same, leaf]
  · rw [if_neg inside]
    constructor
    · exact stands.consistent
    · intro page below
      have apart : page ≠ offset.toNat / 4096 := by omega
      simpa [apart] using stands.leaf page below

theorem StandsFor.markCleanPageAndUp (stands : StandsFor height dirty pages) (offset : Word) :
    StandsFor height (DirtyPageTree.markCleanPageAndUp (height + 1) offset dirty)
      {page | page ∈ pages ∧ page ≠ offset.toNat / 4096} := by
  rw [markCleanPageAndUp_eq]
  by_cases inside : offset.toNat / 4096 < 2 ^ height
  · have fits : 2 ^ height + offset.toNat / 4096 < 2 ^ (height + 1) := by
      rw [pow_succ]
      omega
    rw [if_pos inside]
    constructor
    · exact stands.consistent.markCleanAndUp (by omega) (by omega) fits
    · intro page below
      rw [markCleanAndUp_leaf (height + 1) _
        (by omega : 2 ^ height + offset.toNat / 4096 < 2 * (2 ^ height + page)) (by omega) fits]
      have leaf := stands.leaf page below
      by_cases same : page = offset.toNat / 4096
      · simp [same]
      · simp [same, leaf]
  · rw [if_neg inside]
    constructor
    · exact stands.consistent
    · intro page below
      have apart : page ≠ offset.toNat / 4096 := by omega
      simpa [apart] using stands.leaf page below

theorem StandsFor.clean (stands : StandsFor height dirty pages) :
    StandsFor height (dirty.clean (height + 1) (2 ^ height)) ∅ := by
  have none {position : Nat} (positive : 1 ≤ position) (inside : position < 2 * 2 ^ height) :=
    stands.consistent.clean positive inside
  constructor
  · intro position above below
    rw [none above (by omega), none (by omega) (by omega), none (by omega) (by omega)]
    rfl
  · intro page below
    have positive : 0 < 2 ^ height := by positivity
    simp [none (by omega : 1 ≤ 2 ^ height + page) (by omega)]

/-- The loop ends, and marks the pages from an offset to its end. -/
theorem markDirtyPagesLoop_marks (height : Nat) {stop : Word} (low : stop.toNat ≤ 2 ^ 64 - 4096)
    (rounds : Nat) (offset : Word) (dirty : DirtyPageTree) (aligned : offset.toNat % 4096 = 0)
    (enough : stop.toNat ≤ offset.toNat + rounds * 4096) :
    ∃ marked, markDirtyPagesLoop (height + 1) stop (rounds + 1) offset dirty = .ok marked ∧
      ∀ pages, StandsFor height dirty pages → StandsFor height marked
        {page | page ∈ pages ∨ page < 2 ^ height ∧ offset.toNat / 4096 ≤ page ∧
          page * 4096 < stop.toNat} := by
  have ends {offset : Word} (done : stop.toNat ≤ offset.toNat) {pages : Set Nat}
      {dirty : DirtyPageTree} (aligned : offset.toNat % 4096 = 0)
      (stands : StandsFor height dirty pages) : StandsFor height dirty
        {page | page ∈ pages ∨ page < 2 ^ height ∧ offset.toNat / 4096 ≤ page ∧
          page * 4096 < stop.toNat} := by
    constructor
    · exact stands.consistent
    · intro page below
      have outside : ¬(offset.toNat / 4096 ≤ page ∧ page * 4096 < stop.toNat) := by omega
      simpa [outside] using stands.leaf page below
  induction rounds generalizing offset dirty with
  | zero =>
      use dirty
      rw [markDirtyPagesLoop, if_neg (by rw [BitVec.lt_def]; omega)]
      exact ⟨rfl, fun pages stands => ends (by omega) aligned stands⟩
  | succ rounds ih =>
      rw [markDirtyPagesLoop]
      split
      next more =>
        rw [BitVec.lt_def] at more
        have next : (offset + 4096).toNat = offset.toNat + 4096 := by
          have size : (4096 : Word).toNat = 4096 := rfl
          rw [BitVec.toNat_add, size]
          omega
        obtain ⟨marked, ran, others⟩ := ih (offset + 4096)
          (markDirtyPageAndUp (height + 1) offset dirty) (by omega) (by omega)
        refine ⟨marked, ran, fun pages stands => ?_⟩
        have rest := others _ (stands.markDirtyPageAndUp offset)
        constructor
        · exact rest.consistent
        · intro page below
          rw [rest.leaf page below, next]
          simp only [Set.mem_ofPred_eq, below, true_and]
          by_cases first : page = offset.toNat / 4096
          · have inside : page * 4096 < stop.toNat := by omega
            simp [first]
            omega
          · have order : (offset.toNat + 4096) / 4096 ≤ page ↔ offset.toNat / 4096 ≤ page := by
              omega
            rw [order]
            simp [first]
      next done =>
        rw [BitVec.lt_def] at done
        exact ⟨dirty, rfl, fun pages stands => ends (by omega) aligned stands⟩

/-- The loop does not end when its end lies in the last page of all addresses. -/
theorem markDirtyPagesLoop_endless {stop : Word} (high : 2 ^ 64 - 4096 < stop.toNat)
    (levels rounds : Nat) (offset : Word) (dirty : DirtyPageTree)
    (aligned : offset.toNat % 4096 = 0) :
    markDirtyPagesLoop levels stop rounds offset dirty = .error .nonTermination := by
  induction rounds generalizing offset dirty with
  | zero => rfl
  | succ rounds ih =>
      have bound := offset.isLt
      rw [markDirtyPagesLoop, if_pos (by rw [BitVec.lt_def]; omega)]
      apply ih
      have size : (4096 : Word).toNat = 4096 := rfl
      rw [BitVec.toNat_add, size]
      omega

/-- A part of the range that does not end in the last page takes at most as many rounds as there are
pages. -/
theorem markDirtyPagesAndUp_marks (height : Nat) {offset length : Word} (dirty : DirtyPageTree)
    (finishes : (Mark.dirtyPages offset length).Finishes) :
    ∃ marked, markDirtyPagesAndUp (height + 1) (2 ^ 52 + 1) offset length dirty = .ok marked ∧
      ∀ pages, StandsFor height dirty pages →
        StandsFor height marked ((Mark.dirtyPages offset length).pages (height + 1) pages) := by
  have start := page_toNat offset
  have bound := (offset + length).isLt
  rw [markDirtyPagesAndUp]
  rcases finishes with low | empty
  · obtain ⟨marked, ran, others⟩ := markDirtyPagesLoop_marks height low (2 ^ 52)
      (offset &&& ~~~pageMask) dirty (by omega) (by omega)
    refine ⟨marked, ran, fun pages stands => ?_⟩
    have rest := others pages stands
    rw [start, Nat.mul_div_cancel _ (by decide)] at rest
    exact rest
  · refine ⟨dirty, ?_, fun pages stands => ⟨stands.consistent, ?_⟩⟩
    · rw [markDirtyPagesLoop, if_neg (by rw [BitVec.lt_def]; omega)]
    · intro page below
      have outside : ¬(offset.toNat / 4096 ≤ page ∧ page * 4096 < (offset + length).toNat) := by
        omega
      rw [stands.leaf page below]
      exact (or_iff_left fun inside => outside inside.2).symm

/-- Marking a part of the range ends if and only if the part is empty or does not end in the last
page of all addresses. -/
theorem markDirtyPagesAndUp_finishes_iff (height : Nat) (offset length : Word)
    (dirty : DirtyPageTree) :
    (∃ rounds marked, markDirtyPagesAndUp (height + 1) rounds offset length dirty = .ok marked) ↔
      (Mark.dirtyPages offset length).Finishes := by
  have start := page_toNat offset
  constructor
  · rintro ⟨rounds, marked, ran⟩
    by_contra endless
    obtain ⟨high, some⟩ := not_or.mp endless
    have never := markDirtyPagesLoop_endless (not_le.mp high) (height + 1) rounds
      (offset &&& ~~~pageMask) dirty (by omega)
    cases never.symm.trans ran
  · intro finishes
    obtain ⟨marked, ran, _⟩ := markDirtyPagesAndUp_marks height dirty finishes
    exact ⟨_, marked, ran⟩

theorem StandsFor.perform (stands : StandsFor height dirty pages) {mark : Mark}
    (finishes : mark.Finishes) : ∃ marked,
      Mark.perform (height + 1) (2 ^ 52 + 1) dirty mark = .ok marked ∧
      StandsFor height marked (mark.pages (height + 1) pages) := by
  cases mark with
  | dirtyPage offset => exact ⟨_, rfl, stands.markDirtyPageAndUp offset⟩
  | cleanPage offset => exact ⟨_, rfl, stands.markCleanPageAndUp offset⟩
  | clean => exact ⟨_, rfl, stands.clean⟩
  | dirtyPages offset length =>
      obtain ⟨marked, ran, others⟩ := markDirtyPagesAndUp_marks height dirty finishes
      exact ⟨marked, ran, others pages stands⟩

/-- A run of calls that end keeps what the tree stands for. -/
theorem StandsFor.performAll (stands : StandsFor height dirty pages) (marks : List Mark)
    (finishing : ∀ mark ∈ marks, mark.Finishes) : ∃ marked,
      DirtyPageTree.performAll (height + 1) (2 ^ 52 + 1) marks dirty = .ok marked ∧
      StandsFor height marked (pagesAfter (height + 1) marks pages) := by
  induction marks generalizing dirty pages with
  | nil => exact ⟨dirty, rfl, stands⟩
  | cons mark marks ih =>
      obtain ⟨next, first, stands⟩ := stands.perform (finishing mark List.mem_cons_self)
      obtain ⟨last, rest, stands⟩ := ih stands fun other member =>
        finishing other (List.mem_cons_of_mem _ member)
      refine ⟨last, ?_, stands⟩
      rw [DirtyPageTree.performAll, List.foldlM_cons, first]
      exact rest

end Calls

section Views

variable {height : Nat} {dirty : DirtyPageTree} {pages : Set Nat}

/-- A node is dirty when a page below it is. -/
theorem StandsFor.node (stands : StandsFor height dirty pages) (level : Nat) (low : level ≤ height)
    (index : Nat) (inside : index < 2 ^ (height - level)) :
    dirty (2 ^ (height - level) + index) = true ↔
      ∃ page ∈ pages, page < 2 ^ height ∧ page / 2 ^ level = index := by
  induction level generalizing index with
  | zero =>
      rw [Nat.sub_zero] at inside ⊢
      rw [stands.leaf index inside]
      simp [inside]
  | succ level ih =>
      have double : 2 ^ (height - level) = 2 * 2 ^ (height - (level + 1)) := by
        rw [← pow_succ']
        congr 1
        omega
      have top : 2 ^ (height - level) ≤ 2 ^ height := Nat.pow_le_pow_right (by decide) (by omega)
      have positive : 0 < 2 ^ (height - (level + 1)) := by positivity
      have left : 2 * (2 ^ (height - (level + 1)) + index) = 2 ^ (height - level) + 2 * index := by
        omega
      rw [stands.consistent _ (by omega) (by omega), left, Nat.add_assoc, Bool.or_eq_true,
        ih (by omega) (2 * index) (by omega), ih (by omega) (2 * index + 1) (by omega)]
      have half (page : Nat) : page / 2 ^ (level + 1) = index ↔
          page / 2 ^ level = 2 * index ∨ page / 2 ^ level = 2 * index + 1 := by
        rw [pow_succ, ← Nat.div_div_eq_div_mul]
        omega
      simp only [half]
      constructor
      · rintro (⟨page, member, below, same⟩ | ⟨page, member, below, same⟩)
        · exact ⟨page, member, below, .inl same⟩
        · exact ⟨page, member, below, .inr same⟩
      · rintro ⟨page, member, below, same | same⟩
        · exact .inl ⟨page, member, below, same⟩
        · exact .inr ⟨page, member, below, same⟩

/-- The iterator lists the dirty positions in their order. -/
theorem Consistent.positionsFrom_eq {leafBegin : Nat} (consistent : Consistent dirty leafBegin)
    (depth : Nat) (level : 2 ^ depth ≤ leafBegin) {levels : Nat} (enough : depth < levels)
    (steps start : Nat) (low : 2 ^ depth ≤ start) (far : 2 * 2 ^ depth ≤ start + steps)
    {found : Option Nat} (least : Least dirty start (2 * 2 ^ depth) found) :
    dirty.positionsFrom levels (2 ^ depth) steps found =
      (List.range' start (2 * 2 ^ depth - start)).filter dirty := by
  have none {start : Nat} (clean : Least dirty start (2 * 2 ^ depth) none) :
      (List.range' start (2 * 2 ^ depth - start)).filter dirty = [] := by
    rw [List.filter_eq_nil_iff]
    intro position member
    obtain ⟨above, below⟩ := List.mem_range'_1.mp member
    rw [clean position above (by omega)]
    exact Bool.false_ne_true
  induction steps generalizing start found with
  | zero =>
      cases found with
      | none =>
          rw [none least]
          simp only [positionsFrom]
      | some found =>
          obtain ⟨⟨above, below⟩, _⟩ := least
          omega
  | succ steps ih =>
      cases found with
      | none =>
          rw [none least]
          simp only [positionsFrom]
      | some found =>
          obtain ⟨⟨above, below⟩, marked, clean⟩ := least
          have rest := ih (found + 1) (by omega) (by omega)
            (consistent.next_least depth level enough (by omega) below)
          have split : 2 * 2 ^ depth - start =
              (found - start) + ((2 * 2 ^ depth - (found + 1)) + 1) := by omega
          have front : (List.range' start (found - start)).filter dirty = [] := by
            rw [List.filter_eq_nil_iff]
            intro position member
            obtain ⟨low, high⟩ := List.mem_range'_1.mp member
            rw [clean position low (by omega)]
            exact Bool.false_ne_true
          rw [positionsFrom, rest, split, ← List.range'_append_1, List.filter_append, front,
            Nat.add_sub_of_le above, List.range'_succ, List.filter_cons_of_pos marked,
            List.nil_append]

/-- The view of a level shows the offsets of its dirty nodes in their order. -/
theorem Consistent.dirtyOffsetsView_eq (consistent : Consistent dirty (2 ^ height)) {level : Nat}
    (low : level ≤ height) : dirtyOffsetsView (height + 1) level dirty =
      ((List.range (2 ^ (height - level))).filter fun index =>
        dirty (2 ^ (height - level) + index)).map fun index => index * 2 ^ (12 + level) := by
  have begins : levelBegin (height + 1) level = 2 ^ (height - level) := by
    rw [levelBegin]
    congr 1
    omega
  have wide : 2 ^ (height - level) ≤ 2 ^ height :=
    Nat.pow_le_pow_right (by decide) (Nat.sub_le _ _)
  have enough : height - level < height + 1 := by omega
  have whole := consistent.positionsFrom_eq (height - level) wide enough
    (2 ^ (height - level)) (2 ^ (height - level)) le_rfl (by omega)
    (consistent.first_least (height - level) wide enough)
  have count : 2 * 2 ^ (height - level) - 2 ^ (height - level) = 2 ^ (height - level) := by omega
  rw [count, List.range'_eq_map_range, List.filter_map] at whole
  rw [dirtyOffsetsView, begins, positions, whole, List.map_map]
  simp [Function.comp_def, hashTreeLog2PageSize]

/-- In a run from a new tree, each level shows the offsets of the nodes with dirty pages below them,
each of them once and in their order. -/
def ViewsPages (levels leafCount : Nat) (init : Bool) (marks : List Mark) : Prop :=
  ∃ dirty, performAll levels (2 ^ 52 + 1) marks (create levels leafCount init) = .ok dirty ∧
    Consistent dirty (levelBegin levels 0) ∧
    ∀ level < levels,
      (dirtyOffsetsView levels level dirty).Pairwise (· < ·) ∧
      ∀ offset, offset ∈ dirtyOffsetsView levels level dirty ↔
        ∃ page ∈ pagesAfter levels marks (initialPages levels leafCount init),
          page < levelBegin levels 0 ∧ offset = page / 2 ^ level * 2 ^ (12 + level)

theorem StandsFor.views (stands : StandsFor height dirty pages) {level : Nat}
    (low : level ≤ height) :
    (dirtyOffsetsView (height + 1) level dirty).Pairwise (· < ·) ∧
    ∀ offset, offset ∈ dirtyOffsetsView (height + 1) level dirty ↔
      ∃ page ∈ pages, page < 2 ^ height ∧ offset = page / 2 ^ level * 2 ^ (12 + level) := by
  have whole : 2 ^ height = 2 ^ (height - level) * 2 ^ level := by
    rw [← pow_add]
    congr 1
    omega
  rw [stands.consistent.dirtyOffsetsView_eq low]
  constructor
  · rw [List.pairwise_map]
    apply List.Pairwise.filter
    apply List.pairwise_lt_range.imp
    intro first second order
    exact Nat.mul_lt_mul_of_pos_right order (by positivity)
  · intro offset
    rw [List.mem_map]
    constructor
    · rintro ⟨index, member, rfl⟩
      obtain ⟨inside, marked⟩ := List.mem_filter.mp member
      obtain ⟨page, held, below, same⟩ :=
        (stands.node level low index (List.mem_range.mp inside)).mp marked
      exact ⟨page, held, below, by rw [same]⟩
    · rintro ⟨page, held, below, rfl⟩
      have inside : page / 2 ^ level < 2 ^ (height - level) := by
        rw [Nat.div_lt_iff_lt_mul (by positivity), ← whole]
        exact below
      refine ⟨page / 2 ^ level, List.mem_filter.mpr ⟨List.mem_range.mpr inside, ?_⟩, rfl⟩
      exact (stands.node level low _ inside).mpr ⟨page, held, below, rfl⟩

/-- The views of the tree show the pages that were marked and not cleaned since, in every run of the
calls from a new tree. -/
theorem performAll_viewsPages {levels leafCount : Nat} (admitted : checkLevelCount levels leafCount)
    (init : Bool) (marks : List Mark) (finishing : ∀ mark ∈ marks, mark.Finishes) :
    ViewsPages levels leafCount init marks := by
  obtain ⟨positive, _, _⟩ := admitted
  obtain ⟨height, rfl⟩ := Nat.exists_eq_add_of_le' positive
  obtain ⟨dirty, ran, stands⟩ := (create_standsFor init).performAll marks finishing
  refine ⟨dirty, ran, stands.consistent, ?_⟩
  intro level low
  exact stands.views (Nat.lt_succ_iff.mp low)

theorem performAll_viewsPages_two : ViewsPages 2 1 false [.dirtyPages 0 4096, .cleanPage 4096] := by
  apply performAll_viewsPages (by decide : checkLevelCount 2 1)
  intro mark member
  rcases List.mem_pair.mp member with rfl | rfl
  · exact .inl (by decide)
  · trivial

end Views

end MachineEmulator.HashTree.DirtyPageTree
