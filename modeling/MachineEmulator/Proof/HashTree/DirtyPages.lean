/-
This file proves what the iterator over the dirty pages visits, and what marking and cleaning pages does
to the tree of marks.
-/

import MachineEmulator.Construction.HashTree.PageTrees

namespace MachineEmulator.HashTree.DirtyPageTree

/-- A node above the leaves is dirty when one of its children is. -/
def Consistent (dirty : DirtyPageTree) (leafBegin : Nat) : Prop :=
  ∀ position, 1 ≤ position → position < leafBegin →
    dirty position = (dirty (2 * position) || dirty (2 * position + 1))

/-- The answer is the least dirty position of an interval, if there is one. -/
def Least (dirty : DirtyPageTree) (start stop : Nat) : Option Nat → Prop
  | some found => (start ≤ found ∧ found < stop) ∧ dirty found = true ∧
      ∀ position, start ≤ position → position < found → dirty position = false
  | none => ∀ position, start ≤ position → position < stop → dirty position = false

section Iterator

variable {dirty : DirtyPageTree} {leafBegin levelBegin : Nat}

theorem Least.extend {start later stop : Nat} {found : Option Nat}
    (least : Least dirty later stop found) (before : start ≤ later)
    (clean : ∀ position, start ≤ position → position < later → dirty position = false) :
    Least dirty start stop found := by
  cases found with
  | none =>
      intro position low high
      by_cases early : position < later
      · exact clean position low early
      · exact least position (by omega) high
  | some found =>
      obtain ⟨⟨low, high⟩, marked, first⟩ := least
      constructor
      · omega
      · constructor
        · exact marked
        · intro position above below
          by_cases early : position < later
          · exact clean position above early
          · exact first position (by omega) below

/-- The intervals of a node and of its children on a level below. -/
theorem node_spans (position gap : Nat) :
    position * 2 ^ (gap + 1) = 2 * (position * 2 ^ gap) ∧
    (position + 1) * 2 ^ (gap + 1) = 2 * (position * 2 ^ gap) + 2 * 2 ^ gap ∧
    2 * position * 2 ^ gap = 2 * (position * 2 ^ gap) ∧
    (2 * position + 1) * 2 ^ gap = 2 * (position * 2 ^ gap) + 2 ^ gap ∧
    (2 * position + 1 + 1) * 2 ^ gap = 2 * (position * 2 ^ gap) + 2 * 2 ^ gap ∧
    position + 1 ≤ position * 2 ^ gap + 2 ^ gap := by
  have positive : 0 < 2 ^ gap := by positivity
  have large : position ≤ position * 2 ^ gap := Nat.le_mul_of_pos_right position positive
  constructor
  · rw [pow_succ]; ring
  constructor
  · rw [pow_succ]; ring
  constructor
  · ring
  constructor
  · ring
  constructor
  · ring
  · omega

/-- A clean node has no dirty nodes below it. -/
theorem Consistent.clean_below (consistent : Consistent dirty leafBegin) (gap position : Nat)
    (positive : 1 ≤ position) (inside : (position + 1) * 2 ^ gap ≤ 2 * leafBegin)
    (clean : dirty position = false) :
    ∀ below, position * 2 ^ gap ≤ below → below < (position + 1) * 2 ^ gap →
      dirty below = false := by
  induction gap generalizing position with
  | zero =>
      intro below low high
      have same : below = position := by omega
      rw [same, clean]
  | succ gap ih =>
      obtain ⟨start, stop, leftStart, leftStop, rightStop, large⟩ := node_spans position gap
      intro below low high
      rw [start] at low
      rw [stop] at high inside
      have children := consistent position positive (by omega)
      rw [clean] at children
      obtain ⟨left, right⟩ := Bool.or_eq_false_iff.mp children.symm
      by_cases early : below < 2 * (position * 2 ^ gap) + 2 ^ gap
      · apply ih (2 * position) (by omega)
        · rw [leftStop]
          omega
        · exact left
        · rwa [leftStart]
        · rwa [leftStop]
      · apply ih (2 * position + 1) (by omega)
        · rwa [rightStop]
        · exact right
        · rw [leftStop]
          omega
        · rwa [rightStop]

/-- The way down from a dirty node ends at the least dirty position below it. -/
theorem Consistent.down_least (consistent : Consistent dirty leafBegin)
    (level : levelBegin ≤ leafBegin) (positiveLevel : 1 ≤ levelBegin) (gap : Nat) {fuel : Nat}
    (enough : gap < fuel) (position : Nat) (low : levelBegin ≤ position * 2 ^ gap)
    (high : (position + 1) * 2 ^ gap ≤ 2 * levelBegin) (marked : dirty position = true) :
    ∃ found, dirty.down levelBegin fuel position = some found ∧
      Least dirty (position * 2 ^ gap) ((position + 1) * 2 ^ gap) (some found) := by
  induction gap generalizing position fuel with
  | zero =>
      obtain ⟨fuel, rfl⟩ : ∃ rest, fuel = rest + 1 := ⟨fuel - 1, by omega⟩
      rw [pow_zero, mul_one] at low high
      use position
      constructor
      · rw [down, if_pos (by omega)]
      · constructor
        · omega
        · exact ⟨marked, fun other above below => by omega⟩
  | succ gap ih =>
      obtain ⟨fuel, rfl⟩ : ∃ rest, fuel = rest + 1 := ⟨fuel - 1, by omega⟩
      obtain ⟨start, stop, leftStart, leftStop, rightStop, large⟩ := node_spans position gap
      have positive : 1 ≤ position := by
        by_contra zero
        have gone : position = 0 := by omega
        rw [gone, zero_mul] at low
        omega
      rw [start] at low
      rw [stop] at high
      have children := consistent position positive (by omega)
      rw [down, if_neg (by omega), start, stop]
      by_cases left : dirty (2 * position) = true
      · rw [if_pos left]
        have leftDown := ih (by omega : gap < fuel) (2 * position)
        rw [leftStart, leftStop] at leftDown
        obtain ⟨found, down, ⟨above, below⟩, isDirty, first⟩ := leftDown low (by omega) left
        use found, down
        exact ⟨by omega, isDirty, first⟩
      · rw [if_neg left]
        rw [Bool.not_eq_true] at left
        have right : dirty (2 * position + 1) = true := by
          rw [marked, left] at children
          exact children.symm
        rw [if_pos right]
        have rightDown := ih (by omega : gap < fuel) (2 * position + 1)
        rw [leftStop, rightStop] at rightDown
        obtain ⟨found, down, least⟩ := rightDown (by omega) high right
        use found, down
        apply least.extend (by omega)
        have leftClean := consistent.clean_below gap (2 * position) (by omega)
        rw [leftStart, leftStop] at leftClean
        exact leftClean (by omega) left

/-- The way up and down finds the next dirty position of the level. -/
theorem Consistent.upThenDown_least (consistent : Consistent dirty leafBegin) (depth : Nat)
    (level : 2 ^ depth ≤ leafBegin) {levels : Nat} (enough : depth < levels) (gap : Nat)
    (shallow : gap ≤ depth) {steps : Nat} (far : depth < steps + gap) (position : Nat)
    (low : 2 ^ depth ≤ position * 2 ^ gap) (high : (position + 1) * 2 ^ gap ≤ 2 * 2 ^ depth) :
    Least dirty ((position + 1) * 2 ^ gap) (2 * 2 ^ depth)
      (dirty.upThenDown (2 ^ depth) levels steps position) := by
  induction steps generalizing gap position with
  | zero => omega
  | succ steps ih =>
      have levelPositive : 0 < 2 ^ depth := by positivity
      have positive : 1 ≤ position := by
        by_contra zero
        have gone : position = 0 := by omega
        rw [gone, zero_mul] at low
        omega
      rw [upThenDown]
      by_cases root : position = 1
      · rw [if_pos root]
        intro other above below
        rw [root] at above low
        omega
      rw [if_neg root]
      have deeper : gap < depth := by
        by_contra same
        have top : gap = depth := by omega
        rw [top] at high
        have small : position + 1 ≤ 2 := Nat.le_of_mul_le_mul_right high levelPositive
        omega
      have climb := ih (gap + 1) (by omega) (by omega) (position / 2)
      have double : (position / 2) * 2 ^ (gap + 1) = (2 * (position / 2)) * 2 ^ gap := by
        rw [pow_succ]; ring
      have doubleNext : (position / 2 + 1) * 2 ^ (gap + 1) = (2 * (position / 2) + 2) * 2 ^ gap := by
        rw [pow_succ]; ring
      have split : 2 ^ depth = 2 ^ (depth - gap) * 2 ^ gap := by
        rw [← pow_add]
        congr 1
        omega
      have gapPositive : 0 < 2 ^ gap := by positivity
      have lowPosition : 2 ^ (depth - gap) ≤ position := by
        rw [split] at low
        exact Nat.le_of_mul_le_mul_right low gapPositive
      have highPosition : position + 1 ≤ 2 * 2 ^ (depth - gap) := by
        rw [split, ← mul_assoc] at high
        exact Nat.le_of_mul_le_mul_right high gapPositive
      have even : 2 ^ (depth - gap) = 2 * 2 ^ (depth - gap - 1) := by
        rw [← pow_succ']
        congr 1
        omega
      have climbLow : 2 ^ depth ≤ position / 2 * 2 ^ (gap + 1) := by
        rw [double, split]
        exact Nat.mul_le_mul_right _ (by omega)
      have climbHigh : (position / 2 + 1) * 2 ^ (gap + 1) ≤ 2 * 2 ^ depth := by
        rw [doubleNext, split, ← mul_assoc]
        exact Nat.mul_le_mul_right _ (by omega)
      by_cases turn : position % 2 = 0 ∧ dirty (position + 1) = true
      · rw [if_pos turn]
        have rightHigh : (position + 1 + 1) * 2 ^ gap ≤ 2 * 2 ^ depth := by
          rw [split, ← mul_assoc]
          exact Nat.mul_le_mul_right _ (by omega)
        have rightLow : 2 ^ depth ≤ (position + 1) * 2 ^ gap := by
          rw [split]
          exact Nat.mul_le_mul_right _ (by omega)
        obtain ⟨found, down, ⟨above, below⟩, marked, first⟩ :=
          consistent.down_least level levelPositive gap (by omega : gap < levels) (position + 1)
            rightLow rightHigh turn.2
        rw [down]
        exact ⟨⟨above, by omega⟩, marked, first⟩
      · rw [if_neg turn]
        apply (climb climbLow climbHigh).extend
        · rw [doubleNext]
          exact Nat.mul_le_mul_right _ (by omega)
        · intro other above below
          rw [doubleNext] at below
          by_cases odd : position % 2 = 0
          · have clean : dirty (position + 1) = false := by
              rw [← Bool.not_eq_true]
              exact fun marked => turn ⟨odd, marked⟩
            apply consistent.clean_below gap (position + 1) (by omega) _ clean other above
            · have next : 2 * (position / 2) + 2 = position + 1 + 1 := by omega
              rw [← next]
              exact below
            · have fits : (position + 1 + 1) * 2 ^ gap ≤ 2 * 2 ^ depth := by
                rw [split, ← mul_assoc]
                exact Nat.mul_le_mul_right _ (by omega)
              omega
          · have next : 2 * (position / 2) + 2 = position + 1 := by omega
            rw [next] at below
            omega

/-- The iterator advances to the next dirty position of its level. -/
theorem Consistent.next_least (consistent : Consistent dirty leafBegin) (depth : Nat)
    (level : 2 ^ depth ≤ leafBegin) {levels : Nat} (enough : depth < levels) {position : Nat}
    (low : 2 ^ depth ≤ position) (high : position < 2 * 2 ^ depth) :
    Least dirty (position + 1) (2 * 2 ^ depth) (dirty.next levels (2 ^ depth) position) := by
  have least := consistent.upThenDown_least depth level enough 0 (by omega)
    (by omega : depth < levels + 0) position (by simpa using low) (by simpa using high)
  rwa [pow_zero, mul_one] at least

/-- The iterator starts at the first dirty position of its level. -/
theorem Consistent.first_least (consistent : Consistent dirty leafBegin) (depth : Nat)
    (level : 2 ^ depth ≤ leafBegin) {levels : Nat} (enough : depth < levels) :
    Least dirty (2 ^ depth) (2 * 2 ^ depth) (dirty.first levels (2 ^ depth)) := by
  have positive : 0 < 2 ^ depth := by positivity
  rw [first]
  by_cases marked : dirty (2 ^ depth) = true
  · rw [if_pos marked]
    exact ⟨by omega, marked, fun other above below => by omega⟩
  · rw [if_neg marked]
    apply (consistent.next_least depth level enough le_rfl (by omega)).extend (by omega)
    intro other above below
    have same : other = 2 ^ depth := by omega
    rwa [same, ← Bool.not_eq_true]

theorem Consistent.mem_positionsFrom (consistent : Consistent dirty leafBegin) (depth : Nat)
    (level : 2 ^ depth ≤ leafBegin) {levels : Nat} (enough : depth < levels) (steps start : Nat)
    (low : 2 ^ depth ≤ start) (far : 2 * 2 ^ depth ≤ start + steps) {found : Option Nat}
    (least : Least dirty start (2 * 2 ^ depth) found) {position : Nat} :
    position ∈ dirty.positionsFrom levels (2 ^ depth) steps found ↔
      start ≤ position ∧ position < 2 * 2 ^ depth ∧ dirty position = true := by
  induction steps generalizing start found with
  | zero =>
      cases found with
      | none =>
          simp only [positionsFrom, List.not_mem_nil, false_iff]
          rintro ⟨above, below, _⟩
          omega
      | some found =>
          obtain ⟨⟨above, below⟩, _⟩ := least
          omega
  | succ steps ih =>
      cases found with
      | none =>
          simp only [positionsFrom, List.not_mem_nil, false_iff]
          rintro ⟨above, below, marked⟩
          rw [least position above below] at marked
          exact Bool.false_ne_true marked
      | some found =>
          obtain ⟨⟨above, below⟩, marked, clean⟩ := least
          rw [positionsFrom, List.mem_cons, ih (found + 1) (by omega) (by omega)
            (consistent.next_least depth level enough (by omega) below)]
          constructor
          · rintro (rfl | ⟨later, inside, isDirty⟩)
            · exact ⟨above, below, marked⟩
            · exact ⟨by omega, inside, isDirty⟩
          · rintro ⟨later, inside, isDirty⟩
            by_cases early : position < found
            · rw [clean position later early] at isDirty
              exact absurd isDirty Bool.false_ne_true
            · by_cases same : position = found
              · exact Or.inl same
              · exact Or.inr ⟨by omega, inside, isDirty⟩

/-- The view of the dirty positions of a level holds them all. -/
theorem Consistent.mem_positions (consistent : Consistent dirty leafBegin) (depth : Nat)
    (level : 2 ^ depth ≤ leafBegin) {levels : Nat} (enough : depth < levels) {position : Nat} :
    position ∈ dirty.positions levels (2 ^ depth) ↔
      2 ^ depth ≤ position ∧ position < 2 * 2 ^ depth ∧ dirty position = true :=
  consistent.mem_positionsFrom depth level enough (2 ^ depth) (2 ^ depth) le_rfl (by omega)
    (consistent.first_least depth level enough)

end Iterator

section Marks

variable {dirty : DirtyPageTree} {leafBegin : Nat}

/-- The marks are consistent but for one node, which has a dirty child. -/
theorem markDirtyAndUp_consistent (steps position : Nat) (positive : 1 ≤ position)
    (inside : position < 2 ^ steps)
    (others : ∀ other, 1 ≤ other → other < leafBegin → other ≠ position →
      dirty other = (dirty (2 * other) || dirty (2 * other + 1)))
    (child : position < leafBegin → (dirty (2 * position) || dirty (2 * position + 1)) = true) :
    Consistent (markDirtyAndUp dirty steps position) leafBegin := by
  induction steps generalizing dirty position with
  | zero =>
      rw [pow_zero] at inside
      omega
  | succ steps ih =>
      have marks (value : Nat) (apart : value ≠ position) :
          Function.update dirty position true value = dirty value :=
        Function.update_of_ne apart true dirty
      rw [markDirtyAndUp]
      split
      next root =>
        subst root
        intro other low high
        by_cases same : other = 1
        · subst same
          rw [Function.update_self, marks _ (by omega), marks _ (by omega), child high]
        · rw [marks _ same, marks _ (by omega), marks _ (by omega), others other low high same]
      next above =>
        split
        next marked =>
          intro other low high
          by_cases same : other = position
          · subst same
            rw [marked, child high]
          · exact others other low high same
        next clean =>
          have half : position / 2 < 2 ^ steps := by
            rw [pow_succ] at inside
            omega
          apply ih (position / 2) (by omega) half
          · intro other low high apart
            by_cases same : other = position
            · subst same
              rw [Function.update_self, marks _ (by omega), marks _ (by omega), child high]
            · rw [marks _ same, marks _ (by omega), marks _ (by omega), others other low high same]
          · intro high
            rcases Nat.mod_two_eq_zero_or_one position with even | odd
            · have left : 2 * (position / 2) = position := by omega
              rw [left, Function.update_self, Bool.true_or]
            · have right : 2 * (position / 2) + 1 = position := by omega
              rw [right, Function.update_self, Bool.or_true]

theorem Consistent.markDirtyAndUp (consistent : Consistent dirty leafBegin) {steps position : Nat}
    (leaf : leafBegin ≤ position) (positive : 1 ≤ position) (inside : position < 2 ^ steps) :
    Consistent (DirtyPageTree.markDirtyAndUp dirty steps position) leafBegin := by
  apply markDirtyAndUp_consistent steps position positive inside
  · intro other low high _
    exact consistent other low high
  · omega

/-- Marking a page leaves the other pages as they are. -/
theorem markDirtyAndUp_leaf (steps position : Nat) {other : Nat} (near : position < 2 * other)
    (positive : 1 ≤ position) (inside : position < 2 ^ steps) :
    markDirtyAndUp dirty steps position other = if other = position then true else dirty other := by
  induction steps generalizing dirty position with
  | zero =>
      rw [pow_zero] at inside
      omega
  | succ steps ih =>
      rw [markDirtyAndUp]
      split
      next root =>
        subst root
        exact Function.update_apply dirty 1 true other
      next above =>
        split
        next marked =>
          split
          next same => rw [same, marked]
          next apart => rfl
        next clean =>
          rw [ih (position / 2) (by omega) (by omega) (by rw [pow_succ] at inside; omega),
            if_neg (by omega)]
          exact Function.update_apply dirty position true other

/-- The marks are consistent but for one node, whose children are clean. -/
theorem markCleanAndUp_consistent (steps position : Nat) (positive : 1 ≤ position)
    (inside : position < 2 ^ steps)
    (others : ∀ other, 1 ≤ other → other < leafBegin → other ≠ position →
      dirty other = (dirty (2 * other) || dirty (2 * other + 1)))
    (before : 2 ≤ position → position / 2 < leafBegin →
      dirty (sibling position) = true → dirty (position / 2) = true)
    (children : position < leafBegin →
      (dirty (2 * position) || dirty (2 * position + 1)) = false) :
    Consistent (markCleanAndUp dirty steps position) leafBegin := by
  induction steps generalizing dirty position with
  | zero =>
      rw [pow_zero] at inside
      omega
  | succ steps ih =>
      have marks (value : Nat) (apart : value ≠ position) :
          Function.update dirty position false value = dirty value :=
        Function.update_of_ne apart false dirty
      have siblingApart : sibling position ≠ position := by
        rw [sibling]
        split <;> omega
      have siblingParent : 2 ≤ position → sibling position / 2 = position / 2 := by
        rw [sibling]
        split <;> omega
      have siblingLarge : 2 ≤ position → 2 ≤ sibling position := by
        rw [sibling]
        split <;> omega
      rw [markCleanAndUp]
      split
      next root =>
        subst root
        intro other low high
        by_cases same : other = 1
        · subst same
          rw [Function.update_self, marks _ (by omega), marks _ (by omega), children high]
        · rw [marks _ same, marks _ (by omega), marks _ (by omega), others other low high same]
      next above =>
        have large : 2 ≤ position := by omega
        rw [marks _ siblingApart]
        split
        next marked =>
          intro other low high
          by_cases same : other = position
          · subst same
            rw [Function.update_self, marks _ (by omega), marks _ (by omega), children high]
          · rw [marks _ same]
            by_cases parent : other = position / 2
            · subst parent
              rw [before large high marked]
              rcases Nat.mod_two_eq_zero_or_one position with even | odd
              · have right : 2 * (position / 2) + 1 = sibling position := by
                  rw [sibling, if_pos even]
                  omega
                rw [right, marks _ siblingApart, marked, Bool.or_true]
              · have left : 2 * (position / 2) = sibling position := by
                  rw [sibling, if_neg (by omega)]
                  omega
                rw [left, marks _ siblingApart, marked, Bool.true_or]
            · rw [marks _ (by omega), marks _ (by omega), others other low high same]
        next clean =>
          rw [Bool.not_eq_true] at clean
          have half : position / 2 < 2 ^ steps := by
            rw [pow_succ] at inside
            omega
          apply ih (position / 2) (by omega) half
          · intro other low high apart
            by_cases same : other = position
            · subst same
              rw [Function.update_self, marks _ (by omega), marks _ (by omega), children high]
            · rw [marks _ same, marks _ (by omega), marks _ (by omega), others other low high same]
          · intro again high marked
            have apart : sibling (position / 2) ≠ position := by
              rw [sibling]
              split <;> omega
            rw [marks _ apart] at marked
            rw [marks _ (by omega)]
            have grandparent := others (position / 2 / 2) (by omega) high (by omega)
            rw [grandparent]
            rcases Nat.mod_two_eq_zero_or_one (position / 2) with even | odd
            · have right : 2 * (position / 2 / 2) + 1 = sibling (position / 2) := by
                rw [sibling, if_pos even]
                omega
              rw [right, marked, Bool.or_true]
            · have left : 2 * (position / 2 / 2) = sibling (position / 2) := by
                rw [sibling, if_neg (by omega)]
                omega
              rw [left, marked, Bool.true_or]
          · intro high
            rcases Nat.mod_two_eq_zero_or_one position with even | odd
            · have left : 2 * (position / 2) = position := by omega
              have right : position + 1 = sibling position := by rw [sibling, if_pos even]
              rw [left, right, Function.update_self, marks _ siblingApart, clean, Bool.or_false]
            · have right : 2 * (position / 2) + 1 = position := by omega
              have left : 2 * (position / 2) = sibling position := by
                rw [sibling, if_neg (by omega)]
                omega
              rw [right, left, Function.update_self, marks _ siblingApart, clean, Bool.or_false]

theorem Consistent.markCleanAndUp (consistent : Consistent dirty leafBegin) {steps position : Nat}
    (leaf : leafBegin ≤ position) (positive : 1 ≤ position) (inside : position < 2 ^ steps) :
    Consistent (DirtyPageTree.markCleanAndUp dirty steps position) leafBegin := by
  apply markCleanAndUp_consistent steps position positive inside
  · intro other low high _
    exact consistent other low high
  · intro large high marked
    rw [consistent (position / 2) (by omega) high]
    rw [sibling] at marked
    split at marked
    next even =>
      have right : 2 * (position / 2) + 1 = position + 1 := by omega
      rw [right, marked, Bool.or_true]
    next odd =>
      have left : 2 * (position / 2) = position - 1 := by omega
      rw [left, marked, Bool.true_or]
  · omega

/-- Cleaning a page leaves the other pages as they are. -/
theorem markCleanAndUp_leaf (steps position : Nat) {other : Nat} (near : position < 2 * other)
    (positive : 1 ≤ position) (inside : position < 2 ^ steps) :
    markCleanAndUp dirty steps position other = if other = position then false else dirty other := by
  induction steps generalizing dirty position with
  | zero =>
      rw [pow_zero] at inside
      omega
  | succ steps ih =>
      have last := Function.update_apply dirty position false other
      rw [markCleanAndUp]
      split
      next root => exact last
      next above =>
        split
        next marked => exact last
        next clean =>
          rw [ih (position / 2) (by omega) (by omega) (by rw [pow_succ] at inside; omega),
            if_neg (by omega)]
          exact last

/-- The marks of the pages decide all others. -/
theorem Consistent.ext {first second : DirtyPageTree} {height : Nat}
    (firstConsistent : Consistent first (2 ^ height))
    (secondConsistent : Consistent second (2 ^ height))
    (leaves : ∀ leaf, 2 ^ height ≤ leaf → leaf < 2 * 2 ^ height → first leaf = second leaf)
    (gap : Nat) {position : Nat} (positive : 1 ≤ position)
    (low : 2 ^ height ≤ position * 2 ^ gap) (high : (position + 1) * 2 ^ gap ≤ 2 * 2 ^ height) :
    first position = second position := by
  induction gap generalizing position with
  | zero =>
      rw [pow_zero, mul_one] at low high
      exact leaves position low (by omega)
  | succ gap ih =>
      obtain ⟨start, stop, leftStart, leftStop, rightStop, large⟩ := node_spans position gap
      rw [start] at low
      rw [stop] at high
      rw [firstConsistent position positive (by omega),
        secondConsistent position positive (by omega)]
      congr 1
      · apply ih (by omega)
        · rwa [leftStart]
        · rw [leftStop]
          omega
      · apply ih (by omega)
        · rw [leftStop]
          omega
        · rwa [rightStop]

/-- Every node spans a part of the pages. -/
theorem exists_gap {height position : Nat} (positive : 1 ≤ position)
    (inside : position < 2 * 2 ^ height) :
    ∃ gap, 2 ^ height ≤ position * 2 ^ gap ∧ (position + 1) * 2 ^ gap ≤ 2 * 2 ^ height := by
  have shallow : position.log2 ≤ height := by
    have bound : position < 2 ^ (height + 1) := by rwa [pow_succ']
    have below := (Nat.log2_lt (by omega)).mpr bound
    omega
  have split : 2 ^ height = 2 ^ position.log2 * 2 ^ (height - position.log2) := by
    rw [← pow_add]
    congr 1
    omega
  use height - position.log2
  constructor
  · rw [split]
    exact Nat.mul_le_mul_right _ (Nat.log2_self_le (by omega))
  · rw [split, ← mul_assoc]
    apply Nat.mul_le_mul_right
    have above : position < 2 ^ (position.log2 + 1) := Nat.lt_log2_self
    rw [pow_succ'] at above
    exact above

theorem Consistent.all_clean {height : Nat} (consistent : Consistent dirty (2 ^ height))
    (leaves : ∀ leaf, 2 ^ height ≤ leaf → leaf < 2 * 2 ^ height → dirty leaf = false)
    {position : Nat} (positive : 1 ≤ position) (inside : position < 2 * 2 ^ height) :
    dirty position = false := by
  obtain ⟨gap, low, high⟩ := exists_gap positive inside
  have none : Consistent (fun _ => false) (2 ^ height) := fun _ _ _ => rfl
  exact consistent.ext none leaves gap positive low high

theorem Consistent.cleanFrom {height : Nat} (steps start : Nat)
    (consistent : Consistent dirty (2 ^ height)) (low : 2 ^ height ≤ start)
    (far : 2 * 2 ^ height ≤ start + steps) {found : Option Nat}
    (least : Least dirty start (2 * 2 ^ height) found)
    (before : ∀ leaf, 2 ^ height ≤ leaf → leaf < start → dirty leaf = false) :
    Consistent (DirtyPageTree.cleanFrom (height + 1) (2 ^ height) steps found dirty) (2 ^ height) ∧
    ∀ leaf, 2 ^ height ≤ leaf → leaf < 2 * 2 ^ height →
      DirtyPageTree.cleanFrom (height + 1) (2 ^ height) steps found dirty leaf = false := by
  have positive : 0 < 2 ^ height := by positivity
  induction steps generalizing dirty start found with
  | zero =>
      cases found with
      | none =>
          simp only [DirtyPageTree.cleanFrom]
          constructor
          · exact consistent
          · intro leaf above below
            exact before leaf above (by omega)
      | some found =>
          obtain ⟨⟨above, below⟩, _⟩ := least
          omega
  | succ steps ih =>
      cases found with
      | none =>
          simp only [DirtyPageTree.cleanFrom]
          constructor
          · exact consistent
          · intro leaf above below
            by_cases early : leaf < start
            · exact before leaf above early
            · exact least leaf (by omega) below
      | some found =>
          obtain ⟨⟨above, below⟩, marked, first⟩ := least
          have fits : found < 2 ^ (height + 1) := by rwa [pow_succ']
          have cleaned : Consistent (DirtyPageTree.markCleanAndUp dirty (height + 1) found) _ :=
            consistent.markCleanAndUp (by omega) (by omega) fits
          rw [DirtyPageTree.cleanFrom]
          apply ih (found + 1) cleaned (by omega) (by omega)
          · exact cleaned.next_least height le_rfl (by omega) (by omega) below
          · intro leaf high early
            by_cases same : leaf = found
            · rw [markCleanAndUp_leaf (height + 1) found (by omega) (by omega) fits, if_pos same]
            · rw [markCleanAndUp_leaf (height + 1) found (by omega) (by omega) fits, if_neg same]
              by_cases passed : leaf < start
              · exact before leaf high passed
              · exact first leaf (by omega) (by omega)

/-- The loop that cleans the pages it visits leaves nothing dirty. -/
theorem Consistent.clean {height : Nat} (consistent : Consistent dirty (2 ^ height))
    {position : Nat} (positive : 1 ≤ position) (inside : position < 2 * 2 ^ height) :
    dirty.clean (height + 1) (2 ^ height) position = false := by
  obtain ⟨cleaned, leaves⟩ := consistent.cleanFrom (2 ^ height) (2 ^ height) le_rfl (by omega)
    (consistent.first_least height le_rfl (Nat.lt_succ_self height))
    fun leaf low high => absurd low (by omega)
  exact cleaned.all_clean leaves positive inside

end Marks

end MachineEmulator.HashTree.DirtyPageTree
