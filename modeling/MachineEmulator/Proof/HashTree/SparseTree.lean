/-
This file proves that the nodes made for the address ranges form a tree over the address space, with
one leaf for each range at the place that the bits of its address lead to.
-/

import MachineEmulator.Proof.HashTree.Layout

namespace MachineEmulator.HashTree

/-- The node that the bits of an address lead to from another node. -/
def follow (nodes : List SparseNode) (address : Nat) : Nat → Nat → Nat
  | 0, index => index
  | steps + 1, index =>
      if index = 0 then 0
      else
        match (nodes.getD index default).links with
        | .range _ => index
        | .inner left right =>
            follow nodes address steps
              (if address.testBit ((nodes.getD index default).log2Size - 1) then right else left)

section Regions

/-- A power of two that starts inside a region of whole multiples ends inside it. -/
theorem aligned_stop {start finish size : Nat} (divides : size ∣ start) (whole : size ∣ finish)
    (inside : start < finish) : start + size ≤ finish := by
  obtain ⟨first, rfl⟩ := divides
  obtain ⟨last, rfl⟩ := whole
  have less : first < last := Nat.lt_of_mul_lt_mul_left inside
  calc size * first + size = size * (first + 1) := by ring
    _ ≤ size * last := Nat.mul_le_mul_left size less

/-- The end of a region of pages. -/
theorem region_end (beginPage log2PageCount : Nat) :
    hashTreePageSize * (beginPage + 2 ^ log2PageCount) =
      hashTreePageSize * beginPage + 2 ^ (log2PageCount + hashTreeLog2PageSize) := by
  rw [mul_add, pow_add, mul_comm (2 ^ log2PageCount)]
  rfl

theorem region_dvd {beginPage log2PageCount : Nat} (aligned : 2 ^ log2PageCount ∣ beginPage) :
    2 ^ (log2PageCount + hashTreeLog2PageSize) ∣ hashTreePageSize * beginPage := by
  rw [add_comm, pow_add]
  exact mul_dvd_mul (dvd_refl _) aligned

end Regions

section Append

variable {extents : List Extent}

/-- The nodes that `append_nodes` may write: those of the ranges it places and new ones. -/
def Owned (before after : Appended) (index : Nat) : Prop :=
  (before.current + 2 ≤ index ∧ index < after.current + 2) ∨
  (before.nodes.length ≤ index ∧ index < after.nodes.length)

/-- What `append_nodes` is called with. -/
structure Ready (extents : List Extent) (log2PageCount beginPage : Nat) (state : Appended) : Prop where
  accepted : (layoutOf extents []).Accepted
  aligned : 2 ^ log2PageCount ∣ beginPage
  bounded : state.current ≤ extents.length
  roomy : extents.length + 2 ≤ state.nodes.length
  consumed : ∀ range < state.current,
    (layoutOf extents []).stop range ≤ hashTreePageSize * beginPage
  rest : ∀ range < extents.length, state.current ≤ range →
    hashTreePageSize * beginPage ≤ (layoutOf extents []).start range
  small : ∀ range < extents.length, state.current ≤ range →
    (layoutOf extents []).start range < hashTreePageSize * (beginPage + 2 ^ log2PageCount) →
    (layoutOf extents []).log2Size range ≤ log2PageCount + hashTreeLog2PageSize

/-- What `append_nodes` gives: the ranges of the region are placed, the nodes it owns are final, and
they form the tree over the region. -/
structure Placed (extents : List Extent) (log2PageCount beginPage parent : Nat)
    (before after : Appended) (index : Nat) (own : Nat → Prop) : Prop where
  current : before.current ≤ after.current
  bounded : after.current ≤ extents.length
  grows : before.nodes.length ≤ after.nodes.length
  consumed : ∀ range < after.current,
    (layoutOf extents []).stop range ≤ hashTreePageSize * (beginPage + 2 ^ log2PageCount)
  rest : ∀ range < extents.length, after.current ≤ range →
    hashTreePageSize * (beginPage + 2 ^ log2PageCount) ≤ (layoutOf extents []).start range
  kept : ∀ other, ¬own other →
    after.nodes.getD other default = before.nodes.getD other default
  covers : ∀ nodes : List SparseNode,
    (∀ other, own other → nodes.getD other default = after.nodes.getD other default) →
    (layoutOf extents nodes).Covers index (hashTreePageSize * beginPage)
      (log2PageCount + hashTreeLog2PageSize) parent
  below : ∀ nodes : List SparseNode,
    (∀ other, own other → nodes.getD other default = after.nodes.getD other default) →
    ∀ other, own other → (layoutOf extents nodes).Below index other

variable {log2PageCount beginPage parent : Nat} {state : Appended}

/-- A region that ends before the next range is pristine. -/
theorem Ready.placed_pristine (ready : Ready extents log2PageCount beginPage state)
    (beyond : ∀ range < extents.length, state.current ≤ range →
      hashTreePageSize * (beginPage + 2 ^ log2PageCount) ≤ (layoutOf extents []).start range) :
    Placed extents log2PageCount beginPage parent state state 0 (Owned state state) where
  current := le_rfl
  bounded := ready.bounded
  grows := le_rfl
  consumed range before := by
    rw [region_end]
    exact (ready.consumed range before).trans (Nat.le_add_right _ _)
  rest := beyond
  kept _ _ := rfl
  covers nodes same := by
    apply Layout.Covers.pristine
    intro range inside
    by_cases before : range < state.current
    · exact Or.inl (ready.consumed range before)
    · right
      rw [← region_end]
      exact beyond range inside (Nat.le_of_not_lt before)
  below nodes same other own := by
    rcases own with bounds | bounds <;> omega

/-- A region that is the next range is a leaf. -/
theorem Ready.placed_range (ready : Ready extents log2PageCount beginPage state)
    (inside : state.current < extents.length)
    (start : (layoutOf extents []).start state.current = hashTreePageSize * beginPage)
    (size : (layoutOf extents []).log2Size state.current = log2PageCount + hashTreeLog2PageSize) :
    Placed extents log2PageCount beginPage parent state
      ⟨state.current + 1, state.nodes.set (state.current + 2)
        ⟨.range state.current, parent, log2PageCount + hashTreeLog2PageSize⟩⟩
      (state.current + 2) (Owned state ⟨state.current + 1, state.nodes.set (state.current + 2)
        ⟨.range state.current, parent, log2PageCount + hashTreeLog2PageSize⟩⟩) := by
  have stop : (layoutOf extents []).stop state.current =
      hashTreePageSize * (beginPage + 2 ^ log2PageCount) := by
    rw [Layout.stop, start, size, region_end]
  have own : ∀ other, Owned state ⟨state.current + 1, state.nodes.set (state.current + 2)
      ⟨.range state.current, parent, log2PageCount + hashTreeLog2PageSize⟩⟩ other ↔
      other = state.current + 2 := by
    intro other
    simp only [Owned, List.length_set]
    omega
  have room := ready.roomy
  have written : (state.nodes.set (state.current + 2)
      ⟨.range state.current, parent, log2PageCount + hashTreeLog2PageSize⟩).getD
        (state.current + 2) default =
      ⟨.range state.current, parent, log2PageCount + hashTreeLog2PageSize⟩ := by
    rw [List.getD_eq_getElem?_getD, List.getElem?_set_self (by omega), Option.getD_some]
  constructor
  · exact Nat.le_succ _
  · exact inside
  · rw [List.length_set]
  · intro range before
    rcases Nat.lt_succ_iff_lt_or_eq.mp before with earlier | rfl
    · rw [region_end]
      exact (ready.consumed range earlier).trans (Nat.le_add_right _ _)
    · exact stop.le
  · intro range within later
    rw [← stop]
    exact ready.accepted.ordered state.current inside range within later
  · intro other outside
    rw [own] at outside
    rw [List.getD_eq_getElem?_getD, List.getElem?_set_ne (Ne.symm outside),
      ← List.getD_eq_getElem?_getD]
  · intro nodes same
    have node := same _ ((own _).mpr rfl)
    have leaf : (layoutOf extents nodes).node (state.current + 2) =
        ⟨.range state.current, parent, (layoutOf extents nodes).log2Size state.current⟩ := by
      show nodes.getD _ default = _
      rw [node, written, ← size]
      rfl
    have covered := Layout.Covers.range state.current inside leaf
    have start' : (layoutOf extents nodes).start state.current = hashTreePageSize * beginPage := start
    have size' : (layoutOf extents nodes).log2Size state.current =
      log2PageCount + hashTreeLog2PageSize := size
    rw [start', size'] at covered
    exact covered
  · intro nodes same other owned
    obtain rfl := (own other).mp owned
    exact .here _

/-- Half of a region that is divided is ready to be filled from its start. -/
theorem Ready.left {half : Nat} (ready : Ready extents (half + 1) beginPage state)
    {nodes : List SparseNode} (room : state.nodes.length ≤ nodes.length)
    (inside : state.current < extents.length)
    (other : ¬((layoutOf extents []).start state.current = hashTreePageSize * beginPage ∧
      (layoutOf extents []).log2Size state.current = half + 1 + hashTreeLog2PageSize)) :
    Ready extents half beginPage ⟨state.current, nodes⟩ where
  accepted := ready.accepted
  aligned := (pow_dvd_pow 2 (Nat.le_succ half)).trans ready.aligned
  bounded := ready.bounded
  roomy := ready.roomy.trans room
  consumed := ready.consumed
  rest := ready.rest
  small := by
    intro range within later starts
    have below : hashTreePageSize * (beginPage + 2 ^ half) ≤
        hashTreePageSize * (beginPage + 2 ^ (half + 1)) :=
      Nat.mul_le_mul_left _ (Nat.add_le_add_left (Nat.pow_le_pow_right two_pos (Nat.le_succ half)) _)
    have size := ready.small range within later (starts.trans_le below)
    by_contra large
    have whole : (layoutOf extents []).log2Size range = half + 1 + hashTreeLog2PageSize := by omega
    -- A range of the whole region starts at its base, and so it is the next one.
    have aligned := ready.accepted.aligned range within
    rw [whole] at aligned
    have base : (layoutOf extents []).start range = hashTreePageSize * beginPage := by
      have low := ready.rest range within later
      by_contra differs
      have stop := aligned_stop (region_dvd ready.aligned) aligned (by omega)
      rw [region_end] at starts
      have less : 2 ^ (half + hashTreeLog2PageSize) ≤ 2 ^ (half + 1 + hashTreeLog2PageSize) :=
        Nat.pow_le_pow_right two_pos (by omega)
      omega
    rcases Nat.lt_or_eq_of_le later with before | same
    · have order := ready.accepted.ordered state.current inside range within before
      have low := ready.rest state.current inside le_rfl
      rw [base, Layout.stop] at order
      have positive := Nat.two_pow_pos ((layoutOf extents []).log2Size state.current)
      omega
    · exact other (same ▸ ⟨base, whole⟩)

/-- The other half is ready when the first one has been filled. -/
theorem Ready.right {half inner index : Nat} {own : Nat → Prop} {before middle : Appended}
    (ready : Ready extents (half + 1) beginPage state)
    (left : Placed extents half beginPage inner before middle index own)
    (current : before.current = state.current)
    (room : state.nodes.length ≤ before.nodes.length) :
    Ready extents half (beginPage + 2 ^ half) middle where
  accepted := ready.accepted
  aligned := (Nat.dvd_add_right ((pow_dvd_pow 2 (Nat.le_succ half)).trans ready.aligned)).mpr dvd_rfl
  bounded := left.bounded
  roomy := (ready.roomy.trans room).trans left.grows
  consumed := left.consumed
  rest := left.rest
  small := by
    intro range within later starts
    have double : beginPage + 2 ^ half + 2 ^ half = beginPage + 2 ^ (half + 1) := by
      rw [pow_succ]
      ring
    rw [double] at starts
    have after : state.current ≤ range := by
      have grown := left.current
      omega
    have size := ready.small range within after starts
    by_contra large
    have whole : (layoutOf extents []).log2Size range = half + 1 + hashTreeLog2PageSize := by omega
    -- A range of the whole region does not start in the middle of it.
    have aligned := ready.accepted.aligned range within
    rw [whole] at aligned
    have low := left.rest range within later
    have positive := Nat.two_pow_pos (half + hashTreeLog2PageSize)
    have stop := aligned_stop aligned ((region_end beginPage (half + 1)).symm ▸
      (Nat.dvd_add_right (region_dvd ready.aligned)).mpr dvd_rfl) starts
    rw [region_end] at low stop
    omega

variable (parent) in
/-- Two filled halves and a node over them are the filled region. -/
theorem Ready.join {half inner leftIndex rightIndex : Nat} {before middle after : Appended}
    (ready : Ready extents (half + 1) beginPage state)
    (left : Placed extents half beginPage inner before middle leftIndex (Owned before middle))
    (right : Placed extents half (beginPage + 2 ^ half) inner middle after rightIndex
      (Owned middle after))
    (inside : state.current < extents.length)
    (starts : (layoutOf extents []).start state.current <
      hashTreePageSize * (beginPage + 2 ^ (half + 1)))
    (current : before.current = state.current)
    (room : state.nodes.length ≤ before.nodes.length) (positive : inner ≠ 0)
    (present : inner < before.nodes.length) (apart : inner < 2 ∨ extents.length + 2 ≤ inner) :
    Placed extents (half + 1) beginPage parent before
      ⟨after.current, after.nodes.set inner
        ⟨.inner leftIndex rightIndex, parent, half + 1 + hashTreeLog2PageSize⟩⟩ inner
      (fun other => other = inner ∨ Owned before middle other ∨ Owned middle after other) := by
  have double : beginPage + 2 ^ half + 2 ^ half = beginPage + 2 ^ (half + 1) := by
    rw [pow_succ]
    ring
  have bounded := right.bounded
  have moved := left.current
  have moved' := right.current
  have grown := left.grows
  have grown' := right.grows
  have roomy := ready.roomy
  have notLeft : ¬Owned before middle inner := by
    rintro (leaf | fresh) <;> omega
  have notRight : ¬Owned middle after inner := by
    rintro (leaf | fresh) <;> omega
  have written : ∀ other, other ≠ inner → (after.nodes.set inner
      ⟨.inner leftIndex rightIndex, parent, half + 1 + hashTreeLog2PageSize⟩).getD other default =
      after.nodes.getD other default := by
    intro other differs
    rw [List.getD_eq_getElem?_getD, List.getElem?_set_ne (Ne.symm differs),
      ← List.getD_eq_getElem?_getD]
  have node : (after.nodes.set inner
      ⟨.inner leftIndex rightIndex, parent, half + 1 + hashTreeLog2PageSize⟩).getD inner default =
      ⟨.inner leftIndex rightIndex, parent, half + 1 + hashTreeLog2PageSize⟩ := by
    rw [List.getD_eq_getElem?_getD, List.getElem?_set_self (by omega), Option.getD_some]
  have disjoint : ∀ other, Owned before middle other → ¬Owned middle after other := by
    rintro other (leaf | fresh) (leaf' | fresh') <;> omega
  have toLeft : ∀ nodes : List SparseNode, (∀ other,
      other = inner ∨ Owned before middle other ∨ Owned middle after other →
        nodes.getD other default = (after.nodes.set inner ⟨.inner leftIndex rightIndex, parent,
          half + 1 + hashTreeLog2PageSize⟩).getD other default) →
      ∀ other, Owned before middle other →
        nodes.getD other default = middle.nodes.getD other default := by
    intro nodes same other own
    have differs : other ≠ inner := by
      rintro rfl
      exact notLeft own
    rw [same other (Or.inr (Or.inl own)), written other differs, right.kept other (disjoint other own)]
  have toRight : ∀ nodes : List SparseNode, (∀ other,
      other = inner ∨ Owned before middle other ∨ Owned middle after other →
        nodes.getD other default = (after.nodes.set inner ⟨.inner leftIndex rightIndex, parent,
          half + 1 + hashTreeLog2PageSize⟩).getD other default) →
      ∀ other, Owned middle after other →
        nodes.getD other default = after.nodes.getD other default := by
    intro nodes same other own
    have differs : other ≠ inner := by
      rintro rfl
      exact notRight own
    rw [same other (Or.inr (Or.inr own)), written other differs]
  constructor
  · exact moved.trans moved'
  · exact bounded
  · rw [List.length_set]
    exact grown.trans grown'
  · rw [← double]
    exact right.consumed
  · rw [← double]
    exact right.rest
  · intro other outside
    push Not at outside
    rw [written other outside.1, right.kept other outside.2.2, left.kept other outside.2.1]
  · intro nodes same
    have middlePage : hashTreePageSize * beginPage + 2 ^ (half + hashTreeLog2PageSize) =
        hashTreePageSize * (beginPage + 2 ^ half) := (region_end beginPage half).symm
    have shape : half + 1 + hashTreeLog2PageSize = half + hashTreeLog2PageSize + 1 := by ring
    rw [shape]
    apply Layout.Covers.inner positive
    · show nodes.getD inner default = _
      rw [same inner (Or.inl rfl), node, shape]
    · exact left.covers nodes (toLeft nodes same)
    · rw [middlePage]
      exact right.covers nodes (toRight nodes same)
    · refine ⟨state.current, inside, ready.rest state.current inside le_rfl, ?_⟩
      rw [← shape, ← region_end]
      have aligned := ready.accepted.aligned state.current inside
      have size := ready.small state.current inside le_rfl starts
      have whole : 2 ^ (layoutOf extents []).log2Size state.current ∣
          hashTreePageSize * (beginPage + 2 ^ (half + 1)) := by
        rw [region_end]
        apply (Nat.dvd_add_right ((pow_dvd_pow 2 size).trans (region_dvd ready.aligned))).mpr
        exact pow_dvd_pow 2 size
      exact aligned_stop aligned whole starts
  · intro nodes same other own
    have links : ((layoutOf extents nodes).node inner).links = .inner leftIndex rightIndex := by
      show (nodes.getD inner default).links = _
      rw [same inner (Or.inl rfl), node]
    rcases own with rfl | own | own
    · exact .here _
    · exact .child positive links (Or.inl rfl) (left.below nodes (toLeft nodes same) other own)
    · exact .child positive links (Or.inr rfl) (right.below nodes (toRight nodes same) other own)

theorem page_dvd_start (accepted : (layoutOf extents []).Accepted) {range : Nat}
    (inside : range < extents.length) : hashTreePageSize ∣ (layoutOf extents []).start range := by
  apply (pow_dvd_pow 2 _).trans (accepted.aligned range inside)
  rw [Layout.log2Size, levelCount]
  omega

/-- The pages of a rounded range. -/
theorem bitCeil_pages (accepted : (layoutOf extents []).Accepted) {range : Nat}
    (inside : range < extents.length) :
    bitCeil ((layoutOf extents []).length range) / hashTreePageSize = 2 ^ log2PageCount ↔
      (layoutOf extents []).log2Size range = log2PageCount + hashTreeLog2PageSize := by
  have size := bitCeil_eq (accepted.nonempty range inside) (accepted.pages range inside)
  have large : hashTreeLog2PageSize ≤ (layoutOf extents []).log2Size range := by
    rw [Layout.log2Size, levelCount]
    omega
  rw [size, hashTreePageSize]
  show 2 ^ (layoutOf extents []).log2Size range / 2 ^ hashTreeLog2PageSize = _ ↔ _
  rw [Nat.pow_div large two_pos]
  constructor
  · intro same
    have exponents := Nat.pow_right_injective (le_refl 2) same
    omega
  · intro same
    rw [same, Nat.add_sub_cancel]

variable (parent) in
/-- A region is placed, or it is divided because a smaller range starts in it. -/
theorem Ready.placeRange (ready : Ready extents log2PageCount beginPage state) :
    (∃ index after, placeRange extents log2PageCount beginPage parent state = some (index, after) ∧
      Placed extents log2PageCount beginPage parent state after index (Owned state after)) ∨
    (HashTree.placeRange extents log2PageCount beginPage parent state = none ∧
      state.current < extents.length ∧ (layoutOf extents []).start state.current <
        hashTreePageSize * (beginPage + 2 ^ log2PageCount) ∧
      ¬((layoutOf extents []).start state.current = hashTreePageSize * beginPage ∧
        (layoutOf extents []).log2Size state.current = log2PageCount + hashTreeLog2PageSize)) := by
  rw [HashTree.placeRange]
  rcases result : extents[state.current]? with _ | extent
  · left
    refine ⟨0, state, rfl, ready.placed_pristine ?_⟩
    intro range inside later
    rw [List.getElem?_eq_none_iff] at result
    omega
  · obtain ⟨inside, value⟩ := List.getElem?_eq_some_iff.mp result
    have here : (layoutOf extents []).extent state.current = extent := by
      show extents.getD state.current (0, 0) = extent
      rw [List.getD_eq_getElem _ _ inside, value]
    have start : extent.1 = (layoutOf extents []).start state.current := by rw [Layout.start, here]
    have length : extent.2 = (layoutOf extents []).length state.current := by
      rw [Layout.length, here]
    obtain ⟨page, pages⟩ := page_dvd_start ready.accepted inside
    have divided : (layoutOf extents []).start state.current / hashTreePageSize = page := by
      rw [pages, Nat.mul_div_cancel_left _ (by decide)]
    have positive : 0 < hashTreePageSize := by decide
    dsimp only
    rw [start, length, divided]
    by_cases beyond : beginPage + 2 ^ log2PageCount ≤ page
    · left
      rw [if_pos beyond]
      refine ⟨0, state, rfl, ready.placed_pristine ?_⟩
      intro range within later
      calc hashTreePageSize * (beginPage + 2 ^ log2PageCount)
          ≤ (layoutOf extents []).start state.current :=
            pages ▸ Nat.mul_le_mul_left _ beyond
        _ ≤ (layoutOf extents []).start range := by
            rcases Nat.lt_or_eq_of_le later with before | same
            · exact (Nat.le_add_right _ _).trans
                (ready.accepted.ordered state.current inside range within before)
            · rw [same]
    · rw [if_neg beyond]
      by_cases exactly : page = beginPage ∧
          bitCeil ((layoutOf extents []).length state.current) / hashTreePageSize =
            2 ^ log2PageCount
      · left
        rw [if_pos exactly]
        have size := (bitCeil_pages ready.accepted inside).mp exactly.2
        exact ⟨_, _, rfl, ready.placed_range inside (exactly.1 ▸ pages) size⟩
      · right
        rw [if_neg exactly]
        refine ⟨rfl, inside, ?_, ?_⟩
        · rw [pages]
          exact Nat.mul_lt_mul_of_pos_left (Nat.lt_of_not_le beyond) positive
        · rintro ⟨base, size⟩
          rw [pages] at base
          exact exactly ⟨Nat.eq_of_mul_eq_mul_left positive base,
            (bitCeil_pages ready.accepted inside).mpr size⟩

/-- A single page that is not pristine is a range. -/
theorem Ready.page (ready : Ready extents 0 beginPage state) (inside : state.current < extents.length)
    (starts : (layoutOf extents []).start state.current < hashTreePageSize * (beginPage + 2 ^ 0)) :
    (layoutOf extents []).start state.current = hashTreePageSize * beginPage ∧
      (layoutOf extents []).log2Size state.current = 0 + hashTreeLog2PageSize := by
  have small := ready.small state.current inside le_rfl starts
  have low := ready.rest state.current inside le_rfl
  obtain ⟨page, pages⟩ := page_dvd_start ready.accepted inside
  have positive : 0 < hashTreePageSize := by decide
  rw [pages] at starts low ⊢
  have above := Nat.le_of_mul_le_mul_left low positive
  have below := Nat.lt_of_mul_lt_mul_left starts
  constructor
  · rw [pow_zero] at below
    rw [(by omega : page = beginPage)]
  · rw [Layout.log2Size, levelCount] at small ⊢
    omega

/-- A new node is one of those that are owned. -/
theorem Placed.enter {after : Appended} {index : Nat} {own : Nat → Prop}
    (placed : Placed extents log2PageCount beginPage parent
      ⟨state.current, state.nodes ++ [default]⟩ after index own)
    (same : ∀ other, own other ↔ Owned state after other) :
    Placed extents log2PageCount beginPage parent state after index (Owned state after) := by
  obtain rfl : own = Owned state after := by
    funext other
    exact propext (same other)
  constructor
  · exact placed.current
  · exact placed.bounded
  · have grows := placed.grows
    rw [List.length_append] at grows
    omega
  · exact placed.consumed
  · exact placed.rest
  · intro other outside
    rw [placed.kept other outside]
    dsimp only
    rw [List.getD_eq_getElem?_getD, List.getD_eq_getElem?_getD]
    rcases Nat.lt_trichotomy other state.nodes.length with old | new | far
    · rw [List.getElem?_append_left old]
    · rw [new]
      simp
    · rw [List.getElem?_eq_none (by simp; omega), List.getElem?_eq_none (by omega)]
  · exact placed.covers
  · exact placed.below

/-- The recursion fills every region below the root. -/
theorem Ready.appendNodes (ready : Ready extents log2PageCount beginPage state) (child : parent ≠ 0) :
    Placed extents log2PageCount beginPage parent state
      (appendNodes extents log2PageCount beginPage parent state).2
      (HashTree.appendNodes extents log2PageCount beginPage parent state).1
      (Owned state (HashTree.appendNodes extents log2PageCount beginPage parent state).2) := by
  induction log2PageCount generalizing beginPage parent state with
  | zero =>
      rw [HashTree.appendNodes]
      rcases ready.placeRange parent with
        ⟨index, after, result, placed⟩ | ⟨_, inside, starts, other⟩
      · rw [result]
        exact placed
      · exact absurd (ready.page inside starts) other
  | succ half ih =>
      rw [HashTree.appendNodes]
      rcases ready.placeRange parent with
        ⟨index, after, result, placed⟩ | ⟨result, inside, starts, other⟩
      · rw [result]
        exact placed
      · rw [result]
        dsimp only
        rw [if_neg child, if_neg child]
        have room : state.nodes.length ≤ (state.nodes ++ [default]).length := by simp
        have roomy := ready.roomy
        have nonzero : state.nodes.length ≠ 0 := by omega
        have left := ih (ready.left room inside other) nonzero
        generalize HashTree.appendNodes extents half beginPage state.nodes.length
          ⟨state.current, state.nodes ++ [default]⟩ = first at left ⊢
        have right := ih (ready.right left rfl room) nonzero
        generalize HashTree.appendNodes extents half (beginPage + 2 ^ half) state.nodes.length
          first.2 = second at right ⊢
        have joined := ready.join parent left right inside starts rfl room nonzero (by simp)
          (Or.inr roomy)
        have moved := left.current
        have moved' := right.current
        have grown := left.grows
        have grown' := right.grows
        apply joined.enter
        intro other
        simp only [Owned, List.length_set, List.length_append, List.length_singleton]
          at grown grown' moved moved' ⊢
        omega

end Append

namespace Layout

section Walk

variable {layout : Layout}

/-- The highest bit inside a region says which half an address is in. -/
theorem testBit_half {base address log2Size : Nat} (aligned : 2 ^ (log2Size + 1) ∣ base)
    (low : base ≤ address) (high : address < base + 2 ^ (log2Size + 1)) :
    address.testBit log2Size = decide (base + 2 ^ log2Size ≤ address) := by
  obtain ⟨count, rfl⟩ := aligned
  have positive := Nat.two_pow_pos log2Size
  rw [pow_succ] at low high ⊢
  obtain ⟨offset, rfl⟩ := Nat.exists_eq_add_of_le low
  have quotient : (2 ^ log2Size * 2 * count + offset) / 2 ^ log2Size =
      2 * count + offset / 2 ^ log2Size := by
    rw [mul_assoc, Nat.mul_add_div positive]
  rw [Nat.testBit_eq_decide_div_mod_eq, quotient, decide_eq_decide]
  by_cases upper : 2 ^ log2Size ≤ offset
  · have one : offset / 2 ^ log2Size = 1 := by
      apply Nat.div_eq_of_lt_le <;> omega
    rw [one]
    omega
  · rw [Nat.div_eq_of_lt (Nat.lt_of_not_le upper)]
    omega

/-- The bits of an address lead to the range that the address is in, or to a pristine subtree. -/
theorem Covers.follow {index base log2Size parent address : Nat}
    (covers : layout.Covers index base log2Size parent) (aligned : 2 ^ log2Size ∣ base)
    (low : base ≤ address) (high : address < base + 2 ^ log2Size) :
    (∃ range < layout.count, layout.start range ≤ address ∧ address < layout.stop range ∧
      layout.log2Size range ≤ log2Size ∧
      HashTree.follow layout.nodes address (log2Size - layout.log2Size range) index = range + 2 ∧
      ∃ above, layout.node (range + 2) = ⟨.range range, above, layout.log2Size range⟩) ∨
    ((∀ range < layout.count, ¬(layout.start range ≤ address ∧ address < layout.stop range)) ∧
      ∃ steps ≤ log2Size, HashTree.follow layout.nodes address steps index = 0) := by
  induction covers with
  | pristine apart =>
      right
      constructor
      · rintro range inside ⟨above, below⟩
        rcases apart range inside with before | after <;> omega
      · exact ⟨0, Nat.zero_le _, rfl⟩
  | range range inside node =>
      left
      refine ⟨range, inside, low, high, le_rfl, ?_, _, node⟩
      rw [Nat.sub_self]
      rfl
  | @inner index left right base log2Size parent positive node leftCovers rightCovers _ ihLeft
      ihRight =>
      have half : 2 ^ log2Size ∣ base := (pow_dvd_pow 2 (Nat.le_succ log2Size)).trans aligned
      have step : ∀ steps, HashTree.follow layout.nodes address (steps + 1) index =
          HashTree.follow layout.nodes address steps
            (if base + 2 ^ log2Size ≤ address then right else left) := by
        intro steps
        have links : layout.nodes.getD index default = _ := node
        rw [HashTree.follow, if_neg positive, links]
        dsimp only
        rw [Nat.add_sub_cancel, testBit_half aligned low high]
        simp only [decide_eq_true_eq]
      have whole : base + 2 ^ log2Size + 2 ^ log2Size = base + 2 ^ (log2Size + 1) := by
        rw [pow_succ]
        ring
      have chosen : (∃ range < layout.count, layout.start range ≤ address ∧
          address < layout.stop range ∧ layout.log2Size range ≤ log2Size ∧
          HashTree.follow layout.nodes address (log2Size - layout.log2Size range)
            (if base + 2 ^ log2Size ≤ address then right else left) = range + 2 ∧
          ∃ above, layout.node (range + 2) = ⟨.range range, above, layout.log2Size range⟩) ∨
          ((∀ range < layout.count,
            ¬(layout.start range ≤ address ∧ address < layout.stop range)) ∧
            ∃ steps ≤ log2Size, HashTree.follow layout.nodes address steps
              (if base + 2 ^ log2Size ≤ address then right else left) = 0) := by
        split
        next upper =>
          exact ihRight ((Nat.dvd_add_right half).mpr dvd_rfl) upper (whole ▸ high)
        next lower => exact ihLeft half low (Nat.lt_of_not_le lower)
      rcases chosen with
        ⟨range, inside, above, below, size, leads, leaf⟩ | ⟨outside, steps, few, leads⟩
      · left
        refine ⟨range, inside, above, below, size.trans (Nat.le_succ _), ?_, leaf⟩
        rw [Nat.succ_sub size, step, leads]
      · right
        exact ⟨outside, steps + 1, Nat.succ_le_succ few, by rw [step, leads]⟩

theorem Covers.apart {base log2Size parent : Nat} (covers : layout.Covers 0 base log2Size parent) :
    ∀ index < layout.count,
      layout.stop index ≤ base ∨ base + 2 ^ log2Size ≤ layout.start index := by
  generalize zero : 0 = index at covers
  cases covers with
  | pristine apart => exact apart
  | range index => exact absurd zero (Nat.succ_ne_zero _).symm
  | inner positive => exact absurd zero.symm positive

/-- A node that is not pristine has a subtree that is not pristine. -/
theorem Covers.has_child {left right base log2Size index : Nat}
    (leftCovers : layout.Covers left base log2Size index)
    (rightCovers : layout.Covers right (base + 2 ^ log2Size) log2Size index)
    (member : ∃ range < layout.count, base ≤ layout.start range ∧
      layout.stop range ≤ base + 2 ^ (log2Size + 1)) : left ≠ 0 ∨ right ≠ 0 := by
  by_contra pristine
  push Not at pristine
  obtain ⟨rfl, rfl⟩ := pristine
  obtain ⟨range, inside, low, high⟩ := member
  have first := leftCovers.apart range inside
  have second := rightCovers.apart range inside
  have size : layout.start range < layout.stop range :=
    Nat.lt_add_of_pos_right (Nat.two_pow_pos _)
  rw [pow_succ] at high
  omega

/-- A subtree that is not pristine stands over one region only. -/
theorem Covers.base_unique {index base base' log2Size log2Size' parent parent' : Nat}
    (first : layout.Covers index base log2Size parent) (positive : index ≠ 0)
    (second : layout.Covers index base' log2Size' parent') : base = base' := by
  induction first generalizing base' log2Size' parent' with
  | pristine => exact absurd rfl positive
  | range range inside node =>
      generalize same : range + 2 = index at second
      cases second with
      | pristine => exact absurd same (Nat.succ_ne_zero _)
      | range other => rw [Nat.add_right_cancel same]
      | inner _ node' =>
          rw [← same, node] at node'
          exact absurd (congrArg SparseNode.links node') nofun
  | @inner index left right base log2Size parent _ node leftCovers rightCovers member ihLeft
      ihRight =>
      generalize same : index = other at second
      cases second with
      | pristine => exact absurd same positive
      | range other =>
          rw [same] at node
          rename_i node'
          rw [node] at node'
          exact absurd (congrArg SparseNode.links node') nofun
      | inner _ node' leftCovers' rightCovers' member' =>
          rw [← same, node] at node'
          obtain ⟨links, _, size⟩ := SparseNode.mk.inj node'
          obtain ⟨rfl, rfl⟩ := SparseLinks.inner.inj links
          obtain rfl := Nat.succ.inj size
          rcases leftCovers.has_child rightCovers member with child | child
          · exact ihLeft child leftCovers'
          · exact Nat.add_right_cancel (ihRight child rightCovers')

/-- Every node of the tree stands over a region, under the node that links to it. -/
theorem Covers.of_below {top below base log2Size parent : Nat} (stands : layout.Below top below)
    (covers : layout.Covers top base log2Size parent) (positive : below ≠ 0) :
    ∃ base' log2Size' parent', layout.Covers below base' log2Size' parent' ∧
      (below = top ∧ parent' = parent ∨ parent' ≠ 0 ∧ ∃ left right,
        (layout.node parent').links = .inner left right ∧ (below = left ∨ below = right)) := by
  induction stands generalizing base log2Size parent with
  | here index => exact ⟨base, log2Size, parent, covers, Or.inl ⟨rfl, rfl⟩⟩
  | @child index left right next below nonzero links side rest ih =>
      cases covers with
      | pristine => exact absurd rfl nonzero
      | range index inside node =>
          rw [node] at links
          exact absurd links nofun
      | inner _ node leftCovers rightCovers _ =>
          rw [node] at links
          obtain ⟨rfl, rfl⟩ := SparseLinks.inner.inj links
          have child : ∃ childBase childSize, layout.Covers next childBase childSize index := by
            rcases side with rfl | rfl
            · exact ⟨_, _, leftCovers⟩
            · exact ⟨_, _, rightCovers⟩
          obtain ⟨childBase, childSize, childCovers⟩ := child
          obtain ⟨base', log2Size', parent', covers', place⟩ := ih childCovers positive
          refine ⟨base', log2Size', parent', covers', Or.inr ?_⟩
          rcases place with ⟨rfl, rfl⟩ | linked
          · exact ⟨nonzero, _, _, by rw [node], side⟩
          · exact linked

/-- The root of a tree that is not pristine is divided. -/
theorem Covers.root {base log2Size parent : Nat} (covers : layout.Covers 1 base log2Size parent) :
    ∃ left right, layout.node 1 = ⟨.inner left right, parent, log2Size⟩ := by
  generalize one : 1 = index at covers
  cases covers with
  | pristine => exact absurd one one_ne_zero
  | range range => omega
  | inner _ node =>
      rw [← one] at node
      rw [one] at node ⊢
      exact ⟨_, _, node⟩

/-- The node of a subtree has the parent and the size that it stands for, and is in the array. -/
theorem Covers.node_eq {index base log2Size parent : Nat}
    (covers : layout.Covers index base log2Size parent) (positive : index ≠ 0) :
    (layout.node index).parent = parent ∧ (layout.node index).log2Size = log2Size ∧
      index < layout.nodes.length := by
  have present : layout.node index ≠ default → index < layout.nodes.length := by
    intro differs
    by_contra outside
    apply differs
    rw [Layout.node, List.getD_eq_getElem?_getD, List.getElem?_eq_none (Nat.le_of_not_lt outside)]
    rfl
  cases covers with
  | pristine => exact absurd rfl positive
  | range range inside node =>
      rw [node] at present ⊢
      exact ⟨rfl, rfl, present nofun⟩
  | inner _ node =>
      rw [node] at present ⊢
      refine ⟨rfl, rfl, present ?_⟩
      intro same
      exact absurd (congrArg SparseNode.log2Size same) (Nat.succ_ne_zero _)

end Walk

end Layout

section Root

variable {extents : List Extent}

/-- The array of nodes before the ranges are placed. -/
def emptyNodes (extents : List Extent) : Appended := ⟨0, List.replicate (2 + extents.length) default⟩

theorem ready_root (accepted : (layoutOf extents []).Accepted) :
    Ready extents 52 0 (emptyNodes extents) where
  accepted := accepted
  aligned := dvd_zero _
  bounded := Nat.zero_le _
  roomy := by
    rw [emptyNodes, List.length_replicate]
    omega
  consumed range before := absurd before (Nat.not_lt_zero range)
  rest _ _ _ := Nat.zero_le _
  small range inside _ _ := (accepted.small range inside).trans (by decide)

/-- The root is divided, since no range is as large as the address space. -/
theorem placeRange_root (accepted : (layoutOf extents []).Accepted) (nonempty : extents ≠ []) :
    placeRange extents 52 0 0 (emptyNodes extents) = none := by
  have inside : 0 < extents.length := List.length_pos_iff.mpr nonempty
  have first : extents[0]? = some ((layoutOf extents []).extent 0) := by
    show _ = some (extents.getD 0 (0, 0))
    rw [List.getD_eq_getElem _ _ inside, List.getElem?_eq_getElem inside]
  have ends := accepted.inside 0 inside
  have small := accepted.small 0 inside
  have low : (layoutOf extents []).start 0 / hashTreePageSize < 2 ^ 52 := by
    rw [Nat.div_lt_iff_lt_mul (by decide)]
    exact (Nat.le_add_right _ _).trans_lt ends
  have size : bitCeil ((layoutOf extents []).length 0) / hashTreePageSize = 2 ^ 52 ↔
      (layoutOf extents []).log2Size 0 = 52 + hashTreeLog2PageSize := bitCeil_pages accepted inside
  rw [placeRange, emptyNodes, first]
  dsimp only
  rw [if_neg (Nat.not_le_of_lt (by rw [Nat.zero_add]; exact low)), if_neg]
  rintro ⟨_, whole⟩
  rw [size.mp whole] at small
  exact absurd small (by decide)

/-- All ranges are placed when the whole address space is filled. -/
theorem Placed.all {before after : Appended} {parent index : Nat} {own : Nat → Prop}
    (placed : Placed extents 52 0 parent before after index own)
    (accepted : (layoutOf extents []).Accepted) : after.current = extents.length := by
  by_contra differs
  have inside : after.current < extents.length := by
    have bounded := placed.bounded
    omega
  have beyond := placed.rest after.current inside le_rfl
  have ends : (layoutOf extents []).stop after.current < 2 ^ 64 :=
    accepted.inside after.current inside
  have whole : hashTreePageSize * (0 + 2 ^ 52) = 2 ^ 64 := by decide
  rw [whole] at beyond
  exact absurd (beyond.trans (Nat.le_add_right _ _)) (Nat.not_le_of_lt ends)

/-- The root is filled, and all nodes but the first belong to its tree. -/
theorem appendNodes_root (accepted : (layoutOf extents []).Accepted) (nonempty : extents ≠ []) :
    (appendNodes extents 52 0 0 (emptyNodes extents)).1 = 1 ∧
    ∃ own : Nat → Prop, Placed extents 52 0 0 (emptyNodes extents)
        (appendNodes extents 52 0 0 (emptyNodes extents)).2 1 own ∧
      ¬own 0 ∧ ∀ other, other ≠ 0 →
        other < (appendNodes extents 52 0 0 (emptyNodes extents)).2.nodes.length → own other := by
  have ready := ready_root accepted
  have inside : 0 < extents.length := List.length_pos_iff.mpr nonempty
  have result := placeRange_root accepted nonempty
  have notWhole : ¬((layoutOf extents []).start 0 = hashTreePageSize * 0 ∧
      (layoutOf extents []).log2Size 0 = 51 + 1 + hashTreeLog2PageSize) := by
    rintro ⟨_, whole⟩
    have small := accepted.small 0 inside
    rw [whole] at small
    exact absurd small (by decide)
  have starts : (layoutOf extents []).start 0 < hashTreePageSize * (0 + 2 ^ (51 + 1)) :=
    (Nat.le_add_right _ _).trans_lt (accepted.inside 0 inside)
  have child : (1 : Nat) ≠ 0 := one_ne_zero
  have length : (emptyNodes extents).nodes.length = 2 + extents.length := List.length_replicate
  have left := (ready.left le_rfl inside notWhole).appendNodes child
  have unfolded : appendNodes extents 52 0 0 (emptyNodes extents) =
      appendNodes extents (51 + 1) 0 0 (emptyNodes extents) := rfl
  rw [unfolded, HashTree.appendNodes, result]
  dsimp only
  rw [if_pos rfl, if_pos rfl]
  generalize HashTree.appendNodes extents 51 0 1
    ⟨(emptyNodes extents).current, (emptyNodes extents).nodes⟩ = first at left ⊢
  have right := (ready.right left rfl le_rfl).appendNodes child
  generalize HashTree.appendNodes extents 51 (0 + 2 ^ 51) 1 first.2 = second at right ⊢
  have placed := ready.join 0 left right inside starts rfl le_rfl child (by
    show 1 < (emptyNodes extents).nodes.length
    omega) (Or.inl one_lt_two)
  refine ⟨rfl, _, placed, ?_, ?_⟩
  · have grown := left.grows
    have first' : (emptyNodes extents).nodes.length ≤ first.2.nodes.length := grown
    simp only [Owned]
    omega
  intro other nonzero present
  have last : second.2.current = extents.length := placed.all accepted
  have grown := right.grows
  have start : (emptyNodes extents).current = 0 := rfl
  rw [List.length_set] at present
  simp only [Owned]
  omega

/-- The nodes that are made are a tree over the address space, and all ranges are in it. -/
theorem createNodes_spec (checked : checkAddressRanges [] extents = .ok ())
    (accepted : (layoutOf extents []).Accepted) (nonempty : extents ≠ []) :
    ∃ nodes, createNodes extents = .ok nodes ∧
      nodes = (appendNodes extents 52 0 0 (emptyNodes extents)).2.nodes ∧
      (appendNodes extents 52 0 0 (emptyNodes extents)).2.current = extents.length ∧
      (layoutOf extents nodes).Covers 1 0 64 0 ∧ extents.length + 2 ≤ nodes.length ∧
      nodes.getD 0 default = default ∧
      ∀ other, other ≠ 0 → other < nodes.length → (layoutOf extents nodes).Below 1 other := by
  obtain ⟨root, own, placed, zero, all⟩ := appendNodes_root accepted nonempty
  have length : (emptyNodes extents).nodes.length = 2 + extents.length := List.length_replicate
  have grows := placed.grows
  refine ⟨_, ?_, rfl, ?_, placed.covers _ fun _ _ => rfl, by omega, ?_, ?_⟩
  · rw [createNodes]
    exact bind_ok.mpr ⟨_, checked, bind_ok.mpr ⟨(), check_pos root, rfl⟩⟩
  · exact placed.all accepted
  · rw [placed.kept 0 zero, emptyNodes, List.getD_eq_getElem?_getD]
    simp
  · intro other nonzero present
    exact placed.below _ (fun _ _ => rfl) other (all other nonzero present)

/-- The nodes of a new hash tree are those of `create_nodes`. -/
theorem create_nodes {Hash : Type} {hasher : Hasher Hash} {entryCount : Nat} {tree : Tree Hash}
    (created : create hasher entryCount extents = .ok tree) :
    createNodes extents = .ok tree.nodes := by
  obtain ⟨_, checked, created⟩ := bind_ok.mp created
  obtain ⟨_, root, created⟩ := bind_ok.mp created
  obtain ⟨_, _, created⟩ := bind_ok.mp created
  rw [← Except.ok.inj created, createNodes]
  exact bind_ok.mpr ⟨_, checked, bind_ok.mpr ⟨_, root, rfl⟩⟩

end Root

section Shape

variable {extents : List Extent}

/-- The shape of the array of nodes: the root, links that agree in both directions, one leaf for each
range where the bits of its addresses lead, and pristine subtrees everywhere else. -/
structure SparseTree (extents : List Extent) (nodes : List SparseNode) : Prop where
  root : ∃ left right, nodes.getD 1 default = ⟨.inner left right, 0, 64⟩
  children : ∀ index < nodes.length, index ≠ 0 → ∀ left right,
    (nodes.getD index default).links = .inner left right →
      (left ≠ 0 → left ≠ right) ∧ ∀ child, child = left ∨ child = right → child ≠ 0 →
        child < nodes.length ∧ (nodes.getD child default).parent = index ∧
          (nodes.getD child default).log2Size + 1 = (nodes.getD index default).log2Size
  parents : ∀ index < nodes.length, 2 ≤ index → (nodes.getD index default).parent ≠ 0 ∧
    ∃ left right, (nodes.getD (nodes.getD index default).parent default).links =
      .inner left right ∧ (index = left ∨ index = right)
  leaf : ∀ range < extents.length, (nodes.getD (range + 2) default).links = .range range ∧
    2 ^ (nodes.getD (range + 2) default).log2Size = bitCeil (extents.getD range (0, 0)).2
  unique : ∀ index < nodes.length, ∀ range,
    (nodes.getD index default).links = .range range → range < extents.length ∧ index = range + 2
  found : ∀ range < extents.length, ∀ address, (extents.getD range (0, 0)).1 ≤ address →
    address < (extents.getD range (0, 0)).1 + bitCeil (extents.getD range (0, 0)).2 →
      follow nodes address (64 - (nodes.getD (range + 2) default).log2Size) 1 = range + 2
  pristine : ∀ address < 2 ^ 64, (∀ range < extents.length,
    ¬((extents.getD range (0, 0)).1 ≤ address ∧
      address < (extents.getD range (0, 0)).1 + bitCeil (extents.getD range (0, 0)).2)) →
    ∃ steps ≤ 64, follow nodes address steps 1 = 0

variable {nodes : List SparseNode}

theorem stop_eq (accepted : (layoutOf extents []).Accepted) {range : Nat}
    (inside : range < extents.length) : (layoutOf extents nodes).stop range =
      (extents.getD range (0, 0)).1 + bitCeil (extents.getD range (0, 0)).2 := by
  have size := bitCeil_eq (accepted.nonempty range inside) (accepted.pages range inside)
  show (extents.getD range (0, 0)).1 + 2 ^ (layoutOf extents []).log2Size range = _
  rw [show (extents.getD range (0, 0)).2 = (layoutOf extents []).length range from rfl, size]
  rfl

/-- An address is in one rounded range at most. -/
theorem range_unique (accepted : (layoutOf extents []).Accepted) {first second address : Nat}
    (inside : first < extents.length) (inside' : second < extents.length)
    (above : (layoutOf extents []).start first ≤ address)
    (below : address < (layoutOf extents []).stop first)
    (above' : (layoutOf extents []).start second ≤ address)
    (below' : address < (layoutOf extents []).stop second) : first = second := by
  rcases Nat.lt_trichotomy first second with before | same | after
  · have order := accepted.ordered first inside second inside' before
    omega
  · exact same
  · have order := accepted.ordered second inside' first inside after
    omega

/-- The bits of an address of a range lead to its leaf. -/
theorem follow_range (accepted : (layoutOf extents []).Accepted)
    (covers : (layoutOf extents nodes).Covers 1 0 64 0) {range address : Nat}
    (inside : range < extents.length) (above : (layoutOf extents []).start range ≤ address)
    (below : address < (layoutOf extents []).stop range) :
    follow nodes address (64 - (layoutOf extents []).log2Size range) 1 = range + 2 ∧
      ∃ parent, nodes.getD (range + 2) default =
        ⟨.range range, parent, (layoutOf extents []).log2Size range⟩ := by
  have bound : address < 0 + 2 ^ 64 := by
    rw [Nat.zero_add]
    exact below.trans (accepted.inside range inside)
  rcases covers.follow (dvd_zero _) (Nat.zero_le address) bound with
    ⟨other, inside', above', below', _, leads, leaf⟩ | ⟨outside, _⟩
  · obtain rfl := range_unique accepted inside inside' above below above' below'
    exact ⟨leads, leaf⟩
  · exact absurd ⟨above, below⟩ (outside range inside)

/-- A tree over the address space that holds all nodes has the shape of a sparse tree. -/
theorem sparseTree_of_covers (accepted : (layoutOf extents []).Accepted)
    (covers : (layoutOf extents nodes).Covers 1 0 64 0) (zero : nodes.getD 0 default = default)
    (reached : ∀ other, other ≠ 0 → other < nodes.length →
      (layoutOf extents nodes).Below 1 other) : SparseTree extents nodes := by
  have starts : ∀ range, (layoutOf extents []).start range <
      (layoutOf extents []).stop range := fun range =>
    Nat.lt_add_of_pos_right (Nat.two_pow_pos _)
  constructor
  · exact covers.root
  · intro index present nonzero left right links
    obtain ⟨base, log2Size, parent, stands, _⟩ := covers.of_below (reached index nonzero present) nonzero
    cases stands with
    | pristine => exact absurd rfl nonzero
    | range range inside node =>
        have node' : nodes.getD (range + 2) default = _ := node
        rw [node'] at links
        exact absurd links nofun
    | @inner _ first second _ size _ _ node leftCovers rightCovers _ =>
        have node' : nodes.getD index default = _ := node
        rw [node'] at links ⊢
        obtain ⟨rfl, rfl⟩ := SparseLinks.inner.inj links
        constructor
        · rintro child rfl
          have same := leftCovers.base_unique child rightCovers
          have positive := Nat.two_pow_pos size
          omega
        · rintro child (rfl | rfl) nonzero'
          · obtain ⟨above, level, inside⟩ := leftCovers.node_eq nonzero'
            exact ⟨inside, above, congrArg Nat.succ level⟩
          · obtain ⟨above, level, inside⟩ := rightCovers.node_eq nonzero'
            exact ⟨inside, above, congrArg Nat.succ level⟩
  · intro index present large
    have nonzero : index ≠ 0 := by omega
    obtain ⟨base, log2Size, parent, stands, place⟩ :=
      covers.of_below (reached index nonzero present) nonzero
    have above : (nodes.getD index default).parent = parent := (stands.node_eq nonzero).1
    rcases place with ⟨rfl, _⟩ | linked
    · omega
    · rw [above]
      exact linked
  · intro range inside
    obtain ⟨_, parent, leaf⟩ := follow_range accepted covers inside le_rfl (starts range)
    have size := bitCeil_eq (accepted.nonempty range inside) (accepted.pages range inside)
    rw [leaf]
    exact ⟨rfl, size.symm⟩
  · intro index present range links
    have nonzero : index ≠ 0 := by
      rintro rfl
      rw [zero] at links
      exact absurd links nofun
    obtain ⟨base, log2Size, parent, stands, _⟩ := covers.of_below (reached index nonzero present) nonzero
    cases stands with
    | pristine => exact absurd rfl nonzero
    | range other inside node =>
        have node' : nodes.getD (other + 2) default = _ := node
        rw [node'] at links
        obtain rfl := SparseLinks.range.inj links
        exact ⟨inside, rfl⟩
    | inner _ node =>
        have node' : nodes.getD index default = _ := node
        rw [node'] at links
        exact absurd links nofun
  · intro range inside address above below
    have stop : (layoutOf extents []).stop range = _ := stop_eq accepted inside
    rw [← stop] at below
    obtain ⟨leads, parent, leaf⟩ := follow_range accepted covers inside above below
    rw [leaf]
    exact leads
  · intro address small outside
    rcases covers.follow (dvd_zero _) (Nat.zero_le address) ((Nat.zero_add _).symm ▸ small) with
      ⟨range, inside, above, below, _⟩ | ⟨_, pristine⟩
    · rw [stop_eq accepted inside] at below
      exact absurd ⟨above, below⟩ (outside range inside)
    · exact pristine

/-- Sorted ranges of whole pages that pass the checks give a sparse tree that all of them are in. -/
theorem createNodes_sparseTree (nonempty : extents ≠ [])
    (pages : ∀ extent ∈ extents, hashTreePageSize ∣ extent.1 ∧ hashTreePageSize ∣ extent.2)
    (sorted : extents.Pairwise fun first second => first.1 ≤ second.1)
    (checked : checkAddressRanges [] extents = .ok ()) :
    ∃ nodes, createNodes extents = .ok nodes ∧ SparseTree extents nodes ∧
      (appendNodes extents 52 0 0
        ⟨0, List.replicate (2 + extents.length) default⟩).2.current = extents.length := by
  have accepted := accepted_of_check checked (fun extent member => (pages extent member).2) sorted []
  obtain ⟨nodes, created, _, consumed, covers, _, zero, reached⟩ :=
    createNodes_spec checked accepted nonempty
  exact ⟨nodes, created, sparseTree_of_covers accepted covers zero reached, consumed⟩

/-- A range of two pages and one of three pages, which is rounded up to four. -/
theorem createNodes_two : ∃ nodes, createNodes [(0x2000, 0x2000), (0x4000, 0x3000)] = .ok nodes ∧
    SparseTree [(0x2000, 0x2000), (0x4000, 0x3000)] nodes := by
  have checked : checkAddressRanges [] [(0x2000, 0x2000), (0x4000, 0x3000)] = .ok () := by
    decide
  obtain ⟨nodes, created, tree, _⟩ := createNodes_sparseTree (by decide) (by decide) (by decide) checked
  exact ⟨nodes, created, tree⟩

end Shape

end MachineEmulator.HashTree
