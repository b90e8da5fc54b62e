/-
This file proves that the sparse tree of a new hash tree partitions the address space: every node is an
address range, a pristine region or two halves.
-/

import MachineEmulator.Construction.HashTree.HashTree

namespace MachineEmulator.HashTree

section Sizes

theorem clog_shift (shift : Nat) {value : Nat} (positive : 0 < value) :
    Nat.clog 2 (2 ^ shift * value) = shift + Nat.clog 2 value := by
  apply Nat.le_antisymm
  · rw [Nat.clog_le_iff_le_pow (by decide), pow_add]
    exact Nat.mul_le_mul_left _ (Nat.le_pow_clog (by decide) value)
  · have below : shift ≤ Nat.clog 2 (2 ^ shift * value) := by
      rw [← Nat.clog_pow 2 shift (by decide)]
      apply Nat.clog_mono_right
      rw [Nat.clog_pow 2 shift (by decide)]
      exact Nat.le_mul_of_pos_right _ positive
    obtain ⟨rest, whole⟩ := Nat.exists_eq_add_of_le below
    rw [whole]
    apply Nat.add_le_add_left
    rw [Nat.clog_le_iff_le_pow (by decide)]
    have bound : 2 ^ shift * value ≤ 2 ^ Nat.clog 2 (2 ^ shift * value) :=
      Nat.le_pow_clog (by decide) _
    rw [whole, pow_add] at bound
    exact Nat.le_of_mul_le_mul_left bound (by positivity)

/-- A range of whole pages is rounded up to the size of its tree. -/
theorem bitCeil_eq {length : Nat} (nonempty : 0 < length) (pages : hashTreePageSize ∣ length) :
    bitCeil length = 2 ^ (hashTreeLog2PageSize + levelCount length - 1) := by
  obtain ⟨count, rfl⟩ := pages
  have positive : 0 < count := by
    by_contra zero
    rw [Nat.eq_zero_of_not_pos zero, mul_zero] at nonempty
    exact absurd nonempty (Nat.lt_irrefl 0)
  have divided : hashTreePageSize * count / hashTreePageSize = count :=
    Nat.mul_div_cancel_left count (by decide)
  rw [bitCeil, levelCount, divided, hashTreePageSize, clog_shift _ positive]
  congr 1

end Sizes

/-- The parts of a hash tree that no operation changes. -/
structure Layout where
  count : Nat
  extent : Nat → Extent
  nodes : List SparseNode

def Tree.layout {Hash : Type} (tree : Tree Hash) : Layout where
  count := tree.count
  extent index := ((tree.range index).start, (tree.range index).length)
  nodes := tree.nodes

namespace Layout

variable (layout : Layout)

def start (index : Nat) : Nat := (layout.extent index).1

def length (index : Nat) : Nat := (layout.extent index).2

def log2Size (index : Nat) : Nat := hashTreeLog2PageSize + levelCount (layout.length index) - 1

/-- The end of a range that is rounded up to its size in the tree. -/
def stop (index : Nat) : Nat := layout.start index + 2 ^ layout.log2Size index

def node (index : Nat) : SparseNode := layout.nodes.getD index default

/-- The second node is the first or stands below it. -/
inductive Below (layout : Layout) : Nat → Nat → Prop
  | here (index : Nat) : Below layout index index
  | child {index left right next below : Nat} (positive : index ≠ 0)
      (links : (layout.node index).links = .inner left right) (side : next = left ∨ next = right)
      (rest : Below layout next below) : Below layout index below

/-- The subtree at an index stands for the region at a base address, under its parent. -/
inductive Covers (layout : Layout) : Nat → Nat → Nat → Nat → Prop
  | pristine {base log2Size parent : Nat}
      (apart : ∀ index < layout.count,
        layout.stop index ≤ base ∨ base + 2 ^ log2Size ≤ layout.start index) :
      Covers layout 0 base log2Size parent
  | range {parent : Nat} (index : Nat) (inside : index < layout.count)
      (node : layout.node (index + 2) = ⟨.range index, parent, layout.log2Size index⟩) :
      Covers layout (index + 2) (layout.start index) (layout.log2Size index) parent
  | inner {index left right base log2Size parent : Nat} (positive : index ≠ 0)
      (node : layout.node index = ⟨.inner left right, parent, log2Size + 1⟩)
      (leftCovers : Covers layout left base log2Size index)
      (rightCovers : Covers layout right (base + 2 ^ log2Size) log2Size index)
      (member : ∃ range < layout.count, base ≤ layout.start range ∧
        layout.stop range ≤ base + 2 ^ (log2Size + 1)) :
      Covers layout index base (log2Size + 1) parent

/-- The address ranges have whole pages, stand at multiples of their sizes and come in order. -/
structure Accepted : Prop where
  nonempty : ∀ index < layout.count, 0 < layout.length index
  pages : ∀ index < layout.count, hashTreePageSize ∣ layout.length index
  aligned : ∀ index < layout.count, 2 ^ layout.log2Size index ∣ layout.start index
  small : ∀ index < layout.count, layout.log2Size index ≤ 63
  inside : ∀ index < layout.count, layout.stop index < 2 ^ 64
  ordered : ∀ index < layout.count, ∀ later < layout.count, index < later →
    layout.stop index ≤ layout.start later

/-- The sparse tree partitions the address space. -/
structure WellFormed : Prop extends layout.Accepted where
  covers : layout.Covers 1 0 64 0

end Layout

section Create

/-- The layout of the given ranges with some nodes. -/
def layoutOf (extents : List Extent) (nodes : List SparseNode) : Layout :=
  ⟨extents.length, fun index => extents.getD index (0, 0), nodes⟩

theorem checkAddressRanges_mem {previous rest : List Extent}
    (accepted : checkAddressRanges previous rest = .ok ()) :
    ∀ index < rest.length, checkAddressRange (previous ++ rest.take index)
      (rest.getD index (0, 0)).1 (rest.getD index (0, 0)).2 = .ok () := by
  induction rest generalizing previous with
  | nil =>
      intro index inside
      exact absurd inside (Nat.not_lt_zero index)
  | cons extent rest ih =>
      obtain ⟨⟨⟩, first, others⟩ := bind_ok.mp accepted
      intro index inside
      cases index with
      | zero => simpa using first
      | succ index =>
          have later := ih others index (Nat.lt_of_succ_lt_succ inside)
          simpa using later

/-- Sorted ranges of whole pages that pass the checks are accepted and in order. -/
theorem accepted_of_check {extents : List Extent}
    (accepted : checkAddressRanges [] extents = .ok ())
    (pages : ∀ extent ∈ extents, hashTreePageSize ∣ extent.2)
    (sorted : extents.Pairwise fun first second => first.1 ≤ second.1) (nodes : List SparseNode) :
    (layoutOf extents nodes).Accepted := by
  have checks := checkAddressRanges_mem accepted
  have member (index : Nat) (inside : index < extents.length) :
      extents.getD index (0, 0) ∈ extents := by
    rw [List.getD_eq_getElem _ _ inside]
    exact List.getElem_mem inside
  have whole (index : Nat) (inside : index < extents.length) :
      hashTreePageSize ∣ (extents.getD index (0, 0)).2 := pages _ (member index inside)
  have fields (index : Nat) (inside : index < extents.length) :
      0 < (extents.getD index (0, 0)).2 ∧ (extents.getD index (0, 0)).2 ≤ 2 ^ 63 ∧
      (extents.getD index (0, 0)).1 % bitCeil (extents.getD index (0, 0)).2 = 0 ∧
      (extents.getD index (0, 0)).1 < 2 ^ 64 - 1 - bitCeil (extents.getD index (0, 0)).2 ∧
      ∀ other ∈ extents.take index, ¬((extents.getD index (0, 0)).1 < other.1 + bitCeil other.2 ∧
        other.1 < (extents.getD index (0, 0)).1 + bitCeil (extents.getD index (0, 0)).2) := by
    have passed := checks index inside
    rw [List.nil_append, checkAddressRange] at passed
    obtain ⟨⟨⟩, nonempty, passed⟩ := bind_ok.mp passed
    obtain ⟨⟨⟩, short, passed⟩ := bind_ok.mp passed
    obtain ⟨⟨⟩, aligned, passed⟩ := bind_ok.mp passed
    obtain ⟨⟨⟩, fits, apart⟩ := bind_ok.mp passed
    exact ⟨check_ok.mp nonempty, check_ok.mp short, check_ok.mp aligned, check_ok.mp fits,
      check_ok.mp apart⟩
  have sizes (index : Nat) (inside : index < extents.length) :
      bitCeil (extents.getD index (0, 0)).2 = 2 ^ (layoutOf extents nodes).log2Size index :=
    bitCeil_eq (fields index inside).1 (whole index inside)
  constructor
  · intro index inside
    exact (fields index inside).1
  · exact whole
  · intro index inside
    have aligned := (fields index inside).2.2.1
    rw [sizes index inside] at aligned
    exact Nat.dvd_of_mod_eq_zero aligned
  · intro index inside
    have short := (fields index inside).2.1
    have size := sizes index inside
    rw [bitCeil] at size
    rw [← Nat.pow_right_injective (le_refl 2) size]
    exact Nat.clog_le_of_le_pow short
  · intro index inside
    have fits := (fields index inside).2.2.2.1
    rw [sizes index inside] at fits
    show (extents.getD index (0, 0)).1 + 2 ^ (layoutOf extents nodes).log2Size index < 2 ^ 64
    omega
  · intro index inside later laterInside before
    have early : index < extents.length := inside
    have apart := (fields later laterInside).2.2.2.2 (extents.getD index (0, 0)) (by
      rw [List.getD_eq_getElem _ _ early]
      exact List.mem_take_iff_getElem.mpr ⟨index, by omega, rfl⟩)
    have order : (extents.getD index (0, 0)).1 ≤ (extents.getD later (0, 0)).1 := by
      rw [List.getD_eq_getElem _ _ early, List.getD_eq_getElem _ _ laterInside]
      exact List.pairwise_iff_getElem.mp sorted index later inside laterInside before
    have positive : 0 < bitCeil (extents.getD later (0, 0)).2 := by
      rw [bitCeil]
      positivity
    rw [sizes index inside] at apart
    show (extents.getD index (0, 0)).1 + 2 ^ (layoutOf extents nodes).log2Size index ≤
      (extents.getD later (0, 0)).1
    omega

end Create

end MachineEmulator.HashTree
