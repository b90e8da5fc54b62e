/-
This file says that the translation of virtual addresses is the page-table walk of the architecture.
-/

import MachineEmulator.Construction.Interpret.TranslateVirtualAddress

namespace MachineEmulator.Interpret

/-- The fields of a page-table entry. -/
structure Pte where
  valid : Bool
  read : Bool
  write : Bool
  execute : Bool
  user : Bool
  accessed : Bool
  dirty : Bool
  ppn : BitVec 44
  reserved : BitVec 10
deriving DecidableEq

def Pte.ofWord (word : Word) : Pte where
  valid := word.getLsbD 0
  read := word.getLsbD 1
  write := word.getLsbD 2
  execute := word.getLsbD 3
  user := word.getLsbD 4
  accessed := word.getLsbD 6
  dirty := word.getLsbD 7
  ppn := word.extractLsb' 10 44
  reserved := word.extractLsb' 54 10

/-- A leaf of the page tables: where it is, what it says and how many levels are below it. -/
structure Leaf where
  address : Word
  word : Word
  level : Nat
deriving DecidableEq

/-- The address that a leaf gives; a superpage keeps the low page numbers of the virtual address. -/
def Leaf.translate (leaf : Leaf) (vaddr : Word) : Word :=
  BitVec.ofNat 64 ((Pte.ofWord leaf.word).ppn.toNat * 2 ^ 12 + vaddr.toNat % 2 ^ (12 + 9 * leaf.level))

/-- What an implementation can choose: the modes it has, with their levels, and the pointers that it
follows. -/
structure Rules where
  levels : Word → Option Nat
  follows : Pte → Bool

/-- All modes of the architecture, where a pointer has no use for its U, A and D bits. -/
def architecture : Rules where
  levels mode :=
    if mode = satpModeSv39 then some 3
    else if mode = satpModeSv48 then some 4
    else if mode = satpModeSv57 then some 5
    else none
  follows pte := !pte.user && !pte.accessed && !pte.dirty

/-- Sv57 is disabled, and the U, A and D bits of a pointer are not looked at. -/
def implemented : Rules where
  levels mode :=
    if mode = satpModeSv39 then some 3
    else if mode = satpModeSv48 then some 4
    else none
  follows _ := true

namespace Mmu

variable (mmu : Mmu) (memory : Memory)

/-- An address is canonical if its high bits repeat the highest bit that is translated. -/
def Canonical (levels : Nat) (vaddr : Word) : Prop :=
  ∀ index, 11 + 9 * levels ≤ index → index < 64 →
    vaddr.getLsbD index = vaddr.getLsbD (11 + 9 * levels)

/-- The entry that the walk of the architecture ends at, from the table of a page number. -/
def findLeaf (rules : Rules) (vaddr : Word) : Nat → BitVec 44 → Option Leaf
  | 0, _ => none
  | level + 1, table =>
      let address := BitVec.ofNat 64
        (table.toNat * 2 ^ 12 + (vaddr.extractLsb' (12 + 9 * level) 9).toNat * 8)
      if ¬mmu.canRead address then none
      else
        let pte := Pte.ofWord (memory.loadWord address)
        if ¬pte.valid ∨ (¬pte.read ∧ pte.write) ∨ pte.reserved ≠ 0 then none
        else if pte.read ∨ pte.execute then some ⟨address, memory.loadWord address, level⟩
        else if ¬rules.follows pte then none
        else findLeaf rules vaddr level pte.ppn

/-- A user page is for U-mode, and for the loads and stores of S-mode if SUM is set. -/
def UserPermits (access : Access) (pte : Pte) : Prop :=
  if mmu.prv access = prvS then
    pte.user = true → access ≠ .execute ∧ mmu.mstatus.getLsbD 18 = true
  else pte.user = true

/-- A page that can be executed can be read if MXR is set. -/
def KindPermits (access : Access) (pte : Pte) : Prop :=
  match access with
  | .read => pte.read = true ∨ mmu.mstatus.getLsbD 19 = true ∧ pte.execute = true
  | .write => pte.write = true
  | .execute => pte.execute = true

/-- The walk of the architecture comes to a leaf that permits the access and is aligned. -/
def Reaches (rules : Rules) (levels : Nat) (vaddr : Word) (access : Access) (leaf : Leaf) : Prop :=
  Canonical levels vaddr ∧
    mmu.findLeaf memory rules vaddr levels (mmu.satp.extractLsb' 0 44) = some leaf ∧
    mmu.UserPermits access (Pte.ofWord leaf.word) ∧
    mmu.KindPermits access (Pte.ofWord leaf.word) ∧
    (Pte.ofWord leaf.word).ppn.toNat % 2 ^ (9 * leaf.level) = 0

/-- Physical addresses are used as they are in M-mode and if the mode is bare. -/
def Untranslated (access : Access) : Prop :=
  prvS < mmu.prv access ∨ mmu.satp >>> 60 = satpModeBare

/-- The translation of the architecture. -/
def Translates (rules : Rules) (vaddr : Word) (access : Access) (paddr : Word) : Prop :=
  (mmu.Untranslated access ∧ paddr = vaddr) ∨
    (¬mmu.Untranslated access ∧ ∃ levels leaf, rules.levels (mmu.satp >>> 60) = some levels ∧
      mmu.Reaches memory rules levels vaddr access leaf ∧ paddr = leaf.translate vaddr)

end Mmu

section Words

theorem and_eq_zero_iff {word mask : Word} :
    word &&& mask = 0 ↔ ∀ index < 64, mask.getLsbD index = true → word.getLsbD index = false := by
  constructor
  · intro zero index inside set
    have same := congrArg (fun value => value.getLsbD index) zero
    simpa [set] using same
  · intro clear
    apply BitVec.eq_of_getLsbD_eq
    intro index inside
    cases set : mask.getLsbD index with
    | false => simp [set]
    | true => simp [set, clear index inside set]

theorem and_bit {word mask : Word} (position : Nat) (inside : position < 64)
    (bits : mask = (1 : Word) <<< position) :
    word &&& mask = 0 ↔ word.getLsbD position = false := by
  rw [and_eq_zero_iff, bits]
  constructor
  · intro clear
    apply clear position inside
    simp [inside]
  · intro clear index within set
    have same : index = position := by
      by_contra other
      have beside : 0 < index - position ∨ index < position := by omega
      simp at set
      omega
    rw [same, clear]

/-- The nine bits of a page number select an entry of a table. -/
theorem entry_address (table : BitVec 44) (vaddr : Word) (shift : Nat) :
    table.setWidth 64 <<< 12 + (((vaddr >>> shift) &&& 0x1ff) <<< 3) =
      BitVec.ofNat 64 (table.toNat * 2 ^ 12 + (vaddr.extractLsb' shift 9).toNat * 8) := by
  have select : (vaddr >>> shift) &&& 0x1ff = (vaddr.extractLsb' shift 9).setWidth 64 := by
    apply BitVec.eq_of_toNat_eq
    rw [BitVec.toNat_and, BitVec.toNat_setWidth, BitVec.extractLsb'_toNat, BitVec.toNat_ushiftRight]
    have mask : (0x1ff : Word).toNat = 2 ^ 9 - 1 := rfl
    rw [mask, Nat.and_two_pow_sub_one_eq_mod]
    omega
  have high := table.isLt
  have low := (vaddr.extractLsb' shift 9).isLt
  rw [select]
  apply BitVec.eq_of_toNat_eq
  rw [BitVec.toNat_add, BitVec.toNat_shiftLeft, BitVec.toNat_shiftLeft, BitVec.toNat_setWidth,
    BitVec.toNat_setWidth, BitVec.toNat_ofNat, Nat.shiftLeft_eq, Nat.shiftLeft_eq]
  omega

/-- The page number of an entry is the address of the next table. -/
theorem next_table (pte : Word) :
    (pte &&& ptePpnMask) <<< 2 = (pte.extractLsb' 10 44).setWidth 64 <<< 12 := by
  have mask : ∀ index < 64, ptePpnMask.getLsbD index = decide (10 ≤ index ∧ index < 54) := by decide
  apply BitVec.eq_of_getLsbD_eq
  intro index inside
  simp only [BitVec.getLsbD_shiftLeft, BitVec.getLsbD_and, BitVec.getLsbD_setWidth,
    BitVec.getLsbD_extractLsb']
  by_cases within : 12 ≤ index ∧ index < 56
  · have place : 10 + (index - 12) = index - 2 := by omega
    have selected : decide (10 ≤ index - 2 ∧ index - 2 < 54) = true := decide_eq_true (by omega)
    have notLow : decide (index < 2) = false := decide_eq_false (by omega)
    have notLow' : decide (index < 12) = false := decide_eq_false (by omega)
    have small : decide (index - 12 < 44) = true := decide_eq_true (by omega)
    have small' : decide (index - 12 < 64) = true := decide_eq_true (by omega)
    rw [mask (index - 2) (by omega), selected, place, notLow, notLow', small, small']
    simp
  · by_cases low : index < 2
    · simp [low]
      omega
    · have selected : decide (10 ≤ index - 2 ∧ index - 2 < 54) = false := decide_eq_false (by omega)
      rw [mask (index - 2) (by omega), selected]
      by_cases below : index < 12
      · simp [below]
      · have large : decide (index - 12 < 44) = false := decide_eq_false (by omega)
        rw [large]
        simp

theorem root_table (satp : Word) :
    (satp &&& satpPpnMask) <<< 12 = (satp.extractLsb' 0 44).setWidth 64 <<< 12 := by
  have mask : ∀ index < 64, satpPpnMask.getLsbD index = decide (index < 44) := by decide
  have same : satp &&& satpPpnMask = (satp.extractLsb' 0 44).setWidth 64 := by
    apply BitVec.eq_of_getLsbD_eq
    intro index inside
    simp only [BitVec.getLsbD_and, BitVec.getLsbD_setWidth, BitVec.getLsbD_extractLsb', mask index inside]
    by_cases low : index < 44 <;> simp [low, inside]
  rw [same]

/-- The reserved bits of an entry are its highest ten. -/
theorem reserved_bits (pte : Word) :
    pte &&& (pte6054Mask ||| ptePbmtMask ||| pteNMask) = 0 ↔ pte.extractLsb' 54 10 = 0 := by
  have mask : ∀ index < 64, (pte6054Mask ||| ptePbmtMask ||| pteNMask).getLsbD index =
      decide (54 ≤ index) := by decide
  rw [and_eq_zero_iff]
  constructor
  · intro clear
    apply BitVec.eq_of_getLsbD_eq
    intro index inside
    have zero := clear (54 + index) (by omega) (by rw [mask _ (by omega)]; simp)
    simp [inside, zero]
  · intro zero index inside set
    rw [mask index inside] at set
    have high : 54 ≤ index := of_decide_eq_true set
    have bit := congrArg (fun value => value.getLsbD (index - 54)) zero
    have place : 54 + (index - 54) = index := by omega
    have small : index - 54 < 10 := by omega
    simpa [place, small] using bit

/-- The permission bits of an entry, the lowest one for reading. -/
theorem xwr_bits (pte : Word) :
    (pte >>> 1) &&& 7 = (if pte.getLsbD 1 then 1 else 0) ||| (if pte.getLsbD 2 then 2 else 0) |||
      (if pte.getLsbD 3 then 4 else 0) := by
  apply BitVec.eq_of_getLsbD_eq
  intro index inside
  have bits : (7 : Word).getLsbD index = decide (index < 3) := by
    revert index
    decide
  rw [BitVec.getLsbD_and, BitVec.getLsbD_ushiftRight, bits]
  by_cases low : index < 3
  · interval_cases index <;>
      cases pte.getLsbD 1 <;> cases pte.getLsbD 2 <;> cases pte.getLsbD 3 <;> rfl
  · have small : ∀ value < 8, (BitVec.ofNat 64 value).getLsbD index = false := by
      intro value bound
      rw [BitVec.getLsbD_ofNat]
      simp [Nat.testBit_lt_two_pow (Nat.lt_of_lt_of_le bound
        (Nat.pow_le_pow_right (by omega : 0 < 2) (by omega : 3 ≤ index)))]
    have few : ((if pte.getLsbD 1 then 1 else 0) ||| (if pte.getLsbD 2 then 2 else 0) |||
        (if pte.getLsbD 3 then 4 else 0) : Word) = BitVec.ofNat 64
          ((if pte.getLsbD 1 then 1 else 0) + (if pte.getLsbD 2 then 2 else 0) +
            (if pte.getLsbD 3 then 4 else 0)) := by
      cases pte.getLsbD 1 <;> cases pte.getLsbD 2 <;> cases pte.getLsbD 3 <;> rfl
    rw [few, small]
    · simp [low]
    · cases pte.getLsbD 1 <;> cases pte.getLsbD 2 <;> cases pte.getLsbD 3 <;> decide

/-- The arithmetic shifts leave exactly the canonical addresses. -/
theorem canonical_iff {levels : Nat} (vaddr : Word) (few : levels ≤ 5) :
    (vaddr <<< (64 - (12 + 9 * levels))).sshiftRight (64 - (12 + 9 * levels)) = vaddr ↔
      Mmu.Canonical levels vaddr := by
  have bit (index : Nat) (inside : index < 64) :
      ((vaddr <<< (64 - (12 + 9 * levels))).sshiftRight (64 - (12 + 9 * levels))).getLsbD index =
        if index < 12 + 9 * levels then vaddr.getLsbD index else vaddr.getLsbD (11 + 9 * levels) := by
    rw [BitVec.getLsbD_sshiftRight]
    have notOut : decide (64 ≤ index) = false := decide_eq_false (by omega)
    rw [notOut, Bool.not_false, Bool.true_and]
    split
    · rename_i within
      rw [if_pos (by omega), BitVec.getLsbD_shiftLeft]
      have place : 64 - (12 + 9 * levels) + index - (64 - (12 + 9 * levels)) = index := by omega
      have inner : decide (64 - (12 + 9 * levels) + index < 64) = true := decide_eq_true (by omega)
      have above : decide (64 - (12 + 9 * levels) + index < 64 - (12 + 9 * levels)) = false :=
        decide_eq_false (by omega)
      rw [place, inner, above]
      simp
    · rename_i beyond
      rw [if_neg (by omega), BitVec.msb_eq_getLsbD_last, BitVec.getLsbD_shiftLeft]
      have place : 64 - 1 - (64 - (12 + 9 * levels)) = 11 + 9 * levels := by omega
      have above : decide (64 - 1 < 64 - (12 + 9 * levels)) = false := decide_eq_false (by omega)
      rw [place, above]
      simp
  constructor
  · intro same index high inside
    have moved := bit index inside
    rw [same] at moved
    by_cases top : index = 11 + 9 * levels
    · rw [top]
    · rw [moved, if_neg (by omega)]
  · intro canonical
    apply BitVec.eq_of_getLsbD_eq
    intro index inside
    rw [bit index inside]
    split
    · rfl
    · exact (canonical index (by omega) inside).symm

/-- A mask of the low bits keeps the remainder. -/
theorem low_mask (word : Word) {shift : Nat} (inside : shift < 64) :
    word &&& (((1 : Word) <<< shift) - (1 : Word)) = BitVec.ofNat 64 (word.toNat % 2 ^ shift) := by
  have positive : 0 < 2 ^ shift := Nat.two_pow_pos shift
  have bounded : 2 ^ shift < 2 ^ 64 := Nat.pow_lt_pow_right (by omega) inside
  have mask : (((1 : Word) <<< shift) - (1 : Word)).toNat = 2 ^ shift - 1 := by
    have one : ((1 : Word) <<< shift).toNat = 2 ^ shift := by
      rw [BitVec.toNat_shiftLeft, Nat.shiftLeft_eq]
      show 1 * 2 ^ shift % 2 ^ 64 = 2 ^ shift
      rw [one_mul, Nat.mod_eq_of_lt bounded]
    rw [BitVec.toNat_sub, one]
    show (2 ^ 64 - 1 + 2 ^ shift) % 2 ^ 64 = 2 ^ shift - 1
    omega
  apply BitVec.eq_of_toNat_eq
  rw [BitVec.toNat_and, mask, Nat.and_two_pow_sub_one_eq_mod, BitVec.toNat_ofNat]
  apply Eq.symm
  apply Nat.mod_eq_of_lt
  exact lt_trans (Nat.mod_lt _ positive) bounded

/-- An aligned page and the offset in it make up the address. -/
theorem page_address (vaddr : Word) (ppn : BitVec 44) {shift : Nat} (small : shift ≤ 44) :
    (ppn.setWidth 64 <<< 12 &&& (((1 : Word) <<< (12 + shift)) - (1 : Word)) = 0 ↔
        ppn.toNat % 2 ^ shift = 0) ∧
      (ppn.toNat % 2 ^ shift = 0 →
        (vaddr &&& (((1 : Word) <<< (12 + shift)) - (1 : Word))) |||
            (ppn.setWidth 64 <<< 12 &&& ~~~ (((1 : Word) <<< (12 + shift)) - (1 : Word))) =
          BitVec.ofNat 64 (ppn.toNat * 2 ^ 12 + vaddr.toNat % 2 ^ (12 + shift))) := by
  have high := ppn.isLt
  have page : (ppn.setWidth 64 <<< 12).toNat = ppn.toNat * 2 ^ 12 := by
    rw [BitVec.toNat_shiftLeft, BitVec.toNat_setWidth, Nat.shiftLeft_eq]
    omega
  have split : ppn.toNat * 2 ^ 12 % 2 ^ (12 + shift) = ppn.toNat % 2 ^ shift * 2 ^ 12 := by
    rw [Nat.add_comm 12, Nat.pow_add, Nat.mul_mod_mul_right]
  have aligned : ppn.setWidth 64 <<< 12 &&& (((1 : Word) <<< (12 + shift)) - (1 : Word)) = 0 ↔
      ppn.toNat % 2 ^ shift = 0 := by
    rw [low_mask _ (by omega), page, split, ← BitVec.toNat_inj, BitVec.toNat_ofNat]
    have bound := Nat.mod_le ppn.toNat (2 ^ shift)
    show _ = 0 ↔ _
    omega
  refine ⟨aligned, fun zero => ?_⟩
  have disjoint := aligned.mpr zero
  have keeps : ppn.setWidth 64 <<< 12 &&& ~~~ (((1 : Word) <<< (12 + shift)) - (1 : Word)) =
      ppn.setWidth 64 <<< 12 := by
    apply BitVec.eq_of_getLsbD_eq
    intro index inside
    have bit := congrArg (fun value => value.getLsbD index) disjoint
    simp only [BitVec.getLsbD_and, BitVec.getLsbD_not, inside, decide_true, Bool.true_and] at bit ⊢
    cases low : ((1 : Word) <<< (12 + shift) - (1 : Word)).getLsbD index <;> simp_all
  rw [keeps, low_mask _ (by omega)]
  have offset : vaddr.toNat % 2 ^ (12 + shift) < 2 ^ (12 + shift) := Nat.mod_lt _ (Nat.two_pow_pos _)
  have bounded : 2 ^ (12 + shift) ≤ 2 ^ 56 := Nat.pow_le_pow_right (by omega) (by omega)
  obtain ⟨pages, pages_eq⟩ := Nat.dvd_of_mod_eq_zero zero
  have block : ppn.toNat * 2 ^ 12 = 2 ^ (12 + shift) * pages := by
    rw [pages_eq, Nat.pow_add]
    ring
  have small_offset : vaddr.toNat % 2 ^ (12 + shift) % 2 ^ 64 = vaddr.toNat % 2 ^ (12 + shift) :=
    Nat.mod_eq_of_lt (by omega)
  have small_sum : (ppn.toNat * 2 ^ 12 + vaddr.toNat % 2 ^ (12 + shift)) % 2 ^ 64 =
      ppn.toNat * 2 ^ 12 + vaddr.toNat % 2 ^ (12 + shift) := Nat.mod_eq_of_lt (by omega)
  apply BitVec.eq_of_toNat_eq
  rw [BitVec.toNat_or, BitVec.toNat_ofNat, BitVec.toNat_ofNat, page, small_offset, small_sum, block,
    Nat.or_comm, ← Nat.two_pow_add_eq_or_of_lt offset]

end Words

namespace Mmu

variable {mmu : Mmu} {memory : Memory} {access : Access}

section Leaves

theorem reserved_xwr (word : Word) :
    ((word >>> 1) &&& 7 = pteXwrWMask ∨ (word >>> 1) &&& 7 = (pteXwrWMask ||| pteXwrXMask)) ↔
      word.getLsbD 1 = false ∧ word.getLsbD 2 = true := by
  rw [xwr_bits]
  cases word.getLsbD 1 <;> cases word.getLsbD 2 <;> cases word.getLsbD 3 <;> decide

theorem pointer_xwr (word : Word) :
    (word >>> 1) &&& 7 = 0 ↔
      word.getLsbD 1 = false ∧ word.getLsbD 2 = false ∧ word.getLsbD 3 = false := by
  rw [xwr_bits]
  cases word.getLsbD 1 <;> cases word.getLsbD 2 <;> cases word.getLsbD 3 <;> decide

/-- The checks of the permission bits against the access. -/
theorem kind_iff {word xwr : Word} (bits : xwr = (word >>> 1) &&& 7) :
    ((if mmu.mstatus &&& mstatusMxrMask ≠ 0 then xwr ||| (xwr >>> 2) else xwr) >>>
        access.xwrShift) &&& 1 ≠ 0 ↔
      mmu.KindPermits access (Pte.ofWord word) := by
  have mxr : mmu.mstatus &&& mstatusMxrMask = 0 ↔ mmu.mstatus.getLsbD 19 = false :=
    and_bit 19 (by omega) (by decide)
  rw [bits, xwr_bits]
  simp only [Ne, mxr, KindPermits, Pte.ofWord]
  cases access <;> cases mmu.mstatus.getLsbD 19 <;> cases word.getLsbD 1 <;>
    cases word.getLsbD 2 <;> cases word.getLsbD 3 <;> decide

/-- The checks of the user bit against the privilege. -/
theorem user_iff (word : Word) :
    mmu.UserPermits access (Pte.ofWord word) ↔
      ¬(mmu.prv access = prvS ∧ word &&& pteUMask ≠ 0 ∧
          (access = .execute ∨ mmu.mstatus &&& mstatusSumMask = 0)) ∧
        ¬(mmu.prv access ≠ prvS ∧ word &&& pteUMask = 0) := by
  have user : word &&& pteUMask = 0 ↔ word.getLsbD 4 = false := and_bit 4 (by omega) (by decide)
  have sum : mmu.mstatus &&& mstatusSumMask = 0 ↔ mmu.mstatus.getLsbD 18 = false :=
    and_bit 18 (by omega) (by decide)
  have page : (Pte.ofWord word).user = word.getLsbD 4 := rfl
  rw [UserPermits, page]
  simp only [Ne, user, sum]
  generalize word.getLsbD 4 = isUser
  generalize mmu.mstatus.getLsbD 18 = isOpen
  by_cases supervisor : mmu.prv access = prvS
  · rw [if_pos supervisor]
    cases isUser <;> cases isOpen <;> simp [supervisor]
  · rw [if_neg supervisor]
    cases isUser <;> simp [supervisor]

/-- The checks of a leaf are those of the architecture. -/
theorem leafAllows_iff (word : Word) :
    mmu.leafAllows access word ((word >>> 1) &&& 7) = true ↔
      ¬(word.getLsbD 1 = false ∧ word.getLsbD 2 = true) ∧
        mmu.UserPermits access (Pte.ofWord word) ∧ mmu.KindPermits access (Pte.ofWord word) := by
  rw [leafAllows, ← kind_iff rfl, ← reserved_xwr, user_iff]
  generalize (word >>> 1) &&& 7 = xwr
  split
  · rename_i reserved
    simp [reserved]
  rename_i valid
  split
  · rename_i refused
    constructor
    · intro allowed
      cases allowed
    · intro permits
      exact absurd refused permits.2.1.1
  rename_i shown
  split
  · rename_i refused
    constructor
    · intro allowed
      cases allowed
    · intro permits
      exact absurd refused permits.2.1.2
  rename_i own
  constructor
  · intro allowed
    exact ⟨valid, ⟨shown, own⟩, of_decide_eq_true allowed⟩
  · intro permits
    exact decide_eq_true permits.2.2

/-- An address that a leaf permits and aligns is translated. -/
theorem finishLeaf_of_permits {update : Bool} {vaddr address word : Word} {level : Nat}
    (few : level ≤ 4) (readable : ¬(word.getLsbD 1 = false ∧ word.getLsbD 2 = true))
    (user : mmu.UserPermits access (Pte.ofWord word))
    (kind : mmu.KindPermits access (Pte.ofWord word))
    (aligned : (Pte.ofWord word).ppn.toNat % 2 ^ (9 * level) = 0) :
    mmu.finishLeaf update access vaddr (((1 : Word) <<< (12 + 9 * level)) - 1) address word
        ((word &&& ptePpnMask) <<< 2) ((word >>> 1) &&& 7) memory =
      (some ((⟨address, word, level⟩ : Leaf).translate vaddr),
        if update ∧ word ≠ updatePte access word then
          (mmu.writeRamUint64 address (updatePte access word) memory).2 else memory) := by
  have allows := (leafAllows_iff word).mpr ⟨readable, user, kind⟩
  have page := page_address vaddr (word.extractLsb' 10 44)
    (by omega : 9 * level ≤ 44)
  rw [finishLeaf, next_table, if_neg (not_not.mpr allows), if_neg (by simpa using page.1.mpr aligned)]
  dsimp only
  rw [page.2 aligned]
  rfl

theorem finishLeaf_of_refuses {update : Bool} {vaddr address word : Word} {level : Nat}
    (few : level ≤ 4)
    (refuses : ¬(¬(word.getLsbD 1 = false ∧ word.getLsbD 2 = true) ∧
      mmu.UserPermits access (Pte.ofWord word) ∧ mmu.KindPermits access (Pte.ofWord word) ∧
      (Pte.ofWord word).ppn.toNat % 2 ^ (9 * level) = 0)) :
    mmu.finishLeaf update access vaddr (((1 : Word) <<< (12 + 9 * level)) - 1) address word
        ((word &&& ptePpnMask) <<< 2) ((word >>> 1) &&& 7) memory = (none, memory) := by
  have page := page_address vaddr (word.extractLsb' 10 44)
    (by omega : 9 * level ≤ 44)
  rw [finishLeaf, next_table]
  by_cases allows : mmu.leafAllows access word ((word >>> 1) &&& 7) = true
  · obtain ⟨readable, user, kind⟩ := (leafAllows_iff word).mp allows
    have misaligned : ¬(word.extractLsb' 10 44).toNat % 2 ^ (9 * level) = 0 :=
      fun aligned => refuses ⟨readable, user, kind, aligned⟩
    rw [if_neg (not_not.mpr allows), if_pos (by simpa using mt page.1.mp misaligned)]
  · rw [if_pos allows]

end Leaves

section Walks

/-- The loop ends at the leaf of the architecture. -/
theorem walk_eq {update : Bool} {vaddr : Word} {level : Nat} {table : BitVec 44} (few : level ≤ 4) :
    mmu.walk update access vaddr memory level (table.setWidth 64 <<< 12) =
      match mmu.findLeaf memory implemented vaddr level table with
      | none => (none, memory)
      | some leaf => mmu.finishLeaf update access vaddr
          (((1 : Word) <<< (12 + 9 * leaf.level)) - 1) leaf.address leaf.word
          ((leaf.word &&& ptePpnMask) <<< 2) ((leaf.word >>> 1) &&& 7) memory := by
  induction level generalizing table with
  | zero => rfl
  | succ level ih =>
      rw [walk, findLeaf]
      dsimp only
      rw [entry_address, readRamUint64]
      generalize BitVec.ofNat 64 (table.toNat * 2 ^ 12 +
        (vaddr.extractLsb' (12 + 9 * level) 9).toNat * 8) = address
      by_cases readable : mmu.canRead address = true
      swap
      · rw [if_neg readable, if_pos readable]
      rw [if_pos readable, if_neg (not_not.mpr readable)]
      dsimp only
      generalize memory.loadWord address = word
      have valid : word &&& pteVMask = 0 ↔ word.getLsbD 0 = false := and_bit 0 (by omega) (by decide)
      have faults : (¬(Pte.ofWord word).valid = true ∨
          (¬(Pte.ofWord word).read = true ∧ (Pte.ofWord word).write = true) ∨
            (Pte.ofWord word).reserved ≠ 0) ↔
          word &&& pteVMask = 0 ∨ (word.getLsbD 1 = false ∧ word.getLsbD 2 = true) ∨
            ¬word &&& (pte6054Mask ||| ptePbmtMask ||| pteNMask) = 0 := by
        rw [valid, not_congr (reserved_bits word), Bool.not_eq_true, Bool.not_eq_true]
        rfl
      by_cases invalid : word &&& pteVMask = 0
      · rw [if_pos invalid, if_pos (faults.mpr (.inl invalid))]
      rw [if_neg invalid]
      by_cases reserved : word &&& (pte6054Mask ||| ptePbmtMask ||| pteNMask) ≠ 0
      · rw [if_pos reserved, if_pos (faults.mpr (.inr (.inr reserved)))]
      rw [if_neg reserved]
      by_cases writeOnly : word.getLsbD 1 = false ∧ word.getLsbD 2 = true
      · have leaf : (word >>> 1) &&& 7 ≠ 0 := by
          rw [Ne, pointer_xwr, writeOnly.2]
          simp
        rw [if_pos leaf, if_pos (faults.mpr (.inr (.inl writeOnly)))]
        exact finishLeaf_of_refuses (by omega) fun allowed => allowed.1 writeOnly
      have fine : ¬(¬(Pte.ofWord word).valid = true ∨
          (¬(Pte.ofWord word).read = true ∧ (Pte.ofWord word).write = true) ∨
            (Pte.ofWord word).reserved ≠ 0) := by
        rw [faults]
        rintro (first | second | third)
        · exact invalid first
        · exact writeOnly second
        · exact reserved third
      rw [if_neg fine]
      have leaf : ((Pte.ofWord word).read = true ∨ (Pte.ofWord word).execute = true) ↔
          (word >>> 1) &&& 7 ≠ 0 := by
        rw [Ne, pointer_xwr]
        show word.getLsbD 1 = true ∨ word.getLsbD 3 = true ↔ _
        revert writeOnly
        cases word.getLsbD 1 <;> cases word.getLsbD 2 <;> cases word.getLsbD 3 <;> simp
      by_cases ends : (word >>> 1) &&& 7 ≠ 0
      · rw [if_pos ends, if_pos (leaf.mpr ends)]
      · rw [if_neg ends, if_neg (mt leaf.mp ends), next_table, ih (by omega)]
        rfl

theorem findLeaf_some {rules : Rules} {vaddr : Word} {level : Nat} {table : BitVec 44} {leaf : Leaf}
    (found : mmu.findLeaf memory rules vaddr level table = some leaf) :
    leaf.level < level ∧ leaf.word = memory.loadWord leaf.address ∧
      ¬(leaf.word.getLsbD 1 = false ∧ leaf.word.getLsbD 2 = true) := by
  induction level generalizing table with
  | zero => cases found
  | succ level ih =>
      rw [findLeaf] at found
      dsimp only at found
      split at found
      · cases found
      split at found
      · cases found
      rename_i fine
      split at found
      · cases found
        refine ⟨by simp, rfl, ?_⟩
        rintro ⟨unreadable, writeable⟩
        exact fine (.inr (.inl ⟨(Bool.not_eq_true _).mpr unreadable, writeable⟩))
      split at found
      · cases found
      have inner := ih found
      exact ⟨by omega, inner.2⟩

/-- The bits that a translation sets in its leaf. -/
def accessBits (access : Access) : Word :=
  if access = .write then 0xc0 else 0x40

theorem updatePte_eq (access : Access) (word : Word) :
    updatePte access word = word ||| accessBits access := by
  cases access
  · rfl
  · show word ||| pteAMask ||| pteDMask = word ||| 0xc0
    rw [BitVec.or_assoc]
    rfl
  · rfl

/-- A leaf that can be written gets its access bits, and nothing else changes. -/
theorem updated_eq {address word : Word} (writeable : mmu.canWrite address = true)
    (here : word = memory.loadWord address) :
    (if True ∧ word ≠ updatePte access word then
        (mmu.writeRamUint64 address (updatePte access word) memory).2 else memory) =
      memory.storeWord address (word ||| accessBits access) := by
  rw [← updatePte_eq]
  by_cases same : word = updatePte access word
  · rw [if_neg (fun both => both.2 same), ← same, here, Memory.storeWord_loadWord]
  · rw [if_pos ⟨trivial, same⟩, writeRamUint64, if_pos writeable]

theorem levels_eq (mode : Word) : levels mode = implemented.levels mode := by
  rw [levels, implemented]
  dsimp only
  by_cases first : mode = satpModeSv39
  · rw [if_pos (.inl first), if_pos first, first]
    rfl
  by_cases second : mode = satpModeSv48
  · rw [if_pos (.inr second), if_neg first, if_pos second, second]
    rfl
  · rw [if_neg (not_or.mpr ⟨first, second⟩), if_neg first, if_neg second]

theorem levels_le {mode : Word} {levels : Nat} (some : implemented.levels mode = some levels) :
    levels ≤ 4 := by
  rw [implemented] at some
  dsimp only at some
  split at some
  · cases some
    omega
  split at some
  · cases some
    omega
  · cases some

end Walks

section Translation

theorem translate_untranslated {update : Bool} {vaddr : Word} (physical : mmu.Untranslated access) :
    mmu.translateVirtualAddress update vaddr access memory = (some vaddr, memory) := by
  rw [translateVirtualAddress]
  rcases physical with machine | bare
  · rw [if_pos machine]
  · rw [if_pos bare]
    split <;> rfl

/-- A leaf that the walk of the architecture reaches is what the code comes to. -/
theorem translate_reaches {update : Bool} {vaddr : Word} {levels : Nat} {leaf : Leaf}
    (walked : ¬mmu.Untranslated access) (mode : implemented.levels (mmu.satp >>> 60) = some levels)
    (reaches : mmu.Reaches memory implemented levels vaddr access leaf) :
    mmu.translateVirtualAddress update vaddr access memory =
      (some (leaf.translate vaddr),
        if update ∧ leaf.word ≠ updatePte access leaf.word then
          (mmu.writeRamUint64 leaf.address (updatePte access leaf.word) memory).2 else memory) := by
  obtain ⟨canonical, found, user, kind, aligned⟩ := reaches
  have few := levels_le mode
  obtain ⟨below, -, readable⟩ := findLeaf_some found
  rw [translateVirtualAddress, if_neg (fun machine => walked (.inl machine)),
    if_neg (fun bare => walked (.inr bare)), levels_eq, mode]
  dsimp only
  rw [if_neg (not_not.mpr ((canonical_iff vaddr (by omega)).mpr canonical)), root_table, walk_eq few,
    found]
  exact finishLeaf_of_permits (by omega) readable user kind aligned

/-- Where the architecture has no translation the code has none. -/
theorem translate_faults {update : Bool} {vaddr : Word} (walked : ¬mmu.Untranslated access)
    (fault : ∀ levels leaf, implemented.levels (mmu.satp >>> 60) = some levels →
      ¬mmu.Reaches memory implemented levels vaddr access leaf) :
    mmu.translateVirtualAddress update vaddr access memory = (none, memory) := by
  rw [translateVirtualAddress, if_neg (fun machine => walked (.inl machine)),
    if_neg (fun bare => walked (.inr bare)), levels_eq]
  cases mode : implemented.levels (mmu.satp >>> 60) with
  | none => rfl
  | some levels =>
      have few := levels_le mode
      dsimp only
      by_cases canonical : Canonical levels vaddr
      swap
      · rw [if_pos (mt (canonical_iff vaddr (by omega)).mp canonical)]
      rw [if_neg (not_not.mpr ((canonical_iff vaddr (by omega)).mpr canonical)), root_table,
        walk_eq few]
      cases found : mmu.findLeaf memory implemented vaddr levels (mmu.satp.extractLsb' 0 44) with
      | none => rfl
      | some leaf =>
          have below := (findLeaf_some found).1
          apply finishLeaf_of_refuses (by omega)
          rintro ⟨-, user, kind, aligned⟩
          exact fault levels leaf mode ⟨canonical, found, user, kind, aligned⟩

end Translation

end Mmu

section Examples

/-- S-mode with one range of memory, and a root table at its start. -/
def walkMmu (mode : Word) : Mmu where
  iprv := prvS
  mstatus := 0
  satp := mode <<< 60 ||| 0x80000
  pmas := [⟨0x80000000, 0x100000, true, true, true⟩]

/-- The first entry of the root table is a leaf. -/
def leafMemory : Memory := zeroMemory.storeWord 0x80000000 3

/-- The first entry of the root table is a pointer with its A bit set, and it points to a leaf. -/
def pointerMemory : Memory :=
  (zeroMemory.storeWord 0x80000000 (0x80001 <<< 10 ||| 0x41)).storeWord 0x80001000 3

theorem supervisor_page (mode : Word) : (walkMmu mode).UserPermits .read (Pte.ofWord 3) := by
  have supervisor : (walkMmu mode).prv .read = prvS := by
    have clear : (walkMmu mode).mstatus &&& mstatusMprvMask = 0 := BitVec.zero_and
    rw [Mmu.prv, if_neg (fun both => both.2 clear)]
    rfl
  rw [Mmu.UserPermits, if_pos supervisor]
  intro user
  cases user

end Examples

end MachineEmulator.Interpret
