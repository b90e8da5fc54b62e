/-
This file proves what registration makes sure of for the address ranges of the machine, and which
changes keep it.
-/

import MachineEmulator.Construction.Machine.HostMemory

namespace MachineEmulator.Machine

namespace HostRange

/-- Two ranges have no address in common. -/
def Apart (first second : HostRange) : Prop :=
  first.finish.toNat ≤ second.start.toNat ∨ second.finish.toNat ≤ first.start.toNat

instance : Std.Symm Apart := ⟨fun _ _ => Or.symm⟩

/-- The range without its bytes and marks. -/
def shape (range : HostRange) : HostRange :=
  { range with hostMemory := fun _ => 0, dirty := fun _ => false }

/-- The range without its marks. -/
def clean (range : HostRange) : HostRange := { range with dirty := fun _ => false }

variable (range : HostRange) {offset length : Nat}

theorem getLength_toNat : range.getLength.toNat = range.finish.toNat - range.start.toNat := by
  have ordered := range.ordered
  rw [AddressRange.getLength, BitVec.toNat_sub_of_le ordered]

theorem containsAbsolute_iff {paddr size : Word} : range.containsAbsolute paddr size = true ↔
    range.start.toNat ≤ paddr.toNat ∧ paddr.toNat + size.toNat ≤ range.finish.toNat := by
  have ordered := range.ordered
  have whole := range.getLength_toNat
  have bound := range.finish.isLt
  simp only [AddressRange.containsAbsolute, AddressRange.containsRelative, Bool.and_eq_true,
    decide_eq_true_eq, BitVec.le_def]
  constructor
  · intro ⟨before, fits, inside⟩
    rw [BitVec.toNat_sub_of_le before, BitVec.toNat_sub_of_le fits] at inside
    omega
  · intro ⟨before, inside⟩
    have fits : size.toNat ≤ range.getLength.toNat := by omega
    refine ⟨before, fits, ?_⟩
    rw [BitVec.toNat_sub_of_le before, BitVec.toNat_sub_of_le fits]
    omega

theorem containsRelative_of (inside : offset + length ≤ range.finish.toNat - range.start.toNat) :
    range.containsRelative (BitVec.ofNat 64 offset) (BitVec.ofNat 64 length) = true := by
  have whole := range.getLength_toNat
  have bound := range.finish.isLt
  have small : offset % 2 ^ 64 = offset := Nat.mod_eq_of_lt (by omega)
  have short : length % 2 ^ 64 = length := Nat.mod_eq_of_lt (by omega)
  have fits : BitVec.ofNat 64 length ≤ range.getLength := by
    rw [BitVec.le_def, BitVec.toNat_ofNat]
    omega
  simp only [AddressRange.containsRelative, Bool.and_eq_true, decide_eq_true_eq]
  refine ⟨fits, ?_⟩
  rw [BitVec.le_def, BitVec.toNat_sub_of_le fits, BitVec.toNat_ofNat, BitVec.toNat_ofNat]
  omega

theorem clean_markDirtyPageAndUp : (range.markDirtyPageAndUp offset).clean = range.clean := by
  rw [markDirtyPageAndUp]
  split <;> rfl

end HostRange

namespace MachineAddressRanges

/-- The ranges are apart, and the hash tree sees all memory in the order of the addresses. -/
structure Sound (ranges : MachineAddressRanges) : Prop where
  apart : ranges.all.Pairwise HostRange.Apart
  addressable : ∀ range ∈ ranges.all, range.finish.toNat < 2 ^ 56
  seen : ∀ index range, ranges.all[index]? = some range → range.isMemory = true →
    index ∈ ranges.hashTree
  sorted : ranges.hashTree.Pairwise fun first second => ranges.startOf first ≤ ranges.startOf second

section Registration

variable {ranges next : MachineAddressRanges}

/-- What holds before the ranges of the hash tree are sorted. -/
structure Registered (ranges : MachineAddressRanges) : Prop where
  apart : ranges.all.Pairwise HostRange.Apart
  addressable : ∀ range ∈ ranges.all, range.finish.toNat < 2 ^ 56
  seen : ∀ index range, ranges.all[index]? = some range → range.isMemory = true →
    index ∈ ranges.hashTree

theorem pushBack_registered (registered : Registered ranges) {range : HostRange}
    {place : RegisterWhere} (memory : range.isMemory = true → place.hashTree = true)
    (pushed : ranges.pushBack range place = .ok next) : Registered next := by
  obtain ⟨_, checked, pushed⟩ := bind_ok.mp pushed
  obtain ⟨_, _, pushed⟩ := bind_ok.mp pushed
  cases pushed
  obtain ⟨_, _, checked⟩ := bind_ok.mp checked
  obtain ⟨_, bounds, checked⟩ := bind_ok.mp checked
  have small := (check_ok.mp bounds).2
  have disjoint := check_ok.mp checked
  constructor
  · rw [List.pairwise_append]
    refine ⟨registered.apart, List.pairwise_singleton _ _, fun other member last same => ?_⟩
    rw [List.mem_singleton.mp same]
    have none := disjoint other member
    rw [BitVec.lt_def, BitVec.lt_def] at none
    rw [HostRange.Apart]
    omega
  · intro other member
    rcases List.mem_append.mp member with old | new
    · exact registered.addressable other old
    · rw [List.mem_singleton.mp new]
      rw [arAddressableMask, BitVec.le_def] at small
      exact Nat.lt_succ_of_le small
  · intro index other found isMemory
    by_cases old : index < ranges.all.length
    · rw [List.getElem?_append_left old] at found
      have member := registered.seen index other found isMemory
      show index ∈ if place.hashTree then _ else _
      split
      · exact List.mem_append_left _ member
      · exact member
    · rw [List.getElem?_append_right (Nat.not_lt.mp old)] at found
      obtain ⟨here, same⟩ := List.getElem?_eq_some_iff.mp found
      rw [List.length_singleton] at here
      have place' : index = ranges.all.length := by omega
      subst place'
      simp only [Nat.sub_self, List.getElem_cons_zero] at same
      rw [same] at memory
      show _ ∈ if place.hashTree then _ else _
      rw [if_pos (memory isMemory)]
      exact List.mem_append_right _ (List.mem_singleton.mpr rfl)

theorem pushBackAll_registered (registered : Registered ranges)
    {list : List (HostRange × RegisterWhere)}
    (memory : ∀ entry ∈ list, entry.1.isMemory = true → entry.2.hashTree = true)
    (pushed : ranges.pushBackAll list = .ok next) : Registered next := by
  induction list generalizing ranges with
  | nil =>
      cases pushed
      exact registered
  | cons entry rest ih =>
      obtain ⟨middle, first, pushed⟩ := bind_ok.mp pushed
      exact ih (pushBack_registered registered (memory entry List.mem_cons_self) first)
        (fun other member => memory other (List.mem_cons_of_mem _ member)) pushed

/-- The constructor makes sound ranges when all memory is registered with the hash tree. -/
theorem create_sound {list : List (HostRange × RegisterWhere)}
    (memory : ∀ entry ∈ list, entry.1.isMemory = true → entry.2.hashTree = true)
    (created : create list = .ok ranges) : ranges.Sound := by
  obtain ⟨registered, pushed, created⟩ := bind_ok.mp created
  cases created
  have empty : Registered ⟨[], [], []⟩ :=
    ⟨.nil, fun _ member => absurd member List.not_mem_nil, fun _ _ found => by cases found⟩
  have holds := pushBackAll_registered empty memory pushed
  refine ⟨holds.apart, holds.addressable, ?_, ?_⟩
  · intro index range found isMemory
    exact (List.mem_insertionSort _).mpr (holds.seen index range found isMemory)
  · exact List.pairwise_insertionSort _ _

end Registration

section Changes

variable {ranges next : MachineAddressRanges}

theorem startOf_congr (same : next.all.map HostRange.shape = ranges.all.map HostRange.shape)
    (index : Nat) : next.startOf index = ranges.startOf index := by
  have here := congrArg (·[index]?) same
  simp only [List.getElem?_map] at here
  rw [startOf, startOf]
  cases first : next.all[index]? <;> cases second : ranges.all[index]? <;> rw [first, second] at here
  · cases here
  · cases here
  · have start := congrArg (fun range => range.start.toNat) (Option.some.inj here)
    exact start

/-- Changes of bytes and marks keep the ranges sound. -/
theorem Sound.of_shape (sound : ranges.Sound)
    (same : next.all.map HostRange.shape = ranges.all.map HostRange.shape)
    (hashTree : next.hashTree = ranges.hashTree) : next.Sound := by
  constructor
  · have apart : (ranges.all.map HostRange.shape).Pairwise HostRange.Apart :=
      List.pairwise_map.mpr sound.apart
    rw [← same, List.pairwise_map] at apart
    exact apart
  · intro range member
    have there : range.shape ∈ ranges.all.map HostRange.shape := by
      rw [← same]
      exact List.mem_map_of_mem member
    obtain ⟨other, old, shape⟩ := List.mem_map.mp there
    have finish : other.finish = range.finish := congrArg (fun range => range.finish) shape
    rw [← finish]
    exact sound.addressable other old
  · intro index range found isMemory
    have here := congrArg (·[index]?) same
    simp only [List.getElem?_map, found, Option.map_some] at here
    obtain ⟨other, old, shape⟩ := Option.map_eq_some_iff.mp here.symm
    have memory : other.isMemory = range.isMemory := congrArg (fun range => range.isMemory) shape
    rw [hashTree]
    exact sound.seen index other old (memory.trans isMemory)
  · rw [hashTree]
    refine sound.sorted.imp fun {first second} before => ?_
    rw [startOf_congr same, startOf_congr same]
    exact before

theorem findIndex_congr (same : next.all.map HostRange.shape = ranges.all.map HostRange.shape)
    (paddr length : Word) : next.findIndex paddr length = ranges.findIndex paddr length := by
  have shaped (list : List HostRange) :
      list.findIdx? (fun range => range.containsAbsolute paddr length) =
        (list.map HostRange.shape).findIdx? fun range => range.containsAbsolute paddr length := by
    rw [List.findIdx?_map]
    rfl
  rw [findIndex, findIndex, shaped, same, ← shaped]

theorem findIndex_some {paddr length : Word} {index : Nat}
    (found : ranges.findIndex paddr length = some index) : ∃ range,
    ranges.all[index]? = some range ∧ range.start.toNat ≤ paddr.toNat ∧
      paddr.toNat + length.toNat ≤ range.finish.toNat := by
  obtain ⟨inside, holds, _⟩ := List.findIdx?_eq_some_iff_getElem.mp found
  exact ⟨ranges.all[index], List.getElem?_eq_getElem inside,
    (HostRange.containsAbsolute_iff _).mp holds⟩

theorem map_modify {A B : Type} {f : A → B} {change : A → A} (list : List A) (index : Nat)
    (same : ∀ item, f (change item) = f item) : (list.modify index change).map f = list.map f := by
  induction list generalizing index with
  | nil => simp
  | cons item rest ih =>
      cases index with
      | zero => simp [same]
      | succ index => simp [ih]

end Changes

end MachineAddressRanges

end MachineEmulator.Machine
