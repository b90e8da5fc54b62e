/-
This file proves that the functions that read, write and fill the physical memory from outside work on
one memory of bytes.
-/

import MachineEmulator.Proof.Machine.AddressRanges

namespace MachineEmulator.Machine

open Overlay MachineAddressRanges

namespace HostRange

/-- The byte of a range at an address; only memory has bytes other than zero. -/
def byteAt (range : HostRange) (address : Nat) : Byte :=
  if range.isMemory then range.hostMemory (address - range.start.toNat) else 0

end HostRange

/-- The byte of the first range that contains an address, and zero if there is none. -/
def look (list : List HostRange) (address : Nat) : Byte :=
  match list.find? (·.contains address) with
  | some range => range.byteAt address
  | none => 0

section Contents

variable {ranges next : MachineAddressRanges} {range : HostRange} {address : Nat}

theorem HostRange.contains_iff : range.contains address = true ↔
    range.start.toNat ≤ address ∧ address < range.finish.toNat := by
  simp [HostRange.contains]

theorem eq_of_contains (sound : ranges.Sound) {first second : HostRange} (left : first ∈ ranges.all)
    (right : second ∈ ranges.all) (inside : first.contains address = true)
    (within : second.contains address = true) : first = second := by
  obtain ⟨low, high⟩ := HostRange.contains_iff.mp inside
  obtain ⟨low', high'⟩ := HostRange.contains_iff.mp within
  by_contra different
  have apart := sound.apart.forall left right different
  rw [HostRange.Apart] at apart
  omega

theorem contents_of_mem (sound : ranges.Sound) (member : range ∈ ranges.all)
    (isMemory : range.isMemory = true) (inside : range.contains address = true) :
    ranges.contents address = range.hostMemory (address - range.start.toNat) := by
  rw [contents, memoryAt]
  cases found : ranges.all.find? fun range => range.isMemory && range.contains address with
  | none =>
      have none := List.find?_eq_none.mp found range member
      simp [isMemory, inside] at none
  | some other =>
      have holds := List.find?_some found
      rw [Bool.and_eq_true] at holds
      rw [eq_of_contains sound member (List.mem_of_find?_eq_some found) inside holds.2]

theorem contents_of_not (outside : ∀ range ∈ ranges.all, range.isMemory = true →
    range.contains address = false) : ranges.contents address = 0 := by
  have none : (ranges.all.find? fun range => range.isMemory && range.contains address) = none := by
    rw [List.find?_eq_none]
    intro range member holds
    rw [Bool.and_eq_true] at holds
    have not := outside range member holds.1
    rw [holds.2] at not
    cases not
  rw [contents, memoryAt, none]

/-- The contents do not depend on the marks. -/
theorem contents_clean (same : next.all.map HostRange.clean = ranges.all.map HostRange.clean) :
    next.contents = ranges.contents := by
  have cleaned (list : List HostRange) (address : Nat) :
      memoryAt (list.map HostRange.clean) address = memoryAt list address := by
    rw [memoryAt, memoryAt, List.find?_map]
    show (match (list.find? fun range => range.isMemory && range.contains address).map
      HostRange.clean with | some range => range.hostMemory _ | none => 0) = _
    cases list.find? fun range => range.isMemory && range.contains address <;> rfl
  funext address
  rw [contents, contents, ← cleaned, same, cleaned]

end Contents

section Reads

variable {range : HostRange} {view : List HostRange} {gapStart paddr length : Nat}

theorem hostMemoryView_ok {offset : Nat}
    (inside : offset + length ≤ range.finish.toNat - range.start.toNat) : ∃ view,
    range.hostMemoryView offset length = .ok view ∧
      view.getD (List.replicate length 0) = slice range.byteAt (range.start.toNat + offset) length := by
  rw [HostRange.hostMemoryView, check_pos (range.containsRelative_of inside)]
  by_cases isMemory : range.isMemory = true
  · refine ⟨some (slice range.hostMemory offset length), ?_, ?_⟩
    · simp only [isMemory, check_pos (range.hosted isMemory), if_true]
      rfl
    · show slice range.hostMemory offset length = _
      apply List.map_congr_left
      intro index _
      rw [HostRange.byteAt, if_pos isMemory]
      congr 1
      omega
  · refine ⟨none, by rw [if_neg isMemory]; rfl, ?_⟩
    exact (slice_const fun index _ => if_neg isMemory).symm

/-- A round gives the bytes of the range and those of the rounds that follow. -/
theorem readRange_ok {next : Nat → Nat → Except Failure (List Byte)} {content : Nat → Byte}
    (starts : range.start.toNat ≤ paddr ∨ length = 0)
    (within : ∀ address, range.contains address = true → content address = range.byteAt address)
    (follows : ∀ paddr' length', range.finish.toNat ≤ paddr' ∨ length' = 0 →
      next paddr' length' = .ok (slice content paddr' length')) :
    HostMachine.readRange range next paddr length = .ok (slice content paddr length) := by
  rw [HostMachine.readRange]
  split
  · next inside =>
      obtain ⟨view, read, bytes⟩ := hostMemoryView_ok (show paddr - range.start.toNat +
        min (range.finish.toNat - paddr) length ≤ range.finish.toNat - range.start.toNat by omega)
      have whole : slice range.byteAt (range.start.toNat + (paddr - range.start.toNat))
          (min (range.finish.toNat - paddr) length) =
          slice content paddr (min (range.finish.toNat - paddr) length) := by
        rw [Nat.add_sub_cancel' inside.1]
        apply slice_congr
        intro index short
        refine (within _ (HostRange.contains_iff.mpr ?_)).symm
        omega
      rw [whole] at bytes
      simp only [read]
      change (if length - min (range.finish.toNat - paddr) length = 0 then Except.ok (view.getD _)
        else (next _ _ >>= fun others => Except.ok (view.getD _ ++ others))) = _
      rw [bytes]
      split
      · next last =>
          have all : min (range.finish.toNat - paddr) length = length := by omega
          rw [all]
      · next more =>
          have part : length = min (range.finish.toNat - paddr) length +
              (length - min (range.finish.toNat - paddr) length) := by omega
          rw [follows _ _ (by omega)]
          conv => rhs; rw [part, slice_add]
          rfl
  · exact follows paddr length (by omega)

/-- The loop reads the byte of the first range that contains an address. -/
theorem readLoop_ok (sorted : view.Pairwise fun first second =>
      first.start.toNat ≤ second.start.toNat) (gap : gapStart ≤ paddr ∨ length = 0) :
    HostMachine.readLoop view gapStart paddr length = .ok (slice (look view) paddr length) := by
  induction view generalizing gapStart paddr length with
  | nil => exact congrArg Except.ok (slice_const fun _ _ => rfl).symm
  | cons range rest ih =>
      obtain ⟨first, others⟩ := List.pairwise_cons.mp sorted
      have within (address : Nat) (inside : range.contains address = true) :
          look (range :: rest) address = range.byteAt address := by
        have found : (range :: rest).find? (·.contains address) = some range :=
          List.find?_cons_of_pos inside
        rw [look, found]
      have behind (paddr' length' : Nat) (after : range.finish.toNat ≤ paddr' ∨ length' = 0) :
          HostMachine.readLoop rest range.finish.toNat paddr' length' =
            .ok (slice (look (range :: rest)) paddr' length') := by
        rw [ih others after]
        congr 1
        apply slice_congr
        intro index short
        rw [look, look, List.find?_cons_of_neg]
        rw [HostRange.contains_iff]
        omega
      have before (index : Nat) (short : paddr + index < range.start.toNat) :
          look (range :: rest) (paddr + index) = 0 := by
        have none : (range :: rest).find? (·.contains (paddr + index)) = none := by
          rw [List.find?_eq_none]
          intro other member
          rw [HostRange.contains_iff]
          rcases List.mem_cons.mp member with rfl | later
          · omega
          · have := first other later
            omega
        rw [look, none]
      rw [HostMachine.readLoop]
      by_cases away : gapStart ≤ paddr ∧ paddr < range.start.toNat
      · rw [if_pos away, readRange_ok (by omega) within behind]
        show Except.ok _ = _
        have part : length = min (range.start.toNat - paddr) length +
            (length - min (range.start.toNat - paddr) length) := by omega
        conv => rhs; rw [part, slice_add]
        rw [slice_const fun index (short : index < min (range.start.toNat - paddr) length) =>
          before index (by omega)]
      · rw [if_neg away, readRange_ok (by omega) within behind]
        rfl

theorem dropEnded_ok (view : List HostRange) {gapStart paddr : Nat} (gap : gapStart ≤ paddr) :
    (HostMachine.dropEnded paddr gapStart view).1 ≤ paddr ∧
      (HostMachine.dropEnded paddr gapStart view).2 <:+ view ∧
      ∀ address, paddr ≤ address →
        look (HostMachine.dropEnded paddr gapStart view).2 address = look view address := by
  induction view generalizing gapStart with
  | nil => exact ⟨gap, List.suffix_refl _, fun _ _ => rfl⟩
  | cons range rest ih =>
      rw [HostMachine.dropEnded]
      split
      · next ended =>
          obtain ⟨start, suffix, same⟩ := ih ended
          refine ⟨start, suffix.trans (List.suffix_cons _ _), fun address behind => ?_⟩
          have away : ¬ range.contains address = true := by
            rw [HostRange.contains_iff]
            omega
          have found : (range :: rest).find? (·.contains address) = rest.find? (·.contains address) :=
            List.find?_cons_of_neg away
          rw [same address behind, look, look, found]
      · exact ⟨gap, List.suffix_refl _, fun _ _ => rfl⟩

variable {ranges : MachineAddressRanges}

theorem hashTreeView_sorted (sound : ranges.Sound) : ranges.hashTreeView.Pairwise
    fun first second => first.start.toNat ≤ second.start.toNat := by
  refine List.Pairwise.filterMap _ (fun index other before range found next there => ?_) sound.sorted
  rw [startOf, startOf, found, there] at before
  exact before

/-- The ranges that the hash tree sees have all bytes of the memory. -/
theorem look_hashTreeView (sound : ranges.Sound) (address : Nat) :
    look ranges.hashTreeView address = ranges.contents address := by
  have known {range : HostRange} (member : range ∈ ranges.hashTreeView) : range ∈ ranges.all := by
    obtain ⟨index, _, found⟩ := List.mem_filterMap.mp member
    exact List.mem_of_getElem? found
  rw [look]
  cases found : ranges.hashTreeView.find? (·.contains address) with
  | some range =>
      have member := known (List.mem_of_find?_eq_some found)
      have inside := List.find?_some found
      show range.byteAt address = _
      by_cases isMemory : range.isMemory = true
      · rw [contents_of_mem sound member isMemory inside, HostRange.byteAt, if_pos isMemory]
      · rw [HostRange.byteAt, if_neg isMemory, contents_of_not]
        intro other there isMemory'
        by_contra within
        rw [Bool.not_eq_false] at within
        rw [eq_of_contains sound member there inside within] at isMemory
        exact isMemory isMemory'
  | none =>
      refine (contents_of_not fun range member isMemory => ?_).symm
      obtain ⟨index, found'⟩ := List.mem_iff_getElem?.mp member
      have there : range ∈ ranges.hashTreeView :=
        List.mem_filterMap.mpr ⟨index, sound.seen index range found' isMemory, found'⟩
      have none := List.find?_eq_none.mp found range there
      rwa [Bool.not_eq_true] at none

/-- The function reads the bytes of the memory. -/
theorem readMemory_ok {machine : HostMachine} (sound : machine.ranges.Sound) (paddr length : Word) :
    machine.readMemory paddr false length =
      .ok (slice machine.ranges.contents paddr.toNat length.toNat) := by
  rw [HostMachine.readMemory]
  by_cases none : length = 0
  · rw [if_pos none, none]
    rfl
  · rw [if_neg none, if_neg Bool.false_ne_true]
    obtain ⟨gap, suffix, same⟩ := dropEnded_ok machine.ranges.hashTreeView
      (Nat.zero_le paddr.toNat)
    show HostMachine.readLoop _ _ _ _ = _
    rw [readLoop_ok ((hashTreeView_sorted sound).sublist suffix.sublist) (Or.inl gap)]
    refine congrArg Except.ok (slice_congr fun index _ => ?_)
    rw [same _ (Nat.le_add_right _ _), look_hashTreeView sound]

end Reads

end MachineEmulator.Machine
