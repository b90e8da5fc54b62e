/-
This file shows that the drives that get an automatic start lie aligned and apart behind RAM.
-/

import MachineEmulator.Construction.Machine.AdjustDefaults
import MachineEmulator.Library.Settling

namespace MachineEmulator.Machine

open HashTree (Extent bitCeil checkAddressRange)
open Json (Rejection)
open Settling (Settles settles_bind settles_congr)

section Sizes

theorem bitCeil_pos (length : Nat) : 0 < bitCeil length := Nat.two_pow_pos _

theorem le_bitCeil (length : Nat) : length ≤ bitCeil length := Nat.le_pow_clog (by decide) length

theorem bitCeil_le {length exponent : Nat} (small : length ≤ 2 ^ exponent) :
    bitCeil length ≤ 2 ^ exponent :=
  Nat.pow_le_pow_right (by decide) ((Nat.clog_le_iff_le_pow (by decide)).mpr small)

/-- A padded range that ends before 2^64 leaves room for another of its size. -/
theorem padded_twice {start length : Nat} (aligned : bitCeil length ∣ start)
    (small : length ≤ 2 ^ 63) (inside : start + bitCeil length < 2 ^ 64) :
    start + 2 * bitCeil length ≤ 2 ^ 64 := by
  obtain ⟨position, rfl⟩ := aligned
  have exponent : Nat.clog 2 length ≤ 63 := (Nat.clog_le_iff_le_pow (by decide)).mpr small
  have whole : bitCeil length * 2 ^ (64 - Nat.clog 2 length) = 2 ^ 64 := by
    rw [bitCeil, ← pow_add]
    congr 1
    omega
  rw [← whole] at inside ⊢
  have below : position + 1 < 2 ^ (64 - Nat.clog 2 length) := by
    apply Nat.lt_of_mul_lt_mul_left (a := bitCeil length)
    calc bitCeil length * (position + 1) = bitCeil length * position + bitCeil length := by ring
      _ < _ := inside
  calc bitCeil length * position + 2 * bitCeil length = bitCeil length * (position + 2) := by ring
    _ ≤ bitCeil length * 2 ^ (64 - Nat.clog 2 length) := Nat.mul_le_mul_left _ below

theorem stdBitCeil_ok {value : Word} (small : value.toNat ≤ 2 ^ 63) :
    ∃ rounded : Word, stdBitCeil value = .ok rounded ∧ rounded.toNat = bitCeil value.toNat := by
  have bound := bitCeil_le small
  refine ⟨_, if_pos small, ?_⟩
  rw [BitVec.toNat_ofNat, Nat.mod_eq_of_lt (by omega)]

end Sizes

section Placement

/-- Drives lie one after the other between two places, each on a multiple of its padded length. -/
structure Placement (first last : Nat) (drives : List Extent) : Prop where
  ordered : first ≤ last
  aligned : ∀ drive ∈ drives, bitCeil drive.2 ∣ drive.1
  above : ∀ drive ∈ drives, first ≤ drive.1
  below : ∀ drive ∈ drives, drive.1 + bitCeil drive.2 ≤ last
  apart : drives.Pairwise fun drive other => drive.1 + bitCeil drive.2 ≤ other.1

theorem Placement.nil (place : Nat) : Placement place place [] :=
  ⟨le_rfl, by simp, by simp, by simp, .nil⟩

theorem Placement.cons {first start length last : Nat} {drives : List Extent}
    (before : first ≤ start) (aligned : bitCeil length ∣ start)
    (rest : Placement (start + bitCeil length) last drives) :
    Placement first last ((start, length) :: drives) where
  ordered := before.trans ((Nat.le_add_right _ _).trans rest.ordered)
  aligned := List.forall_mem_cons.mpr ⟨aligned, rest.aligned⟩
  above := List.forall_mem_cons.mpr ⟨before, fun drive member =>
    before.trans ((Nat.le_add_right _ _).trans (rest.above drive member))⟩
  below := List.forall_mem_cons.mpr ⟨rest.ordered, rest.below⟩
  apart := List.pairwise_cons.mpr ⟨rest.above, rest.apart⟩

theorem Placement.append {first middle last : Nat} {drives others : List Extent}
    (front : Placement first middle drives) (back : Placement middle last others) :
    Placement first last (drives ++ others) where
  ordered := front.ordered.trans back.ordered
  aligned := List.forall_mem_append.mpr ⟨front.aligned, back.aligned⟩
  above := List.forall_mem_append.mpr ⟨front.above, fun drive member =>
    front.ordered.trans (back.above drive member)⟩
  below := List.forall_mem_append.mpr ⟨fun drive member =>
    (front.below drive member).trans back.ordered, back.below⟩
  apart := List.pairwise_append.mpr ⟨front.apart, back.apart, fun drive here other there =>
    (front.below drive here).trans (back.above other there)⟩

end Placement

section Starts

/-- A drive with an automatic start and a length from one page to 2^63. -/
structure AutoDrive (range : MemoryRangeConfig) : Prop where
  start : range.start = memoryRangeAuto
  page : 2 ^ 12 ≤ range.length.toNat
  fits : range.length.toNat ≤ 2 ^ 63

/-- Only the start of a range changes. -/
def Moved (range placed : MemoryRangeConfig) : Prop := ∃ start, placed = { range with start := start }

variable {what : String} {index : Nat}

theorem advance_settles (start length : Word) :
    Settles .undefinedBehavior (MachineConfig.advance what index start length) fun next =>
      next.toNat = start.toNat + length.toNat := by
  rw [MachineConfig.advance]
  split
  · rename_i room
    exact BitVec.toNat_add_of_lt room
  · simp

theorem align_settles {start rounded : Word} (positive : 0 < rounded.toNat) :
    Settles .undefinedBehavior (MachineConfig.align what index start rounded) fun place =>
      start.toNat ≤ place.toNat ∧ rounded.toNat ∣ place.toNat := by
  have rest : (start % rounded).toNat = start.toNat % rounded.toNat := BitVec.toNat_umod
  have split := Nat.div_add_mod start.toNat rounded.toNat
  have below := Nat.mod_lt start.toNat positive
  rw [MachineConfig.align]
  by_cases whole : start % rounded = 0
  · rw [if_pos whole]
    rw [whole] at rest
    exact ⟨le_rfl, Nat.dvd_of_mod_eq_zero rest.symm⟩
  · rw [if_neg whole]
    have lowered : (start - start % rounded).toNat =
        rounded.toNat * (start.toNat / rounded.toNat) := by
      rw [BitVec.toNat_sub_of_le (by rw [BitVec.le_def, rest]; exact Nat.mod_le _ _), rest]
      omega
    refine Settling.settles_mono (advance_settles _ _) fun place reached => ?_
    rw [lowered] at reached
    constructor
    · omega
    · rw [reached]
      exact Nat.dvd_add (Nat.dvd_mul_right _ _) dvd_rfl

/-- The drives of a list are placed from a start on, in their order. -/
theorem adjustStarts_settles (ranges : List MemoryRangeConfig)
    (automatic : ∀ range ∈ ranges, AutoDrive range) (start : Word) :
    Settles .undefinedBehavior (MachineConfig.adjustStarts what index start ranges) fun result =>
      Placement start.toNat result.1.toNat (result.2.map MemoryRangeConfig.extent) ∧
      List.Forall₂ Moved ranges result.2 := by
  induction ranges generalizing index start with
  | nil => exact ⟨.nil _, .nil⟩
  | cons range rest ih =>
      obtain ⟨drive, others⟩ := List.forall_mem_cons.mp automatic
      obtain ⟨rounded, rounds, size⟩ := stdBitCeil_ok drive.fits
      rw [MachineConfig.adjustStarts, if_pos drive.start, rounds]
      refine settles_bind.mpr ?_
      rw [Settling.settles_ok]
      refine settles_bind.mpr (Settling.settles_mono (align_settles ?_) ?_)
      · rw [size]
        exact bitCeil_pos _
      · rintro place ⟨before, aligned⟩
        rw [size] at aligned
        refine settles_bind.mpr (Settling.settles_mono (advance_settles _ _) ?_)
        intro next reached
        rw [size] at reached
        refine settles_bind.mpr (Settling.settles_mono (ih others next) ?_)
        rintro ⟨last, placed⟩ ⟨placement, moved⟩
        rw [reached] at placement
        exact ⟨placement.cons before aligned, .cons ⟨place, rfl⟩ moved⟩

end Starts

section Tests

/-- Two ranges do not overlap when their lengths are padded. -/
def Apart (first other : Extent) : Prop :=
  first.1 + bitCeil first.2 ≤ other.1 ∨ other.1 + bitCeil other.2 ≤ first.1

theorem Apart.symm {first other : Extent} (apart : Apart first other) : Apart other first :=
  Or.symm apart

/-- What lies aligned, apart from the ranges before it and padded below 2^64 passes every test. -/
theorem checkAddressRange_ok {previous : List Extent} {drive : Extent} (page : 2 ^ 12 ≤ drive.2)
    (fits : drive.2 ≤ 2 ^ 63) (aligned : bitCeil drive.2 ∣ drive.1)
    (inside : drive.1 + bitCeil drive.2 < 2 ^ 64) (apart : ∀ other ∈ previous, Apart other drive) :
    checkAddressRange previous drive.1 drive.2 = .ok () := by
  have twice := padded_twice aligned fits inside
  have large := le_bitCeil drive.2
  refine bind_ok.mpr ⟨(), check_pos (by omega), bind_ok.mpr ⟨(), check_pos fits,
    bind_ok.mpr ⟨(), check_pos (Nat.mod_eq_zero_of_dvd aligned), bind_ok.mpr ⟨(),
    check_pos (by omega), check_pos ?_⟩⟩⟩⟩
  intro other member overlap
  rcases apart other member with before | behind
  · omega
  · omega

/-- The ranges besides RAM and the drives end below RAM. -/
theorem fixedExtents_below :
    ∀ fixed ∈ fixedExtents, fixed.1 + bitCeil fixed.2 ≤ arRamStart.toNat := by
  have powers : ∀ fixed ∈ fixedExtents, fixed.2 ≤ 2 ^ fixed.2.log2 ∧
      fixed.1 + 2 ^ fixed.2.log2 ≤ arRamStart.toNat := by
    decide
  intro fixed member
  obtain ⟨small, below⟩ := powers fixed member
  exact (Nat.add_le_add_left (bitCeil_le small) _).trans below

/-- A range behind which only drives come lies apart from each drive, in whatever order. -/
theorem apart_of_perm {first last : Nat} {low drives ranges previous later : List Extent}
    {drive : Extent} (below : ∀ range ∈ low, range.1 + bitCeil range.2 ≤ first)
    (placement : Placement first last drives) (perm : ranges.Perm (low ++ drives))
    (split : ranges = previous ++ drive :: later) (member : drive ∈ drives) :
    ∀ other ∈ previous, Apart other drive := by
  let Rule (range other : Extent) : Prop := range ∈ drives ∨ other ∈ drives → Apart range other
  have symmetric : ∀ {range other}, Rule range other → Rule other range :=
    fun rule either => (rule either.symm).symm
  have lower : ∀ range ∈ low, ∀ other, Rule range other := by
    rintro range here other (drives | drives)
    · have above := placement.above range drives
      have positive := bitCeil_pos range.2
      have ends := below range here
      omega
    · exact Or.inl ((below range here).trans (placement.above other drives))
  have all : (low ++ drives).Pairwise Rule := by
    refine List.pairwise_append.mpr ⟨?_, ?_, fun range here other _ => lower range here other⟩
    · exact List.pairwise_iff_forall_sublist.mpr fun sub =>
        lower _ (sub.subset (by simp)) _
    · exact placement.apart.imp fun ordered _ => Or.inl ordered
  rw [← perm.pairwise_iff symmetric, split, List.pairwise_append] at all
  exact fun other here => all.2.2 other here drive (by simp) (Or.inr member)

end Tests

/-- The place where the padded RAM ends. -/
def ramEnd (config : MachineConfig) : Nat := arRamStart.toNat + bitCeil config.ram.length.toNat

/-- The drives of a configuration in the order in which they are placed. -/
def drives (config : MachineConfig) : List Extent :=
  (config.flashDrive ++ config.nvram).map MemoryRangeConfig.extent

/-- The drives of a configuration got starts on multiples of their padded lengths, apart from one
another and behind the padded RAM, no sum wraps, and the hash tree accepts each of them in whatever
order the ranges come. -/
structure WellPlaced (config adjusted : MachineConfig) : Prop where
  flashDrive : List.Forall₂ Moved config.flashDrive adjusted.flashDrive
  nvram : List.Forall₂ Moved config.nvram adjusted.nvram
  ram : ramEnd config < 2 ^ 64
  noWrap : ∀ drive ∈ drives adjusted, drive.1 + bitCeil drive.2 < 2 ^ 64
  aligned : ∀ drive ∈ drives adjusted, bitCeil drive.2 ∣ drive.1
  above : ∀ drive ∈ drives adjusted, ramEnd config ≤ drive.1
  apart : (drives adjusted).Pairwise Apart
  accepted : ∀ ranges, ranges.Perm adjusted.registeredExtents →
    ∀ previous drive later, ranges = previous ++ drive :: later → drive ∈ drives adjusted →
      checkAddressRange previous drive.1 drive.2 = .ok ()

/-- No length is left open. -/
theorem adjustLengths_auto {fileSize : String → Except Rejection Word} {what : String}
    {index : Nat} {ranges : List MemoryRangeConfig}
    (automatic : ∀ range ∈ ranges, AutoDrive range) :
    MachineConfig.adjustLengths fileSize what index ranges = .ok ranges := by
  induction ranges generalizing index with
  | nil => rfl
  | cons range rest ih =>
      obtain ⟨drive, others⟩ := List.forall_mem_cons.mp automatic
      have known : range.length ≠ memoryRangeAuto := by
        intro same
        have fits := drive.fits
        rw [same] at fits
        exact absurd fits (by decide)
      rw [MachineConfig.adjustLengths, if_neg known, ih others]
      rfl

/-- The extents of moved drives have the lengths of the drives. -/
theorem lengths_of_moved {ranges placed : List MemoryRangeConfig}
    (moved : List.Forall₂ Moved ranges placed) (automatic : ∀ range ∈ ranges, AutoDrive range) :
    ∀ drive ∈ placed.map MemoryRangeConfig.extent, 2 ^ 12 ≤ drive.2 ∧ drive.2 ≤ 2 ^ 63 := by
  induction moved with
  | nil => simp
  | @cons range _ rest others same _ ih =>
      obtain ⟨start, rfl⟩ := same
      obtain ⟨drive, more⟩ := List.forall_mem_cons.mp automatic
      exact List.forall_mem_cons.mpr ⟨⟨drive.page, drive.fits⟩, ih more⟩

/-- The choice of the starts either fails or places every drive well. -/
theorem adjustDefaults_placesDrives (fileSize : String → Except Rejection Word)
    (config : MachineConfig)
    (fits : config.ram.length.toNat ≤ 2 ^ 63)
    (flashDrive : ∀ range ∈ config.flashDrive, AutoDrive range)
    (nvram : ∀ range ∈ config.nvram, AutoDrive range) :
    Settles .undefinedBehavior (config.adjustDefaults fileSize) (WellPlaced config) := by
  obtain ⟨rounded, rounds, size⟩ := stdBitCeil_ok fits
  have bound := bitCeil_le fits
  have origin : arRamStart.toNat = 2 ^ 31 := rfl
  have low : ramEnd config < 2 ^ 64 := by
    rw [ramEnd]
    omega
  have start : (arRamStart + rounded).toNat = ramEnd config := by
    rw [ramEnd, ← size] at low
    rw [BitVec.toNat_add_of_lt low, size, ramEnd]
  rw [MachineConfig.adjustDefaults, adjustLengths_auto flashDrive]
  change Settles _ (MachineConfig.adjustLengths fileSize "nvram " 0 config.nvram >>= _) _
  rw [adjustLengths_auto nvram]
  change Settles _ (stdBitCeil config.ram.length >>= _) _
  rw [rounds]
  change Settles _ (MachineConfig.adjustStarts _ _ _ _ >>= _) _
  refine settles_bind.mpr (Settling.settles_mono (adjustStarts_settles _ flashDrive _) ?_)
  rintro ⟨behind, flash⟩ ⟨front, flashMoved⟩
  refine settles_bind.mpr (Settling.settles_mono (adjustStarts_settles _ nvram _) ?_)
  rintro ⟨last, nv⟩ ⟨back, nvMoved⟩
  rw [start] at front
  have placement := front.append back
  rw [← List.map_append] at placement
  have inside : ∀ drive ∈ (flash ++ nv).map MemoryRangeConfig.extent,
      drive.1 + bitCeil drive.2 < 2 ^ 64 := fun drive member =>
    (placement.below drive member).trans_lt last.isLt
  have lengths : ∀ drive ∈ (flash ++ nv).map MemoryRangeConfig.extent,
      2 ^ 12 ≤ drive.2 ∧ drive.2 ≤ 2 ^ 63 := by
    rw [List.map_append]
    exact List.forall_mem_append.mpr
      ⟨lengths_of_moved flashMoved flashDrive, lengths_of_moved nvMoved nvram⟩
  have below : ∀ range ∈ fixedExtents ++ [(arRamStart.toNat, config.ram.length.toNat)],
      range.1 + bitCeil range.2 ≤ ramEnd config := by
    refine List.forall_mem_append.mpr ⟨fun fixed member => ?_, by simp [ramEnd]⟩
    exact (fixedExtents_below fixed member).trans (Nat.le_add_right _ _)
  refine ⟨flashMoved, nvMoved, low, inside, placement.aligned, placement.above,
    placement.apart.imp fun ordered => Or.inl ordered, ?_⟩
  intro ranges perm previous drive later split member
  obtain ⟨page, small⟩ := lengths drive member
  refine checkAddressRange_ok page small (placement.aligned drive member) (inside drive member) ?_
  refine apart_of_perm below placement ?_ split member
  simpa [MachineConfig.registeredExtents] using perm

/-- A machine with one page of RAM and a drive and an nvram of a page and of three pages. -/
def smallConfig : MachineConfig where
  ram := { length := 4096 }
  flashDrive := [{ length := 4096 }]
  nvram := [{ length := 12288 }]

theorem adjustDefaults_placesDrives_small :
    Settles .undefinedBehavior (smallConfig.adjustDefaults fun _ => .ok 0)
      (WellPlaced smallConfig) :=
  adjustDefaults_placesDrives (fun _ => .ok 0) smallConfig (by decide)
    (List.forall_mem_singleton.mpr ⟨rfl, by decide, by decide⟩)
    (List.forall_mem_singleton.mpr ⟨rfl, by decide, by decide⟩)

end MachineEmulator.Machine
