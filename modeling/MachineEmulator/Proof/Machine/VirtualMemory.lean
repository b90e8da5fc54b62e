/-
This file proves when reads and writes of the virtual memory move all their bytes, each through the
translation of its own page.
-/

import MachineEmulator.Construction.Machine.VirtualMemory
import MachineEmulator.Proof.Machine.MemoryWrites

namespace MachineEmulator.Machine

open Overlay HostMachine MachineAddressRanges

section Pages

/-- Bytes go page by page between the data and the physical addresses that their own pages translate
to when it is their turn. No byte lies behind the end of the address space. -/
inductive PagesMoved (Page : Word → List Byte → HostMachine → HostMachine → Prop) :
    Nat → List Byte → HostMachine → HostMachine → Prop where
  | done (vaddr : Nat) (machine : HostMachine) : PagesMoved Page vaddr [] machine machine
  | page {vaddr : Nat} {part rest : List Byte} {machine next last : HostMachine} {paddrPage : Word}
      (nonempty : part ≠ []) (inside : vaddr % 4096 + part.length ≤ 4096) (addressable : vaddr < 2 ^ 64)
      (translated : machine.translate (BitVec.ofNat 64 (vaddr / 4096 * 4096)) = some paddrPage)
      (moved : Page (paddrPage + BitVec.ofNat 64 (vaddr % 4096)) part machine next)
      (others : PagesMoved Page (vaddr + part.length) rest next last) :
      PagesMoved Page vaddr (part ++ rest) machine last

/-- What a call that moves a chunk does: it moves all bytes of the chunk from or to its address. -/
structure Moves (move : MoveChunk) (Page : Word → List Byte → HostMachine → HostMachine → Prop)
    (Good : Nat → List Byte → Prop) : Prop where
  terminates : ∀ paddr chunkoff chunklen machine result next, machine.ranges.Sound →
    move paddr chunkoff chunklen machine = (result, next) → result ≠ .error .nonTermination
  sound : ∀ paddr chunkoff chunklen machine result next, machine.ranges.Sound →
    move paddr chunkoff chunklen machine = (result, next) → next.ranges.Sound
  moved : ∀ paddr chunkoff chunklen machine bytes next, machine.ranges.Sound →
    move paddr chunkoff chunklen machine = (.ok bytes, next) → bytes.length = chunklen.toNat ∧
      Page paddr bytes machine next ∧ Good chunkoff.toNat bytes
  none : ∀ offset, Good offset []
  append : ∀ offset first second, Good offset first → Good (offset + first.length) second →
    Good offset (first ++ second)

/-- A call that does not throw moves all its bytes. -/
def MovesAll (Page : Word → List Byte → HostMachine → HostMachine → Prop)
    (Good : Nat → List Byte → Prop) (machine : HostMachine) (vaddr length : Nat)
    (outcome : Except Failure (List Byte) × HostMachine) : Prop :=
  outcome.1 ≠ .error .nonTermination ∧ ∀ moved, outcome.1 = .ok moved →
    moved.length = length ∧ PagesMoved Page vaddr moved machine outcome.2 ∧ Good 0 moved

variable {Page : Word → List Byte → HostMachine → HostMachine → Prop} {Good : Nat → List Byte → Prop}
  {move : MoveChunk} {machine last : HostMachine}

theorem PagesMoved.within {vaddr : Nat} {bytes : List Byte}
    (moved : PagesMoved Page vaddr bytes machine last) (some : bytes ≠ []) :
    vaddr + bytes.length ≤ 2 ^ 64 := by
  induction moved with
  | done => exact absurd rfl some
  | page nonempty inside addressable translated moved others ih =>
      rename_i vaddr part rest _ _ _ _
      by_cases more : rest = []
      · rw [more, List.append_nil]
        omega
      · have behind := ih more
        rw [List.length_append]
        omega

theorem page_toNat (vaddr : Word) : (vaddr &&& ~~~pageMask).toNat = vaddr.toNat / 4096 * 4096 := by
  have mask : ∀ index < 64, pageMask.getLsbD index = decide (index < 12) := by decide
  have shifts : vaddr &&& ~~~pageMask = vaddr >>> 12 <<< 12 := by
    apply BitVec.eq_of_getLsbD_eq
    intro index inside
    rw [BitVec.getLsbD_and, BitVec.getLsbD_not, mask index inside, BitVec.getLsbD_shiftLeft,
      BitVec.getLsbD_ushiftRight]
    by_cases low : index < 12
    · simp [low]
    · simp [low, inside, Nat.add_sub_cancel' (Nat.not_lt.mp low)]
  have bound := vaddr.isLt
  rw [shifts, BitVec.toNat_shiftLeft, BitVec.toNat_ushiftRight, Nat.shiftRight_eq_div_pow,
    Nat.shiftLeft_eq]
  omega

theorem offset_toNat (start page : Word) :
    (if page < start then start - page else 0).toNat = max start.toNat page.toNat - page.toNat := by
  split
  · next early =>
      rw [BitVec.lt_def] at early
      rw [BitVec.toNat_sub_of_le (by rw [BitVec.le_def]; omega)]
      omega
  · next late =>
      rw [BitVec.lt_def] at late
      show 0 = _
      omega

theorem chunk_toNat {limit page : Word} (before : page.toNat < limit.toNat) :
    (if limit - page < 4096 then limit - page else 4096).toNat =
      min 4096 (limit.toNat - page.toNat) := by
  have left : (limit - page).toNat = limit.toNat - page.toNat :=
    BitVec.toNat_sub_of_le (by rw [BitVec.le_def]; omega)
  have size : (4096 : Word).toNat = 4096 := rfl
  split
  · next short =>
      rw [BitVec.lt_def, left] at short
      omega
  · next long =>
      rw [BitVec.lt_def, left] at long
      omega

theorem chunkoff_toNat {start page off : Word}
    (offset : off.toNat = max start.toNat page.toNat - page.toNat) :
    (page + off - start).toNat = max start.toNat page.toNat - start.toNat := by
  have bound := start.isLt
  have sum : (page + off).toNat = max start.toNat page.toNat := by
    rw [BitVec.toNat_add]
    omega
  rw [BitVec.toNat_sub_of_le (by rw [BitVec.le_def]; omega), sum]

/-- Where a round of the loop over the pages begins. -/
theorem round_begins {start page limit pageLimit : Nat} (some : start < limit)
    (rounded : pageLimit = (limit + 4095) / 4096 * 4096) (aligned : page % 4096 = 0)
    (first : page = start / 4096 * 4096 ∨ start ≤ page) (more : page < pageLimit) :
    page + 4096 ≤ pageLimit ∧ page < limit ∧ start ≤ page + 4096 ∧
      max start page < page + 4096 ∧ max start page < limit ∧
      max start page / 4096 * 4096 = page := by
  have room : page + 4096 ≤ pageLimit := by omega
  have before : page < limit := by omega
  have near : start < page + 4096 := by omega
  clear rounded first more
  obtain ⟨index, rfl⟩ : ∃ index, page = index * 4096 := ⟨page / 4096, by omega⟩
  have inside : max start (index * 4096) < index * 4096 + 4096 := max_lt near (by omega)
  have number : max start (index * 4096) / 4096 = index :=
    Nat.div_eq_of_lt_le (le_max_right _ _) (by rw [Nat.succ_mul]; exact inside)
  exact ⟨room, before, near.le, inside, max_lt some before, by rw [number]⟩

/-- Where a round of the loop over the pages ends. -/
theorem round_ends {page vaddr limit : Nat} (low : page ≤ vaddr) (inside : vaddr < page + 4096)
    (within : vaddr < limit) :
    min (page + 4096) limit = vaddr + (min 4096 (limit - page) - (vaddr - page)) := by
  obtain ⟨off, rfl⟩ := Nat.exists_eq_add_of_le low
  obtain ⟨left, rfl⟩ := Nat.exists_eq_add_of_lt within
  omega

/-- The loop over the pages up to a limit that does not wrap around. -/
theorem movePages_ok (limit : Word) (moves : Moves move Page Good) {start pageLimit page : Word}
    {rounds : Nat}
    (sound : machine.ranges.Sound) (some : start.toNat < limit.toNat)
    (rounded : pageLimit.toNat = (limit.toNat + 4095) / 4096 * 4096)
    (aligned : page.toNat % 4096 = 0)
    (first : page.toNat = start.toNat / 4096 * 4096 ∨ start.toNat ≤ page.toNat)
    (below : page.toNat ≤ pageLimit.toNat) (enough : pageLimit.toNat - page.toNat < rounds * 4096) :
    let outcome := movePages move start limit pageLimit rounds page machine
    let vaddr := min (max start.toNat page.toNat) limit.toNat
    outcome.1 ≠ .error .nonTermination ∧ ∀ bytes, outcome.1 = .ok bytes →
      bytes.length = limit.toNat - vaddr ∧ PagesMoved Page vaddr bytes machine outcome.2 ∧
      Good (vaddr - start.toNat) bytes := by
  induction rounds generalizing page machine with
  | zero => omega
  | succ rounds ih =>
      have bound := limit.isLt
      have bound' := pageLimit.isLt
      rw [movePages]
      rw [Nat.succ_mul] at enough
      by_cases more : page < pageLimit
      · rw [if_pos more]
        rw [BitVec.lt_def] at more
        obtain ⟨room, before, near, inside, within, number⟩ :=
          round_begins some rounded aligned first more
        have low := le_max_left start.toNat page.toNat
        have high := le_max_right start.toNat page.toNat
        clear rounded first
        cases translated : machine.translate page with
        | none => exact ⟨nofun, nofun⟩
        | some paddrPage =>
            have offset := offset_toNat start page
            have length := chunk_toNat before
            generalize (if page < start then start - page else 0) = off at offset
            generalize (if limit - page < 4096 then limit - page else 4096) = chunklen at length
            have chunkoff := chunkoff_toNat offset
            have size : (chunklen - off).toNat = chunklen.toNat - off.toNat :=
              BitVec.toNat_sub_of_le (by rw [BitVec.le_def]; omega)
            have following : (page + 4096).toNat = page.toNat + 4096 := by
              have : (4096 : Word).toNat = 4096 := rfl
              rw [BitVec.toNat_add]
              omega
            have ahead : max start.toNat (page + 4096).toNat = page.toNat + 4096 := by
              rw [following]
              exact max_eq_right near
            have aligned' : (page + 4096).toNat % 4096 = 0 := by
              rw [following, Nat.add_mod_right]
              exact aligned
            have enough' : pageLimit.toNat - (page + 4096).toNat < rounds * 4096 := by
              rw [following, ← Nat.sub_sub]
              exact Nat.sub_lt_right_of_lt_add (Nat.le_sub_of_add_le' room) enough
            generalize max start.toNat page.toNat = vaddr at *
            have here : min vaddr limit.toNat = vaddr := min_eq_left within.le
            have behind : min (max start.toNat (page + 4096).toNat) limit.toNat =
                vaddr + (chunklen.toNat - off.toNat) := by
              rw [ahead, length, offset]
              exact round_ends high inside within
            have own : machine.translate (BitVec.ofNat 64 (vaddr / 4096 * 4096)) =
                Option.some paddrPage := by
              rw [number, BitVec.ofNat_toNat, BitVec.setWidth_eq]
              exact translated
            have offset' : off = BitVec.ofNat 64 (vaddr % 4096) := by
              apply BitVec.eq_of_toNat_eq
              rw [BitVec.toNat_ofNat, offset]
              omega
            rw [here]
            dsimp only
            generalize ran : move (paddrPage + off) (page + off - start) (chunklen - off) machine = chunk
            obtain ⟨result, next⟩ := chunk
            have sound' := moves.sound _ _ _ _ _ _ sound ran
            cases result with
            | error failure => exact ⟨moves.terminates _ _ _ _ _ _ sound ran, nofun⟩
            | ok part =>
                obtain ⟨partLength, moved, good⟩ := moves.moved _ _ _ _ _ _ sound ran
                rw [size] at partLength
                rw [chunkoff] at good
                have rest := ih sound' aligned' (.inr (by rw [following]; exact near))
                  (by rw [following]; exact room) enough'
                rw [behind, ← partLength] at rest
                have fits : vaddr + part.length ≤ limit.toNat := by
                  rw [partLength, ← behind]
                  exact min_le_right _ _
                have some' : 0 < part.length := by
                  have ends : vaddr < vaddr + part.length := by
                    rw [partLength, ← behind, ahead]
                    exact lt_min inside within
                  exact Nat.pos_of_lt_add_right ends
                clear behind ahead here
                dsimp only at rest ⊢
                generalize movePages move start limit pageLimit rounds (page + 4096) next = outcome at rest
                obtain ⟨result, last⟩ := outcome
                obtain ⟨terminates, others⟩ := rest
                cases result with
                | error failure => exact ⟨terminates, nofun⟩
                | ok rest =>
                    refine ⟨nofun, fun bytes all => ?_⟩
                    cases all
                    obtain ⟨restLength, restMoved, restGood⟩ := others rest rfl
                    refine ⟨?_, .page ?_ (by omega) (within.trans bound) own (offset' ▸ moved) restMoved,
                      moves.append _ _ _ good ?_⟩
                    · rw [List.length_append]
                      omega
                    · exact List.length_pos_iff.mp some'
                    · rw [← Nat.sub_add_comm low]
                      exact restGood
      · rw [if_neg more]
        rw [BitVec.lt_def] at more
        refine ⟨nofun, fun bytes empty => ?_⟩
        cases empty
        refine ⟨?_, .done _ _, moves.none _⟩
        show 0 = _
        omega

end Pages

section Bounds

variable {Page : Word → List Byte → HostMachine → HostMachine → Prop} {Good : Nat → List Byte → Prop}
  {move : MoveChunk} {machine : HostMachine} {vaddrStart length : Word} {dataIsNull : Bool}

/-- The end of a range is rounded up without a wrap around. -/
def EndsBelowLastPage (vaddrStart length : Word) : Prop :=
  vaddrStart.toNat + length.toNat ≤ 2 ^ 64 - 4096
deriving Decidable

/-- A range goes around the whole address space and ends in its own first page, that is not the last
page of the address space. -/
def EndsInFirstPage (vaddrStart length : Word) : Prop :=
  vaddrStart.toNat / 4096 * 4096 + 2 ^ 64 < vaddrStart.toNat + length.toNat ∧
    vaddrStart.toNat + length.toNat ≤ 2 ^ 65 - 4096

theorem not_movesAll_empty (some : length ≠ 0) :
    ¬MovesAll Page Good machine vaddrStart.toNat length.toNat (.ok [], machine) := by
  intro all
  have none := (all.2 [] rfl).1
  apply some
  apply BitVec.eq_of_toNat_eq
  exact none.symm

theorem movesAll_failed {failure : Failure} {next : HostMachine} {vaddr count : Nat}
    (different : failure ≠ .nonTermination) :
    MovesAll Page Good machine vaddr count (.error failure, next) :=
  ⟨fun same => different (Except.error.inj same), nofun⟩

/-- The limit of the loop over the pages. -/
theorem pageLimit_toNat (limit : Word) : ((limit + 4096 - 1) &&& ~~~pageMask).toNat =
    if limit.toNat ≤ 2 ^ 64 - 4096 then (limit.toNat + 4095) / 4096 * 4096 else 0 := by
  have bound := limit.isLt
  have sum : (limit + 4096 - 1).toNat = (limit.toNat + 4095) % 2 ^ 64 := by bv_omega
  rw [page_toNat, sum]
  split <;> omega

/-- The one round of a range that ends in its own first page. -/
theorem movePages_around (inside : EndsInFirstPage vaddrStart length) (rounds : Nat) :
    movePages move vaddrStart (vaddrStart + length)
      ((vaddrStart + length + 4096 - 1) &&& ~~~pageMask) (rounds + 2) (vaddrStart &&& ~~~pageMask)
      machine =
    match machine.translate (vaddrStart &&& ~~~pageMask) with
    | none => (.error .pageFault, machine)
    | some paddrPage =>
        match move (paddrPage + BitVec.ofNat 64 (vaddrStart.toNat % 4096)) 0 length machine with
        | (.error failure, next) => (.error failure, next)
        | (.ok bytes, next) => (.ok (bytes ++ []), next) := by
  obtain ⟨around, high⟩ := inside
  have bound := vaddrStart.isLt
  have bound' := length.isLt
  have limit : (vaddrStart + length).toNat = vaddrStart.toNat + length.toNat - 2 ^ 64 := by
    rw [BitVec.toNat_add]
    omega
  have pageLimit := pageLimit_toNat (vaddrStart + length)
  rw [if_pos (by omega), limit] at pageLimit
  have page := page_toNat vaddrStart
  generalize (vaddrStart + length + 4096 - 1) &&& ~~~pageMask = last at pageLimit
  generalize vaddrStart &&& ~~~pageMask = first at page
  rw [movePages, if_pos (by rw [BitVec.lt_def]; omega)]
  cases machine.translate first with
  | none => rfl
  | some paddrPage =>
      have early : first < vaddrStart := by
        rw [BitVec.lt_def]
        omega
      have short : vaddrStart + length - first < 4096 := by
        rw [BitVec.lt_def, BitVec.toNat_sub_of_le (by rw [BitVec.le_def]; omega)]
        show _ < 4096
        omega
      have off : vaddrStart - first = BitVec.ofNat 64 (vaddrStart.toNat % 4096) := by
        apply BitVec.eq_of_toNat_eq
        rw [BitVec.toNat_sub_of_le (by rw [BitVec.le_def]; omega), BitVec.toNat_ofNat]
        omega
      have chunkoff : first + (vaddrStart - first) - vaddrStart = 0 := by simp
      have chunklen : vaddrStart + length - first - (vaddrStart - first) = length := by ring
      dsimp only
      rw [if_pos early, if_pos short, chunkoff, chunklen, off]
      obtain ⟨result, next⟩ := move (paddrPage + BitVec.ofNat 64 (vaddrStart.toNat % 4096)) 0 length
        machine
      cases result with
      | error failure => rfl
      | ok bytes =>
          dsimp only
          rw [movePages, if_neg (by rw [BitVec.lt_def]; bv_omega)]

/-- The loop of a range that ends in its own first page. -/
theorem movesAll_around_iff (moves : Moves move Page Good) (sound : machine.ranges.Sound)
    (positive : 0 < length.toNat) (around : EndsInFirstPage vaddrStart length) (rounds : Nat) :
    MovesAll Page Good machine vaddrStart.toNat length.toNat
      (movePages move vaddrStart (vaddrStart + length) ((vaddrStart + length + 4096 - 1) &&& ~~~pageMask)
        (rounds + 2) (vaddrStart &&& ~~~pageMask) machine) ↔
    ∀ paddrPage, machine.translate (vaddrStart &&& ~~~pageMask) = some paddrPage → ∃ failure,
      (move (paddrPage + BitVec.ofNat 64 (vaddrStart.toNat % 4096)) 0 length machine).1 =
        .error failure := by
  rw [movePages_around around]
  cases machine.translate (vaddrStart &&& ~~~pageMask) with
  | none => exact iff_of_true (movesAll_failed nofun) nofun
  | some paddrPage =>
      dsimp only
      generalize ran : move (paddrPage + BitVec.ofNat 64 (vaddrStart.toNat % 4096)) 0 length machine =
        chunk
      obtain ⟨result, next⟩ := chunk
      cases result with
      | error failure =>
          refine iff_of_true (movesAll_failed fun same => ?_) fun other same => ⟨failure, ?_⟩
          · exact moves.terminates _ _ _ _ _ _ sound ran (congrArg Except.error same)
          · cases same
            rw [ran]
      | ok bytes =>
          refine iff_of_false (fun all => ?_) fun throws => ?_
          · obtain ⟨count, moved, _⟩ := all.2 _ rfl
            have within := moved.within fun empty => by
              rw [empty] at count
              exact positive.ne count
            rw [EndsInFirstPage] at around
            omega
          · obtain ⟨failure, threw⟩ := throws paddrPage rfl
            rw [ran] at threw
            cases threw

/-- A call moves all its bytes or throws, except when the rounding of its end wraps around or the only
chunk of a range around the address space succeeds. -/
theorem moveVirtualMemory_iff (moves : Moves move Page Good) (sound : machine.ranges.Sound) :
    MovesAll Page Good machine vaddrStart.toNat length.toNat
      (machine.moveVirtualMemory move vaddrStart dataIsNull length) ↔
    length = 0 ∨ dataIsNull = true ∨ EndsBelowLastPage vaddrStart length ∨
      EndsInFirstPage vaddrStart length ∧ ∀ paddrPage,
        machine.translate (vaddrStart &&& ~~~pageMask) = some paddrPage → ∃ failure,
          (move (paddrPage + BitVec.ofNat 64 (vaddrStart.toNat % 4096)) 0 length machine).1 =
            .error failure := by
  rw [moveVirtualMemory]
  by_cases none : length = 0
  · rw [if_pos none, none]
    refine iff_of_true ⟨nofun, fun bytes empty => ?_⟩ (Or.inl rfl)
    cases empty
    exact ⟨rfl, .done _ _, moves.none _⟩
  rw [if_neg none, or_iff_right none]
  by_cases null : dataIsNull = true
  · rw [if_pos null]
    exact iff_of_true (movesAll_failed nofun) (Or.inl null)
  rw [if_neg null, or_iff_right null]
  have positive : 0 < length.toNat := by
    rw [Nat.pos_iff_ne_zero]
    exact fun zero => none (BitVec.eq_of_toNat_eq zero)
  have bound := vaddrStart.isLt
  have bound' := length.isLt
  have limit : (vaddrStart + length).toNat = (vaddrStart.toNat + length.toNat) % 2 ^ 64 :=
    BitVec.toNat_add _ _
  have pageLimit := pageLimit_toNat (vaddrStart + length)
  have page := page_toNat vaddrStart
  dsimp only
  by_cases below : EndsBelowLastPage vaddrStart length
  · refine iff_of_true ?_ (Or.inl below)
    rw [EndsBelowLastPage] at below
    rw [if_pos (by omega)] at pageLimit
    have all := movePages_ok (vaddrStart + length) moves sound (by omega) pageLimit (by omega)
      (Or.inl page) (by omega) (show _ < ((((vaddrStart + length + 4096 - 1) &&& ~~~pageMask).toNat -
        (vaddrStart &&& ~~~pageMask).toNat) / 4096 + 1) * 4096 by omega)
    have here : min (max vaddrStart.toNat (vaddrStart &&& ~~~pageMask).toNat)
        (vaddrStart + length).toNat = vaddrStart.toNat := by omega
    have count : (vaddrStart + length).toNat - vaddrStart.toNat = length.toNat := by omega
    rw [here] at all
    dsimp only at all
    rw [count, Nat.sub_self] at all
    exact all
  rw [or_iff_right below]
  rw [EndsBelowLastPage] at below
  by_cases around : EndsInFirstPage vaddrStart length
  · have inside := around
    rw [EndsInFirstPage] at inside
    rw [if_pos (by omega)] at pageLimit
    have rounds : (((vaddrStart + length + 4096 - 1) &&& ~~~pageMask).toNat -
        (vaddrStart &&& ~~~pageMask).toNat) / 4096 + 1 = 0 + 2 := by omega
    rw [rounds, movesAll_around_iff moves sound positive around, and_iff_right around]
  · refine iff_of_false ?_ fun both => around both.1
    rw [EndsInFirstPage] at around
    rw [movePages, if_neg]
    · exact not_movesAll_empty none
    · rw [BitVec.lt_def]
      split at pageLimit <;> omega

end Bounds

section Calls

variable {machine next : HostMachine}

/-- Bytes of a page are read from the physical memory. -/
def ReadsPage (paddr : Word) (bytes : List Byte) (machine next : HostMachine) : Prop :=
  next = machine ∧ bytes = slice machine.ranges.contents paddr.toNat bytes.length

/-- Bytes of a page are put into the physical memory. -/
def WritesPage (paddr : Word) (bytes : List Byte) (machine next : HostMachine) : Prop :=
  Puts machine next (.ok ()) paddr.toNat bytes

/-- The bytes are those of the data from an offset on. -/
def TakenFrom (data : Nat → Byte) (offset : Nat) (bytes : List Byte) : Prop :=
  bytes = slice data offset bytes.length

theorem readChunk_moves : Moves readChunk ReadsPage fun _ _ => True where
  terminates paddr chunkoff chunklen machine result next sound ran := by
    rw [readChunk, readMemory_ok sound] at ran
    cases ran
    simp
  sound paddr chunkoff chunklen machine result next sound ran := by
    cases ran
    exact sound
  moved paddr chunkoff chunklen machine bytes next sound ran := by
    rw [readChunk, readMemory_ok sound] at ran
    cases ran
    exact ⟨length_slice, ⟨rfl, by rw [length_slice]⟩, trivial⟩
  none _ := trivial
  append _ _ _ _ _ := trivial

theorem markWriteTlbDirtyPage_terminates (machine : HostMachine) (slotIndex : Nat) :
    (machine.markWriteTlbDirtyPage slotIndex).1 ≠ .error .nonTermination := by
  rw [markWriteTlbDirtyPage]
  dsimp only
  split
  · simp
  split
  · simp
  split
  · simp
  split <;> simp

theorem markWriteTlbDirtySlots_terminates (machine : HostMachine) (slots : List Nat) :
    (machine.markWriteTlbDirtySlots slots).1 ≠ .error .nonTermination := by
  induction slots generalizing machine with
  | nil => simp [markWriteTlbDirtySlots]
  | cons slotIndex rest ih =>
      have first := markWriteTlbDirtyPage_terminates machine slotIndex
      rw [markWriteTlbDirtySlots]
      split
      · next failure marked page =>
          rw [page] at first
          exact first
      · exact ih _

theorem writeMemory_terminates (machine : HostMachine) (paddr : Word)
    (data : Option (Nat → Byte)) (length : Word) :
    (machine.writeMemory paddr data length).1 ≠ .error .nonTermination := by
  rw [writeMemory.eq_def]
  split
  · simp
  split
  · simp
  split
  · simp
  split
  · simp
  split
  · simp
  split
  · simp
  split
  · simp
  split
  · rw [writeShadowState]
    split
    · next failure marked marks =>
        have slots := markWriteTlbDirtySlots_terminates machine (List.range tlbSetSize)
        rw [← markWriteTlbDirtyPages, marks] at slots
        exact slots
    · simp
  split <;> simp

theorem writeVirtualChunk_moves (data : Nat → Byte) :
    Moves (writeVirtualChunk data) WritesPage (TakenFrom data) where
  terminates paddr chunkoff chunklen machine result next sound ran := by
    have ends := writeMemory_terminates machine paddr
      (some fun index => data (chunkoff.toNat + index)) chunklen
    simp only [writeVirtualChunk] at ran
    split at ran
    · next failure written threw =>
        cases ran
        rw [threw] at ends
        exact fun same => ends (congrArg Except.error (Except.error.inj same))
    · cases ran
      simp
  sound paddr chunkoff chunklen machine result next sound ran := by
    simp only [writeVirtualChunk] at ran
    split at ran <;> next written => cases ran; exact (writeMemory_puts sound written).sound
  moved paddr chunkoff chunklen machine bytes next sound ran := by
    simp only [writeVirtualChunk] at ran
    split at ran
    · cases ran
    · next done =>
        cases ran
        refine ⟨length_slice, writeMemory_puts sound done, ?_⟩
        rw [TakenFrom, slice_shift, length_slice, Nat.add_zero]
  none _ := rfl
  append offset first second left right := by
    rw [TakenFrom, List.length_append, slice_add, ← left, ← right]

/-- No range has as many bytes as a range around the address space. -/
theorem writeMemory_tooLong {paddr length : Word} {data : Nat → Byte} (sound : machine.ranges.Sound)
    (long : 2 ^ 56 ≤ length.toNat) :
    machine.writeMemory paddr (some data) length = (.error .notSingleMemoryRange, machine) := by
  have some : length ≠ 0 := by
    intro zero
    rw [zero] at long
    exact absurd long (by decide)
  rw [writeMemory, if_neg some]
  cases found : machine.ranges.findIndex paddr length with
  | none => rfl
  | some index =>
      obtain ⟨range, there, _, high⟩ := findIndex_some found
      have small := sound.addressable range (List.mem_of_getElem? there)
      omega

theorem movePages_readChunk {vaddrStart vaddrLimit vaddrPageLimit vaddrPage : Word} {rounds : Nat} :
    (movePages readChunk vaddrStart vaddrLimit vaddrPageLimit rounds vaddrPage machine).2 = machine := by
  induction rounds generalizing vaddrPage with
  | zero => rfl
  | succ rounds ih =>
      rw [movePages]
      split
      · split
        · rfl
        · dsimp only
          split
          · next failure next read => exact (congrArg Prod.snd read).symm
          · next bytes next read =>
              obtain rfl : machine = next := congrArg Prod.snd read
              have others := @ih (vaddrPage + 4096)
              split <;> next result => rw [result] at others; exact others
      · rfl

/-- A read leaves the machine as it is. -/
theorem moveVirtualMemory_readChunk {vaddrStart length : Word} {dataIsNull : Bool} :
    machine.moveVirtualMemory readChunk vaddrStart dataIsNull length =
      (machine.readVirtualMemory vaddrStart dataIsNull length, machine) := by
  apply Prod.ext
  · rfl
  · rw [moveVirtualMemory]
    split
    · rfl
    split
    · rfl
    exact movePages_readChunk

/-- A read that does not throw reads all its bytes. -/
def ReadsAll (machine : HostMachine) (vaddrStart : Word) (dataIsNull : Bool) (length : Word) : Prop :=
  MovesAll ReadsPage (fun _ _ => True) machine vaddrStart.toNat length.toNat
    (machine.readVirtualMemory vaddrStart dataIsNull length, machine)

/-- A write that does not throw writes all its bytes. -/
def WritesAll (machine : HostMachine) (vaddrStart : Word) (data : Option (Nat → Byte)) (length : Word) :
    Prop :=
  MovesAll WritesPage (TakenFrom (data.getD fun _ => 0)) machine vaddrStart.toNat length.toNat
    (machine.writeVirtualMemory vaddrStart data length)

/-- In every state and for every range, reads and writes throw or move all their bytes if and only if
the rounding of the end does not wrap around, or the range ends in its own first page after a way around
the address space and the call throws there. -/
theorem virtualMemory_movesAll_iff {list : List (HostRange × RegisterWhere)}
    (seen : ∀ entry ∈ list, entry.1.isMemory = true → entry.2.hashTree = true)
    (created : create list = .ok machine.ranges) (vaddrStart length : Word) :
    (∀ dataIsNull, ReadsAll machine vaddrStart dataIsNull length ↔
      length = 0 ∨ dataIsNull = true ∨ EndsBelowLastPage vaddrStart length ∨
        EndsInFirstPage vaddrStart length ∧
          machine.translate (vaddrStart &&& ~~~pageMask) = none) ∧
    ∀ data, WritesAll machine vaddrStart data length ↔
      length = 0 ∨ data.isNone = true ∨ EndsBelowLastPage vaddrStart length ∨
        EndsInFirstPage vaddrStart length := by
  have sound := create_sound seen created
  constructor
  · intro dataIsNull
    rw [ReadsAll, ← moveVirtualMemory_readChunk, moveVirtualMemory_iff readChunk_moves sound]
    have reads (paddr chunkoff : Word) : ¬∃ failure,
        (readChunk paddr chunkoff length machine).1 = .error failure := by
      rintro ⟨failure, threw⟩
      rw [readChunk, readMemory_ok sound] at threw
      cases threw
    simp only [reads, imp_false, Option.eq_none_iff_forall_ne_some]
  · intro data
    rw [WritesAll, writeVirtualMemory, moveVirtualMemory_iff (writeVirtualChunk_moves _) sound]
    refine or_congr Iff.rfl (or_congr Iff.rfl (or_congr Iff.rfl (and_iff_left_of_imp fun around => ?_)))
    intro paddrPage _
    have bound := vaddrStart.isLt
    rw [EndsInFirstPage] at around
    refine ⟨.notSingleMemoryRange, ?_⟩
    rw [writeVirtualChunk, writeMemory_tooLong sound (by omega)]

/-- The machine with the shadow state and one page of RAM. -/
def twoRangesMachine : Except Failure HostMachine := do
  let ranges ← create twoRanges
  return ⟨ranges, fun _ => tlbUnverifiedPage⟩

/-- A read and a write across the end of the page of RAM move all their bytes or throw. -/
theorem virtualMemory_movesAll_twoRanges : ∃ machine, twoRangesMachine = .ok machine ∧
    ReadsAll machine 0x80000ff8 false 16 ∧ WritesAll machine 0x80000ff8 (some fun _ => 1) 16 :=
  ⟨_, rfl, ((virtualMemory_movesAll_iff twoRanges_seen rfl _ _).1 _).mpr
      (Or.inr (Or.inr (Or.inl (by decide)))),
    ((virtualMemory_movesAll_iff twoRanges_seen rfl _ _).2 _).mpr
      (Or.inr (Or.inr (Or.inl (by decide))))⟩

/-- A read and a write of the last page of the address space succeed and move no byte. -/
theorem lastPage_moves_nothing : ∃ machine, twoRangesMachine = .ok machine ∧
    machine.readVirtualMemory 0xfffffffffffff000 false 4096 = .ok [] ∧
    machine.writeVirtualMemory 0xfffffffffffff000 (some fun _ => 1) 4096 = (.ok [], machine) ∧
    ¬ReadsAll machine 0xfffffffffffff000 false 4096 ∧
    ¬WritesAll machine 0xfffffffffffff000 (some fun _ => 1) 4096 :=
  ⟨_, rfl, rfl, rfl, fun all => absurd (all.2 [] rfl).1 (by decide),
    fun all => absurd (all.2 [] rfl).1 (by decide)⟩

end Calls

end MachineEmulator.Machine
