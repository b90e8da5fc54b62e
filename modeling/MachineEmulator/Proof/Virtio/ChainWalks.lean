/-
This file says when the walks of a device along a descriptor chain finish.
-/

import MachineEmulator.Construction.Virtio.AddressRange
import MachineEmulator.Library.Walk

namespace MachineEmulator.Virtio

open Virtq (chunk readChunk writeChunk)
open Walk (Endless after)

variable {Ram : Type} (guest : GuestMemory Ram) (vq : Virtq)

/-- A call answers after finitely many descriptors. -/
def Finishes {A : Type} (call : Nat → Except Failure A) : Prop :=
  ∃ fuel answer, call fuel = .ok answer

/-- The descriptor behind a descriptor. -/
def nextDesc (ram : Ram) (descIdx : BitVec 16) : Option (BitVec 16) :=
  (vq.getDesc guest ram descIdx).bind fun desc => if desc.hasNext then some desc.next else none

/-- The descriptor that a number of steps along the chain lead to. -/
def descAfter (ram : Ram) (descIdx : BitVec 16) (count : Nat) : Option VirtqDesc :=
  (after (nextDesc guest vq ram) count descIdx).bind (vq.getDesc guest ram)

/-- The chain never ends: every descriptor is there and has a next one. -/
def EndlessChain (ram : Ram) (descIdx : BitVec 16) : Prop := Endless (nextDesc guest vq ram) descIdx

/-- Nowhere along the chain is a buffer to read behind one to write. -/
def NeverReadsBehind (ram : Ram) (descIdx : BitVec 16) : Prop :=
  ∀ first second before behind, first < second →
    descAfter guest vq ram descIdx first = some before →
    descAfter guest vq ram descIdx second = some behind →
    before.isWrite = true → behind.isWrite = true

/-- The length of the buffers to read among the first descriptors, from a length on. -/
def readOffset (ram : Ram) : Nat → BitVec 16 → BitVec 32 → BitVec 32
  | 0, _, offset => offset
  | count + 1, descIdx, offset =>
      match vq.getDesc guest ram descIdx with
      | none => offset
      | some desc =>
          readOffset ram count desc.next (if desc.isWrite then offset else offset + desc.len)

/-- A buffer to read that an access stops at: it reaches the end, or the memory refuses it. -/
def StopsRead (ram : Ram) (startOff endOff : BitVec 32) (descIdx : BitVec 16) (offset : BitVec 32)
    (count : Nat) : Prop :=
  ∃ desc, descAfter guest vq ram descIdx count = some desc ∧ desc.isWrite = false ∧
    let part := chunk (readOffset guest vq ram count descIdx offset) startOff endOff desc
    part.reachesEnd = true ∨ part.length ≠ 0 ∧
      guest.readMemory ram (desc.paddr + part.paddrOff.setWidth 64) part.length.toNat = none

/-- A write goes on to the next descriptor in the memory that it has written so far. -/
def nextWrite (startOff endOff : BitVec 32) (data : List Byte) :
    BitVec 16 × BitVec 32 × Ram → Option (BitVec 16 × BitVec 32 × Ram)
  | (descIdx, offset, ram) =>
      (vq.getDesc guest ram descIdx).bind fun desc =>
        if desc.isWrite then
          (writeChunk guest ram desc (chunk offset startOff endOff desc) data).bind fun written =>
            if (chunk offset startOff endOff desc).reachesEnd then none
            else if desc.hasNext then some (desc.next, offset + desc.len, written)
            else none
        else if desc.hasNext then some (desc.next, offset, ram)
        else none

section Chains

variable {guest : GuestMemory Ram} {vq : Virtq} {ram : Ram}

theorem nextDesc_of_hasNext {descIdx : BitVec 16} {desc : VirtqDesc}
    (there : vq.getDesc guest ram descIdx = some desc) (goes : desc.hasNext = true) :
    nextDesc guest vq ram descIdx = some desc.next := by
  rw [nextDesc, there, Option.bind_some, if_pos goes]

theorem exists_desc {descIdx successor : BitVec 16}
    (goes : nextDesc guest vq ram descIdx = some successor) :
    ∃ desc, vq.getDesc guest ram descIdx = some desc ∧ desc.hasNext = true ∧
      desc.next = successor := by
  obtain ⟨desc, there, onward⟩ := Option.bind_eq_some_iff.mp goes
  split at onward
  · rename_i has
    exact ⟨desc, there, has, Option.some.inj onward⟩
  · cases onward

theorem descAfter_zero (descIdx : BitVec 16) :
    descAfter guest vq ram descIdx 0 = vq.getDesc guest ram descIdx := rfl

theorem descAfter_succ {descIdx successor : BitVec 16}
    (goes : nextDesc guest vq ram descIdx = some successor) (count : Nat) :
    descAfter guest vq ram descIdx (count + 1) = descAfter guest vq ram successor count := by
  rw [descAfter, descAfter, Walk.after_next goes]

theorem NeverReadsBehind.tail {descIdx successor : BitVec 16}
    (never : NeverReadsBehind guest vq ram descIdx)
    (goes : nextDesc guest vq ram descIdx = some successor) :
    NeverReadsBehind guest vq ram successor := by
  intro first second before behind order early late
  rw [← descAfter_succ goes] at early late
  exact never (first + 1) (second + 1) before behind (by omega) early late

/-- A chain without an end comes back to a descriptor. -/
theorem endlessChain_iff_returns (descIdx : BitVec 16) :
    EndlessChain guest vq ram descIdx ↔ Walk.Returns (nextDesc guest vq ram) descIdx := by
  have finite : Finite (BitVec 16) := Finite.of_injective BitVec.toFin fun _ _ => BitVec.eq_of_toFin_eq
  exact Walk.endless_iff_returns

end Chains

section Lengths

/-- One step of `get_desc_rw_avail_len`. -/
def nextLengths (ram : Ram) :
    BitVec 16 × BitVec 32 × BitVec 32 × Bool → Option (BitVec 16 × BitVec 32 × BitVec 32 × Bool)
  | (descIdx, readLen, writeLen, writePart) =>
      (vq.getDesc guest ram descIdx).bind fun desc =>
        if desc.isWrite then
          if desc.hasNext then some (desc.next, readLen, writeLen + desc.len, true) else none
        else if writePart then none
        else if desc.hasNext then some (desc.next, readLen + desc.len, writeLen, writePart)
        else none

variable {guest : GuestMemory Ram} {vq : Virtq} {ram : Ram}

theorem rwAvailLen_finishes (descIdx : BitVec 16) (readLen writeLen : BitVec 32) (writePart : Bool) :
    Finishes (fun fuel => vq.rwAvailLen guest ram fuel descIdx readLen writeLen writePart) ↔
      ¬Endless (nextLengths guest vq ram) (descIdx, readLen, writeLen, writePart) := by
  apply Walk.finishes_iff
    (fun fuel (state : BitVec 16 × BitVec 32 × BitVec 32 × Bool) =>
      vq.rwAvailLen guest ram fuel state.1 state.2.1 state.2.2.1 state.2.2.2)
    .nonTermination (descIdx, readLen, writeLen, writePart)
  · intro state
    rfl
  · rintro fuel ⟨descIdx, readLen, writeLen, writePart⟩ successor goes
    simp only [nextLengths, Option.bind_eq_some_iff] at goes
    obtain ⟨desc, there, goes⟩ := goes
    dsimp only
    rw [Virtq.rwAvailLen, there]
    dsimp only
    split at goes <;> rename_i writes
    · split at goes
      · rename_i has
        cases goes
        rw [if_pos writes, if_pos has]
      · cases goes
    · split at goes
      · cases goes
      rename_i reading
      split at goes
      · rename_i has
        cases goes
        rw [if_neg writes, if_neg reading, if_pos has]
      · cases goes
  · rintro fuel ⟨descIdx, readLen, writeLen, writePart⟩ stops
    dsimp only
    rw [Virtq.rwAvailLen]
    cases there : vq.getDesc guest ram descIdx with
    | none => exact ⟨_, rfl⟩
    | some desc =>
        rw [nextLengths, there, Option.bind_some] at stops
        dsimp only
        split at stops <;> rename_i writes
        · split at stops
          · cases stops
          rename_i last
          rw [if_pos writes, if_neg last]
          exact ⟨_, rfl⟩
        · rw [if_neg writes]
          split at stops
          · rename_i writing
            rw [if_pos writing]
            exact ⟨_, rfl⟩
          · rename_i reading
            split at stops
            · cases stops
            rename_i last
            rw [if_neg reading, if_neg last]
            exact ⟨_, rfl⟩

/-- One step of the lengths along a chain without an end. -/
theorem lengths_goes {descIdx : BitVec 16} {readLen writeLen : BitVec 32} {writePart : Bool}
    (endless : Endless (nextLengths guest vq ram) (descIdx, readLen, writeLen, writePart)) :
    ∃ desc, vq.getDesc guest ram descIdx = some desc ∧ desc.hasNext = true ∧
      (writePart = true → desc.isWrite = true) ∧ ∃ readLen writeLen,
        Endless (nextLengths guest vq ram)
          (desc.next, readLen, writeLen, writePart || desc.isWrite) := by
  obtain ⟨successor, goes, endless⟩ := endless.goes
  simp only [nextLengths, Option.bind_eq_some_iff] at goes
  obtain ⟨desc, there, goes⟩ := goes
  split at goes <;> rename_i writes
  · split at goes
    · rename_i has
      cases goes
      refine ⟨desc, there, has, fun _ => writes, readLen, writeLen + desc.len, ?_⟩
      rw [writes, Bool.or_true]
      exact endless
    · cases goes
  · split at goes
    · cases goes
    rename_i reading
    split at goes
    · rename_i has
      cases goes
      refine ⟨desc, there, has, fun writing => absurd writing reading, readLen + desc.len,
        writeLen, ?_⟩
      rw [Bool.eq_false_of_not_eq_true writes, Bool.or_false]
      exact endless
    · cases goes

/-- Behind a buffer to write, the lengths go on over buffers to write only. -/
theorem lengths_write (count : Nat) : ∀ {descIdx : BitVec 16} {readLen writeLen : BitVec 32}
    {desc : VirtqDesc}, Endless (nextLengths guest vq ram) (descIdx, readLen, writeLen, true) →
    descAfter guest vq ram descIdx count = some desc → desc.isWrite = true := by
  induction count with
  | zero =>
      intro descIdx readLen writeLen desc endless there
      obtain ⟨first, here, _, writes, _⟩ := lengths_goes endless
      rw [descAfter_zero, here] at there
      cases there
      exact writes rfl
  | succ count ih =>
      intro descIdx readLen writeLen desc endless there
      obtain ⟨first, here, has, _, _, _, endless⟩ := lengths_goes endless
      rw [descAfter_succ (nextDesc_of_hasNext here has)] at there
      exact ih endless there

theorem lengths_chain {descIdx : BitVec 16} {readLen writeLen : BitVec 32} {writePart : Bool}
    (endless : Endless (nextLengths guest vq ram) (descIdx, readLen, writeLen, writePart)) :
    EndlessChain guest vq ram descIdx := by
  have goes (descIdx : BitVec 16) (holds : ∃ readLen writeLen writePart,
      Endless (nextLengths guest vq ram) (descIdx, readLen, writeLen, writePart)) :
      ∃ successor, nextDesc guest vq ram descIdx = some successor ∧
        ∃ readLen writeLen writePart,
          Endless (nextLengths guest vq ram) (successor, readLen, writeLen, writePart) := by
    obtain ⟨readLen, writeLen, writePart, endless⟩ := holds
    obtain ⟨desc, there, has, _, _, _, endless⟩ := lengths_goes endless
    exact ⟨desc.next, nextDesc_of_hasNext there has, _, _, _, endless⟩
  exact Endless.of_invariant goes ⟨readLen, writeLen, writePart, endless⟩

theorem lengths_order (first : Nat) : ∀ {descIdx : BitVec 16} {readLen writeLen : BitVec 32}
    {writePart : Bool} {second : Nat} {before behind : VirtqDesc},
    Endless (nextLengths guest vq ram) (descIdx, readLen, writeLen, writePart) → first < second →
    descAfter guest vq ram descIdx first = some before →
    descAfter guest vq ram descIdx second = some behind →
    before.isWrite = true → behind.isWrite = true := by
  induction first with
  | zero =>
      intro descIdx readLen writeLen writePart second before behind endless order early late writes
      obtain ⟨desc, there, has, _, _, _, endless⟩ := lengths_goes endless
      rw [descAfter_zero, there] at early
      cases early
      obtain ⟨second, rfl⟩ := Nat.exists_eq_succ_of_ne_zero (Nat.ne_of_gt order)
      rw [descAfter_succ (nextDesc_of_hasNext there has)] at late
      rw [writes, Bool.or_true] at endless
      exact lengths_write second endless late
  | succ first ih =>
      intro descIdx readLen writeLen writePart second before behind endless order early late writes
      obtain ⟨desc, there, has, _, _, _, endless⟩ := lengths_goes endless
      obtain ⟨second, rfl⟩ := Nat.exists_eq_succ_of_ne_zero (by omega : second ≠ 0)
      rw [descAfter_succ (nextDesc_of_hasNext there has)] at early late
      exact ih endless (by omega) early late writes

/-- The lengths of a chain are never found when it has no end and nowhere a wrong order. -/
theorem endless_nextLengths (descIdx : BitVec 16) (readLen writeLen : BitVec 32) :
    Endless (nextLengths guest vq ram) (descIdx, readLen, writeLen, false) ↔
      EndlessChain guest vq ram descIdx ∧ NeverReadsBehind guest vq ram descIdx := by
  constructor
  · intro endless
    constructor
    · exact lengths_chain endless
    · intro first second before behind order early late writes
      exact lengths_order first endless order early late writes
  · rintro ⟨endless, never⟩
    have goes (state : BitVec 16 × BitVec 32 × BitVec 32 × Bool)
        (holds : EndlessChain guest vq ram state.1 ∧ NeverReadsBehind guest vq ram state.1 ∧
          (state.2.2.2 = true → ∀ count desc,
            descAfter guest vq ram state.1 count = some desc → desc.isWrite = true)) :
        ∃ successor, nextLengths guest vq ram state = some successor ∧
          EndlessChain guest vq ram successor.1 ∧ NeverReadsBehind guest vq ram successor.1 ∧
          (successor.2.2.2 = true → ∀ count desc,
            descAfter guest vq ram successor.1 count = some desc → desc.isWrite = true) := by
      obtain ⟨descIdx, readLen, writeLen, writePart⟩ := state
      obtain ⟨endless, never, writes⟩ := holds
      obtain ⟨successor, onward, rest⟩ := endless.goes
      obtain ⟨desc, there, has, rfl⟩ := exists_desc onward
      have later {count : Nat} {other : VirtqDesc}
          (reached : descAfter guest vq ram desc.next count = some other) :
          descAfter guest vq ram descIdx (count + 1) = some other := by
        rw [descAfter_succ onward]
        exact reached
      cases kind : desc.isWrite with
      | true =>
          refine ⟨(desc.next, readLen, writeLen + desc.len, true), ?_, rest, never.tail onward, ?_⟩
          · simp [nextLengths, there, kind, has]
          · intro _ count other reached
            exact never 0 (count + 1) desc other (Nat.succ_pos count) there (later reached) kind
      | false =>
          have reading : writePart = false := by
            by_contra writing
            have same := writes (Bool.eq_true_of_not_eq_false writing) 0 desc there
            rw [kind] at same
            cases same
          refine ⟨(desc.next, readLen + desc.len, writeLen, writePart), ?_, rest,
            never.tail onward, ?_⟩
          · simp [nextLengths, there, kind, has, reading]
          · intro writing
            rw [reading] at writing
            cases writing
    exact Endless.of_invariant goes ⟨endless, never, fun impossible => absurd impossible (by simp)⟩

end Lengths

section Reads

/-- One step of `read_desc_mem`. -/
def nextRead (ram : Ram) (startOff endOff : BitVec 32) :
    BitVec 16 × BitVec 32 × List Byte → Option (BitVec 16 × BitVec 32 × List Byte)
  | (descIdx, offset, data) =>
      (vq.getDesc guest ram descIdx).bind fun desc =>
        if desc.isWrite then
          if desc.hasNext then some (desc.next, offset, data) else none
        else
          (readChunk guest ram desc (chunk offset startOff endOff desc) data).bind fun data =>
            if (chunk offset startOff endOff desc).reachesEnd then none
            else if desc.hasNext then some (desc.next, offset + desc.len, data)
            else none

variable {guest : GuestMemory Ram} {vq : Virtq} {ram : Ram} {startOff endOff : BitVec 32}

theorem readDescLoop_finishes (descIdx : BitVec 16) (offset : BitVec 32) (data : List Byte) :
    Finishes (fun fuel => vq.readDescLoop guest ram startOff endOff fuel descIdx offset data) ↔
      ¬Endless (nextRead guest vq ram startOff endOff) (descIdx, offset, data) := by
  apply Walk.finishes_iff
    (fun fuel (state : BitVec 16 × BitVec 32 × List Byte) =>
      vq.readDescLoop guest ram startOff endOff fuel state.1 state.2.1 state.2.2)
    .nonTermination (descIdx, offset, data)
  · intro state
    rfl
  · rintro fuel ⟨descIdx, offset, data⟩ successor goes
    simp only [nextRead, Option.bind_eq_some_iff] at goes
    obtain ⟨desc, there, goes⟩ := goes
    dsimp only
    rw [Virtq.readDescLoop, there]
    dsimp only
    split at goes <;> rename_i writes
    · split at goes
      · rename_i has
        cases goes
        rw [if_pos writes, if_pos has]
      · cases goes
    · obtain ⟨filled, reads, goes⟩ := Option.bind_eq_some_iff.mp goes
      rw [if_neg writes, reads]
      dsimp only
      split at goes
      · cases goes
      rename_i inside
      split at goes
      · rename_i has
        cases goes
        rw [if_neg inside, if_pos has]
      · cases goes
  · rintro fuel ⟨descIdx, offset, data⟩ stops
    dsimp only
    rw [Virtq.readDescLoop]
    cases there : vq.getDesc guest ram descIdx with
    | none => exact ⟨_, rfl⟩
    | some desc =>
        rw [nextRead, there, Option.bind_some] at stops
        dsimp only
        split at stops <;> rename_i writes
        · split at stops
          · cases stops
          rename_i final
          rw [if_pos writes, if_neg final]
          exact ⟨_, rfl⟩
        · rw [if_neg writes]
          cases reads : readChunk guest ram desc (chunk offset startOff endOff desc) data with
          | none => exact ⟨_, rfl⟩
          | some filled =>
              rw [reads, Option.bind_some] at stops
              dsimp only
              split at stops
              · rename_i reached
                rw [if_pos reached]
                exact ⟨_, rfl⟩
              · rename_i inside
                split at stops
                · cases stops
                rename_i final
                rw [if_neg inside, if_neg final]
                exact ⟨_, rfl⟩

theorem readChunk_none {desc : VirtqDesc} {part : Virtq.Chunk} {data : List Byte} :
    readChunk guest ram desc part data = none ↔ part.length ≠ 0 ∧
      guest.readMemory ram (desc.paddr + part.paddrOff.setWidth 64) part.length.toNat = none := by
  rw [readChunk]
  split
  · rename_i empty
    simp [empty]
  · rename_i full
    cases guest.readMemory ram (desc.paddr + part.paddrOff.setWidth 64) part.length.toNat with
    | none => simpa using full
    | some bytes => simp

theorem stopsRead_succ {descIdx : BitVec 16} {offset : BitVec 32} {desc : VirtqDesc}
    (there : vq.getDesc guest ram descIdx = some desc) (has : desc.hasNext = true) (count : Nat) :
    StopsRead guest vq ram startOff endOff descIdx offset (count + 1) ↔
      StopsRead guest vq ram startOff endOff desc.next
        (if desc.isWrite then offset else offset + desc.len) count := by
  rw [StopsRead, StopsRead, descAfter_succ (nextDesc_of_hasNext there has), readOffset, there]

/-- One step of an access along a chain without an end. -/
theorem read_goes {descIdx : BitVec 16} {offset : BitVec 32} {data : List Byte}
    (endless : Endless (nextRead guest vq ram startOff endOff) (descIdx, offset, data)) :
    ∃ desc, vq.getDesc guest ram descIdx = some desc ∧ desc.hasNext = true ∧
      ¬StopsRead guest vq ram startOff endOff descIdx offset 0 ∧ ∃ filled,
        Endless (nextRead guest vq ram startOff endOff)
          (desc.next, if desc.isWrite then offset else offset + desc.len, filled) := by
  obtain ⟨successor, goes, endless⟩ := endless.goes
  simp only [nextRead, Option.bind_eq_some_iff] at goes
  obtain ⟨desc, there, goes⟩ := goes
  split at goes <;> rename_i writes
  · split at goes
    · rename_i has
      cases goes
      refine ⟨desc, there, has, ?_, data, ?_⟩
      · rintro ⟨other, here, reads, _⟩
        rw [descAfter_zero, there] at here
        cases here
        rw [writes] at reads
        cases reads
      · rw [if_pos writes]
        exact endless
    · cases goes
  · obtain ⟨filled, reads, goes⟩ := Option.bind_eq_some_iff.mp goes
    split at goes
    · cases goes
    rename_i inside
    split at goes
    · rename_i has
      cases goes
      refine ⟨desc, there, has, ?_, filled, ?_⟩
      · rintro ⟨other, here, _, reached | refused⟩
        · rw [descAfter_zero, there] at here
          cases here
          exact inside reached
        · rw [descAfter_zero, there] at here
          cases here
          have refuses : readChunk guest ram desc (chunk offset startOff endOff desc) data = none :=
            readChunk_none.mpr refused
          rw [reads] at refuses
          cases refuses
      · rw [if_neg writes]
        exact endless
    · cases goes

theorem read_chain {descIdx : BitVec 16} {offset : BitVec 32} {data : List Byte}
    (endless : Endless (nextRead guest vq ram startOff endOff) (descIdx, offset, data)) :
    EndlessChain guest vq ram descIdx := by
  have goes (descIdx : BitVec 16) (holds : ∃ offset data,
      Endless (nextRead guest vq ram startOff endOff) (descIdx, offset, data)) :
      ∃ successor, nextDesc guest vq ram descIdx = some successor ∧ ∃ offset data,
        Endless (nextRead guest vq ram startOff endOff) (successor, offset, data) := by
    obtain ⟨offset, data, endless⟩ := holds
    obtain ⟨desc, there, has, _, _, endless⟩ := read_goes endless
    exact ⟨desc.next, nextDesc_of_hasNext there has, _, _, endless⟩
  exact Endless.of_invariant goes ⟨offset, data, endless⟩

theorem read_never_stops (count : Nat) : ∀ {descIdx : BitVec 16} {offset : BitVec 32}
    {data : List Byte},
    Endless (nextRead guest vq ram startOff endOff) (descIdx, offset, data) →
    ¬StopsRead guest vq ram startOff endOff descIdx offset count := by
  induction count with
  | zero =>
      intro descIdx offset data endless
      obtain ⟨_, _, _, inside, _⟩ := read_goes endless
      exact inside
  | succ count ih =>
      intro descIdx offset data endless
      obtain ⟨desc, there, has, _, filled, endless⟩ := read_goes endless
      rw [stopsRead_succ there has]
      exact ih endless

/-- An access never ends when the chain has no end and no buffer to read stops it. -/
theorem endless_nextRead (descIdx : BitVec 16) (offset : BitVec 32) (data : List Byte) :
    Endless (nextRead guest vq ram startOff endOff) (descIdx, offset, data) ↔
      EndlessChain guest vq ram descIdx ∧
        ∀ count, ¬StopsRead guest vq ram startOff endOff descIdx offset count := by
  constructor
  · intro endless
    exact ⟨read_chain endless, fun count => read_never_stops count endless⟩
  · rintro ⟨endless, never⟩
    have goes (state : BitVec 16 × BitVec 32 × List Byte)
        (holds : EndlessChain guest vq ram state.1 ∧
          ∀ count, ¬StopsRead guest vq ram startOff endOff state.1 state.2.1 count) :
        ∃ successor, nextRead guest vq ram startOff endOff state = some successor ∧
          EndlessChain guest vq ram successor.1 ∧
          ∀ count, ¬StopsRead guest vq ram startOff endOff successor.1 successor.2.1 count := by
      obtain ⟨descIdx, offset, data⟩ := state
      obtain ⟨endless, never⟩ := holds
      obtain ⟨successor, onward, rest⟩ := endless.goes
      obtain ⟨desc, there, has, rfl⟩ := exists_desc onward
      have later (count : Nat) := (stopsRead_succ there has count).not.mp (never (count + 1))
      cases kind : desc.isWrite with
      | true =>
          refine ⟨(desc.next, offset, data), ?_, rest, ?_⟩
          · simp [nextRead, there, kind, has]
          · intro count
            have same := later count
            rw [if_pos kind] at same
            exact same
      | false =>
          have inside : ¬(chunk offset startOff endOff desc).reachesEnd = true := fun reached =>
            never 0 ⟨desc, there, kind, .inl reached⟩
          cases reads : readChunk guest ram desc (chunk offset startOff endOff desc) data with
          | none => exact absurd ⟨desc, there, kind, .inr (readChunk_none.mp reads)⟩ (never 0)
          | some filled =>
              refine ⟨(desc.next, offset + desc.len, filled), ?_, rest, ?_⟩
              · simp [nextRead, there, kind, has, reads, inside]
              · intro count
                have same := later count
                rw [if_neg (by simp [kind])] at same
                exact same
    exact Endless.of_invariant goes ⟨endless, never⟩

end Reads

section Writes

variable {guest : GuestMemory Ram} {vq : Virtq} {startOff endOff : BitVec 32} {data : List Byte}

theorem writeDescLoop_finishes (descIdx : BitVec 16) (offset : BitVec 32) (ram : Ram) :
    Finishes (fun fuel => vq.writeDescLoop guest startOff endOff data fuel descIdx offset ram) ↔
      ¬Endless (nextWrite guest vq startOff endOff data) (descIdx, offset, ram) := by
  apply Walk.finishes_iff
    (fun fuel (state : BitVec 16 × BitVec 32 × Ram) =>
      vq.writeDescLoop guest startOff endOff data fuel state.1 state.2.1 state.2.2)
    .nonTermination (descIdx, offset, ram)
  · intro state
    rfl
  · rintro fuel ⟨descIdx, offset, ram⟩ successor goes
    simp only [nextWrite, Option.bind_eq_some_iff] at goes
    obtain ⟨desc, there, goes⟩ := goes
    dsimp only
    rw [Virtq.writeDescLoop, there]
    dsimp only
    split at goes <;> rename_i writes
    · obtain ⟨written, wrote, goes⟩ := Option.bind_eq_some_iff.mp goes
      rw [if_pos writes, wrote]
      dsimp only
      split at goes
      · cases goes
      rename_i inside
      split at goes
      · rename_i has
        cases goes
        rw [if_neg inside, if_pos has]
      · cases goes
    · split at goes
      · rename_i has
        cases goes
        rw [if_neg writes, if_pos has]
      · cases goes
  · rintro fuel ⟨descIdx, offset, ram⟩ stops
    dsimp only
    rw [Virtq.writeDescLoop]
    cases there : vq.getDesc guest ram descIdx with
    | none => exact ⟨_, rfl⟩
    | some desc =>
        rw [nextWrite, there, Option.bind_some] at stops
        dsimp only
        split at stops <;> rename_i writes
        · rw [if_pos writes]
          cases wrote : writeChunk guest ram desc (chunk offset startOff endOff desc) data with
          | none => exact ⟨_, rfl⟩
          | some written =>
              rw [wrote, Option.bind_some] at stops
              dsimp only
              split at stops
              · rename_i reached
                rw [if_pos reached]
                exact ⟨_, rfl⟩
              · rename_i inside
                split at stops
                · cases stops
                rename_i final
                rw [if_neg inside, if_neg final]
                exact ⟨_, rfl⟩
        · split at stops
          · cases stops
          rename_i final
          rw [if_neg writes, if_neg final]
          exact ⟨_, rfl⟩

end Writes

/-- Every byte of this memory is three, and no write changes it. -/
def loopGuest : GuestMemory Unit where
  readMemory _ _ length := some (List.replicate length 3)
  writeMemory _ _ _ := some ()

end MachineEmulator.Virtio
