/-
This file says which bytes the accesses to a descriptor chain transfer.
-/

import MachineEmulator.Proof.Virtio.ChainWalks
import MachineEmulator.Proof.Virtio.DescriptorChain

namespace MachineEmulator.Virtio

open Virtq (Chunk chunk readChunk writeChunk)

variable {Ram : Type}

/-- The descriptors of a chain, up to one without a successor or to one that is out of reach. -/
inductive Listed (guest : GuestMemory Ram) (vq : Virtq) (ram : Ram) :
    BitVec 16 → List VirtqDesc → Prop
  | missing {descIdx : BitVec 16} (absent : vq.getDesc guest ram descIdx = none) :
      Listed guest vq ram descIdx []
  | final {descIdx : BitVec 16} {desc : VirtqDesc} (there : vq.getDesc guest ram descIdx = some desc)
      (ends : desc.hasNext = false) : Listed guest vq ram descIdx [desc]
  | next {descIdx : BitVec 16} {desc : VirtqDesc} {rest : List VirtqDesc}
      (there : vq.getDesc guest ram descIdx = some desc) (goes : desc.hasNext = true)
      (listed : Listed guest vq ram desc.next rest) : Listed guest vq ram descIdx (desc :: rest)

/-- The buffers of a chain that are for the device to write. -/
def writable (descs : List VirtqDesc) : Buffers :=
  (descs.filter fun desc => desc.isWrite).map fun desc => (desc.paddr, desc.len.toNat)

/-- The parts of buffers that an access from an offset on meets. -/
def slice (start : Nat) : Nat → Buffers → Buffers
  | _, [] => []
  | 0, _ :: _ => []
  | count + 1, (paddr, size) :: rest =>
      if size ≤ start then slice (start - size) (count + 1) rest
      else (paddr + BitVec.ofNat 64 start, min (count + 1) (size - start)) ::
        slice 0 (count + 1 - (size - start)) rest

/-- The bytes of a list go into buffers, one buffer after the other. -/
def scatter (guest : GuestMemory Ram) : Ram → Buffers → List Byte → Option Ram
  | ram, [], _ => some ram
  | ram, (paddr, size) :: rest, data => do
      let written ← guest.writeMemory ram paddr (data.take size)
      scatter guest written rest (data.drop size)

/-- The buffer in which an access ends has its own end below 2^32, or so far behind the access that
the end is still behind it after it has wrapped around. -/
def EndFits (endOff : Nat) : Nat → Buffers → Prop
  | _, [] => True
  | offset, (_, size) :: rest =>
      if endOff ≤ offset + size then offset + size < 2 ^ 32 ∨ 2 ^ 32 + endOff ≤ offset + size
      else EndFits endOff (offset + size) rest

/-- What writes into parts of buffers can make of the memory. -/
inductive Scribbled (guest : GuestMemory Ram) (buffers : Buffers) : Ram → Ram → Prop
  | same {ram : Ram} : Scribbled guest buffers ram ram
  | write {ram written later : Ram} {paddr : Word} {size offset : Nat} {data : List Byte}
      (member : (paddr, size) ∈ buffers) (inside : offset + data.length ≤ size)
      (wrote : guest.writeMemory ram (paddr + BitVec.ofNat 64 offset) data = some written)
      (scribbled : Scribbled guest buffers written later) : Scribbled guest buffers ram later

/-- Writes into the buffers of a chain leave its descriptors as they are. -/
def ChainKept (guest : GuestMemory Ram) (vq : Virtq) (ram : Ram) (descIdx : BitVec 16)
    (descs : List VirtqDesc) : Prop :=
  ∀ later, Scribbled guest (writable descs) ram later → Listed guest vq later descIdx descs

/-- The bytes that a read has to give. -/
def gathered (guest : GuestMemory Ram) (ram : Ram) (start len : Nat) (buffers : Buffers) :
    Option (List Byte) :=
  if len = 0 then some []
  else if start + len ≤ bufferSize buffers then gather guest ram (slice start len buffers)
  else none

/-- The memory that a write has to leave. -/
def scattered (guest : GuestMemory Ram) (ram : Ram) (start : Nat) (data : List Byte)
    (buffers : Buffers) : Option Ram :=
  if data.length = 0 then some ram
  else if start + data.length ≤ bufferSize buffers then
    scatter guest ram (slice start data.length buffers) data
  else none

section Chunks

variable {startOff endOff bufStartOff : BitVec 32}

/-- The part of a buffer that an access meets, where the end of the access does not wrap around. -/
theorem chunk_meets {desc : VirtqDesc} (starts : startOff.toNat < endOff.toNat)
    (before : bufStartOff.toNat < endOff.toNat)
    (fits : endOff.toNat ≤ bufStartOff.toNat + desc.len.toNat →
      bufStartOff.toNat + desc.len.toNat < 2 ^ 32 ∨
        2 ^ 32 + endOff.toNat ≤ bufStartOff.toNat + desc.len.toNat) :
    (chunk bufStartOff startOff endOff desc).paddrOff.toNat = startOff.toNat - bufStartOff.toNat ∧
    (chunk bufStartOff startOff endOff desc).dataOff.toNat = bufStartOff.toNat - startOff.toNat ∧
    (chunk bufStartOff startOff endOff desc).length.toNat =
      min endOff.toNat (bufStartOff.toNat + desc.len.toNat) -
        max bufStartOff.toNat startOff.toNat ∧
    ((chunk bufStartOff startOff endOff desc).reachesEnd = true ↔
      endOff.toNat ≤ bufStartOff.toNat + desc.len.toNat) ∧
    (bufStartOff.toNat + desc.len.toNat < endOff.toNat →
      (bufStartOff + desc.len).toNat = bufStartOff.toNat + desc.len.toNat) := by
  have bounds := endOff.isLt
  have size := desc.len.isLt
  have sum : (bufStartOff + desc.len).toNat =
      (bufStartOff.toNat + desc.len.toNat) % 2 ^ 32 := BitVec.toNat_add _ _
  -- The end of the chunk, where the buffer may wrap around behind the access.
  have stop : (if endOff < bufStartOff + desc.len then endOff else bufStartOff + desc.len).toNat =
      min endOff.toNat (bufStartOff.toNat + desc.len.toNat) := by
    split <;> rename_i inside <;> rw [BitVec.lt_def, sum] at inside
    · omega
    · rw [sum]
      omega
  have first : (if bufStartOff < startOff then startOff else bufStartOff).toNat =
      max bufStartOff.toNat startOff.toNat := by
    split <;> rename_i inside <;> rw [BitVec.lt_def] at inside <;> omega
  refine ⟨?_, ?_, ?_, ?_, ?_⟩
  · simp only [chunk]
    rw [BitVec.toNat_sub_of_le (by rw [BitVec.le_def, first]; omega), first]
    omega
  · simp only [chunk]
    rw [BitVec.toNat_sub_of_le (by rw [BitVec.le_def, first]; omega), first]
    omega
  · simp only [chunk]
    generalize (if bufStartOff < startOff then startOff else bufStartOff) = low at first ⊢
    generalize (if endOff < bufStartOff + desc.len then endOff else bufStartOff + desc.len) = high
      at stop ⊢
    rw [← first, ← stop]
    split <;> rename_i inside <;> rw [BitVec.lt_def] at inside
    · rw [BitVec.toNat_sub_of_le (by rw [BitVec.le_def]; omega)]
    · show 0 = _
      omega
  · simp only [chunk, decide_eq_true_eq]
    rw [BitVec.le_def, stop]
    omega
  · intro inside
    rw [sum]
    omega

end Chunks

section Buffers

variable {guest : GuestMemory Ram} {ram : Ram}

@[simp] theorem slice_zero (start : Nat) (buffers : Buffers) : slice start 0 buffers = [] := by
  cases buffers <;> rfl

theorem slice_skip {start count size : Nat} (paddr : Word) (rest : Buffers) (positive : 0 < count)
    (skipped : size ≤ start) :
    slice start count ((paddr, size) :: rest) = slice (start - size) count rest := by
  obtain ⟨count, rfl⟩ := Nat.exists_eq_succ_of_ne_zero (Nat.ne_of_gt positive)
  rw [slice, if_pos skipped]

theorem slice_meet {start count size : Nat} (paddr : Word) (rest : Buffers) (positive : 0 < count)
    (met : start < size) :
    slice start count ((paddr, size) :: rest) =
      (paddr + BitVec.ofNat 64 start, min count (size - start)) ::
        slice 0 (count - (size - start)) rest := by
  obtain ⟨count, rfl⟩ := Nat.exists_eq_succ_of_ne_zero (Nat.ne_of_gt positive)
  rw [slice, if_neg (Nat.not_le.mpr met)]

theorem writable_write {desc : VirtqDesc} {rest : List VirtqDesc} (writes : desc.isWrite = true) :
    writable (desc :: rest) = (desc.paddr, desc.len.toNat) :: writable rest := by
  simp [writable, writes]

theorem writable_read {desc : VirtqDesc} {rest : List VirtqDesc} (reads : desc.isWrite = false) :
    writable (desc :: rest) = writable rest := by
  simp [writable, reads]

@[simp] theorem writable_nil : writable [] = [] := rfl

@[simp] theorem bufferSize_nil : bufferSize [] = 0 := rfl

end Buffers

section Reads

variable {guest : GuestMemory Ram} {vq : Virtq} {ram : Ram} {startOff endOff : BitVec 32}

/-- What an access from one offset to another leaves in the buffer that it fills. -/
def readOutcome (guest : GuestMemory Ram) (ram : Ram) (start endOff offset : Nat) (data : List Byte)
    (buffers : Buffers) : Option (List Byte) :=
  if endOff ≤ offset + bufferSize buffers then
    (gather guest ram (slice (start - offset) (endOff - max offset start) buffers)).map
      fun more => data.take (offset - start) ++ more
  else none

/-- A buffer before the access changes nothing. -/
theorem readOutcome_skip {start endOff offset size : Nat} {data : List Byte} (paddr : Word)
    (rest : Buffers) (starts : start < endOff) (before : offset < endOff)
    (skipped : size ≤ start - offset) :
    readOutcome guest ram start endOff offset data ((paddr, size) :: rest) =
      readOutcome guest ram start endOff (offset + size) data rest := by
  have same : start - offset - size = start - (offset + size) := by omega
  have sameEnd : endOff - max offset start = endOff - max (offset + size) start := by omega
  have sameFront : data.take (offset - start) = data.take (offset + size - start) := by
    by_cases empty : size = 0
    · rw [empty, Nat.add_zero]
    · have zero : offset - start = 0 := by omega
      have zero' : offset + size - start = 0 := by omega
      rw [zero, zero']
  rw [readOutcome, readOutcome, bufferSize_cons, slice_skip paddr rest (by omega) skipped, same,
    sameEnd, sameFront, Nat.add_assoc]

/-- A buffer that the access meets gives its part first. -/
theorem readOutcome_meet {start endOff offset size : Nat} {data : List Byte} (paddr : Word)
    (rest : Buffers) (starts : start < endOff) (before : offset < endOff)
    (met : start - offset < size) :
    readOutcome guest ram start endOff offset data ((paddr, size) :: rest) =
      if endOff ≤ offset + size + bufferSize rest then do
        let bytes ← guest.readMemory ram (paddr + BitVec.ofNat 64 (start - offset))
          (min endOff (offset + size) - max offset start)
        let more ← gather guest ram (slice 0 (endOff - (offset + size)) rest)
        return data.take (offset - start) ++ (bytes ++ more)
      else none := by
  have count : min (endOff - max offset start) (size - (start - offset)) =
      min endOff (offset + size) - max offset start := by omega
  have remains : endOff - max offset start - (size - (start - offset)) =
      endOff - (offset + size) := by omega
  rw [readOutcome, bufferSize_cons, slice_meet paddr rest (by omega) met, count, remains,
    ← Nat.add_assoc]
  split
  · rw [gather]
    cases guest.readMemory ram (paddr + BitVec.ofNat 64 (start - offset))
        (min endOff (offset + size) - max offset start) with
    | none => rfl
    | some bytes =>
        cases gather guest ram (slice 0 (endOff - (offset + size)) rest) <;> rfl
  · rfl

/-- The loop gives what the rest of the access leaves. -/
theorem readDescLoop_outcome (sized : guest.Sized) {descs : List VirtqDesc} {descIdx : BitVec 16}
    (listed : Listed guest vq ram descIdx descs) (starts : startOff.toNat < endOff.toNat) :
    ∀ {fuel : Nat} {bufStartOff : BitVec 32} {data : List Byte} {result : Option (List Byte)},
      bufStartOff.toNat < endOff.toNat → data.length = endOff.toNat - startOff.toNat →
      EndFits endOff.toNat bufStartOff.toNat (readable descs) →
      vq.readDescLoop guest ram startOff endOff fuel descIdx bufStartOff data = .ok result →
      result = readOutcome guest ram startOff.toNat endOff.toNat bufStartOff.toNat data
        (readable descs) := by
  have nothing {offset : Nat} {data : List Byte} (before : offset < endOff.toNat) :
      readOutcome guest ram startOff.toNat endOff.toNat offset data [] = none := by
    rw [readOutcome, bufferSize_nil, if_neg (by omega)]
  -- One buffer of the chain, with what the loop does behind it.
  have buffer {descIdx : BitVec 16} {desc : VirtqDesc} {rest : List VirtqDesc}
      (there : vq.getDesc guest ram descIdx = some desc)
      (final : desc.hasNext = false → rest = [])
      (onwards : desc.hasNext = true → ∀ {fuel : Nat} {bufStartOff : BitVec 32}
        {data : List Byte} {result : Option (List Byte)},
        bufStartOff.toNat < endOff.toNat → data.length = endOff.toNat - startOff.toNat →
        EndFits endOff.toNat bufStartOff.toNat (readable rest) →
        vq.readDescLoop guest ram startOff endOff fuel desc.next bufStartOff data = .ok result →
        result = readOutcome guest ram startOff.toNat endOff.toNat bufStartOff.toNat data
          (readable rest))
      {fuel : Nat} {bufStartOff : BitVec 32} {data : List Byte} {result : Option (List Byte)}
      (before : bufStartOff.toNat < endOff.toNat)
      (room : data.length = endOff.toNat - startOff.toNat)
      (fits : EndFits endOff.toNat bufStartOff.toNat (readable (desc :: rest)))
      (ran : vq.readDescLoop guest ram startOff endOff fuel descIdx bufStartOff data = .ok result) :
      result = readOutcome guest ram startOff.toNat endOff.toNat bufStartOff.toNat data
        (readable (desc :: rest)) := by
    cases fuel with
    | zero => cases ran
    | succ fuel =>
        rw [Virtq.readDescLoop, there] at ran
        dsimp only at ran
        cases reads : desc.isWrite with
        | true =>
            rw [readable_write reads] at fits ⊢
            rw [if_pos reads] at ran
            split at ran
            · rename_i goes
              exact onwards goes before room fits ran
            · rename_i ends
              cases ran
              rw [final (Bool.eq_false_of_not_eq_true ends), readable_nil, nothing before]
        | false =>
            rw [readable_read reads] at fits ⊢
            rw [EndFits] at fits
            rw [if_neg (by simp [reads])] at ran
            obtain ⟨paddrOff, dataOff, length, reaches, sum⟩ :=
              @chunk_meets startOff endOff bufStartOff desc starts before (by
                intro inside
                rw [if_pos inside] at fits
                exact fits)
            generalize chunk bufStartOff startOff endOff desc = part at *
            -- Behind the buffer the loop stops or goes on with the next descriptor.
            have behind {filled : List Byte} (inside : bufStartOff.toNat + desc.len.toNat <
                endOff.toNat) (kept : filled.length = data.length)
                (ran : (if part.reachesEnd = true then Except.ok (some filled)
                  else if desc.hasNext = true then
                    vq.readDescLoop guest ram startOff endOff fuel desc.next
                      (bufStartOff + desc.len) filled
                  else .ok none) = .ok result) :
                result = readOutcome guest ram startOff.toNat endOff.toNat
                  (bufStartOff.toNat + desc.len.toNat) filled (readable rest) := by
              rw [if_neg (by rw [reaches]; omega)] at ran
              split at ran
              · rename_i goes
                rw [if_neg (by omega), ← sum inside] at fits
                rw [← sum inside]
                exact onwards goes (by rw [sum inside]; exact inside) (kept.trans room) fits ran
              · rename_i ends
                cases ran
                rw [final (Bool.eq_false_of_not_eq_true ends), readable_nil, nothing inside]
            rw [readChunk] at ran
            by_cases skipped : desc.len.toNat ≤ startOff.toNat - bufStartOff.toNat
            · have empty : part.length = 0 := by
                apply BitVec.eq_of_toNat_eq
                rw [length]
                show _ = 0
                omega
              rw [if_pos empty] at ran
              rw [readOutcome_skip _ _ starts before skipped]
              exact behind (by omega) rfl ran
            · have full : part.length ≠ 0 := by
                intro empty
                rw [empty] at length
                change 0 = _ at length
                omega
              have place : part.paddrOff.setWidth 64 =
                  BitVec.ofNat 64 (startOff.toNat - bufStartOff.toNat) := by
                apply BitVec.eq_of_toNat_eq
                rw [BitVec.toNat_setWidth, paddrOff, BitVec.toNat_ofNat]
              rw [if_neg full, place, length, dataOff] at ran
              rw [readOutcome_meet _ _ starts before (Nat.not_le.mp skipped)]
              cases read : guest.readMemory ram
                  (desc.paddr + BitVec.ofNat 64 (startOff.toNat - bufStartOff.toNat))
                  (min endOff.toNat (bufStartOff.toNat + desc.len.toNat) -
                    max bufStartOff.toNat startOff.toNat) with
              | none =>
                  rw [read] at ran
                  cases ran
                  split <;> rfl
              | some bytes =>
                  have count := sized _ _ _ _ read
                  rw [read] at ran
                  dsimp only [Option.bind_eq_bind, Option.bind_some, Option.pure_def] at ran ⊢
                  by_cases reached : endOff.toNat ≤ bufStartOff.toNat + desc.len.toNat
                  · rw [if_pos (reaches.mpr reached)] at ran
                    cases ran
                    have done : endOff.toNat - (bufStartOff.toNat + desc.len.toNat) = 0 := by omega
                    rw [if_pos (by omega), done, slice_zero, gather, Option.bind_some,
                      List.append_nil, List.drop_of_length_le (by omega), List.append_nil]
                  · have inside := Nat.not_le.mp reached
                    have filled := behind inside (by
                      simp only [List.length_append, List.length_take, List.length_drop, count]
                      omega) ran
                    have front : (data.take (bufStartOff.toNat - startOff.toNat) ++ bytes).length =
                        bufStartOff.toNat + desc.len.toNat - startOff.toNat := by
                      rw [List.length_append, List.length_take, count]
                      omega
                    have started : startOff.toNat - (bufStartOff.toNat + desc.len.toNat) = 0 := by
                      omega
                    have further : max (bufStartOff.toNat + desc.len.toNat) startOff.toNat =
                        bufStartOff.toNat + desc.len.toNat := by omega
                    rw [filled, readOutcome, started, further, List.take_left' front]
                    split
                    · cases gather guest ram (slice 0
                          (endOff.toNat - (bufStartOff.toNat + desc.len.toNat)) (readable rest)) with
                      | none => rfl
                      | some more => simp [List.append_assoc]
                    · rfl
  induction listed with
  | missing absent =>
      intro fuel bufStartOff data result before room fits ran
      cases fuel with
      | zero => cases ran
      | succ fuel =>
          rw [Virtq.readDescLoop, absent] at ran
          cases ran
          rw [readable_nil, nothing before]
  | final there ends =>
      intro fuel bufStartOff data result before room fits ran
      apply buffer there (fun _ => rfl) _ before room fits ran
      intro goes
      rw [ends] at goes
      cases goes
  | next there goes listed ih =>
      intro fuel bufStartOff data result before room fits ran
      apply buffer there _ (fun _ => ih) before room fits ran
      intro ends
      rw [goes] at ends
      cases ends

end Reads

section Writes

variable {guest : GuestMemory Ram} {vq : Virtq} {startOff endOff : BitVec 32}

theorem Listed.head {ram : Ram} {descIdx : BitVec 16} {desc : VirtqDesc} {rest : List VirtqDesc}
    (listed : Listed guest vq ram descIdx (desc :: rest)) :
    vq.getDesc guest ram descIdx = some desc ∧ (desc.hasNext = false → rest = []) ∧
      (desc.hasNext = true → Listed guest vq ram desc.next rest) := by
  cases listed with
  | final there ends =>
      refine ⟨there, fun _ => rfl, ?_⟩
      intro goes
      rw [ends] at goes
      cases goes
  | next there goes listed =>
      refine ⟨there, ?_, fun _ => listed⟩
      intro ends
      rw [goes] at ends
      cases ends

/-- The memory that an access from one offset to another leaves. -/
def writeOutcome (guest : GuestMemory Ram) (ram : Ram) (start endOff offset : Nat)
    (data : List Byte) (buffers : Buffers) : Option Ram :=
  if endOff ≤ offset + bufferSize buffers then
    scatter guest ram (slice (start - offset) (endOff - max offset start) buffers)
      (data.drop (offset - start))
  else none

theorem writeOutcome_skip {ram : Ram} {start endOff offset size : Nat} {data : List Byte}
    (paddr : Word) (rest : Buffers) (starts : start < endOff) (before : offset < endOff)
    (skipped : size ≤ start - offset) :
    writeOutcome guest ram start endOff offset data ((paddr, size) :: rest) =
      writeOutcome guest ram start endOff (offset + size) data rest := by
  have same : start - offset - size = start - (offset + size) := by omega
  have sameEnd : endOff - max offset start = endOff - max (offset + size) start := by omega
  have sameFront : data.drop (offset - start) = data.drop (offset + size - start) := by
    by_cases empty : size = 0
    · rw [empty, Nat.add_zero]
    · have zero : offset - start = 0 := by omega
      have zero' : offset + size - start = 0 := by omega
      rw [zero, zero']
  rw [writeOutcome, writeOutcome, bufferSize_cons, slice_skip paddr rest (by omega) skipped, same,
    sameEnd, sameFront, Nat.add_assoc]

theorem writeOutcome_meet {ram : Ram} {start endOff offset size : Nat} {data : List Byte}
    (paddr : Word) (rest : Buffers) (starts : start < endOff) (before : offset < endOff)
    (met : start - offset < size) :
    writeOutcome guest ram start endOff offset data ((paddr, size) :: rest) =
      if endOff ≤ offset + size + bufferSize rest then do
        let count := min endOff (offset + size) - max offset start
        let written ← guest.writeMemory ram (paddr + BitVec.ofNat 64 (start - offset))
          ((data.drop (offset - start)).take count)
        scatter guest written (slice 0 (endOff - (offset + size)) rest)
          (data.drop (offset - start + count))
      else none := by
  have count : min (endOff - max offset start) (size - (start - offset)) =
      min endOff (offset + size) - max offset start := by omega
  have remains : endOff - max offset start - (size - (start - offset)) =
      endOff - (offset + size) := by omega
  rw [writeOutcome, bufferSize_cons, slice_meet paddr rest (by omega) met, count, remains,
    ← Nat.add_assoc]
  split
  · rw [scatter, List.drop_drop]
  · rfl

/-- The loop leaves what the rest of the access leaves. -/
theorem writeDescLoop_outcome {buffers : Buffers} (starts : startOff.toNat < endOff.toNat)
    {data : List Byte} (descs : List VirtqDesc) : ∀ {fuel : Nat} {descIdx : BitVec 16}
      {bufStartOff : BitVec 32} {ram final : Ram} {success : Bool},
      (∀ later, Scribbled guest buffers ram later → Listed guest vq later descIdx descs) →
      (∀ buffer ∈ writable descs, buffer ∈ buffers) →
      bufStartOff.toNat < endOff.toNat →
      EndFits endOff.toNat bufStartOff.toNat (writable descs) →
      vq.writeDescLoop guest startOff endOff data fuel descIdx bufStartOff ram =
        .ok (success, final) →
      (if success then some final else none) =
        writeOutcome guest ram startOff.toNat endOff.toNat bufStartOff.toNat data
          (writable descs) := by
  have nothing {ram : Ram} {offset : Nat} (before : offset < endOff.toNat) :
      writeOutcome guest ram startOff.toNat endOff.toNat offset data [] = none := by
    rw [writeOutcome, bufferSize_nil, if_neg (by omega)]
  induction descs with
  | nil =>
      intro fuel descIdx bufStartOff ram final success kept members before fits ran
      cases fuel with
      | zero => cases ran
      | succ fuel =>
          rw [writable_nil, nothing before]
          cases kept ram .same with
          | missing absent =>
              rw [Virtq.writeDescLoop, absent] at ran
              cases ran
              rfl
  | cons desc rest ih =>
      intro fuel descIdx bufStartOff ram final success kept members before fits ran
      obtain ⟨there, last, _⟩ := (kept ram .same).head
      have tail (goes : desc.hasNext = true) {now : Ram} (reached : ∀ later,
          Scribbled guest buffers now later → Scribbled guest buffers ram later) :
          ∀ later, Scribbled guest buffers now later → Listed guest vq later desc.next rest :=
        fun later scribbled => (kept later (reached later scribbled)).head.2.2 goes
      cases fuel with
      | zero => cases ran
      | succ fuel =>
          rw [Virtq.writeDescLoop, there] at ran
          dsimp only at ran
          cases writes : desc.isWrite with
          | false =>
              rw [writable_read writes] at fits members ⊢
              rw [if_neg (by simp [writes])] at ran
              split at ran
              · rename_i goes
                exact ih (tail goes fun _ same => same) members before fits ran
              · rename_i ends
                cases ran
                rw [last (Bool.eq_false_of_not_eq_true ends), writable_nil, nothing before]
                rfl
          | true =>
              rw [writable_write writes] at fits members ⊢
              rw [EndFits] at fits
              rw [if_pos writes] at ran
              obtain ⟨paddrOff, dataOff, length, reaches, sum⟩ :=
                @chunk_meets startOff endOff bufStartOff desc starts before (by
                  intro inside
                  rw [if_pos inside] at fits
                  exact fits)
              generalize chunk bufStartOff startOff endOff desc = part at *
              -- Behind the buffer the loop stops or goes on with the next descriptor.
              have behind {written : Ram} (inside : bufStartOff.toNat + desc.len.toNat <
                  endOff.toNat) (reached : ∀ later, Scribbled guest buffers written later →
                    Scribbled guest buffers ram later)
                  (ran : (if part.reachesEnd = true then Except.ok (true, written)
                    else if desc.hasNext = true then
                      vq.writeDescLoop guest startOff endOff data fuel desc.next
                        (bufStartOff + desc.len) written
                    else .ok (false, written)) = .ok (success, final)) :
                  (if success then some final else none) =
                    writeOutcome guest written startOff.toNat endOff.toNat
                      (bufStartOff.toNat + desc.len.toNat) data (writable rest) := by
                rw [if_neg (by rw [reaches]; omega)] at ran
                split at ran
                · rename_i goes
                  rw [if_neg (by omega), ← sum inside] at fits
                  rw [← sum inside]
                  exact ih (tail goes reached) (fun buffer member => members buffer (by simp [member]))
                    (by rw [sum inside]; exact inside) fits ran
                · rename_i ends
                  cases ran
                  rw [last (Bool.eq_false_of_not_eq_true ends), writable_nil, nothing inside]
                  rfl
              rw [writeChunk] at ran
              by_cases skipped : desc.len.toNat ≤ startOff.toNat - bufStartOff.toNat
              · have empty : part.length = 0 := by
                  apply BitVec.eq_of_toNat_eq
                  rw [length]
                  show _ = 0
                  omega
                rw [if_pos empty] at ran
                rw [writeOutcome_skip _ _ starts before skipped]
                exact behind (by omega) (fun _ same => same) ran
              · have full : part.length ≠ 0 := by
                  intro empty
                  rw [empty] at length
                  change 0 = _ at length
                  omega
                have place : part.paddrOff.setWidth 64 =
                    BitVec.ofNat 64 (startOff.toNat - bufStartOff.toNat) := by
                  apply BitVec.eq_of_toNat_eq
                  rw [BitVec.toNat_setWidth, paddrOff, BitVec.toNat_ofNat]
                rw [if_neg full, place, length, dataOff] at ran
                rw [writeOutcome_meet _ _ starts before (Nat.not_le.mp skipped)]
                dsimp only
                cases wrote : guest.writeMemory ram
                    (desc.paddr + BitVec.ofNat 64 (startOff.toNat - bufStartOff.toNat))
                    ((data.drop (bufStartOff.toNat - startOff.toNat)).take
                      (min endOff.toNat (bufStartOff.toNat + desc.len.toNat) -
                        max bufStartOff.toNat startOff.toNat)) with
                | none =>
                    rw [wrote] at ran
                    cases ran
                    show (none : Option Ram) = _
                    split <;> rfl
                | some written =>
                    rw [wrote] at ran
                    dsimp only [Option.bind_eq_bind, Option.bind_some] at ran ⊢
                    by_cases reached : endOff.toNat ≤ bufStartOff.toNat + desc.len.toNat
                    · rw [if_pos (reaches.mpr reached)] at ran
                      cases ran
                      have done : endOff.toNat - (bufStartOff.toNat + desc.len.toNat) = 0 := by omega
                      have total : endOff.toNat ≤
                          bufStartOff.toNat + desc.len.toNat + bufferSize (writable rest) := by
                        omega
                      rw [if_pos rfl, if_pos total, done, slice_zero, scatter]
                    · have inside := Nat.not_le.mp reached
                      have scribbles : ∀ later, Scribbled guest buffers written later →
                          Scribbled guest buffers ram later := by
                        intro later scribbled
                        refine .write (members (desc.paddr, desc.len.toNat) (by simp)) ?_ wrote
                          scribbled
                        rw [List.length_take]
                        omega
                      rw [behind inside scribbles ran, writeOutcome]
                      have started : startOff.toNat - (bufStartOff.toNat + desc.len.toNat) = 0 := by
                        omega
                      have further : max (bufStartOff.toNat + desc.len.toNat) startOff.toNat =
                          bufStartOff.toNat + desc.len.toNat := by omega
                      have remains : bufStartOff.toNat - startOff.toNat +
                          (min endOff.toNat (bufStartOff.toNat + desc.len.toNat) -
                            max bufStartOff.toNat startOff.toNat) =
                          bufStartOff.toNat + desc.len.toNat - startOff.toNat := by omega
                      rw [started, further, remains]

/-- A chain that a write keeps is walked to its end. -/
theorem writeDescLoop_ends {buffers : Buffers} (starts : startOff.toNat < endOff.toNat)
    {data : List Byte} (descs : List VirtqDesc) : ∀ {descIdx : BitVec 16} {bufStartOff : BitVec 32}
      {ram : Ram}, (∀ later, Scribbled guest buffers ram later →
        Listed guest vq later descIdx descs) →
      (∀ buffer ∈ writable descs, buffer ∈ buffers) →
      bufStartOff.toNat < endOff.toNat →
      EndFits endOff.toNat bufStartOff.toNat (writable descs) →
      ∃ answer, vq.writeDescLoop guest startOff endOff data (descs.length + 1) descIdx bufStartOff
        ram = .ok answer := by
  induction descs with
  | nil =>
      intro descIdx bufStartOff ram kept members before fits
      cases kept ram .same with
      | missing absent =>
          rw [Virtq.writeDescLoop, absent]
          exact ⟨_, rfl⟩
  | cons desc rest ih =>
      intro descIdx bufStartOff ram kept members before fits
      obtain ⟨there, _, _⟩ := (kept ram .same).head
      rw [Virtq.writeDescLoop, there]
      dsimp only
      cases goes : desc.hasNext with
      | false =>
          split
          · cases writeChunk guest ram desc (chunk bufStartOff startOff endOff desc) data with
            | none => exact ⟨_, rfl⟩
            | some written =>
                dsimp only
                split
                · exact ⟨_, rfl⟩
                · exact ⟨_, rfl⟩
          · exact ⟨_, rfl⟩
      | true =>
          have tail {now : Ram} (reached : ∀ later,
              Scribbled guest buffers now later → Scribbled guest buffers ram later) :
              ∀ later, Scribbled guest buffers now later → Listed guest vq later desc.next rest :=
            fun later scribbled => (kept later (reached later scribbled)).head.2.2 goes
          cases writes : desc.isWrite with
          | false =>
              rw [writable_read writes] at fits members
              exact ih (tail fun _ same => same) members before fits
          | true =>
              rw [writable_write writes] at fits members
              rw [EndFits] at fits
              obtain ⟨paddrOff, dataOff, length, reaches, sum⟩ :=
                @chunk_meets startOff endOff bufStartOff desc starts before (by
                  intro inside
                  rw [if_pos inside] at fits
                  exact fits)
              rw [if_pos rfl]
              cases wrote : writeChunk guest ram desc (chunk bufStartOff startOff endOff desc)
                  data with
              | none => exact ⟨_, rfl⟩
              | some written =>
                  dsimp only
                  by_cases reached : (chunk bufStartOff startOff endOff desc).reachesEnd = true
                  · rw [if_pos reached]
                    exact ⟨_, rfl⟩
                  · rw [if_neg reached, if_pos rfl]
                    have inside := Nat.not_le.mp (reaches.not.mp reached)
                    rw [if_neg (by omega), ← sum inside] at fits
                    apply ih (tail _) (fun buffer member => members buffer (by simp [member]))
                      (by rw [sum inside]; exact inside) fits
                    intro later scribbled
                    rw [writeChunk] at wrote
                    split at wrote
                    · cases wrote
                      exact scribbled
                    · rename_i full
                      have positive : 0 < (chunk bufStartOff startOff endOff desc).length.toNat :=
                        Nat.pos_of_ne_zero fun zero => full (BitVec.eq_of_toNat_eq zero)
                      have place : (chunk bufStartOff startOff endOff desc).paddrOff.setWidth 64 =
                          BitVec.ofNat 64 (startOff.toNat - bufStartOff.toNat) := by
                        apply BitVec.eq_of_toNat_eq
                        rw [BitVec.toNat_setWidth, paddrOff, BitVec.toNat_ofNat]
                      rw [place] at wrote
                      refine .write (members (desc.paddr, desc.len.toNat) (by simp)) ?_ wrote
                        scribbled
                      rw [List.length_take, length]
                      omega

end Writes

section Totals

variable {guest : GuestMemory Ram} {vq : Virtq} {ram : Ram}

theorem Listed.not_endless {descIdx : BitVec 16} {descs : List VirtqDesc}
    (listed : Listed guest vq ram descIdx descs) : ¬EndlessChain guest vq ram descIdx := by
  induction listed with
  | missing absent =>
      intro endless
      obtain ⟨successor, goes, _⟩ := endless.goes
      rw [nextDesc, absent] at goes
      cases goes
  | final there ends =>
      intro endless
      obtain ⟨successor, goes, _⟩ := endless.goes
      rw [nextDesc, there, Option.bind_some, if_neg (by simp [ends])] at goes
      cases goes
  | next there goes listed ih =>
      intro endless
      exact ih ((Walk.endless_next (nextDesc_of_hasNext there goes)).mp endless)

theorem Chain.listed {descIdx : BitVec 16} {descs : List VirtqDesc}
    (chain : Chain guest vq ram descIdx descs) : Listed guest vq ram descIdx descs := by
  induction chain with
  | final there ends => exact .final there ends
  | next there goes _ ih => exact .next there goes ih

theorem Listed.chain_unique {descIdx : BitVec 16} {descs others : List VirtqDesc}
    (listed : Listed guest vq ram descIdx descs) (chain : Chain guest vq ram descIdx others) :
    others = descs := by
  induction chain generalizing descs with
  | final there ends =>
      cases listed with
      | missing absent =>
          rw [there] at absent
          cases absent
      | final there' _ => rw [Option.some.inj (there.symm.trans there')]
      | next there' goes' _ =>
          rw [Option.some.inj (there.symm.trans there'), goes'] at ends
          cases ends
  | next there goes _ ih =>
      cases listed with
      | missing absent =>
          rw [there] at absent
          cases absent
      | final there' ends' =>
          rw [Option.some.inj (there.symm.trans there'), ends'] at goes
          cases goes
      | next there' _ listed' =>
          obtain rfl := Option.some.inj (there.symm.trans there')
          rw [ih listed']

/-- The lengths that are found, and when the chain is taken. -/
theorem rwAvailLen_listed {descs : List VirtqDesc} {descIdx : BitVec 16}
    (listed : Listed guest vq ram descIdx descs) : ∀ {fuel : Nat} {readLen writeLen : BitVec 32}
      {writePart taken : Bool} {readFound writeFound : BitVec 32},
      vq.rwAvailLen guest ram fuel descIdx readLen writeLen writePart =
        .ok (taken, readFound, writeFound) →
      (taken = true ↔ Chain guest vq ram descIdx descs ∧ Ordered descs ∧
        (writePart = true → ∀ desc ∈ descs, desc.isWrite = true)) ∧
      (taken = true → readFound = readLen + BitVec.ofNat 32 (bufferSize (readable descs)) ∧
        writeFound = writeLen + BitVec.ofNat 32 (bufferSize (writable descs))) := by
  have total (desc : VirtqDesc) (rest : Buffers) (found : BitVec 32) :
      found + BitVec.ofNat 32 (bufferSize ((desc.paddr, desc.len.toNat) :: rest)) =
        found + desc.len + BitVec.ofNat 32 (bufferSize rest) := by
    rw [bufferSize_cons, BitVec.ofNat_add, BitVec.ofNat_toNat, BitVec.setWidth_eq, BitVec.add_assoc]
  induction listed with
  | missing absent =>
      intro fuel readLen writeLen writePart taken readFound writeFound ran
      cases fuel with
      | zero => cases ran
      | succ fuel =>
          rw [Virtq.rwAvailLen, absent] at ran
          cases ran
          refine ⟨⟨fun impossible => absurd impossible (by simp), ?_⟩,
            fun impossible => absurd impossible (by simp)⟩
          rintro ⟨chain, _⟩
          cases chain
  | @final descIdx desc there ends =>
      intro fuel readLen writeLen writePart taken readFound writeFound ran
      cases fuel with
      | zero => cases ran
      | succ fuel =>
          have chain : Chain guest vq ram descIdx [desc] := .final there ends
          rw [Virtq.rwAvailLen, there] at ran
          dsimp only at ran
          simp only [ends, Bool.false_eq_true, if_false] at ran
          cases writes : desc.isWrite with
          | true =>
              rw [if_pos writes] at ran
              cases ran
              have all : ∀ other ∈ [desc], other.isWrite = true := by simpa using writes
              refine ⟨⟨fun _ => ⟨chain, .writes all, fun _ => all⟩, fun _ => rfl⟩, fun _ => ?_⟩
              rw [readable_write writes, writable_write writes, total]
              simp
          | false =>
              rw [if_neg (by simp [writes])] at ran
              split at ran
              · rename_i writing
                cases ran
                refine ⟨⟨fun impossible => absurd impossible (by simp), ?_⟩,
                  fun impossible => absurd impossible (by simp)⟩
                rintro ⟨_, _, all⟩
                have same := all writing desc (by simp)
                rw [writes] at same
                cases same
              · rename_i reading
                cases ran
                refine ⟨⟨fun _ => ⟨chain, .read writes (.writes (by simp)),
                  fun writing => absurd writing reading⟩, fun _ => rfl⟩, fun _ => ?_⟩
                rw [readable_read writes, writable_read writes, total]
                simp
  | @next descIdx desc rest there goes listed ih =>
      intro fuel readLen writeLen writePart taken readFound writeFound ran
      cases fuel with
      | zero => cases ran
      | succ fuel =>
          have chain : Chain guest vq ram descIdx (desc :: rest) ↔
              Chain guest vq ram desc.next rest := by
            constructor
            · intro chain
              cases chain with
              | final there' ends' =>
                  rw [goes] at ends'
                  cases ends'
              | next _ _ chain => exact chain
            · exact Chain.next there goes
          rw [Virtq.rwAvailLen, there] at ran
          dsimp only at ran
          simp only [goes, if_true] at ran
          cases writes : desc.isWrite with
          | true =>
              rw [if_pos writes] at ran
              obtain ⟨found, lengths⟩ := ih ran
              have all : (∀ other ∈ desc :: rest, other.isWrite = true) ↔
                  ∀ other ∈ rest, other.isWrite = true := by simp [writes]
              constructor
              · rw [found, chain, all]
                constructor
                · rintro ⟨whole, _, every⟩
                  exact ⟨whole, .writes (all.mpr (every rfl)), fun _ => every rfl⟩
                · rintro ⟨whole, ordered, _⟩
                  refine ⟨whole, ordered.tail, fun _ => ?_⟩
                  cases ordered with
                  | writes every => exact all.mp every
                  | read reads _ =>
                      rw [writes] at reads
                      cases reads
              · rw [readable_write writes, writable_write writes, total]
                exact lengths
          | false =>
              rw [if_neg (by simp [writes])] at ran
              have one : (∀ other ∈ desc :: rest, other.isWrite = true) ↔ False := by
                simp [writes]
              split at ran
              · rename_i writing
                cases ran
                refine ⟨⟨fun impossible => absurd impossible (by simp), ?_⟩,
                  fun impossible => absurd impossible (by simp)⟩
                rintro ⟨_, _, all⟩
                exact absurd (all writing) one.mp
              · rename_i reading
                obtain ⟨found, lengths⟩ := ih ran
                constructor
                · rw [found, chain]
                  constructor
                  · rintro ⟨whole, ordered, _⟩
                    exact ⟨whole, .read writes ordered, fun writing => absurd writing reading⟩
                  · rintro ⟨whole, ordered, _⟩
                    exact ⟨whole, ordered.tail, fun writing => absurd writing reading⟩
                · rw [readable_read writes, writable_read writes, total]
                  exact lengths

end Totals

/-- The chain is taken exactly if all of it is there in the right order, with its exact lengths. -/
def LengthsRight (guest : GuestMemory Ram) (vq : Virtq) (ram : Ram) (descIdx : BitVec 16) : Prop :=
  ∀ fuel taken readFound writeFound,
    vq.getDescRwAvailLen guest fuel ram descIdx = .ok (taken, readFound, writeFound) →
    (taken = true ↔ ∃ descs, Chain guest vq ram descIdx descs ∧ Ordered descs) ∧
    ∀ descs, Chain guest vq ram descIdx descs → taken = true →
      readFound.toNat = bufferSize (readable descs) ∧
        writeFound.toNat = bufferSize (writable descs)

section Calls

variable {guest : GuestMemory Ram} {vq : Virtq} {ram : Ram} {descIdx : BitVec 16}
  {descs : List VirtqDesc}

/-- The lengths are right exactly if none of them wraps around. -/
theorem lengthsRight_iff (listed : Listed guest vq ram descIdx descs) :
    LengthsRight guest vq ram descIdx ↔
      (Chain guest vq ram descIdx descs → Ordered descs →
        bufferSize (readable descs) < 2 ^ 32 ∧ bufferSize (writable descs) < 2 ^ 32) := by
  have taken_iff {fuel : Nat} {taken : Bool} {readFound writeFound : BitVec 32}
      (ran : vq.getDescRwAvailLen guest fuel ram descIdx = .ok (taken, readFound, writeFound)) :
      (taken = true ↔ Chain guest vq ram descIdx descs ∧ Ordered descs) ∧
      (taken = true → readFound = BitVec.ofNat 32 (bufferSize (readable descs)) ∧
        writeFound = BitVec.ofNat 32 (bufferSize (writable descs))) := by
    have found := rwAvailLen_listed listed ran
    simpa using found
  constructor
  · intro right chain ordered
    obtain ⟨fuel, ⟨taken, readFound, writeFound⟩, ran⟩ :
        Finishes fun fuel => vq.getDescRwAvailLen guest fuel ram descIdx :=
      (rwAvailLen_finishes descIdx 0 0 false).mpr fun endless =>
        listed.not_endless (lengths_chain endless)
    have took := (taken_iff ran).1.mpr ⟨chain, ordered⟩
    obtain ⟨readTotal, writeTotal⟩ := (right fuel taken readFound writeFound ran).2 descs chain took
    rw [← readTotal, ← writeTotal]
    exact ⟨readFound.isLt, writeFound.isLt⟩
  · intro short fuel taken readFound writeFound ran
    obtain ⟨took, lengths⟩ := taken_iff ran
    constructor
    · rw [took]
      constructor
      · exact fun whole => ⟨descs, whole⟩
      · rintro ⟨others, chain, ordered⟩
        obtain rfl := listed.chain_unique chain
        exact ⟨chain, ordered⟩
    · intro others chain yes
      obtain rfl := listed.chain_unique chain
      obtain ⟨readShort, writeShort⟩ := short chain (took.mp yes).2
      obtain ⟨rfl, rfl⟩ := lengths yes
      rw [BitVec.toNat_ofNat, BitVec.toNat_ofNat, Nat.mod_eq_of_lt readShort,
        Nat.mod_eq_of_lt writeShort]
      exact ⟨rfl, rfl⟩

theorem readDescMem_gathered (sized : guest.Sized) (listed : Listed guest vq ram descIdx descs)
    {startOff len : BitVec 32} (inside : startOff.toNat + len.toNat < 2 ^ 32)
    (fits : EndFits (startOff.toNat + len.toNat) 0 (readable descs)) :
    (Finishes fun fuel => vq.readDescMem guest fuel ram descIdx startOff len) ∧
    ∀ fuel result, vq.readDescMem guest fuel ram descIdx startOff len = .ok result →
      result = gathered guest ram startOff.toNat len.toNat (readable descs) := by
  by_cases empty : len = 0
  · subst empty
    constructor
    · exact ⟨0, _, rfl⟩
    · intro fuel result ran
      cases ran
      rfl
  · have positive : 0 < len.toNat := Nat.pos_of_ne_zero fun zero =>
      empty (BitVec.eq_of_toNat_eq zero)
    have sum : (startOff + len).toNat = startOff.toNat + len.toNat := by
      rw [BitVec.toNat_add, Nat.mod_eq_of_lt inside]
    have zero : (0 : BitVec 32).toNat = 0 := rfl
    have nonempty : ¬len.toNat = 0 := Nat.ne_of_gt positive
    simp only [Virtq.readDescMem, if_neg empty]
    constructor
    · exact (readDescLoop_finishes descIdx 0 _).mpr fun endless =>
        listed.not_endless (read_chain endless)
    · intro fuel result ran
      rw [← sum, ← zero] at fits
      rw [readDescLoop_outcome sized listed (by omega) (by omega)
        (by rw [List.length_replicate]; omega) fits ran]
      rw [readOutcome, gathered, if_neg nonempty, zero, sum]
      simp only [Nat.zero_add, Nat.sub_zero, Nat.zero_sub, List.take_zero, List.nil_append]
      rw [Nat.max_eq_right (Nat.zero_le _), Nat.add_sub_cancel_left]
      split
      · exact Option.map_id'
      · rfl

theorem writeDescMem_scattered (kept : ChainKept guest vq ram descIdx descs)
    {startOff : BitVec 32} {data : List Byte} (inside : startOff.toNat + data.length < 2 ^ 32)
    (fits : EndFits (startOff.toNat + data.length) 0 (writable descs)) :
    (Finishes fun fuel => vq.writeDescMem guest fuel ram descIdx startOff data) ∧
    ∀ fuel success later,
      vq.writeDescMem guest fuel ram descIdx startOff data = .ok (success, later) →
      (if success then some later else none) =
        scattered guest ram startOff.toNat data (writable descs) := by
  have length : (BitVec.ofNat 32 data.length).toNat = data.length := by
    rw [BitVec.toNat_ofNat, Nat.mod_eq_of_lt (by omega)]
  by_cases empty : BitVec.ofNat 32 data.length = 0
  · have none : data.length = 0 := by
      rw [← length, empty]
      rfl
    simp only [Virtq.writeDescMem, if_pos empty]
    constructor
    · exact ⟨0, _, rfl⟩
    · intro fuel success later ran
      cases ran
      rw [scattered, if_pos none]
      rfl
  · have positive : 0 < data.length := by
      apply Nat.pos_of_ne_zero
      intro none
      rw [none] at empty
      exact empty rfl
    have sum : (startOff + BitVec.ofNat 32 data.length).toNat = startOff.toNat + data.length := by
      rw [BitVec.toNat_add, length, Nat.mod_eq_of_lt inside]
    have zero : (0 : BitVec 32).toNat = 0 := rfl
    have nonempty : ¬data.length = 0 := Nat.ne_of_gt positive
    have starts : startOff.toNat < (startOff + BitVec.ofNat 32 data.length).toNat := by omega
    have before : (0 : BitVec 32).toNat < (startOff + BitVec.ofNat 32 data.length).toNat := by omega
    rw [← sum, ← zero] at fits
    simp only [Virtq.writeDescMem, if_neg empty]
    constructor
    · obtain ⟨answer, ran⟩ := writeDescLoop_ends starts descs kept (fun _ member => member) before
        fits
      exact ⟨_, answer, ran⟩
    · intro fuel success later ran
      rw [writeDescLoop_outcome starts descs kept (fun _ member => member) before fits ran]
      rw [writeOutcome, scattered, if_neg nonempty, zero, sum]
      simp only [Nat.zero_add, Nat.sub_zero, Nat.zero_sub, List.drop_zero]
      rw [Nat.max_eq_right (Nat.zero_le _), Nat.add_sub_cancel_left]

end Calls

/-- Two descriptors of 2^31 bytes to read each; every other byte of this memory is zero. -/
def halvesGuest : GuestMemory Unit where
  readMemory _ address length :=
    some ((List.range length).map fun offset =>
      if address.toNat + offset = 11 ∨ address.toNat + offset = 27 then 0x80
      else if address.toNat + offset = 12 ∨ address.toNat + offset = 14 then 1
      else 0)
  writeMemory _ _ _ := some ()

theorem halvesGuest_sized : halvesGuest.Sized := by
  rintro ram address length data ⟨⟩
  simp

def halvesQueue : Virtq := ⟨0, 0, 0, 2, 0, 1⟩

def halves : List VirtqDesc := [⟨0, 0x80000000, 1, 1⟩, ⟨0, 0x80000000, 0, 0⟩]

theorem halves_listed : Listed halvesGuest halvesQueue () 1 halves.tail := by
  apply Listed.final
  · decide
  · decide

end MachineEmulator.Virtio
