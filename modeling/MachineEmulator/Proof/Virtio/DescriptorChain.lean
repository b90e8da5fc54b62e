/-
This file says which bytes of a descriptor chain a device reads, and when the 32-bit lengths of the
code agree with them.
-/

import MachineEmulator.Construction.Virtio.Virtqueue

namespace MachineEmulator.Virtio

open Virtq (Chunk chunk readChunk)

variable {Ram : Type}

/-- A read that succeeds gives as many bytes as were asked for. -/
def GuestMemory.Sized (guest : GuestMemory Ram) : Prop :=
  ∀ ram address length data, guest.readMemory ram address length = some data → data.length = length

/-- The descriptors of a chain, from its first one to the one without a successor. -/
inductive Chain (guest : GuestMemory Ram) (vq : Virtq) (ram : Ram) :
    BitVec 16 → List VirtqDesc → Prop
  | final {descIdx : BitVec 16} {desc : VirtqDesc} (there : vq.getDesc guest ram descIdx = some desc)
      (ends : desc.hasNext = false) : Chain guest vq ram descIdx [desc]
  | next {descIdx : BitVec 16} {desc : VirtqDesc} {rest : List VirtqDesc}
      (there : vq.getDesc guest ram descIdx = some desc) (goes : desc.hasNext = true)
      (chain : Chain guest vq ram desc.next rest) : Chain guest vq ram descIdx (desc :: rest)

/-- A buffer in the memory of the guest: its address and its size. -/
abbrev Buffers := List (Word × Nat)

/-- The buffers of a chain that are for the device to read. -/
def readable (descs : List VirtqDesc) : Buffers :=
  (descs.filter fun desc => !desc.isWrite).map fun desc => (desc.paddr, desc.len.toNat)

def bufferSize (buffers : Buffers) : Nat := (buffers.map Prod.snd).sum

/-- The buffers without their first bytes. -/
def dropBytes : Nat → Buffers → Buffers
  | _, [] => []
  | count, (paddr, size) :: rest =>
      if size ≤ count then dropBytes (count - size) rest
      else (paddr + BitVec.ofNat 64 count, size - count) :: dropBytes 0 rest

/-- The bytes in buffers, one buffer after the other. -/
def gather (guest : GuestMemory Ram) (ram : Ram) : Buffers → Option (List Byte)
  | [] => some []
  | (paddr, size) :: rest => do
      let data ← guest.readMemory ram paddr size
      let more ← gather guest ram rest
      return data ++ more

/-- A frame has exactly the bytes of a chain behind a header. -/
def ExactFrame (guest : GuestMemory Ram) (vq : Virtq) (ram : Ram) (descIdx : BitVec 16)
    (headerSize : Nat) (frame : List Byte) : Prop :=
  ∃ descs, Chain guest vq ram descIdx descs ∧
    gather guest ram (dropBytes headerSize (readable descs)) = some frame

/-- The buffers to read have less than 2^32 bytes. -/
def ShortChain (guest : GuestMemory Ram) (vq : Virtq) (ram : Ram) (descIdx : BitVec 16) : Prop :=
  ∃ descs, Chain guest vq ram descIdx descs ∧ bufferSize (readable descs) < 2 ^ 32

/-- No buffer to read comes after one to write. -/
inductive Ordered : List VirtqDesc → Prop
  | writes {descs : List VirtqDesc} (all : ∀ desc ∈ descs, desc.isWrite = true) : Ordered descs
  | read {desc : VirtqDesc} {rest : List VirtqDesc} (reads : desc.isWrite = false)
      (ordered : Ordered rest) : Ordered (desc :: rest)

section Buffers

variable {guest : GuestMemory Ram} {vq : Virtq} {ram : Ram}

theorem Chain.unique {descIdx : BitVec 16} {first second : List VirtqDesc}
    (left : Chain guest vq ram descIdx first) (right : Chain guest vq ram descIdx second) :
    first = second := by
  induction left generalizing second with
  | final there ends =>
      cases right with
      | final there' ends' =>
          rw [Option.some.inj (there.symm.trans there')]
      | next there' goes' chain' =>
          rw [Option.some.inj (there.symm.trans there'), goes'] at ends
          cases ends
  | next there goes chain ih =>
      cases right with
      | final there' ends' =>
          rw [Option.some.inj (there.symm.trans there'), ends'] at goes
          cases goes
      | next there' goes' chain' =>
          obtain rfl := Option.some.inj (there.symm.trans there')
          rw [ih chain']

@[simp] theorem readable_nil : readable [] = [] := rfl

theorem readable_read {desc : VirtqDesc} {rest : List VirtqDesc} (reads : desc.isWrite = false) :
    readable (desc :: rest) = (desc.paddr, desc.len.toNat) :: readable rest := by
  simp [readable, reads]

theorem readable_write {desc : VirtqDesc} {rest : List VirtqDesc} (writes : desc.isWrite = true) :
    readable (desc :: rest) = readable rest := by
  simp [readable, writes]

theorem readable_writes {descs : List VirtqDesc} (all : ∀ desc ∈ descs, desc.isWrite = true) :
    readable descs = [] := by
  simpa [readable] using all

@[simp] theorem bufferSize_cons (paddr : Word) (size : Nat) (rest : Buffers) :
    bufferSize ((paddr, size) :: rest) = size + bufferSize rest := by
  simp [bufferSize]

theorem Ordered.tail {desc : VirtqDesc} {rest : List VirtqDesc} (ordered : Ordered (desc :: rest)) :
    Ordered rest := by
  cases ordered with
  | writes all => exact .writes fun other member => all other (by simp [member])
  | read reads ordered => exact ordered

/-- Behind a buffer to write there is nothing to read. -/
theorem Ordered.readable_of_write {desc : VirtqDesc} {rest : List VirtqDesc}
    (ordered : Ordered (desc :: rest)) (writes : desc.isWrite = true) :
    readable (desc :: rest) = [] := by
  cases ordered with
  | writes all => exact readable_writes all
  | read reads _ =>
      rw [writes] at reads
      cases reads

/-- Nothing is left of buffers that are dropped whole. -/
theorem dropBytes_all : ∀ {count : Nat} {buffers : Buffers}, bufferSize buffers ≤ count →
    dropBytes count buffers = []
  | _, [], _ => rfl
  | count, (paddr, size) :: rest, covered => by
      rw [bufferSize_cons] at covered
      rw [dropBytes, if_pos (by omega)]
      exact dropBytes_all (by omega)

theorem length_gather (sized : guest.Sized) : ∀ {buffers : Buffers} {data : List Byte},
    gather guest ram buffers = some data → data.length = bufferSize buffers
  | [], data, gathered => by
      cases gathered
      rfl
  | (paddr, size) :: rest, data, gathered => by
      simp only [gather, Option.bind_eq_bind, Option.bind_eq_some_iff] at gathered
      obtain ⟨bytes, read, more, others, same⟩ := gathered
      cases same
      rw [List.length_append, sized _ _ _ _ read, length_gather sized others, bufferSize_cons]

theorem bufferSize_dropBytes : ∀ {count : Nat} {buffers : Buffers},
    bufferSize (dropBytes count buffers) = bufferSize buffers - count
  | count, [] => by simp [dropBytes, bufferSize]
  | count, (paddr, size) :: rest => by
      rw [dropBytes]
      split
      · rw [bufferSize_dropBytes, bufferSize_cons]
        omega
      · rw [bufferSize_cons, bufferSize_dropBytes, bufferSize_cons]
        omega

end Buffers

section Lengths

variable {guest : GuestMemory Ram} {vq : Virtq} {ram : Ram}

/-- A chain that the device parses ends, has its buffers to read in front, and the length found is
their size up to a multiple of 2^32. -/
theorem rwAvailLen_chain : ∀ {fuel : Nat} {descIdx : BitVec 16} {readLen writeLen : BitVec 32}
    {writePart : Bool} {readFound writeFound : BitVec 32},
    vq.rwAvailLen guest ram fuel descIdx readLen writeLen writePart =
      .ok (true, readFound, writeFound) →
    ∃ descs, Chain guest vq ram descIdx descs ∧ Ordered descs ∧
      (writePart = true → ∀ desc ∈ descs, desc.isWrite = true) ∧
      readFound = readLen + BitVec.ofNat 32 (bufferSize (readable descs)) := by
  intro fuel
  induction fuel with
  | zero =>
      intro _ _ _ _ _ _ ran
      cases ran
  | succ fuel ih =>
      intro descIdx readLen writeLen writePart readFound writeFound ran
      rw [Virtq.rwAvailLen] at ran
      split at ran
      · cases ran
      rename_i desc there
      split at ran
      · rename_i writes
        split at ran
        · rename_i goes
          obtain ⟨descs, chain, _, all, size⟩ := ih ran
          have everyWrite : ∀ other ∈ desc :: descs, other.isWrite = true := by
            simpa [writes] using all rfl
          refine ⟨desc :: descs, .next there goes chain, .writes everyWrite, fun _ => everyWrite, ?_⟩
          rw [readable_write writes]
          exact size
        · rename_i ends
          cases ran
          have everyWrite : ∀ other ∈ [desc], other.isWrite = true := by simpa using writes
          refine ⟨[desc], .final there (by simpa using ends), .writes everyWrite,
            fun _ => everyWrite, ?_⟩
          rw [readable_writes everyWrite]
          simp [bufferSize]
      · rename_i reads
        have reads : desc.isWrite = false := by simpa using reads
        split at ran
        · cases ran
        rename_i early
        split at ran
        · rename_i goes
          obtain ⟨descs, chain, ordered, _, size⟩ := ih ran
          refine ⟨desc :: descs, .next there goes chain, .read reads ordered,
            fun late => absurd late early, ?_⟩
          rw [readable_read reads, bufferSize_cons, size, BitVec.ofNat_add, BitVec.ofNat_toNat,
            BitVec.setWidth_eq, BitVec.add_assoc]
        · rename_i ends
          cases ran
          refine ⟨[desc], .final there (by simpa using ends), .read reads (.writes (by simp)),
            fun late => absurd late early, ?_⟩
          rw [readable_read reads, bufferSize_cons]
          simp [bufferSize]

end Lengths

section Reads

variable {guest : GuestMemory Ram} {vq : Virtq} {ram : Ram} {startOff endOff bufStartOff : BitVec 32}

/-- The part of a buffer to read that an access from an offset to the end of the chain meets. -/
theorem chunk_inside {desc : VirtqDesc} {total : Nat} (small : total < 2 ^ 32)
    (ends : endOff.toNat = total) (inside : bufStartOff.toNat + desc.len.toNat ≤ total) :
    (bufStartOff + desc.len).toNat = bufStartOff.toNat + desc.len.toNat ∧
    (chunk bufStartOff startOff endOff desc).paddrOff.toNat = startOff.toNat - bufStartOff.toNat ∧
    (chunk bufStartOff startOff endOff desc).dataOff.toNat = bufStartOff.toNat - startOff.toNat ∧
    (chunk bufStartOff startOff endOff desc).length.toNat =
      desc.len.toNat - (startOff.toNat - bufStartOff.toNat) ∧
    ((chunk bufStartOff startOff endOff desc).reachesEnd = true ↔
      bufStartOff.toNat + desc.len.toNat = total) := by
  have sum : (bufStartOff + desc.len).toNat = bufStartOff.toNat + desc.len.toNat := by
    rw [BitVec.toNat_add, Nat.mod_eq_of_lt (by omega)]
  have stop : (if endOff < bufStartOff + desc.len then endOff else bufStartOff + desc.len) =
      bufStartOff + desc.len := by
    rw [if_neg]
    rw [BitVec.lt_def, sum]
    omega
  refine ⟨sum, ?_, ?_, ?_, ?_⟩
  · simp only [chunk]
    split <;> rename_i before <;> rw [BitVec.lt_def] at before <;> bv_omega
  · simp only [chunk]
    split <;> rename_i before <;> rw [BitVec.lt_def] at before <;> bv_omega
  · simp only [chunk, stop]
    split <;> rename_i before <;> rw [BitVec.lt_def] at before <;> split <;> rename_i overlap <;>
      rw [BitVec.lt_def, sum] at overlap <;> bv_omega
  · simp only [chunk, stop, decide_eq_true_eq]
    rw [BitVec.le_def, sum]
    omega

/-- A read of a chunk places its bytes behind those before it. -/
theorem readChunk_spec (sized : guest.Sized) {desc : VirtqDesc} {part : Chunk}
    {data result : List Byte} (room : part.dataOff.toNat + part.length.toNat ≤ data.length)
    (ran : readChunk guest ram desc part data = some result) :
    result.length = data.length ∧ ∃ bytes,
      (if part.length = 0 then some []
        else guest.readMemory ram (desc.paddr + part.paddrOff.setWidth 64) part.length.toNat) =
          some bytes ∧ bytes.length = part.length.toNat ∧
      result.take (part.dataOff.toNat + part.length.toNat) = data.take part.dataOff.toNat ++ bytes := by
  rw [readChunk] at ran
  by_cases empty : part.length = 0
  · rw [if_pos empty] at ran ⊢
    cases ran
    refine ⟨rfl, [], rfl, ?_, ?_⟩
    · rw [empty]
      rfl
    · rw [empty]
      simp
  · rw [if_neg empty] at ran ⊢
    simp only [Option.bind_eq_bind, Option.bind_eq_some_iff] at ran
    obtain ⟨bytes, read, same⟩ := ran
    cases same
    have count := sized _ _ _ _ read
    have front : (data.take part.dataOff.toNat).length = part.dataOff.toNat := by
      rw [List.length_take]
      omega
    refine ⟨?_, bytes, read, count, ?_⟩
    · simp only [List.length_append, List.length_drop, front, count]
      omega
    · apply List.take_left'
      rw [List.length_append, front, count]

/-- A loop that succeeds has gathered the bytes of the buffers from its own offset on. -/
theorem readDescLoop_gathers (sized : guest.Sized) {total : Nat} (small : total < 2 ^ 32)
    (ends : endOff.toNat = total) {descs : List VirtqDesc} {descIdx : BitVec 16}
    (chain : Chain guest vq ram descIdx descs) (ordered : Ordered descs) :
    ∀ {fuel : Nat} (bufStartOff : BitVec 32) {data result : List Byte},
      bufStartOff.toNat + bufferSize (readable descs) = total → bufStartOff.toNat < total →
      data.length = total - startOff.toNat → startOff.toNat < total →
      vq.readDescLoop guest ram startOff endOff fuel descIdx bufStartOff data = .ok (some result) →
      ∃ more, gather guest ram
          (dropBytes (startOff.toNat - bufStartOff.toNat) (readable descs)) = some more ∧
        result = data.take (bufStartOff.toNat - startOff.toNat) ++ more := by
  -- One buffer of the chain, with what the loop does behind it.
  have buffer {descIdx : BitVec 16} {desc : VirtqDesc} {rest : List VirtqDesc}
      (there : vq.getDesc guest ram descIdx = some desc) (ordered : Ordered (desc :: rest))
      (onwards : desc.hasNext = true → ∀ {fuel : Nat} {bufStartOff : BitVec 32}
        {data result : List Byte},
        bufStartOff.toNat + bufferSize (readable rest) = total → bufStartOff.toNat < total →
        data.length = total - startOff.toNat → startOff.toNat < total →
        vq.readDescLoop guest ram startOff endOff fuel desc.next bufStartOff data =
          .ok (some result) →
        ∃ more, gather guest ram
            (dropBytes (startOff.toNat - bufStartOff.toNat) (readable rest)) = some more ∧
          result = data.take (bufStartOff.toNat - startOff.toNat) ++ more)
      {fuel : Nat} {bufStartOff : BitVec 32} {data result : List Byte}
      (size : bufStartOff.toNat + bufferSize (readable (desc :: rest)) = total)
      (before : bufStartOff.toNat < total) (room : data.length = total - startOff.toNat)
      (inside : startOff.toNat < total)
      (ran : vq.readDescLoop guest ram startOff endOff fuel descIdx bufStartOff data =
        .ok (some result)) :
      ∃ more, gather guest ram
          (dropBytes (startOff.toNat - bufStartOff.toNat) (readable (desc :: rest))) = some more ∧
        result = data.take (bufStartOff.toNat - startOff.toNat) ++ more := by
    cases fuel with
    | zero => cases ran
    | succ fuel =>
        rw [Virtq.readDescLoop, there] at ran
        dsimp only at ran
        cases reads : desc.isWrite with
        | true =>
            rw [ordered.readable_of_write reads] at size
            simp only [bufferSize, List.map_nil, List.sum_nil] at size
            omega
        | false =>
            rw [readable_read reads, bufferSize_cons] at size
            rw [if_neg (by simp [reads])] at ran
            obtain ⟨sum, paddrOff, dataOff, length, reaches⟩ :=
              @chunk_inside startOff endOff bufStartOff desc total small ends (by omega)
            generalize chunk bufStartOff startOff endOff desc = part at *
            split at ran
            · cases ran
            rename_i filled readsChunk
            obtain ⟨kept, bytes, found, count, placed⟩ :=
              readChunk_spec sized (by omega) readsChunk
            have gathered {more : List Byte} (others : gather guest ram
                (dropBytes (startOff.toNat - (bufStartOff.toNat + desc.len.toNat)) (readable rest)) =
                  some more) : gather guest ram
                (dropBytes (startOff.toNat - bufStartOff.toNat) (readable (desc :: rest))) =
                  some (bytes ++ more) := by
              rw [readable_read reads, dropBytes]
              by_cases skipped : desc.len.toNat ≤ startOff.toNat - bufStartOff.toNat
              · have vanishes : part.length = 0 := by
                  apply BitVec.eq_of_toNat_eq
                  rw [length]
                  exact Nat.sub_eq_zero_of_le skipped
                rw [if_pos vanishes] at found
                cases found
                rw [if_pos skipped, List.nil_append, ← others]
                congr 2
                omega
              · have inside : part.length ≠ 0 := by
                  intro vanishes
                  rw [vanishes] at length
                  simp only [BitVec.ofNat_eq_ofNat, BitVec.toNat_ofNat] at length
                  omega
                rw [if_neg inside] at found
                have place : part.paddrOff.setWidth 64 =
                    BitVec.ofNat 64 (startOff.toNat - bufStartOff.toNat) := by
                  apply BitVec.eq_of_toNat_eq
                  rw [BitVec.toNat_setWidth, paddrOff, BitVec.toNat_ofNat]
                have vanishes : startOff.toNat - (bufStartOff.toNat + desc.len.toNat) = 0 := by omega
                rw [vanishes] at others
                rw [place, length] at found
                rw [if_neg skipped, gather, found, others]
                rfl
            have reached : filled.take (bufStartOff.toNat + desc.len.toNat - startOff.toNat) =
                data.take (bufStartOff.toNat - startOff.toNat) ++ bytes := by
              rw [← dataOff, ← placed]
              congr 1
              omega
            split at ran
            · rename_i atEnd
              cases ran
              have done := reaches.mp atEnd
              have nothing : dropBytes (startOff.toNat - (bufStartOff.toNat + desc.len.toNat))
                  (readable rest) = [] := dropBytes_all (by omega)
              refine ⟨bytes ++ [], gathered (by rw [nothing]; rfl), ?_⟩
              rw [List.append_nil, ← reached, done, List.take_of_length_le]
              omega
            · rename_i onward
              split at ran
              · rename_i goes
                have notEnd : bufStartOff.toNat + desc.len.toNat ≠ total := fun same =>
                  onward (reaches.mpr same)
                obtain ⟨more, others, same⟩ := onwards goes (by omega) (by omega) (by omega) inside ran
                rw [sum] at others same
                refine ⟨bytes ++ more, gathered others, ?_⟩
                rw [same, reached, List.append_assoc]
              · cases ran
  induction chain with
  | final there notNext =>
      intro _ _ _ _
      apply buffer there ordered
      intro goes
      rw [notNext] at goes
      cases goes
  | next there goes chain ih =>
      intro _ _ _ _
      exact buffer there ordered fun _ => ih ordered.tail _

/-- A chunk lies inside the access it is a part of. -/
theorem chunk_room {desc : VirtqDesc} (forward : startOff ≤ endOff) :
    (chunk bufStartOff startOff endOff desc).length = 0 ∨
      (chunk bufStartOff startOff endOff desc).dataOff.toNat +
        (chunk bufStartOff startOff endOff desc).length.toNat ≤ endOff.toNat - startOff.toNat := by
  have late : startOff ≤ (if bufStartOff < startOff then startOff else bufStartOff) := by
    split
    · exact BitVec.le_refl _
    · rename_i before
      rw [BitVec.lt_def] at before
      rw [BitVec.le_def]
      omega
  have early : (if endOff < bufStartOff + desc.len then endOff else bufStartOff + desc.len) ≤
      endOff := by
    split
    · exact BitVec.le_refl _
    · rename_i after
      rw [BitVec.lt_def] at after
      rw [BitVec.le_def]
      omega
  simp only [chunk]
  generalize (if bufStartOff < startOff then startOff else bufStartOff) = first at *
  generalize (if endOff < bufStartOff + desc.len then endOff else bufStartOff + desc.len) = final at *
  rw [BitVec.le_def] at forward late early
  split
  · rename_i overlap
    rw [BitVec.lt_def] at overlap
    right
    bv_omega
  · exact .inl rfl

theorem readChunk_length (sized : guest.Sized) {desc : VirtqDesc} {part : Chunk}
    {data result : List Byte}
    (room : part.length = 0 ∨ part.dataOff.toNat + part.length.toNat ≤ data.length)
    (ran : readChunk guest ram desc part data = some result) : result.length = data.length := by
  rcases room with empty | room
  · rw [readChunk, if_pos empty] at ran
    cases ran
    rfl
  · exact (readChunk_spec sized room ran).1

/-- The loop fills a buffer of the length that it is given. -/
theorem readDescLoop_length (sized : guest.Sized) (forward : startOff ≤ endOff) :
    ∀ {fuel : Nat} {descIdx : BitVec 16} {bufStartOff : BitVec 32} {data result : List Byte},
      data.length = endOff.toNat - startOff.toNat →
      vq.readDescLoop guest ram startOff endOff fuel descIdx bufStartOff data = .ok (some result) →
      result.length = endOff.toNat - startOff.toNat := by
  intro fuel
  induction fuel with
  | zero =>
      intro _ _ _ _ _ ran
      cases ran
  | succ fuel ih =>
      intro descIdx bufStartOff data result size ran
      rw [Virtq.readDescLoop] at ran
      split at ran
      · cases ran
      split at ran
      · split at ran
        · exact ih size ran
        · cases ran
      dsimp only at ran
      split at ran
      · cases ran
      rename_i filled reads
      have kept := readChunk_length sized (by
        rw [size]
        exact chunk_room forward) reads
      split at ran
      · cases ran
        exact kept.trans size
      split at ran
      · exact ih (kept.trans size) ran
      · cases ran

/-- What a device reads of a chain behind a header, by the length it has found before. -/
def readBehind (guest : GuestMemory Ram) (vq : Virtq) (fuel : Nat) (ram : Ram)
    (descIdx : BitVec 16) (headerSize dataLen : BitVec 32) : Except Failure (Option (List Byte)) :=
  if 0 < dataLen then vq.readDescMem guest fuel ram descIdx headerSize dataLen else .ok (some [])

theorem length_readBehind (sized : guest.Sized) {fuel : Nat} {descIdx : BitVec 16}
    {headerSize readFound : BitVec 32} {data : List Byte} (enough : headerSize ≤ readFound)
    (ran : readBehind guest vq fuel ram descIdx headerSize (readFound - headerSize) =
      .ok (some data)) : data.length = readFound.toNat - headerSize.toNat := by
  have difference : (readFound - headerSize).toNat = readFound.toNat - headerSize.toNat := by
    rw [BitVec.le_def] at enough
    bv_omega
  have sum : headerSize + (readFound - headerSize) = readFound := by bv_omega
  rw [readBehind] at ran
  split at ran
  · rename_i positive
    have nonempty : readFound - headerSize ≠ 0 := by
      intro zero
      rw [zero] at positive
      cases positive
    rw [Virtq.readDescMem, if_neg nonempty, sum] at ran
    exact readDescLoop_length sized enough (by rw [List.length_replicate, difference]) ran
  · rename_i empty
    cases ran
    rw [BitVec.lt_def, difference] at empty
    simp only [List.length_nil]
    have zero : (0 : BitVec 32).toNat = 0 := rfl
    omega

/-- A frame is exact if and only if the chain has less than 2^32 bytes to read. -/
theorem exactFrame_iff_short (sized : guest.Sized) {fuel : Nat} {descIdx : BitVec 16}
    {headerSize readFound writeFound : BitVec 32} {data : List Byte}
    (parsed : vq.getDescRwAvailLen guest fuel ram descIdx = .ok (true, readFound, writeFound))
    (enough : headerSize ≤ readFound)
    (ran : readBehind guest vq fuel ram descIdx headerSize (readFound - headerSize) =
      .ok (some data)) :
    ExactFrame guest vq ram descIdx headerSize.toNat data ↔ ShortChain guest vq ram descIdx := by
  obtain ⟨descs, chain, ordered, _, found⟩ := rwAvailLen_chain parsed
  have size : readFound.toNat = bufferSize (readable descs) % 2 ^ 32 := by
    rw [found, BitVec.toNat_add, BitVec.toNat_ofNat]
    simp
  have length := length_readBehind sized enough ran
  rw [BitVec.le_def] at enough
  have less : bufferSize (readable descs) % 2 ^ 32 ≤ bufferSize (readable descs) := Nat.mod_le _ _
  constructor
  · rintro ⟨others, chain', gathered⟩
    obtain rfl := chain.unique chain'
    refine ⟨descs, chain, ?_⟩
    have same := length_gather sized gathered
    rw [bufferSize_dropBytes] at same
    have bound : bufferSize (readable descs) % 2 ^ 32 < 2 ^ 32 := Nat.mod_lt _ (by decide)
    omega
  · rintro ⟨others, chain', short⟩
    obtain rfl := chain.unique chain'
    rw [Nat.mod_eq_of_lt short] at size
    refine ⟨descs, chain, ?_⟩
    rw [readBehind] at ran
    split at ran
    · rename_i positive
      have nonempty : readFound - headerSize ≠ 0 := by
        intro zero
        rw [zero] at positive
        cases positive
      have more : headerSize.toNat < bufferSize (readable descs) := by
        rw [← size]
        bv_omega
      have sum : headerSize + (readFound - headerSize) = readFound := by bv_omega
      have difference : (readFound - headerSize).toNat = readFound.toNat - headerSize.toNat := by
        bv_omega
      rw [Virtq.readDescMem, if_neg nonempty, sum] at ran
      obtain ⟨rest, gathered, same⟩ := readDescLoop_gathers sized short size chain ordered
        0 (by simp) (by
          show 0 < _
          omega) (by rw [List.length_replicate, difference, size]) more ran
      simp only [BitVec.ofNat_eq_ofNat, BitVec.toNat_ofNat, Nat.zero_mod, Nat.sub_zero,
        Nat.zero_sub, List.take_zero, List.nil_append] at gathered same
      rw [gathered, same]
    · rename_i empty
      cases ran
      rw [dropBytes_all]
      · rfl
      · rw [List.length_nil] at length
        omega

end Reads

end MachineEmulator.Virtio
