/-
This file proves that the functions that write and fill the physical memory put their bytes in and leave
every other byte as it is, also when they fail.
-/

import MachineEmulator.Proof.Machine.PhysicalMemory

namespace MachineEmulator.Machine

open Overlay MachineAddressRanges

section Chunks

variable {State View : Type} {alignment low : Nat} {Holds : State → Prop}
  {f : Nat → Nat → State → State} {view : State → View} {whole : Nat → Nat → View → View}

/-- What the chunks do one by one, the whole does at once. -/
structure Chunked (low : Nat) (Holds : State → Prop) (f : Nat → Nat → State → State)
    (view : State → View) (whole : Nat → Nat → View → View) : Prop where
  keeps : ∀ start length state, Holds state → Holds (f start length state)
  chunk : ∀ start length state, low ≤ start → Holds state →
    view (f start length state) = whole start length (view state)
  none : ∀ start seen, whole start 0 seen = seen
  add : ∀ start first second seen, low ≤ start →
    whole start (first + second) seen = whole (start + first) second (whole start first seen)

theorem Chunked.wholeChunks_eq (chunked : Chunked low Holds f view whole) (alignment rounds : Nat)
    {start : Nat} {state : State} (above : low ≤ start) (holds : Holds state) :
    Holds (wholeChunks alignment f rounds start state) ∧
      view (wholeChunks alignment f rounds start state) =
        whole start (rounds * alignment) (view state) := by
  induction rounds generalizing start state with
  | zero => exact ⟨holds, by rw [Nat.zero_mul, chunked.none, wholeChunks]⟩
  | succ rounds ih =>
      obtain ⟨kept, rest⟩ := ih (show low ≤ start + alignment by omega)
        (chunked.keeps start alignment state holds)
      refine ⟨kept, ?_⟩
      rw [wholeChunks, rest, chunked.chunk _ _ _ above holds, Nat.succ_mul,
        Nat.add_comm (rounds * alignment), chunked.add _ _ _ _ above]

theorem Chunked.foreachAlignedChunk_eq (chunked : Chunked low Holds f view whole) {start length : Nat}
    {state : State} (above : low ≤ start) (holds : Holds state) :
    view (foreachAlignedChunk alignment f start length state) = whole start length (view state) := by
  obtain ⟨firstLength, begun, short, equal, kept, first⟩ : ∃ firstLength begun,
      firstLength ≤ length ∧ foreachAlignedChunk alignment f start length state =
        (let rest := length - firstLength
        let state := wholeChunks alignment f (rest / alignment) (start + firstLength) begun
        if rest % alignment ≠ 0 then
          f (start + firstLength + rest / alignment * alignment) (rest % alignment) state
        else state) ∧ Holds begun ∧ view begun = whole start firstLength (view state) := by
    by_cases aligned : start % alignment = 0
    · refine ⟨0, state, Nat.zero_le _, ?_, holds, (chunked.none _ _).symm⟩
      simp [foreachAlignedChunk, aligned]
    · refine ⟨min length (alignment - start % alignment), f start _ state, Nat.min_le_left _ _, ?_,
        chunked.keeps _ _ _ holds, chunked.chunk _ _ _ above holds⟩
      simp [foreachAlignedChunk, aligned]
  obtain ⟨rest, rfl⟩ := Nat.exists_eq_add_of_le short
  obtain ⟨kept, middle⟩ := chunked.wholeChunks_eq alignment (rest / alignment)
    (show low ≤ start + firstLength by omega) kept
  rw [first, ← chunked.add _ _ _ _ above] at middle
  have parts : firstLength + rest = firstLength + rest / alignment * alignment + rest % alignment := by
    have := Nat.div_add_mod' rest alignment
    omega
  rw [equal]
  simp only [Nat.add_sub_cancel_left]
  split
  · rw [chunked.chunk _ _ _ (by omega) kept, middle, Nat.add_assoc start, ← chunked.add _ _ _ _ above,
      ← parts]
  · next done =>
      rw [middle, parts, not_not.mp done, Nat.add_zero]

end Chunks

section Ranges

variable {range : HostRange} {paddr low : Nat} {data : Nat → Byte} {val : Byte}

theorem clean_copyTo (offset : Nat) (bytes : List Byte) :
    (range.copyTo offset bytes).clean = range.clean.copyTo offset bytes := rfl

theorem copyTo_zero (offset : Nat) : range.copyTo offset [] = range := by
  rw [HostRange.copyTo, put_nil]

theorem copyTo_add (offset : Nat) (first second : List Byte) : range.copyTo offset (first ++ second) =
    (range.copyTo offset first).copyTo (offset + first.length) second := by
  rw [HostRange.copyTo, put_append]
  rfl

/-- Bytes that are there already change nothing. -/
theorem copyTo_same {offset : Nat} {bytes : List Byte}
    (same : slice range.hostMemory offset bytes.length = bytes) : range.copyTo offset bytes = range := by
  rw [HostRange.copyTo, put_of_slice same]

theorem clean_writeChunk (range : HostRange) (paddr : Nat) (data : Nat → Byte)
    (chunkStart chunkLength : Nat) :
    (HostMachine.writeChunk paddr data chunkStart chunkLength range).clean =
      range.clean.copyTo (chunkStart - range.start.toNat) (slice data (chunkStart - paddr) chunkLength) := by
  rw [HostMachine.writeChunk]
  split
  · exact HostRange.clean_markDirtyPageAndUp _
  · next same =>
      rw [copyTo_same]
      rw [length_slice]
      exact not_not.mp same

theorem clean_fillChunk (range : HostRange) (val : Byte) (chunkStart chunkLength : Nat) :
    (HostMachine.fillChunk val chunkStart chunkLength range).clean =
      range.clean.copyTo (chunkStart - range.start.toNat) (List.replicate chunkLength val) := by
  rw [HostMachine.fillChunk]
  split
  · exact HostRange.clean_markDirtyPageAndUp _
  · next same =>
      rw [not_or, not_not, not_not, HostMachine.isPristine, List.all_eq_true] at same
      obtain ⟨rfl, zeros⟩ := same
      rw [copyTo_same]
      rw [List.length_replicate, List.eq_replicate_iff]
      exact ⟨length_slice, fun byte member => of_decide_eq_true (zeros byte member)⟩

/-- The chunks of a write put the data in. -/
theorem clean_writeChunks (inside : range.start.toNat ≤ paddr) (length : Nat) :
    (foreachAlignedChunk arPageSize (HostMachine.writeChunk paddr data) paddr length range).clean =
      range.clean.copyTo (paddr - range.start.toNat) (slice data 0 length) := by
  have chunked : Chunked paddr (fun other : HostRange => other.start = range.start)
      (HostMachine.writeChunk paddr data) HostRange.clean fun chunkStart chunkLength seen =>
        seen.copyTo (chunkStart - range.start.toNat) (slice data (chunkStart - paddr) chunkLength) := by
    constructor
    · intro start length state holds
      have same := congrArg (fun range => range.start)
        (clean_writeChunk state paddr data start length)
      exact same.trans holds
    · intro start length state _ holds
      rw [clean_writeChunk, holds]
    · intro start seen
      exact copyTo_zero _
    · intro start first second seen above
      have offset : start + first - range.start.toNat = start - range.start.toNat + first := by omega
      have place : start + first - paddr = start - paddr + first := by omega
      rw [slice_add, copyTo_add, length_slice, offset, place]
  rw [chunked.foreachAlignedChunk_eq le_rfl rfl, Nat.sub_self]

theorem clean_fillChunks (inside : range.start.toNat ≤ paddr) (length : Nat) :
    (foreachAlignedChunk arPageSize (HostMachine.fillChunk val) paddr length range).clean =
      range.clean.copyTo (paddr - range.start.toNat) (List.replicate length val) := by
  have chunked : Chunked paddr (fun other : HostRange => other.start = range.start)
      (HostMachine.fillChunk val) HostRange.clean fun chunkStart chunkLength seen =>
        seen.copyTo (chunkStart - range.start.toNat) (List.replicate chunkLength val) := by
    constructor
    · intro start length state holds
      have same := congrArg (fun range => range.start)
        (clean_fillChunk state val start length)
      exact same.trans holds
    · intro start length state _ holds
      rw [clean_fillChunk, holds]
    · intro start seen
      exact copyTo_zero _
    · intro start first second seen above
      have offset : start + first - range.start.toNat = start - range.start.toNat + first := by omega
      rw [List.replicate_add, copyTo_add, List.length_replicate, offset]
  rw [chunked.foreachAlignedChunk_eq le_rfl rfl]

end Ranges

section Changes

variable {ranges : MachineAddressRanges} {range : HostRange} {index paddr : Nat} {bytes : List Byte}
  {change : HostRange → HostRange}

theorem map_change {A : Type} {f : HostRange → A} (found : ranges.all[index]? = some range)
    (same : f (change range) = f range) :
    (ranges.change index change).all.map f = ranges.all.map f := by
  apply List.ext_getElem?
  intro place
  rw [List.getElem?_map, List.getElem?_map, MachineAddressRanges.change, List.getElem?_modify]
  by_cases here : index = place
  · subst here
    rw [found]
    simp [same]
  · simp [here]

theorem memoryAt_modify {list : List HostRange} {address : Nat} (found : list[index]? = some range)
    (same : (change range).shape = range.shape) (outside : range.contains address = false) :
    memoryAt (list.modify index change) address = memoryAt list address := by
  have seen : ((list.modify index change).find? fun range => range.isMemory && range.contains address) =
      list.find? fun range => range.isMemory && range.contains address := by
    induction list generalizing index with
    | nil => simp at found
    | cons first rest ih =>
        cases index with
        | zero =>
            cases found
            have shaped : (change range).contains address = false :=
              (congrArg (fun range : HostRange => range.contains address) same).trans outside
            rw [List.modify_zero_cons, List.find?_cons_of_neg, List.find?_cons_of_neg]
            · simp [outside]
            · simp [shaped]
        | succ index =>
            rw [List.modify_succ_cons, List.find?_cons, List.find?_cons, ih found]
  rw [memoryAt, memoryAt, seen]

/-- Bytes that go in a memory range go in the memory. -/
theorem contents_change (sound : ranges.Sound) (found : ranges.all[index]? = some range)
    (isMemory : range.isMemory = true) (low : range.start.toNat ≤ paddr)
    (high : paddr + bytes.length ≤ range.finish.toNat)
    (copied : (change range).clean = range.clean.copyTo (paddr - range.start.toNat) bytes) :
    (ranges.change index change).Sound ∧
      (ranges.change index change).contents = put ranges.contents paddr bytes := by
  have same : (change range).shape = range.shape := by
    show (change range).clean.shape = (range.clean.copyTo (paddr - range.start.toNat) bytes).shape
    rw [copied]
  have sound' : (ranges.change index change).Sound := sound.of_shape (map_change found same) rfl
  refine ⟨sound', funext fun address => ?_⟩
  by_cases inside : range.contains address = true
  · have there : (ranges.change index change).all[index]? = some (change range) := by
      rw [MachineAddressRanges.change, List.getElem?_modify, found]
      simp
    have start : (change range).start = range.start := congrArg (fun range => range.start) same
    have memory : (change range).isMemory = range.isMemory :=
      congrArg (fun range => range.isMemory) same
    have within : (change range).contains address = true :=
      (congrArg (fun range : HostRange => range.contains address) same).trans inside
    have host : (change range).hostMemory = put range.hostMemory (paddr - range.start.toNat) bytes :=
      congrArg (fun range => range.hostMemory) copied
    obtain ⟨above, _⟩ := HostRange.contains_iff.mp inside
    rw [contents_of_mem sound' (List.mem_of_getElem? there) (memory.trans isMemory) within, host, start,
      put, put, contents_of_mem sound (List.mem_of_getElem? found) isMemory inside]
    have place : address - range.start.toNat - (paddr - range.start.toNat) = address - paddr := by omega
    rw [place]
    exact if_congr (by omega) rfl rfl
  · have outside := Bool.not_eq_true _ ▸ inside
    have kept : put ranges.contents paddr bytes address = ranges.contents address := by
      rw [HostRange.contains_iff] at inside
      by_cases before : address < paddr
      · exact put_of_lt before
      · exact put_of_ge (by omega)
    rw [kept]
    exact memoryAt_modify found same outside

end Changes

section Marks

variable {machine next last : HostMachine} {result : Except Failure Unit}

/-- Two machines whose ranges differ in their marks only. -/
structure SameBytes (machine next : HostMachine) : Prop where
  all : next.ranges.all.map HostRange.clean = machine.ranges.all.map HostRange.clean
  hashTree : next.ranges.hashTree = machine.ranges.hashTree

theorem SameBytes.refl : SameBytes machine machine := ⟨rfl, rfl⟩

theorem SameBytes.trans (first : SameBytes machine next) (second : SameBytes next last) :
    SameBytes machine last :=
  ⟨second.all.trans first.all, second.hashTree.trans first.hashTree⟩

theorem SameBytes.shape (same : SameBytes machine next) :
    next.ranges.all.map HostRange.shape = machine.ranges.all.map HostRange.shape := by
  have shaped := congrArg (List.map HostRange.shape) same.all
  rw [List.map_map, List.map_map] at shaped
  exact shaped

theorem SameBytes.sound (same : SameBytes machine next) (sound : machine.ranges.Sound) :
    next.ranges.Sound := sound.of_shape same.shape same.hashTree

theorem initHotTlbSlot_same (machine : HostMachine) (slotIndex : Nat) :
    SameBytes machine (machine.initHotTlbSlot slotIndex).2 := by
  rw [HostMachine.initHotTlbSlot]
  split
  · exact .refl
  · exact ⟨rfl, rfl⟩

theorem markWriteTlbDirtyPage_same {slotIndex : Nat}
    (ran : machine.markWriteTlbDirtyPage slotIndex = (result, next)) : SameBytes machine next := by
  have hot := initHotTlbSlot_same machine slotIndex
  rw [HostMachine.markWriteTlbDirtyPage] at ran
  generalize machine.initHotTlbSlot slotIndex = slot at hot ran
  obtain ⟨vaddrPage, loaded⟩ := slot
  dsimp only at hot ran
  split at ran
  · cases ran
    exact hot
  · split at ran
    · cases ran
      exact hot
    · split at ran
      · cases ran
        exact hot
      · next range found =>
          split at ran
          · cases ran
            exact hot
          · cases ran
            exact hot.trans ⟨map_change found range.clean_markDirtyPageAndUp, rfl⟩

theorem markWriteTlbDirtySlots_same {slots : List Nat}
    (ran : machine.markWriteTlbDirtySlots slots = (result, next)) : SameBytes machine next := by
  induction slots generalizing machine with
  | nil =>
      cases ran
      exact .refl
  | cons slotIndex rest ih =>
      rw [HostMachine.markWriteTlbDirtySlots] at ran
      split at ran
      · next failure marked page =>
          cases ran
          exact markWriteTlbDirtyPage_same page
      · next marked page => exact (markWriteTlbDirtyPage_same page).trans (ih ran)

end Marks

section Calls

variable {machine next : HostMachine} {result : Except Failure Unit} {paddr length : Word}

/-- A memory range that may be written has all the bytes from an address on. -/
def HasRange (machine : HostMachine) (paddr length : Nat) : Prop :=
  ∃ range ∈ machine.ranges.all, range.isMemory = true ∧ range.isHostReadOnly = false ∧
    range.start.toNat ≤ paddr ∧ paddr + length ≤ range.finish.toNat

/-- A call puts bytes in the memory, or fails and leaves the memory as it is. -/
structure Puts (machine next : HostMachine) (result : Except Failure Unit) (paddr : Nat)
    (bytes : List Byte) : Prop where
  sound : next.ranges.Sound
  done : result = .ok () → next.ranges.contents = put machine.ranges.contents paddr bytes
  fits : result = .ok () → bytes = [] ∨ HasRange machine paddr bytes.length
  failed : ∀ failure, result = .error failure → next.ranges.contents = machine.ranges.contents

theorem Puts.of_failed {failure : Failure} {start : Nat} {bytes : List Byte}
    (sound : machine.ranges.Sound) (same : SameBytes machine next) :
    Puts machine next (.error failure) start bytes :=
  ⟨same.sound sound, nofun, nofun, fun _ _ => contents_clean same.all⟩

theorem Puts.of_nothing {start : Nat} (sound : machine.ranges.Sound) :
    Puts machine machine (.ok ()) start [] :=
  ⟨sound, fun _ => put_nil.symm, fun _ => Or.inl rfl, nofun⟩

/-- A change that copies the bytes to their memory range puts them in. -/
theorem Puts.of_change {range : HostRange} {index start : Nat} {bytes : List Byte}
    {change : HostRange → HostRange} (sound : machine.ranges.Sound)
    (found : machine.ranges.all[index]? = some range) (isMemory : range.isMemory = true)
    (writeable : range.isHostReadOnly = false) (low : range.start.toNat ≤ start)
    (high : start + bytes.length ≤ range.finish.toNat)
    (copied : (change range).clean = range.clean.copyTo (start - range.start.toNat) bytes)
    (changed : next.ranges = machine.ranges.change index change) :
    Puts machine next (.ok ()) start bytes := by
  obtain ⟨sound', contents⟩ := contents_change sound found isMemory low high copied
  rw [← changed] at sound' contents
  exact ⟨sound', fun _ => contents,
    fun _ => Or.inr ⟨range, List.mem_of_getElem? found, isMemory, writeable, low, high⟩, nofun⟩

theorem HasRange.of_same (same : SameBytes machine next) {start count : Nat}
    (fits : HasRange next start count) : HasRange machine start count := by
  obtain ⟨range, member, isMemory, writeable, low, high⟩ := fits
  have there : range.clean ∈ machine.ranges.all.map HostRange.clean := by
    rw [← same.all]
    exact List.mem_map_of_mem member
  obtain ⟨other, old, clean⟩ := List.mem_map.mp there
  have shape : other.toAddressRange = range.toAddressRange :=
    congrArg (fun range => range.toAddressRange) clean
  refine ⟨other, old, ?_⟩
  rw [shape]
  exact ⟨isMemory, writeable, low, high⟩

theorem Puts.of_same {last : HostMachine} {start : Nat} {bytes : List Byte}
    (same : SameBytes machine next) (puts : Puts next last result start bytes) :
    Puts machine last result start bytes := by
  have contents := contents_clean same.all
  refine ⟨puts.sound, fun succeeded => ?_, fun succeeded => ?_, fun failure failed => ?_⟩
  · rw [puts.done succeeded, contents]
  · exact (puts.fits succeeded).imp_right (HasRange.of_same same)
  · rw [puts.failed failure failed, contents]

theorem writeShadowState_puts {data : Nat → Byte} (sound : machine.ranges.Sound) {range : HostRange}
    {index : Nat}
    (shadow : machine.ranges.findIndex arShadowStateStart arShadowStateLength = some index)
    (found : machine.ranges.all[index]? = some range) (isMemory : range.isMemory = true)
    (writeable : range.isHostReadOnly = false)
    (ran : machine.writeShadowState data = (result, next)) :
    Puts machine next result 0 (slice data 0 arShadowStateLength.toNat) := by
  rw [HostMachine.writeShadowState] at ran
  split at ran
  · next failure marked marks =>
      cases ran
      exact .of_failed sound (markWriteTlbDirtySlots_same marks)
  · next marked marks =>
      have same := markWriteTlbDirtySlots_same marks
      have index' : marked.shadowIndex = some index := (findIndex_congr same.shape _ _).trans shadow
      rw [index'] at ran
      cases ran
      obtain ⟨range', found', clean⟩ : ∃ range', marked.ranges.all[index]? = some range' ∧
          range'.clean = range.clean := by
        have here := congrArg (·[index]?) same.all
        simp only [List.getElem?_map, found, Option.map_some] at here
        exact Option.map_eq_some_iff.mp here
      have shape : range'.toAddressRange = range.toAddressRange :=
        congrArg (fun range => range.toAddressRange) clean
      obtain ⟨other, found'', low, high⟩ := findIndex_some index'
      cases found'.symm.trans found''
      refine .of_same same (.of_change (same.sound sound) found' ?_ ?_ low ?_ ?_ rfl)
      · rw [shape]
        exact isMemory
      · rw [shape]
        exact writeable
      · rw [length_slice]
        exact high
      · rw [Nat.zero_sub]
        exact clean_copyTo _ _

/-- A write puts its data in. -/
theorem writeMemory_puts {data : Option (Nat → Byte)} (sound : machine.ranges.Sound)
    (ran : machine.writeMemory paddr data length = (result, next)) :
    Puts machine next result paddr.toNat (slice (data.getD fun _ => 0) 0 length.toNat) := by
  rw [HostMachine.writeMemory.eq_def] at ran
  split at ran
  · next nothing =>
      cases ran
      rw [nothing]
      exact .of_nothing sound
  split at ran
  · cases ran
    exact .of_failed sound .refl
  · next data =>
      split at ran
      · cases ran
        exact .of_failed sound .refl
      · next index index' =>
          obtain ⟨range, found, low, high⟩ := findIndex_some index'
          rw [found] at ran
          dsimp only at ran
          split at ran
          · cases ran
            exact .of_failed sound .refl
          split at ran
          · cases ran
            exact .of_failed sound .refl
          split at ran
          · cases ran
            exact .of_failed sound .refl
          next isMemory writeable =>
            rw [not_not] at isMemory
            rw [Bool.not_eq_true] at writeable
            split at ran
            · next whole =>
                rw [whole.1, whole.2] at index' ⊢
                exact writeShadowState_puts sound index' found isMemory writeable ran
            split at ran
            · cases ran
              exact .of_failed sound .refl
            · cases ran
              refine .of_change sound found isMemory writeable low ?_ (clean_writeChunks low _) rfl
              rw [length_slice]
              exact high

/-- A fill puts its byte in everywhere. -/
theorem fillMemory_puts {val : Byte} (sound : machine.ranges.Sound)
    (ran : machine.fillMemory paddr val length = (result, next)) :
    Puts machine next result paddr.toNat (List.replicate length.toNat val) := by
  rw [HostMachine.fillMemory] at ran
  split at ran
  · next nothing =>
      cases ran
      rw [nothing]
      exact .of_nothing sound
  split at ran
  · cases ran
    exact .of_failed sound .refl
  · next index index' =>
      obtain ⟨range, found, low, high⟩ := findIndex_some index'
      rw [found] at ran
      dsimp only at ran
      split at ran
      · cases ran
        exact .of_failed sound .refl
      split at ran
      · cases ran
        exact .of_failed sound .refl
      split at ran
      · cases ran
        exact .of_failed sound .refl
      next isMemory writeable =>
        rw [not_not] at isMemory
        rw [Bool.not_eq_true] at writeable
        split at ran
        · cases ran
          exact .of_failed sound .refl
        · cases ran
          refine .of_change sound found isMemory writeable low ?_ (clean_fillChunks low _) rfl
          rw [List.length_replicate]
          exact high

end Calls

section OneMemory

/-- The machines that calls from outside make of one whose ranges the constructor registered. -/
inductive Written (ranges : MachineAddressRanges) : HostMachine → Prop where
  | start (hotTlbWrite : Nat → Word) : Written ranges ⟨ranges, hotTlbWrite⟩
  | write {machine next result} (paddr length : Word) (data : Option (Nat → Byte))
      (written : Written ranges machine)
      (ran : machine.writeMemory paddr data length = (result, next)) : Written ranges next
  | fill {machine next result} (paddr length : Word) (val : Byte) (written : Written ranges machine)
      (ran : machine.fillMemory paddr val length = (result, next)) : Written ranges next

/-- Reads give the bytes of one memory, and what a call puts in is read back while the rest stays. -/
structure OneMemory (machine : HostMachine) : Prop where
  reads : ∀ paddr length, machine.readMemory paddr false length =
    .ok (slice machine.ranges.contents paddr.toNat length.toNat)
  writes : ∀ paddr data length result next, machine.writeMemory paddr data length = (result, next) →
    Puts machine next result paddr.toNat (slice (data.getD fun _ => 0) 0 length.toNat) ∧
    (result = .ok () → next.readMemory paddr false length =
      .ok (slice (data.getD fun _ => 0) 0 length.toNat))
  fills : ∀ paddr val length result next, machine.fillMemory paddr val length = (result, next) →
    Puts machine next result paddr.toNat (List.replicate length.toNat val) ∧
    (result = .ok () → next.readMemory paddr false length = .ok (List.replicate length.toNat val))

theorem Written.sound {ranges : MachineAddressRanges} {machine : HostMachine} (sound : ranges.Sound)
    (written : Written ranges machine) : machine.ranges.Sound := by
  induction written with
  | start hotTlbWrite => exact sound
  | write paddr length data written ran ih => exact (writeMemory_puts ih ran).sound
  | fill paddr length val written ran ih => exact (fillMemory_puts ih ran).sound

theorem Puts.read {machine next : HostMachine} {result : Except Failure Unit} {paddr length : Word}
    {bytes : List Byte} (puts : Puts machine next result paddr.toNat bytes)
    (size : bytes.length = length.toNat) (succeeded : result = .ok ()) :
    next.readMemory paddr false length = .ok bytes := by
  rw [readMemory_ok puts.sound, puts.done succeeded, ← size, slice_put]

/-- For all address ranges that the constructor registers, with all memory seen by the hash tree, the
functions work on one memory of bytes. -/
theorem oneMemory {list : List (HostRange × RegisterWhere)} {ranges : MachineAddressRanges}
    (seen : ∀ entry ∈ list, entry.1.isMemory = true → entry.2.hashTree = true)
    (created : create list = .ok ranges) {machine : HostMachine} (written : Written ranges machine) :
    OneMemory machine := by
  have sound := written.sound (create_sound seen created)
  refine ⟨readMemory_ok sound, ?_, ?_⟩
  · intro paddr data length result next ran
    have puts := writeMemory_puts sound ran
    exact ⟨puts, puts.read length_slice⟩
  · intro paddr val length result next ran
    have puts := fillMemory_puts sound ran
    exact ⟨puts, puts.read List.length_replicate⟩

/-- A range of memory with the same byte everywhere. -/
def memoryRange (start finish : Word) (driverId : DriverId) (byte : Byte)
    (ordered : start.toNat ≤ finish.toNat) : HostRange where
  start
  finish
  isMemory := true
  driverId
  hasHostMemory := true
  isHostReadOnly := false
  isDevice := false
  isReadable := true
  isWriteable := true
  hostMemory := fun _ => byte
  dirty := fun _ => true
  ordered
  hosted := id

/-- The shadow state and one page of RAM. -/
def twoRanges : List (HostRange × RegisterWhere) :=
  [(memoryRange 0 0x8000 .shadowState 0 (by decide), ⟨true, false⟩),
    (memoryRange 0x80000000 0x80001000 .memory 7 (by decide), ⟨true, true⟩)]

theorem twoRanges_seen : ∀ entry ∈ twoRanges, entry.1.isMemory = true → entry.2.hashTree = true := by
  simp [twoRanges]

/-- The shadow state and a page of RAM are one memory. -/
theorem oneMemory_twoRanges : ∃ ranges, create twoRanges = .ok ranges ∧
    OneMemory ⟨ranges, fun _ => HostMachine.tlbUnverifiedPage⟩ :=
  ⟨_, rfl, oneMemory twoRanges_seen rfl (.start _)⟩

end OneMemory

end MachineEmulator.Machine
