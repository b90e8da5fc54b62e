/-
This file counts the instructions that complete, against the register `minstret`.
-/

import MachineEmulator.Proof.Interpret.TargetCycle

namespace MachineEmulator.Interpret

variable {Rest Cache : Type}

section Counters

/-- The registers behind `minstret` and behind the timer interrupt. -/
structure Counters where
  icycleinstret : Word
  mip : Word
  clintMtimecmp : Word

def Registers.counters (registers : Registers) : Counters :=
  ⟨registers.icycleinstret, registers.mip, registers.clintMtimecmp⟩

variable {cpu : Cpu Rest} {pc mcycle cause tval val : Word} {csr : Csr}

theorem withRegisters_counters (c : Prop) [Decidable c] (registers : Registers) (prv : Word) :
    (if c then setPrv (cpu.withRegisters registers) prv
      else cpu.withRegisters registers).registers.counters = registers.counters := by
  split <;> rfl

/-- A trap counts one more cycle without an instruction, and leaves the timer alone. -/
theorem raiseException_counters :
    (raiseException cpu pc cause tval).1.registers.counters =
      { cpu.registers.counters with icycleinstret := cpu.registers.icycleinstret + 1 } := by
  unfold raiseException
  extract_lets
  split <;> exact withRegisters_counters _ _ _

theorem flushTlbSet_registers (c : Prop) [Decidable c] (set : TlbSet) :
    (if c then cpu.flushTlbSet set else cpu).registers = cpu.registers := by
  split <;> rfl

theorem writeCsrMstatus_counters :
    (writeCsrMstatus cpu val).2.registers.counters = cpu.registers.counters := by
  unfold writeCsrMstatus
  extract_lets old legal merged mstatus source written mod data read flushedRead flushed
  have kept : flushed.registers = written.registers :=
    (flushTlbSet_registers _ _).trans (flushTlbSet_registers _ _)
  have same : flushed.registers.counters = cpu.registers.counters := by
    rw [kept]
    rfl
  split <;> exact same

theorem writeCsrSatp_counters :
    (writeCsrSatp cpu val).2.registers.counters = cpu.registers.counters := by
  unfold writeCsrSatp
  split
  · rfl
  · split
    · extract_lets
      split <;> rfl
    · rfl

/-- The register that an access writes, of those behind `minstret` and the timer. -/
theorem writeCsrOf_counters : (writeCsrOf cpu mcycle val csr).2.registers.counters =
    { cpu.registers.counters with
      icycleinstret := if csr = .minstret then mcycle + 1 - val else cpu.registers.icycleinstret
      mip := if csr = .mip then warlMip (merge cpu.registers.readMip val mipSRwMask)
        else if csr = .sip then
          warlMip (merge cpu.registers.readMip val cpu.registers.readMideleg)
        else cpu.registers.mip } := by
  cases csr with
  | sstatus | mstatus => exact writeCsrMstatus_counters
  | satp => exact writeCsrSatp_counters
  | fflags | frm | fcsr =>
      simp only [writeCsrOf]
      split <;> rfl
  | _ => rfl

theorem DeviceCall.foldl_icycleinstret (calls : List DeviceCall) (registers : Registers) :
    (calls.foldl DeviceCall.perform registers).icycleinstret = registers.icycleinstret := by
  induction calls generalizing registers with
  | nil => rfl
  | cons call rest ih =>
      rw [List.foldl_cons, ih]
      cases call <;> rfl

@[simp] theorem Effects.apply_icycleinstret (effects : Effects Rest) :
    (effects.apply cpu).registers.icycleinstret = cpu.registers.icycleinstret :=
  DeviceCall.foldl_icycleinstret _ _

@[simp] theorem clintWriteDevice_icycleinstret (offset : Word) (log2Size : Nat) (val : Word) :
    (clintWriteDevice cpu offset log2Size val).2.registers.icycleinstret =
      cpu.registers.icycleinstret := by
  unfold clintWriteDevice
  split_ifs <;> rfl

@[simp] theorem raiseException_icycleinstret :
    (raiseException cpu pc cause tval).1.registers.icycleinstret =
      cpu.registers.icycleinstret + 1 :=
  congrArg Counters.icycleinstret raiseException_counters

end Counters

section Instructions

variable {cpu : Cpu Rest} {pc mcycle mcycleEnd : Word} {insn : BitVec 32}
  {interpreter : Interpreter Rest Cache}

/-- The value that an instruction writes to `minstret`. -/
def writtenMinstret (cpu : Cpu Rest) (mcycle : Word) (insn : BitVec 32) : Option Word :=
  (csrInstructionOf insn).bind fun instruction =>
    if csrOfAddress (insnIGetUimm insn) = some .minstret ∧ instruction.Writes insn then
      some (instruction.written cpu insn (mcycle - cpu.registers.icycleinstret))
    else none

/-- How an instruction leaves the count of the cycles without an instruction. -/
structure Executed.Counts (executed : Executed Rest) (cpu : Cpu Rest) (completed : Word) : Prop where
  traps : executed.status = .failure →
    executed.cpu.registers.icycleinstret = cpu.registers.icycleinstret + 1
  completes : executed.status ≠ .failure → executed.cpu.registers.icycleinstret = completed

theorem raises_counts (cause tval completed : Word) :
    (raises cpu pc cause tval).Counts cpu completed := by
  constructor
  · intro _
    exact raiseException_icycleinstret
  · intro completes
    exact absurd rfl completes

theorem Executed.Counts.plain {executed : Executed Rest}
    (same : executed.cpu.registers.icycleinstret = cpu.registers.icycleinstret)
    (passed : executed.status ≠ .failure) :
    executed.Counts cpu cpu.registers.icycleinstret :=
  ⟨fun failed => absurd failed passed, fun _ => same⟩

theorem Outcome.finish_counts (outcome : Outcome Rest) :
    (outcome.finish cpu pc).Counts cpu cpu.registers.icycleinstret := by
  have trapped (effects : Effects Rest) (cause tval : Word) :
      (Interpret.raises (effects.apply cpu) pc cause tval).Counts cpu
        cpu.registers.icycleinstret := by
    have counts : (Interpret.raises (effects.apply cpu) pc cause tval).Counts (effects.apply cpu)
        cpu.registers.icycleinstret := raises_counts _ _ _
    exact ⟨fun failed => (counts.traps failed).trans (by simp), counts.completes⟩
  cases outcome with
  | completes effects next status passed halts =>
      exact .plain (Effects.apply_icycleinstret effects) passed
  | raises effects cause tval => exact trapped effects cause tval
  | storesClint before offset log2Size val vaddr after next =>
      by_cases passed : (clintWriteDevice (before.apply cpu) offset log2Size val).1 ≠ .failure
      · simp only [Outcome.finish, if_pos passed]
        exact .plain (by simp) passed
      · simp only [Outcome.finish, if_neg passed]
        exact trapped before _ _

theorem CsrInstruction.written_unread (instruction : CsrInstruction) (old other : Word)
    (unread : ¬instruction.Reads insn) :
    instruction.written cpu insn old = instruction.written cpu insn other := by
  have write : instruction.operation = .write := by
    by_contra other
    exact unread fun same => absurd same other
  have mask : instruction ≠ ⟨.clear, true⟩ := by
    rintro rfl
    cases write
  rw [CsrInstruction.written, CsrInstruction.written, if_neg mask, if_neg mask, write]
  rfl

/-- A write that passes changes the count only for `minstret`. -/
theorem writeCsr_written {instruction : CsrInstruction}
    (known : csrInstructionOf insn = some instruction) (old : Word)
    (read : (if instruction.Reads insn then
      readCsr cpu.registers mcycle (insnIGetUimm insn) else some 0) = some old)
    (writing : instruction.Writes insn)
    (passed : (writeCsr cpu mcycle (instruction.written cpu insn old)
      (insnIGetUimm insn)).1 ≠ .failure) :
    ((writeCsr cpu mcycle (instruction.written cpu insn old)
      (insnIGetUimm insn)).2.writeX (insnGetRd insn) old).registers.icycleinstret =
      match writtenMinstret cpu mcycle insn with
      | some value => mcycle + 1 - value
      | none => cpu.registers.icycleinstret := by
  rw [Cpu.writeX_registers]
  cases located : csrOfAddress (insnIGetUimm insn) with
  | none =>
      apply absurd _ passed
      apply writeCsr_refused
      intro csr found
      rw [located] at found
      cases found
  | some csr =>
      have same : writeCsr cpu mcycle (instruction.written cpu insn old) (insnIGetUimm insn) =
          writeCsrOf cpu mcycle (instruction.written cpu insn old) csr := by
        unfold writeCsr at passed ⊢
        split_ifs at passed ⊢
        · exact absurd rfl passed
        · exact absurd rfl passed
        · rw [located]
      have counted :
          (writeCsrOf cpu mcycle (instruction.written cpu insn old) csr).2.registers.icycleinstret =
            _ := congrArg Counters.icycleinstret writeCsrOf_counters
      rw [same]
      refine counted.trans ?_
      by_cases counter : csr = .minstret
      · subst counter
        have value : instruction.written cpu insn old =
            instruction.written cpu insn (mcycle - cpu.registers.icycleinstret) := by
          by_cases reads : instruction.Reads insn
          · rw [if_pos reads, readCsr] at read
            split at read
            · cases read
            · rw [located] at read
              cases read
              rfl
          · exact CsrInstruction.written_unread instruction _ _ reads
        simp [writtenMinstret, known, located, writing, value]
      · simp [writtenMinstret, known, located, counter]

theorem CsrInstruction.execute_counts (instruction : CsrInstruction)
    (known : csrInstructionOf insn = some instruction) :
    (instruction.execute cpu pc mcycle insn).Counts cpu
      (match writtenMinstret cpu mcycle insn with
        | some value => mcycle + 1 - value
        | none => cpu.registers.icycleinstret) := by
  rw [CsrInstruction.execute_eq]
  split
  · exact raises_counts _ _ _
  next old read =>
    by_cases writing : instruction.Writes insn
    · rw [if_pos writing]
      by_cases failed : (writeCsr cpu mcycle (instruction.written cpu insn old)
          (insnIGetUimm insn)).1 = .failure
      · rw [finishCsr, if_pos failed]
        exact raises_counts _ _ _
      · rw [finishCsr, if_neg failed]
        constructor
        · intro status
          exact absurd status failed
        · intro _
          exact writeCsr_written known old read writing failed
    · rw [if_neg writing, finishCsr, if_neg (by simp)]
      have unwritten : writtenMinstret cpu mcycle insn = none := by
        simp [writtenMinstret, known, writing]
      rw [unwritten]
      apply Executed.Counts.plain
      · simp [advanceToNextInsn]
      · simp [advanceToNextInsn]

theorem executeSRET_counts :
    (executeSRET cpu pc insn).Counts cpu cpu.registers.icycleinstret := by
  unfold executeSRET
  extract_lets prv mstatus spp spie enabled left written source stored reached
  split
  · exact raises_counts _ _ _
  · have same : reached.registers.icycleinstret = cpu.registers.icycleinstret :=
      congrArg Counters.icycleinstret (withRegisters_counters (prv ≠ spp) _ spp)
    exact .plain same (by simp)

theorem executeMRET_counts :
    (executeMRET cpu pc insn).Counts cpu cpu.registers.icycleinstret := by
  unfold executeMRET
  extract_lets prv mstatus mpp mpie enabled left written source stored reached
  split
  · exact raises_counts _ _ _
  · have same : reached.registers.icycleinstret = cpu.registers.icycleinstret :=
      congrArg Counters.icycleinstret (withRegisters_counters (prv ≠ mpp) _ mpp)
    exact .plain same (by simp)

variable (cpu pc mcycle mcycleEnd insn) in
/-- How an instruction leaves the count, where no poll moves the cycle. -/
theorem executeInsn_counts (plain : interpreter.interactive = false) :
    ∃ executed : Executed Rest,
      executeInsn cpu pc mcycle insn interpreter mcycleEnd = executed.at mcycle ∧
      executed.Counts cpu
        (match writtenMinstret cpu mcycle insn with
          | some value => mcycle + 1 - value
          | none => cpu.registers.icycleinstret) := by
  cases known : csrInstructionOf insn with
  | some instruction =>
      exact ⟨_, executeInsn_csr known, CsrInstruction.execute_counts instruction known⟩
  | none =>
      have unwritten : writtenMinstret cpu mcycle insn = none := by
        simp [writtenMinstret, known]
      rw [unwritten, executeInsn_other known]
      split
      · unfold executePrivileged
        split_ifs
        · exact ⟨_, rfl, raises_counts _ _ _⟩
        · exact ⟨_, rfl, raises_counts _ _ _⟩
        · exact ⟨_, rfl, executeSRET_counts⟩
        · exact ⟨_, rfl, executeMRET_counts⟩
        · unfold executeWFI
          simp only [plain, Bool.false_eq_true, false_and, if_false]
          split
          · exact ⟨_, rfl, raises_counts _ _ _⟩
          · exact ⟨_, rfl, .plain rfl (by simp [advanceToNextInsn])⟩
        · refine ⟨_, rfl, ?_⟩
          unfold executeSFENCEVMA
          split_ifs
          · exact raises_counts _ _ _
          · exact raises_counts _ _ _
          · exact .plain rfl (by simp [advanceToNextInsn])
      · split
        · exact ⟨_, rfl, raises_counts _ _ _⟩
        · exact ⟨_, rfl, Outcome.finish_counts _⟩

end Instructions

section Events

/-- What a round of the loop does for the guest. -/
inductive Event where
  | nothing
  | interrupt
  | exception
  | completed
  | wroteMinstret (value : Word)
deriving DecidableEq, Repr

variable (interpreter : Interpreter Rest Cache) (mcycleEnd : Word)

/-- The event of a round. -/
def eventOf (state : LoopState Rest Cache) : Event :=
  match state.phase with
  | .outer =>
      if state.mcycle < mcycleEnd ∧
          (raiseInterruptIfAny (tick interpreter state.cpu state.mcycle) state.pc).2.2 then
        .interrupt
      else .nothing
  | .inner mcycleTickEnd =>
      if state.mcycle < mcycleTickEnd then
        match interpreter.fetch state.cpu state.fetchVaddrPage state.fetchCache state.pc with
        | .faults _ _ _ _ => .exception
        | .fetched walked _ _ insn =>
            let cpu := walked.apply state.cpu
            if (executeInsn cpu state.pc state.mcycle insn interpreter mcycleEnd).status = .failure
            then .exception
            else
              match writtenMinstret cpu state.mcycle insn with
              | some value => .wroteMinstret value
              | none => .completed
      else .nothing

/-- What `minstret` is to be after an event. -/
def Event.claimed (minstret : Word) : Event → Word
  | .nothing | .interrupt | .exception => minstret
  | .completed => minstret + 1
  | .wroteMinstret value => value

/-- What `minstret` is after an event: an interrupt takes one away. -/
def Event.counted (minstret : Word) : Event → Word
  | .interrupt => minstret - 1
  | event => event.claimed minstret

/-- A run of the loop with its events. -/
inductive Runs : LoopState Rest Cache → List Event → LoopState Rest Cache → Prop
  | start (state : LoopState Rest Cache) : Runs state [] state
  | step {first state next : LoopState Rest Cache} {events : List Event}
      (runs : Runs first events state) (goes : Steps interpreter mcycleEnd state next) :
      Runs first (events ++ [eventOf interpreter mcycleEnd state]) next

/-- The value that a guest reads from `minstret`. -/
def LoopState.minstret (state : LoopState Rest Cache) : Word :=
  state.mcycle - state.cpu.registers.icycleinstret

end Events

section Rounds

variable {interpreter : Interpreter Rest Cache} {mcycleEnd : Word}
  {first state next : LoopState Rest Cache} {events : List Event}

theorem tick_icycleinstret (plain : interpreter.interactive = false) (cpu : Cpu Rest)
    (mcycle : Word) :
    (tick interpreter cpu mcycle).registers.icycleinstret = cpu.registers.icycleinstret := by
  unfold tick setRtcInterrupt
  simp only [plain, Bool.false_eq_true, if_false]
  split_ifs <;> rfl

theorem raiseInterruptIfAny_icycleinstret (cpu : Cpu Rest) (pc : Word) :
    (raiseInterruptIfAny cpu pc).1.registers.icycleinstret =
      if (raiseInterruptIfAny cpu pc).2.2 then cpu.registers.icycleinstret + 1
      else cpu.registers.icycleinstret := by
  unfold raiseInterruptIfAny
  extract_lets
  split
  · exact raiseException_icycleinstret
  · rfl

/-- The event of a round that executes an instruction. -/
theorem eventOf_insn {mcycleTickEnd : Word} {cpu : Cpu Rest} {insn : BitVec 32}
    (fetches : Fetches interpreter state mcycleTickEnd cpu insn) :
    eventOf interpreter mcycleEnd state =
      if (executeInsn cpu state.pc state.mcycle insn interpreter mcycleEnd).status = .failure
      then .exception
      else
        match writtenMinstret cpu state.mcycle insn with
        | some value => .wroteMinstret value
        | none => .completed := by
  obtain ⟨phase, room, walked, page, cache, fetched, same⟩ := fetches
  subst same
  unfold eventOf
  rw [phase]
  dsimp only
  rw [if_pos room, fetched]

/-- The count after an instruction. -/
theorem executeInsn_counted (plain : interpreter.interactive = false) {mcycleTickEnd : Word}
    {cpu : Cpu Rest} {insn : BitVec 32}
    (fetches : Fetches interpreter state mcycleTickEnd cpu insn) :
    (executeInsn cpu state.pc state.mcycle insn interpreter mcycleEnd).mcycle + 1 -
        (executeInsn cpu state.pc state.mcycle insn interpreter
          mcycleEnd).cpu.registers.icycleinstret =
      (eventOf interpreter mcycleEnd state).counted state.minstret := by
  have same : cpu.registers.icycleinstret = state.cpu.registers.icycleinstret := by
    obtain ⟨-, -, walked, page, cache, -, rfl⟩ := fetches
    rfl
  rw [eventOf_insn fetches]
  obtain ⟨executed, ran, counts⟩ := executeInsn_counts cpu state.pc state.mcycle mcycleEnd insn plain
  rw [ran]
  show state.mcycle + 1 - executed.cpu.registers.icycleinstret = _
  by_cases failed : executed.status = .failure
  · rw [counts.traps failed, same,
      if_pos (show (executed.at state.mcycle).status = .failure from failed)]
    show _ = state.mcycle - _
    bv_omega
  · rw [counts.completes failed]
    rw [if_neg (show ¬(executed.at state.mcycle).status = .failure from failed)]
    cases writtenMinstret cpu state.mcycle insn with
    | some value =>
        show state.mcycle + 1 - (state.mcycle + 1 - value) = value
        bv_omega
    | none =>
        show state.mcycle + 1 - cpu.registers.icycleinstret = state.mcycle - _ + 1
        rw [same]
        bv_omega

/-- A round changes `minstret` by its event. -/
theorem Steps.counted (plain : interpreter.interactive = false)
    (goes : Steps interpreter mcycleEnd state next) :
    next.minstret = (eventOf interpreter mcycleEnd state).counted state.minstret := by
  cases goes.stepped with
  | head phase room reached =>
      subst reached
      have ticked := tick_icycleinstret plain state.cpu state.mcycle
      have served := raiseInterruptIfAny_icycleinstret
        (tick interpreter state.cpu state.mcycle) state.pc
      rw [ticked] at served
      have event : eventOf interpreter mcycleEnd state =
          if (raiseInterruptIfAny (tick interpreter state.cpu state.mcycle) state.pc).2.2 then
            .interrupt
          else .nothing := by
        unfold eventOf
        rw [phase]
        simp only [room, true_and]
      show state.mcycle - (raiseInterruptIfAny _ _).1.registers.icycleinstret = _
      rw [served, event]
      split
      · show _ = state.mcycle - _ - 1
        bv_omega
      · rfl
  | leave mcycleTickEnd phase ticked reached =>
      subst reached
      unfold eventOf
      rw [phase]
      simp only [if_neg ticked]
      rfl
  | insn mcycleTickEnd cpu insn fetches advanced ran cpuAfter pcAfter mcycleAfter phaseAfter =>
      subst ran
      unfold LoopState.minstret
      rw [cpuAfter, mcycleAfter]
      exact executeInsn_counted plain fetches
  | fault mcycleTickEnd phase room walked cache cause tval faults cpuAfter mcycleAfter _ =>
      have event : eventOf interpreter mcycleEnd state = .exception := by
        unfold eventOf
        rw [phase]
        simp only [room, if_true, faults]
      rw [event, LoopState.minstret, cpuAfter, mcycleAfter, raiseException_icycleinstret]
      show _ = state.mcycle - state.cpu.registers.icycleinstret
      show state.mcycle + 1 - (state.cpu.registers.icycleinstret + 1) = _
      bv_omega

/-- A run changes `minstret` by its events, one after the other. -/
theorem Runs.counted (plain : interpreter.interactive = false)
    (runs : Runs interpreter mcycleEnd first events state) :
    state.minstret = events.foldl Event.counted first.minstret := by
  induction runs with
  | start => rfl
  | step runs goes ih => rw [goes.counted plain, List.foldl_append, ih]; rfl

theorem foldl_counted_eq (quiet : Event.interrupt ∉ events) (minstret : Word) :
    events.foldl Event.counted minstret = events.foldl Event.claimed minstret := by
  induction events generalizing minstret with
  | nil => rfl
  | cons event rest ih =>
      simp only [List.mem_cons, not_or] at quiet
      rw [List.foldl_cons, List.foldl_cons, ih quiet.2]
      cases event with
      | interrupt => exact absurd rfl quiet.1
      | _ => rfl

/-- The count when the loop ends. -/
theorem ends_counted (plain : interpreter.interactive = false) {status : ExecuteStatus}
    {cpu : Cpu Rest} (ends : round interpreter mcycleEnd state = .ends status cpu) :
    cpu.registers.mcycle - cpu.registers.icycleinstret =
      (eventOf interpreter mcycleEnd state).counted state.minstret ∧
    eventOf interpreter mcycleEnd state ≠ .interrupt := by
  unfold round at ends
  split at ends
  next phase =>
    split at ends
    next => cases ends
    next reached =>
      have event : eventOf interpreter mcycleEnd state = .nothing := by
        unfold eventOf
        rw [phase]
        simp only [reached, false_and, if_false]
      cases ends
      rw [event]
      exact ⟨rfl, by decide⟩
  next mcycleTickEnd phase =>
    split at ends
    next room =>
      unfold innerRound at ends
      split at ends
      next walked page cache insn fetched =>
        obtain ⟨-, -, after⟩ := afterInsn_ends ends
        have fetches : Fetches interpreter state mcycleTickEnd (walked.apply state.cpu) insn :=
          ⟨phase, room, walked, page, cache, fetched, rfl⟩
        subst after
        constructor
        · exact executeInsn_counted plain fetches
        · rw [eventOf_insn fetches]
          split
          · simp
          · split <;> simp
      next => cases ends
    next => cases ends

end Rounds

section Runs

/-- The count of a guest goes up by one for each instruction that completes and is what the guest
writes, in every run that takes no interrupt from an aligned program counter. -/
theorem minstret_claimed (interpreter : Interpreter Rest Cache)
    (plain : interpreter.interactive = false) (cpu : Cpu Rest) (mcycleEnd : Word)
    (aligned : cpu.registers.pc &&& 1 = 0) (events : List Event) (state : LoopState Rest Cache)
    (runs : Runs interpreter mcycleEnd (firstState interpreter cpu) events state)
    (quiet : Event.interrupt ∉ events) :
    readCsrOf state.cpu.registers state.mcycle .minstret =
      some (events.foldl Event.claimed
        (cpu.registers.mcycle - cpu.registers.icycleinstret)) ∧
    ∀ status after, round interpreter mcycleEnd state = .ends status after →
      readCsrOf after.registers after.registers.mcycle .minstret =
        some ((events ++ [eventOf interpreter mcycleEnd state]).foldl Event.claimed
          (cpu.registers.mcycle - cpu.registers.icycleinstret)) := by
  have entered : (firstState interpreter cpu).minstret =
      cpu.registers.mcycle - cpu.registers.icycleinstret := by
    unfold firstState enterLoop
    extract_lets source pc entered
    have same : entered = (_, pc) :=
      if_neg (show ¬cpu.registers.pc &&& 1 ≠ 0 by simpa using aligned)
    rw [same]
    rfl
  have reached := runs.counted plain
  rw [entered, foldl_counted_eq quiet] at reached
  constructor
  · exact congrArg some reached
  · intro status after ends
    obtain ⟨count, served⟩ := ends_counted plain ends
    apply congrArg some
    rw [count, reached, List.foldl_append]
    cases event : eventOf interpreter mcycleEnd state with
    | interrupt => exact absurd event served
    | _ => rfl

/-- A machine with `nop` at every address. -/
def nopInterpreter : Interpreter Unit Unit where
  fetch cpu _ _ _ := .fetched ⟨cpu.tlbValid, ()⟩ 0 () 0x13
  ordinary cpu pc _ _ :=
    .completes ⟨⟨cpu.tlbValid, ()⟩, cpu.x, cpu.registers.fcsr, cpu.registers.ilrsc, []⟩ (pc + 4)
      .success (by decide) (fun halts => by cases halts)
  interactive := false
  poll cpu mcycle _ := ⟨cpu.rest, [], mcycle, .success, success_answers⟩
  noCache := ()

/-- The state after a round that goes on. -/
def nextState (interpreter : Interpreter Unit Unit) (mcycleEnd : Word)
    (state : LoopState Unit Unit) : LoopState Unit Unit :=
  match round interpreter mcycleEnd state with
  | .goes next => next
  | .ends _ _ => state

/-- The state after a round of the machine with `nop` at every address. -/
abbrev nopRound (state : LoopState Unit Unit) : LoopState Unit Unit :=
  nextState nopInterpreter 2 state

theorem minstret_claimed_nop :
    readCsrOf (nopRound (nopRound (firstState nopInterpreter scratchCpu))).cpu.registers 1
      .minstret = some 1 := by
  have first : eventOf nopInterpreter 2 (firstState nopInterpreter scratchCpu) = .nothing := by
    decide
  have second : eventOf nopInterpreter 2
      (nopRound (firstState nopInterpreter scratchCpu)) = .completed := by
    decide
  have head : Runs nopInterpreter 2 (firstState nopInterpreter scratchCpu)
      ([] ++ [eventOf nopInterpreter 2 (firstState nopInterpreter scratchCpu)])
      (nopRound (firstState nopInterpreter scratchCpu)) := .step (.start _) rfl
  have runs : Runs nopInterpreter 2 (firstState nopInterpreter scratchCpu)
      (_ ++ [eventOf nopInterpreter 2 (nopRound (firstState nopInterpreter scratchCpu))])
      (nopRound (nopRound (firstState nopInterpreter scratchCpu))) := .step head rfl
  rw [first, second] at runs
  exact (minstret_claimed nopInterpreter rfl scratchCpu 2 (by decide) _ _ runs (by decide)).1

/-- The machine with a software interrupt that is pending and enabled. -/
def pendingCpu : Cpu Unit :=
  scratchCpu.withRegisters
    { scratchCpu.registers with mstatus := mstatusMieMask, mie := mipMsipMask, mip := mipMsipMask }

/-- An interrupt and an instruction: the guest reads 0 where one instruction has completed. -/
theorem minstret_loses_interrupt : ∃ state : LoopState Unit Unit,
    Runs nopInterpreter 2 (firstState nopInterpreter pendingCpu) [.interrupt, .completed] state ∧
    readCsrOf state.cpu.registers state.mcycle .minstret = some 0 ∧
    [Event.interrupt, .completed].foldl Event.claimed
      (pendingCpu.registers.mcycle - pendingCpu.registers.icycleinstret) = 1 := by
  have first : eventOf nopInterpreter 2 (firstState nopInterpreter pendingCpu) = .interrupt := by
    decide
  have second : eventOf nopInterpreter 2
      (nopRound (firstState nopInterpreter pendingCpu)) = .completed := by
    decide
  have head : Runs nopInterpreter 2 (firstState nopInterpreter pendingCpu)
      ([] ++ [eventOf nopInterpreter 2 (firstState nopInterpreter pendingCpu)])
      (nopRound (firstState nopInterpreter pendingCpu)) := .step (.start _) rfl
  have runs : Runs nopInterpreter 2 (firstState nopInterpreter pendingCpu)
      (_ ++ [eventOf nopInterpreter 2 (nopRound (firstState nopInterpreter pendingCpu))])
      (nopRound (nopRound (firstState nopInterpreter pendingCpu))) := .step head rfl
  rw [first, second] at runs
  exact ⟨_, runs, by decide, by decide⟩

end Runs

end MachineEmulator.Interpret
