/-
This file shows where the interpreter stops: at its target cycle at the latest, unless a wait for an
interrupt ends exactly there.
-/

import MachineEmulator.Construction.Interpret.Loop
import MachineEmulator.Proof.Interpret.CsrInstructions
import Mathlib.Logic.Relation

namespace MachineEmulator.Interpret

variable {Rest Cache : Type}

section Decoding

/-- The instruction on a control and status register that a word encodes. -/
def csrInstructionOf (insn : BitVec 32) : Option CsrInstruction :=
  if insn &&& 0x7f = 0x73 then
    match ((insn >>> 12) &&& 7).toNat with
    | 1 => some ⟨.write, false⟩
    | 2 => some ⟨.set, false⟩
    | 3 => some ⟨.clear, false⟩
    | 5 => some ⟨.write, true⟩
    | 6 => some ⟨.set, true⟩
    | 7 => some ⟨.clear, true⟩
    | _ => none
  else none

/-- Whether a word encodes a privileged instruction, among which the wait for an interrupt is. -/
def isPrivileged (insn : BitVec 32) : Bool :=
  insn &&& 0x7f == 0x73 && ((insn >>> 12) &&& 7).toNat == 0

variable {cpu : Cpu Rest} {pc mcycle mcycleEnd : Word} {insn : BitVec 32}
  {interpreter : Interpreter Rest Cache}

theorem executeInsn_csr {instruction : CsrInstruction}
    (known : csrInstructionOf insn = some instruction) :
    executeInsn cpu pc mcycle insn interpreter mcycleEnd =
      (instruction.execute cpu pc mcycle insn).at mcycle := by
  unfold csrInstructionOf at known
  unfold executeInsn
  split at known
  next system =>
    rw [if_pos system]
    split at known <;> cases known <;> simp_all [CsrInstruction.execute]
  next => cases known

/-- The instructions that are on no control and status register. -/
theorem executeInsn_other (unknown : csrInstructionOf insn = none) :
    executeInsn cpu pc mcycle insn interpreter mcycleEnd =
      if isPrivileged insn then executePrivileged cpu pc mcycle insn interpreter mcycleEnd
      else if insn &&& 0x7f = 0x73 then (raiseIllegalInsnException cpu pc insn).at mcycle
      else ((interpreter.ordinary cpu pc mcycle insn).finish cpu pc).at mcycle := by
  unfold csrInstructionOf at unknown
  unfold executeInsn isPrivileged
  split at unknown
  next system =>
    simp only [system, if_true, beq_self_eq_true, Bool.true_and, beq_iff_eq]
    split at unknown
    all_goals first
      | (cases unknown; done)
      | (split <;> simp_all)
  next ordinary =>
    rw [beq_eq_false_iff_ne.mpr ordinary, if_neg ordinary, if_neg ordinary]
    rfl

end Decoding

section Statuses

variable {cpu : Cpu Rest} {pc mcycle : Word} {insn : BitVec 32}

/-- The statuses of the instructions that are on the registers. -/
def ExecuteStatus.Internal (status : ExecuteStatus) : Prop :=
  status ∈ [.success, .failure, .successAndFlushFetch, ExecuteStatus.successAndServeInterrupts]

theorem writeCsrOf_internal (cpu : Cpu Rest) (mcycle val : Word) (csr : Csr) :
    (writeCsrOf cpu mcycle val csr).1.Internal := by
  have mstatus (val : Word) : (writeCsrMstatus cpu val).1.Internal := by
    unfold writeCsrMstatus
    extract_lets
    split <;> simp [ExecuteStatus.Internal]
  have satp : (writeCsrSatp cpu val).1.Internal := by
    unfold writeCsrSatp
    split
    · simp [ExecuteStatus.Internal]
    · split
      · extract_lets
        split <;> simp [ExecuteStatus.Internal]
      · simp [ExecuteStatus.Internal]
  cases csr with
  | sstatus | mstatus => exact mstatus _
  | satp => exact satp
  | fflags | frm | fcsr =>
      simp only [writeCsrOf]
      split <;> simp [wrote, ExecuteStatus.Internal]
  | _ => simp [writeCsrOf, wrote, ExecuteStatus.Internal]

theorem writeCsr_internal (cpu : Cpu Rest) (mcycle val : Word) (csraddr : CsrAddress) :
    (writeCsr cpu mcycle val csraddr).1.Internal := by
  unfold writeCsr
  split
  · simp [ExecuteStatus.Internal]
  · split
    · simp [ExecuteStatus.Internal]
    · split
      · simp [ExecuteStatus.Internal]
      · exact writeCsrOf_internal _ _ _ _

theorem finishCsr_internal {old csrval : Word} {written : ExecuteStatus × Cpu Rest}
    (internal : written.1.Internal) : (finishCsr cpu insn old csrval written).status.Internal := by
  rw [finishCsr]
  split
  · simp [raiseIllegalInsnException, raises, ExecuteStatus.Internal]
  · exact internal

theorem CsrInstruction.execute_internal (instruction : CsrInstruction) :
    (instruction.execute cpu pc mcycle insn).status.Internal := by
  rw [CsrInstruction.execute_eq]
  split
  · simp [raiseIllegalInsnException, raises, ExecuteStatus.Internal]
  · apply finishCsr_internal
    split
    · exact writeCsr_internal _ _ _ _
    · simp [ExecuteStatus.Internal]

end Statuses

section Instructions

variable {cpu : Cpu Rest} {pc mcycle mcycleEnd : Word} {insn : BitVec 32}
  {interpreter : Interpreter Rest Cache}

/-- The word of `wfi`. -/
def wfiInsn : BitVec 32 := 0x10500073

/-- The instruction waits for an interrupt: it polls the host, which may let cycles pass. -/
def Waits (interpreter : Interpreter Rest Cache) (cpu : Cpu Rest) (mcycle mcycleEnd : Word)
    (insn : BitVec 32) : Prop :=
  insn = wfiInsn ∧
  ¬(cpu.registers.iprv = prvU ∨
    cpu.registers.iprv < prvM ∧ cpu.registers.readMstatus &&& mstatusTwMask ≠ 0) ∧
  interpreter.interactive = true ∧ mcycle < waitLimit cpu mcycleEnd

theorem executeWFI_waits (waits : Waits interpreter cpu mcycle mcycleEnd insn) :
    executeWFI cpu pc mcycle insn interpreter mcycleEnd =
      (let polled := interpreter.poll cpu mcycle (waitLimit cpu mcycleEnd)
      ⟨polled.apply cpu, pc + 4, polled.mcycle, polled.status⟩) := by
  obtain ⟨-, allowed, interactive, room⟩ := waits
  rw [executeWFI, if_neg allowed, if_pos ⟨interactive, room⟩]
  rfl

theorem executeInsn_waits (waits : Waits interpreter cpu mcycle mcycleEnd insn) :
    executeInsn cpu pc mcycle insn interpreter mcycleEnd =
      (let polled := interpreter.poll cpu mcycle (waitLimit cpu mcycleEnd)
      ⟨polled.apply cpu, pc + 4, polled.mcycle, polled.status⟩) := by
  have word : insn = wfiInsn := waits.1
  rw [executeInsn_other (by rw [word]; rfl), if_pos (by rw [word]; rfl), ← executeWFI_waits waits]
  subst word
  rfl

/-- Every other instruction leaves the cycle to the loop, and halts the machine only with the flag
of HTIF. -/
structure Advanced.Regular (advanced : Advanced Rest) (mcycle : Word) : Prop where
  mcycle : advanced.mcycle = mcycle
  halted : advanced.status = .successAndHalt → advanced.cpu.registers.iflagsH = 1

theorem Executed.at_regular {executed : Executed Rest} (internal : executed.status.Internal) :
    (executed.at mcycle).Regular mcycle := by
  constructor
  · rfl
  · intro halt
    have status : executed.status = .successAndHalt := halt
    rw [status] at internal
    simp [ExecuteStatus.Internal] at internal

theorem DeviceCall.foldl_halt (calls : List DeviceCall) (registers : Registers)
    (halts : .halt ∈ calls ∨ registers.iflagsH = 1) :
    (calls.foldl DeviceCall.perform registers).iflagsH = 1 := by
  induction calls generalizing registers with
  | nil => simpa using halts
  | cons call rest ih =>
      apply ih
      rcases halts with member | halted
      · rcases List.mem_cons.mp member with rfl | later
        · right
          rfl
        · left
          exact later
      · right
        cases call with
        | halt => rfl
        | _ => exact halted

theorem Outcome.finish_halted (outcome : Outcome Rest)
    (halt : (outcome.finish cpu pc).status = .successAndHalt) :
    (outcome.finish cpu pc).cpu.registers.iflagsH = 1 := by
  cases outcome with
  | completes effects next status passed halts =>
      exact DeviceCall.foldl_halt _ _ (Or.inl (halts halt))
  | raises effects cause tval => cases halt
  | storesClint before offset log2Size val vaddr after next =>
      by_cases passed : (clintWriteDevice (before.apply cpu) offset log2Size val).1 ≠ .failure
      · have served : (clintWriteDevice (before.apply cpu) offset log2Size val).1 ∈
            [.success, .failure, ExecuteStatus.successAndServeInterrupts] := by
          unfold clintWriteDevice
          split_ifs <;> simp
        simp only [Outcome.finish, if_pos passed] at halt
        rw [halt] at served
        simp at served
      · simp only [Outcome.finish, if_neg passed] at halt
        cases halt

theorem executeInsn_regular (stays : ¬Waits interpreter cpu mcycle mcycleEnd insn) :
    (executeInsn cpu pc mcycle insn interpreter mcycleEnd).Regular mcycle := by
  have illegal : ((raiseIllegalInsnException cpu pc insn).at mcycle).Regular mcycle :=
    Executed.at_regular (by simp [raiseIllegalInsnException, raises, ExecuteStatus.Internal])
  cases known : csrInstructionOf insn with
  | some instruction =>
      rw [executeInsn_csr known]
      exact Executed.at_regular instruction.execute_internal
  | none =>
      rw [executeInsn_other known]
      split
      · unfold executePrivileged
        split_ifs with call breakpoint supervisor machine wait
        · exact Executed.at_regular (by simp [executeECALL, raises, ExecuteStatus.Internal])
        · exact Executed.at_regular (by simp [executeEBREAK, raises, ExecuteStatus.Internal])
        · apply Executed.at_regular
          unfold executeSRET
          extract_lets
          split <;> simp [raiseIllegalInsnException, raises, ExecuteStatus.Internal]
        · apply Executed.at_regular
          unfold executeMRET
          extract_lets
          split <;> simp [raiseIllegalInsnException, raises, ExecuteStatus.Internal]
        · unfold executeWFI
          extract_lets prv
          split
          · exact illegal
          · split
            next allowed polls => exact absurd ⟨wait, allowed, polls.1, polls.2⟩ stays
            next => exact Executed.at_regular (by simp [advanceToNextInsn, ExecuteStatus.Internal])
        · apply Executed.at_regular
          unfold executeSFENCEVMA
          split_ifs <;> simp [raiseIllegalInsnException, raises, advanceToNextInsn,
            ExecuteStatus.Internal]
      · split
        · exact illegal
        · exact ⟨rfl, fun halt => Outcome.finish_halted _ halt⟩

end Instructions

section Rounds

variable {interpreter : Interpreter Rest Cache} {mcycleEnd : Word}
  {state next : LoopState Rest Cache}

/-- A poll gives back a cycle between its two arguments. -/
def Interpreter.PollsBetween (interpreter : Interpreter Rest Cache) : Prop :=
  ∀ cpu mcycle mcycleMax, mcycle ≤ mcycleMax →
    mcycle ≤ (interpreter.poll cpu mcycle mcycleMax).mcycle ∧
      (interpreter.poll cpu mcycle mcycleMax).mcycle ≤ mcycleMax

/-- The instruction that a round of the inner loop executes, and the state it executes in. -/
def Fetches (interpreter : Interpreter Rest Cache) (state : LoopState Rest Cache)
    (mcycleTickEnd : Word) (cpu : Cpu Rest) (insn : BitVec 32) : Prop :=
  state.phase = .inner mcycleTickEnd ∧ state.mcycle < mcycleTickEnd ∧
  ∃ walked vaddrPage cache,
    interpreter.fetch state.cpu state.fetchVaddrPage state.fetchCache state.pc =
      .fetched walked vaddrPage cache insn ∧ cpu = walked.apply state.cpu

/-- A wait that this round makes ends before the target cycle. -/
def WaitsShort (interpreter : Interpreter Rest Cache) (mcycleEnd : Word)
    (state : LoopState Rest Cache) : Prop :=
  ∀ mcycleTickEnd cpu insn, Fetches interpreter state mcycleTickEnd cpu insn →
    Waits interpreter cpu state.mcycle mcycleEnd insn →
    (interpreter.poll cpu state.mcycle (waitLimit cpu mcycleEnd)).mcycle < mcycleEnd

/-- One round leads from a state to the next. -/
def Steps (interpreter : Interpreter Rest Cache) (mcycleEnd : Word)
    (state next : LoopState Rest Cache) : Prop :=
  round interpreter mcycleEnd state = .goes next

/-- The states of the loop that are reached from a state. -/
def Reaches (interpreter : Interpreter Rest Cache) (mcycleEnd : Word) :
    LoopState Rest Cache → LoopState Rest Cache → Prop :=
  Relation.ReflTransGen (Steps interpreter mcycleEnd)

/-- Neither the cycle nor the next tick is past the target. -/
structure LoopState.Below (mcycleEnd : Word) (state : LoopState Rest Cache) : Prop where
  mcycle : state.mcycle ≤ mcycleEnd
  tick : ∀ mcycleTickEnd, state.phase = .inner mcycleTickEnd → mcycleTickEnd ≤ mcycleEnd

/-- The rounds that are left, where each cycle takes at most three. -/
def LoopState.left (mcycleEnd : Word) (state : LoopState Rest Cache) : Nat :=
  3 * (mcycleEnd.toNat - state.mcycle.toNat) +
    match state.phase with
    | .outer => 1
    | .inner mcycleTickEnd => if state.mcycle < mcycleTickEnd then 0 else 2

theorem waitLimit_le (cpu : Cpu Rest) (mcycleEnd : Word) : waitLimit cpu mcycleEnd ≤ mcycleEnd := by
  unfold waitLimit minWord
  split
  · exact BitVec.le_refl _
  next larger =>
    rw [BitVec.lt_def] at larger
    rw [BitVec.le_def]
    omega

theorem nextTickEnd_bounds {mcycle : Word} (room : mcycle < mcycleEnd) :
    mcycle < nextTickEnd mcycleEnd mcycle ∧ nextTickEnd mcycleEnd mcycle ≤ mcycleEnd := by
  have phase : (mcycle % rtcFreqDiv).toNat < 8192 := by
    rw [BitVec.toNat_umod]
    exact Nat.mod_lt _ (by decide)
  unfold nextTickEnd minWord
  generalize mcycle % rtcFreqDiv = since at phase ⊢
  unfold rtcFreqDiv
  split <;> bv_omega

/-- The cycle after an instruction, which is below the target where the waits are short. -/
theorem executeInsn_mcycle {cpu : Cpu Rest} (pc : Word) {mcycle : Word} {insn : BitVec 32}
    (between : interpreter.PollsBetween) (room : mcycle < mcycleEnd)
    (short : Waits interpreter cpu mcycle mcycleEnd insn →
      (interpreter.poll cpu mcycle (waitLimit cpu mcycleEnd)).mcycle < mcycleEnd) :
    mcycle ≤ (executeInsn cpu pc mcycle insn interpreter mcycleEnd).mcycle ∧
    (executeInsn cpu pc mcycle insn interpreter mcycleEnd).mcycle < mcycleEnd ∧
    ((executeInsn cpu pc mcycle insn interpreter mcycleEnd).status = .successAndHalt →
      (executeInsn cpu pc mcycle insn interpreter mcycleEnd).cpu.registers.iflagsH = 1) := by
  by_cases waits : Waits interpreter cpu mcycle mcycleEnd insn
  · have room' : mcycle ≤ waitLimit cpu mcycleEnd := BitVec.le_of_lt waits.2.2.2
    rw [executeInsn_waits waits]
    refine ⟨(between cpu mcycle _ room').1, short waits, ?_⟩
    intro halt
    have answers := (interpreter.poll cpu mcycle (waitLimit cpu mcycleEnd)).answers
    have status : (interpreter.poll cpu mcycle (waitLimit cpu mcycleEnd)).status =
        .successAndHalt := halt
    rw [status] at answers
    simp at answers
  · have regular :
        (executeInsn cpu pc mcycle insn interpreter mcycleEnd).Regular mcycle :=
      executeInsn_regular waits
    rw [regular.mcycle]
    exact ⟨BitVec.le_refl _, room, regular.halted⟩

theorem afterInsn_goes {mcycleTickEnd vaddrPage : Word} {cache : Cache}
    {advanced : Advanced Rest}
    (goes : afterInsn mcycleTickEnd vaddrPage cache advanced = .goes next) :
    next.cpu = advanced.cpu ∧ next.pc = advanced.pc ∧ next.mcycle = advanced.mcycle + 1 ∧
      (next.phase = .inner mcycleTickEnd ∨ next.phase = .outer) := by
  unfold afterInsn at goes
  cases known : advanced.status <;> rw [known] at goes <;>
    first
    | (rw [← Round.goes.inj goes]; simp)
    | cases goes

theorem afterInsn_ends {mcycleTickEnd vaddrPage : Word} {cache : Cache}
    {advanced : Advanced Rest} {status : ExecuteStatus} {cpu : Cpu Rest}
    (ends : afterInsn mcycleTickEnd vaddrPage cache advanced = .ends status cpu) :
    status = advanced.status ∧
    status ∈ [.successAndYield, .successAndHalt, .successAndConsoleOutput,
      ExecuteStatus.successAndConsoleInput] ∧
    cpu = advanced.cpu.withRegisters
      { advanced.cpu.registers with pc := advanced.pc, mcycle := advanced.mcycle + 1 } := by
  unfold afterInsn at ends
  cases known : advanced.status <;> rw [known] at ends <;> cases ends <;>
    exact ⟨rfl, by decide, rfl⟩

/-- What a round that goes on can do. -/
inductive Stepped (interpreter : Interpreter Rest Cache) (mcycleEnd : Word)
    (state next : LoopState Rest Cache) : Prop
  | head (phase : state.phase = .outer) (room : state.mcycle < mcycleEnd)
      (reached : next = outerRound interpreter mcycleEnd state)
  | leave (mcycleTickEnd : Word) (phase : state.phase = .inner mcycleTickEnd)
      (ticked : ¬state.mcycle < mcycleTickEnd) (reached : next = { state with phase := .outer })
  | insn (mcycleTickEnd : Word) (cpu : Cpu Rest) (insn : BitVec 32)
      (fetches : Fetches interpreter state mcycleTickEnd cpu insn)
      (advanced : Advanced Rest)
      (ran : executeInsn cpu state.pc state.mcycle insn interpreter mcycleEnd = advanced)
      (cpuAfter : next.cpu = advanced.cpu) (pcAfter : next.pc = advanced.pc)
      (mcycleAfter : next.mcycle = advanced.mcycle + 1)
      (phaseAfter : next.phase = .inner mcycleTickEnd ∨ next.phase = .outer)
  | fault (mcycleTickEnd : Word) (phase : state.phase = .inner mcycleTickEnd)
      (room : state.mcycle < mcycleTickEnd) (walked : Walked Rest) (cache : Cache)
      (cause tval : Word)
      (faults : interpreter.fetch state.cpu state.fetchVaddrPage state.fetchCache state.pc =
        .faults walked cache cause tval)
      (cpuAfter : next.cpu = (raiseException (walked.apply state.cpu) state.pc cause tval).1)
      (mcycleAfter : next.mcycle = state.mcycle + 1)
      (phaseAfter : next.phase = .inner mcycleTickEnd)

theorem Steps.stepped (goes : Steps interpreter mcycleEnd state next) :
    Stepped interpreter mcycleEnd state next := by
  unfold Steps round at goes
  split at goes
  next phase =>
    split at goes
    next room => exact .head phase room (Round.goes.inj goes).symm
    next => cases goes
  next mcycleTickEnd phase =>
    split at goes
    next room =>
      unfold innerRound at goes
      split at goes
      next walked page cache insn fetched =>
        obtain ⟨cpu, pc, mcycle, after⟩ := afterInsn_goes goes
        exact .insn mcycleTickEnd _ insn ⟨phase, room, walked, page, cache, fetched, rfl⟩ _ rfl cpu
          pc mcycle after
      next walked cache cause tval faults =>
        cases goes
        exact .fault mcycleTickEnd phase room walked cache cause tval faults rfl rfl rfl
    next ticked => exact .leave mcycleTickEnd phase ticked (Round.goes.inj goes).symm

theorem LoopState.left_le (mcycleEnd : Word) (state : LoopState Rest Cache) :
    3 * (mcycleEnd.toNat - state.mcycle.toNat) ≤ state.left mcycleEnd ∧
    state.left mcycleEnd ≤ 3 * (mcycleEnd.toNat - state.mcycle.toNat) + 2 := by
  unfold LoopState.left
  split
  · omega
  · split <;> omega

/-- A round keeps the cycle below the target and leaves fewer rounds. -/
theorem Steps.below (goes : Steps interpreter mcycleEnd state next)
    (between : interpreter.PollsBetween) (below : state.Below mcycleEnd)
    (short : WaitsShort interpreter mcycleEnd state) :
    next.Below mcycleEnd ∧ next.left mcycleEnd < state.left mcycleEnd := by
  have advances {mcycleTickEnd cycle : Word} (limit : mcycleTickEnd ≤ mcycleEnd)
      (grows : state.mcycle ≤ cycle) (before : cycle < mcycleEnd) (after : next.mcycle = cycle + 1)
      (phase : next.phase = .inner mcycleTickEnd ∨ next.phase = .outer) :
      next.Below mcycleEnd ∧ next.left mcycleEnd < state.left mcycleEnd := by
    have counted : next.mcycle.toNat = cycle.toNat + 1 := by
      rw [after]
      bv_omega
    rw [BitVec.lt_def] at before
    rw [BitVec.le_def] at grows
    constructor
    · constructor
      · rw [BitVec.le_def]
        omega
      · intro other inner
        obtain same | same := phase
        · rw [inner] at same
          cases same
          exact limit
        · rw [inner] at same
          cases same
    · have lower := (state.left_le mcycleEnd).1
      have upper := (next.left_le mcycleEnd).2
      omega
  cases goes.stepped with
  | head phase room reached =>
      subst reached
      obtain ⟨first, second⟩ := nextTickEnd_bounds room
      constructor
      · constructor
        · exact below.mcycle
        · intro mcycleTickEnd same
          cases same
          exact second
      · have entered : (outerRound interpreter mcycleEnd state).left mcycleEnd =
            3 * (mcycleEnd.toNat - state.mcycle.toNat) :=
          congrArg (_ + ·) (if_pos first)
        rw [entered]
        simp only [LoopState.left, phase]
        omega
  | leave mcycleTickEnd phase ticked reached =>
      subst reached
      constructor
      · constructor
        · exact below.mcycle
        · intro other same
          cases same
      · simp only [LoopState.left, phase, if_neg ticked]
        omega
  | insn mcycleTickEnd cpu insn fetches advanced ran _ _ after phase =>
      have limit := below.tick mcycleTickEnd fetches.1
      have inside : state.mcycle < mcycleEnd := by
        have room := fetches.2.1
        bv_omega
      obtain ⟨grows, before, -⟩ := executeInsn_mcycle state.pc between inside
        (short mcycleTickEnd cpu insn fetches)
      rw [ran] at grows before
      exact advances limit grows before after phase
  | fault mcycleTickEnd phase room walked cache cause tval _ _ after inner =>
      have limit := below.tick mcycleTickEnd phase
      exact advances limit (BitVec.le_refl _) (by bv_omega) after (Or.inl inner)

theorem breakReason_reached {status : ExecuteStatus} {cpu : Cpu Rest}
    (outside : status ∈ [.successAndYield, .successAndHalt, .successAndConsoleOutput,
      ExecuteStatus.successAndConsoleInput])
    (reached : breakReason status cpu = .reachedTargetMcycle) :
    status = .successAndHalt ∧ cpu.registers.iflagsH = 0 := by
  unfold breakReason at reached
  split at reached
  · cases reached
  next running =>
    refine ⟨?_, by simpa using running⟩
    by_contra other
    simp only [List.mem_cons, other, List.not_mem_nil, or_false, false_or] at outside
    split at reached
    · cases reached
    · split at reached
      · cases reached
      · rcases outside with rfl | rfl | rfl <;> cases reached

/-- Where the loop ends, the cycle is at the target or a flag or a status says why it is not. -/
theorem round_ends {status : ExecuteStatus} {cpu : Cpu Rest} (between : interpreter.PollsBetween)
    (below : state.Below mcycleEnd) (short : WaitsShort interpreter mcycleEnd state)
    (ends : round interpreter mcycleEnd state = .ends status cpu) :
    cpu.registers.mcycle ≤ mcycleEnd ∧
      (breakReason status cpu = .reachedTargetMcycle → cpu.registers.mcycle = mcycleEnd) := by
  unfold round at ends
  split at ends
  next phase =>
    split at ends
    next => cases ends
    next reached =>
      have same : state.mcycle = mcycleEnd := by
        have room := below.mcycle
        bv_omega
      cases ends
      exact ⟨below.mcycle, fun _ => same⟩
  next mcycleTickEnd phase =>
    split at ends
    next room =>
      unfold innerRound at ends
      split at ends
      next walked page cache insn fetched =>
        obtain ⟨first, second, third⟩ := afterInsn_ends ends
        have limit := below.tick mcycleTickEnd phase
        have inside : state.mcycle < mcycleEnd := by bv_omega
        obtain ⟨-, before, halts⟩ := executeInsn_mcycle state.pc between inside
          (short mcycleTickEnd _ insn ⟨phase, room, walked, page, cache, fetched, rfl⟩)
        subst third
        constructor
        · show _ + 1 ≤ mcycleEnd
          bv_omega
        · intro reason
          obtain ⟨halt, running⟩ := breakReason_reached second reason
          rw [first] at halt
          have flag := (halts halt).symm.trans running
          exact absurd flag (by decide)
      next => cases ends
    next => cases ends

/-- A run of the loop ends within the rounds that are left, below the target. -/
theorem runLoop_below (between : interpreter.PollsBetween) (below : state.Below mcycleEnd)
    (short : ∀ reached, Reaches interpreter mcycleEnd state reached →
      WaitsShort interpreter mcycleEnd reached) (fuel : Nat)
    (enough : state.left mcycleEnd < fuel) :
    ∃ status cpu, runLoop interpreter mcycleEnd fuel state = some (status, cpu) ∧
      cpu.registers.mcycle ≤ mcycleEnd ∧
      (breakReason status cpu = .reachedTargetMcycle → cpu.registers.mcycle = mcycleEnd) := by
  induction fuel generalizing state with
  | zero => omega
  | succ fuel ih =>
      have here := short state Relation.ReflTransGen.refl
      rw [runLoop]
      cases ran : round interpreter mcycleEnd state with
      | goes next =>
          obtain ⟨nextBelow, fewer⟩ := Steps.below ran between below here
          apply ih nextBelow
          · intro reached later
            exact short reached (Relation.ReflTransGen.head ran later)
          · omega
      | ends status cpu =>
          exact ⟨status, cpu, rfl, round_ends between below here ran⟩

/-- More rounds change nothing after the end of the loop. -/
theorem runLoop_mono {fuel : Nat} {result : ExecuteStatus × Cpu Rest}
    (ran : runLoop interpreter mcycleEnd fuel state = some result) (more : Nat)
    (enough : fuel ≤ more) : runLoop interpreter mcycleEnd more state = some result := by
  induction fuel generalizing state more with
  | zero => cases ran
  | succ fuel ih =>
      obtain ⟨more, rfl⟩ : ∃ rest, more = rest + 1 := ⟨more - 1, by omega⟩
      rw [runLoop] at ran ⊢
      cases same : round interpreter mcycleEnd state with
      | goes next =>
          rw [same] at ran
          exact ih ran more (by omega)
      | ends status cpu =>
          rw [same] at ran
          exact ran

end Rounds

section Target

variable (interpreter : Interpreter Rest Cache) (cpu : Cpu Rest) (mcycleEnd : Word)

/-- The first state of the loop in a run of the interpreter. -/
def firstState : LoopState Rest Cache :=
  enterLoop interpreter (cpu.withRegisters { cpu.registers with iflagsX := 0 })
    cpu.registers.mcycle

/-- The interpreter returns at or before its target, and at its target when it says so, in every run
whose waits end before the target. -/
theorem interpret_target (between : interpreter.PollsBetween)
    (start : cpu.registers.mcycle ≤ mcycleEnd)
    (short : ∀ state, Reaches interpreter mcycleEnd (firstState interpreter cpu) state →
      WaitsShort interpreter mcycleEnd state) :
    ∃ reason after, (∃ bound, ∀ fuel ≥ bound,
        interpret interpreter fuel cpu mcycleEnd = some (reason, after)) ∧
      after.registers.mcycle ≤ mcycleEnd ∧
      (reason = .reachedTargetMcycle → after.registers.mcycle = mcycleEnd) := by
  unfold interpret
  by_cases halted : cpu.registers.iflagsH ≠ 0
  · simp only [if_pos halted]
    exact ⟨_, cpu, ⟨0, fun _ _ => rfl⟩, start, fun reason => by cases reason⟩
  by_cases yielded : cpu.registers.iflagsY ≠ 0
  · simp only [if_neg halted, if_pos yielded]
    exact ⟨_, cpu, ⟨0, fun _ _ => rfl⟩, start, fun reason => by cases reason⟩
  by_cases reached : cpu.registers.mcycle ≥ mcycleEnd
  · simp only [if_neg halted, if_neg yielded, if_pos reached]
    exact ⟨_, cpu, ⟨0, fun _ _ => rfl⟩, start, fun _ => by bv_omega⟩
  simp only [if_neg halted, if_neg yielded, if_neg reached]
  have below : (firstState interpreter cpu).Below mcycleEnd := by
    constructor
    · exact start
    · intro mcycleTickEnd same
      cases same
  obtain ⟨status, after, ran, limit, target⟩ := runLoop_below between below short
    ((firstState interpreter cpu).left mcycleEnd + 1) (Nat.lt_succ_self _)
  refine ⟨breakReason status after, after, ⟨(firstState interpreter cpu).left mcycleEnd + 1, ?_⟩,
    limit, target⟩
  intro fuel enough
  rw [interpretLoop, show enterLoop interpreter _ _ = firstState interpreter cpu from rfl,
    runLoop_mono ran fuel enough]
  rfl

end Target

section Host

/-- The poll of the machine gives back a cycle between its two arguments. -/
theorem pollExternalInterrupts_between (isUnreproducible : Bool)
    (wait : Cpu Rest → Word → Waited Rest) (cpu : Cpu Rest) (mcycle mcycleMax : Word)
    (room : mcycle ≤ mcycleMax) :
    mcycle ≤ (pollExternalInterrupts isUnreproducible wait cpu mcycle mcycleMax).mcycle ∧
      (pollExternalInterrupts isUnreproducible wait cpu mcycle mcycleMax).mcycle ≤ mcycleMax := by
  unfold pollExternalInterrupts
  split
  · dsimp only
    split
    · unfold minWord maxWord
      split_ifs <;> bv_omega
    · exact ⟨BitVec.le_refl _, room⟩
  · exact ⟨BitVec.le_refl _, room⟩

/-- A machine that waits for an interrupt at every address, with a host on which every wait takes a
number of microseconds. -/
def waitingInterpreter (elapsedUs : Word) : Interpreter Unit Unit where
  fetch cpu _ _ _ := .fetched ⟨cpu.tlbValid, ()⟩ 0 () wfiInsn
  ordinary cpu _ _ _ := .raises ⟨⟨cpu.tlbValid, ()⟩, cpu.x, 0, 0, []⟩ mcauseIllegalInsn 0
  interactive := true
  poll := pollExternalInterrupts true fun _ timeoutUs =>
    ⟨(), [], timeoutUs, elapsedUs, false, false⟩
  noCache := ()

/-- A machine in machine mode at the first cycle, with a timer for the first tick. -/
def waitingCpu : Cpu Unit :=
  scratchCpu.withRegisters { scratchCpu.registers with clintMtimecmp := 1 }

theorem waitingInterpreter_between (elapsedUs : Word) :
    (waitingInterpreter elapsedUs).PollsBetween :=
  fun cpu mcycle mcycleMax room => pollExternalInterrupts_between true _ cpu mcycle mcycleMax room

theorem waitingInterpreter_target :
    ∃ reason after, (∃ bound, ∀ fuel ≥ bound,
        interpret (waitingInterpreter 0) fuel waitingCpu 256 = some (reason, after)) ∧
      after.registers.mcycle ≤ 256 ∧
      (reason = .reachedTargetMcycle → after.registers.mcycle = 256) := by
  apply interpret_target (waitingInterpreter 0) waitingCpu 256 (waitingInterpreter_between 0)
    (by decide)
  intro state _ mcycleTickEnd cpu insn fetches waits
  have still : ((waitingInterpreter 0).poll cpu state.mcycle (waitLimit cpu 256)).mcycle =
      state.mcycle := by
    have room := waits.2.2.2
    show (pollExternalInterrupts true _ cpu state.mcycle (waitLimit cpu 256)).mcycle = _
    simp only [pollExternalInterrupts, if_true, minWord, maxWord]
    split_ifs <;> bv_omega
  rw [still]
  have limit := waitLimit_le cpu 256
  have room := waits.2.2.2
  bv_omega

/-- A wait of two microseconds ends at the target cycle 256, and the loop counts one more. -/
theorem waitingInterpreter_passes : (waitingInterpreter 2).PollsBetween ∧
    waitingCpu.registers.mcycle ≤ 256 ∧
    (interpret (waitingInterpreter 2) 4 waitingCpu 256).map
      (fun ended => (ended.1, ended.2.registers.mcycle)) = some (.reachedTargetMcycle, 257) := by
  refine ⟨waitingInterpreter_between 2, by decide, ?_⟩
  decide

end Host

end MachineEmulator.Interpret
