/-
This file shows when the timer interrupt is pending, from one write of the timer to the next.
-/

import MachineEmulator.Proof.Interpret.RetiredInstructions

namespace MachineEmulator.Interpret

variable {Rest Cache : Type}

section Registers

variable {registers : Registers} {mask : Word}

/-- Whether the timer interrupt is pending. -/
def Registers.mtip (registers : Registers) : Bool := registers.mip[7]

@[simp] theorem warlMip_mtip (val : Word) : (warlMip val)[7] = val[7] := by
  have bit : mipRwMask[7] = true := by decide
  rw [warlMip, BitVec.getElem_and, bit, Bool.and_true]

@[simp] theorem setMip_mtip :
    (registers.setMip mask).mtip = (registers.mtip || mask[7]) := by
  simp [Registers.mtip, Registers.setMip, Registers.readMip]

@[simp] theorem resetMip_mtip :
    (registers.resetMip mask).mtip = (registers.mtip && !mask[7]) := by
  simp [Registers.mtip, Registers.resetMip, Registers.readMip]

/-- The registers that the timer interrupt depends on stay as they are. -/
structure SameTimer (before after : Registers) : Prop where
  mtip : after.mtip = before.mtip
  clintMtimecmp : after.clintMtimecmp = before.clintMtimecmp

theorem SameTimer.trans {first second third : Registers} (one : SameTimer first second)
    (two : SameTimer second third) : SameTimer first third :=
  ⟨two.mtip.trans one.mtip, two.clintMtimecmp.trans one.clintMtimecmp⟩

theorem SameTimer.of_counters {before after : Registers} {icycleinstret : Word}
    (same : after.counters = { before.counters with icycleinstret }) :
    SameTimer before after := by
  have pending : after.mip = before.mip := congrArg Counters.mip same
  constructor
  · rw [Registers.mtip, pending, Registers.mtip]
  · exact congrArg Counters.clintMtimecmp same

theorem DeviceCall.foldl_timer (calls : List DeviceCall) (registers : Registers) :
    SameTimer registers (calls.foldl DeviceCall.perform registers) := by
  induction calls generalizing registers with
  | nil => exact ⟨rfl, rfl⟩
  | cons call rest ih =>
      rw [List.foldl_cons]
      apply SameTimer.trans _ (ih _)
      cases call with
      | pendExternal => exact ⟨by simp [DeviceCall.perform, mipMeipMask, mipSeipMask], rfl⟩
      | clearExternal => exact ⟨by simp [DeviceCall.perform, mipMeipMask, mipSeipMask], rfl⟩
      | _ => exact ⟨rfl, rfl⟩

theorem merge_mtip (old val mask : Word) (outside : mask[7] = false) :
    (warlMip (merge old val mask))[7] = old[7] := by
  simp [merge, outside]

end Registers

section Instructions

variable {cpu : Cpu Rest} {pc mcycle mcycleEnd : Word} {insn : BitVec 32}
  {interpreter : Interpreter Rest Cache}

theorem Effects.apply_timer (effects : Effects Rest) :
    SameTimer cpu.registers (effects.apply cpu).registers := by
  have kept := DeviceCall.foldl_timer effects.calls
    { cpu.registers with fcsr := effects.fcsr, ilrsc := effects.ilrsc }
  exact ⟨kept.mtip, kept.clintMtimecmp⟩

theorem raises_timer (cause tval : Word) :
    SameTimer cpu.registers (raises cpu pc cause tval).cpu.registers :=
  SameTimer.of_counters raiseException_counters

/-- No access to a control and status register changes the timer interrupt. -/
theorem writeCsrOf_timer (val : Word) (csr : Csr) :
    SameTimer cpu.registers (writeCsrOf cpu mcycle val csr).2.registers := by
  have counters := @writeCsrOf_counters Rest cpu mcycle val csr
  have delegated : cpu.registers.readMideleg[7] = false := by
    have bit : mipSRwMask[7] = false := by decide
    rw [Registers.readMideleg, warlMideleg, BitVec.getElem_and, bit, Bool.and_false]
  constructor
  · have pending := congrArg Counters.mip counters
    unfold Registers.mtip
    refine (congrArg (fun mip : Word => mip[7]) pending).trans ?_
    dsimp only
    split_ifs
    · rw [merge_mtip _ _ _ (by decide), Registers.readMip, warlMip_mtip]
    · rw [merge_mtip _ _ _ delegated, Registers.readMip, warlMip_mtip]
    · rfl
  · exact congrArg Counters.clintMtimecmp counters

theorem writeCsr_timer (val : Word) (csraddr : CsrAddress) :
    SameTimer cpu.registers (writeCsr cpu mcycle val csraddr).2.registers := by
  unfold writeCsr
  split
  · exact ⟨rfl, rfl⟩
  · split
    · exact ⟨rfl, rfl⟩
    · split
      · exact ⟨rfl, rfl⟩
      · exact writeCsrOf_timer _ _

theorem finishCsr_timer {old csrval : Word} {written : ExecuteStatus × Cpu Rest}
    (same : SameTimer cpu.registers written.2.registers) :
    SameTimer cpu.registers (finishCsr cpu insn old csrval written).cpu.registers := by
  rw [finishCsr]
  split
  · exact raises_timer _ _
  · rw [advanceToNextInsn, Cpu.writeX_registers]
    exact same

theorem CsrInstruction.execute_timer (instruction : CsrInstruction) :
    SameTimer cpu.registers (instruction.execute cpu pc mcycle insn).cpu.registers := by
  rw [CsrInstruction.execute_eq]
  split
  · exact raises_timer _ _
  next old read =>
    apply finishCsr_timer
    split
    · exact writeCsr_timer _ _
    · exact ⟨rfl, rfl⟩

/-- The value that an instruction writes to `mtimecmp`. -/
def writtenMtimecmp (interpreter : Interpreter Rest Cache) (cpu : Cpu Rest) (pc mcycle : Word)
    (insn : BitVec 32) : Option Word :=
  if insn &&& 0x7f = 0x73 then none
  else
    match interpreter.ordinary cpu pc mcycle insn with
    | .storesClint _ offset log2Size val _ _ _ =>
        if offset = 0x4000 ∧ log2Size = 3 then some val else none
    | _ => none

/-- A store to `mtimecmp` clears the interrupt and no other instruction changes it. -/
def TimerAfter (written : Option Word) (before after : Registers) : Prop :=
  match written with
  | some value => after.mtip = false ∧ after.clintMtimecmp = value
  | none => SameTimer before after

theorem Outcome.finish_timer (ordinary : ¬insn &&& 0x7f = 0x73) :
    TimerAfter (writtenMtimecmp interpreter cpu pc mcycle insn) cpu.registers
      ((interpreter.ordinary cpu pc mcycle insn).finish cpu pc).cpu.registers := by
  unfold writtenMtimecmp
  rw [if_neg ordinary]
  cases interpreter.ordinary cpu pc mcycle insn with
  | completes effects next status passed halts => exact effects.apply_timer
  | raises effects cause tval => exact effects.apply_timer.trans (raises_timer _ _)
  | storesClint before offset log2Size val vaddr after next =>
      have reached : SameTimer cpu.registers (before.apply cpu).registers := before.apply_timer
      dsimp only
      by_cases timer : offset = 0x4000 ∧ log2Size = 3
      · obtain ⟨rfl, rfl⟩ := timer
        have cleared : ((after (clintWriteDevice (before.apply cpu) 0x4000 3 val).2).apply
            (clintWriteDevice (before.apply cpu) 0x4000 3 val).2).registers.mtip = false ∧
            ((after (clintWriteDevice (before.apply cpu) 0x4000 3 val).2).apply
            (clintWriteDevice (before.apply cpu) 0x4000 3 val).2).registers.clintMtimecmp = val := by
          have kept := @Effects.apply_timer Rest (clintWriteDevice (before.apply cpu) 0x4000 3 val).2
            (after (clintWriteDevice (before.apply cpu) 0x4000 3 val).2)
          rw [kept.mtip, kept.clintMtimecmp]
          exact ⟨by simp [clintWriteDevice, Cpu.withRegisters, mipMtipMask], rfl⟩
        exact cleared
      · rw [if_neg timer]
        by_cases passed : (clintWriteDevice (before.apply cpu) offset log2Size val).1 ≠ .failure
        · have software : SameTimer (before.apply cpu).registers
              (clintWriteDevice (before.apply cpu) offset log2Size val).2.registers := by
            unfold clintWriteDevice
            split_ifs with zero size bit compare width
            · exact ⟨by simp [Cpu.withRegisters, mipMsipMask], rfl⟩
            · exact ⟨by simp [Cpu.withRegisters, mipMsipMask], rfl⟩
            · exact ⟨rfl, rfl⟩
            · exact absurd ⟨compare, width⟩ timer
            · exact ⟨rfl, rfl⟩
            · exact ⟨rfl, rfl⟩
          simp only [TimerAfter, Outcome.finish, if_pos passed]
          exact (reached.trans software).trans (Effects.apply_timer _)
        · simp only [TimerAfter, Outcome.finish, if_neg passed]
          exact reached.trans (raises_timer _ _)

theorem writtenMtimecmp_system (system : insn &&& 0x7f = 0x73) :
    writtenMtimecmp interpreter cpu pc mcycle insn = none := by
  rw [writtenMtimecmp, if_pos system]

theorem system_of_csr {instruction : CsrInstruction}
    (known : csrInstructionOf insn = some instruction) : insn &&& 0x7f = 0x73 := by
  unfold csrInstructionOf at known
  split at known
  next system => exact system
  next => cases known

theorem executeSRET_timer :
    SameTimer cpu.registers (executeSRET cpu pc insn).cpu.registers := by
  unfold executeSRET
  extract_lets prv mstatus spp spie enabled left written source stored reached
  split
  · exact raises_timer _ _
  · exact SameTimer.of_counters (withRegisters_counters (prv ≠ spp) _ spp)

theorem executeMRET_timer :
    SameTimer cpu.registers (executeMRET cpu pc insn).cpu.registers := by
  unfold executeMRET
  extract_lets prv mstatus mpp mpie enabled left written source stored reached
  split
  · exact raises_timer _ _
  · exact SameTimer.of_counters (withRegisters_counters (prv ≠ mpp) _ mpp)

theorem Polled.apply_timer (polled : Polled Rest) :
    SameTimer cpu.registers (polled.apply cpu).registers :=
  DeviceCall.foldl_timer polled.calls cpu.registers

/-- An instruction changes the timer interrupt by a store to `mtimecmp` alone. -/
theorem executeInsn_timer :
    TimerAfter (writtenMtimecmp interpreter cpu pc mcycle insn) cpu.registers
      (executeInsn cpu pc mcycle insn interpreter mcycleEnd).cpu.registers := by
  cases known : csrInstructionOf insn with
  | some instruction =>
      rw [writtenMtimecmp_system (system_of_csr known), executeInsn_csr known]
      exact CsrInstruction.execute_timer instruction
  | none =>
      rw [executeInsn_other known]
      by_cases system : insn &&& 0x7f = 0x73
      · rw [writtenMtimecmp_system system, if_pos system]
        show SameTimer _ _
        split
        · unfold executePrivileged
          split_ifs
          · exact raises_timer _ _
          · exact raises_timer _ _
          · exact executeSRET_timer
          · exact executeMRET_timer
          · unfold executeWFI
            extract_lets
            split_ifs
            · exact raises_timer _ _
            · exact Polled.apply_timer _
            · exact ⟨rfl, rfl⟩
          · unfold executeSFENCEVMA
            split_ifs
            · exact raises_timer _ _
            · exact raises_timer _ _
            · exact ⟨rfl, rfl⟩
        · exact raises_timer _ _
      · have unprivileged : isPrivileged insn = false := by
          rw [isPrivileged, beq_eq_false_iff_ne.mpr system]
          rfl
        rw [if_neg system, unprivileged]
        exact Outcome.finish_timer system

end Instructions

section Ticks

variable {interpreter : Interpreter Rest Cache} {mcycleEnd : Word}
  {state next : LoopState Rest Cache}

/-- A round writes the timer. -/
def timerWrite (interpreter : Interpreter Rest Cache) (state : LoopState Rest Cache) : Option Word :=
  match state.phase with
  | .outer => none
  | .inner mcycleTickEnd =>
      if state.mcycle < mcycleTickEnd then
        match interpreter.fetch state.cpu state.fetchVaddrPage state.fetchCache state.pc with
        | .faults _ _ _ _ => none
        | .fetched walked _ _ insn =>
            writtenMtimecmp interpreter (walked.apply state.cpu) state.pc state.mcycle insn
      else none

/-- The timer has a cycle in 64 bits, or its product with the divisor is zero. -/
def Representable (value : Word) : Prop :=
  value.toNat < 2 ^ 51 ∨ rtcTimeToCycle value = 0

/-- The tick at a cycle has been served by the head of the outer loop. -/
def Served (state : LoopState Rest Cache) (cycle : Word) : Prop :=
  cycle < state.mcycle ∨
    cycle = state.mcycle ∧ ∃ mcycleTickEnd, state.phase = .inner mcycleTickEnd ∧
      state.mcycle < mcycleTickEnd

/-- The timer interrupt is pending when a tick at which the timer had expired was served since a
cycle, and only then. -/
def TimerExact (since : Word) (state : LoopState Rest Cache) : Prop :=
  state.cpu.registers.mtip = true ↔
    state.cpu.registers.clintMtimecmp ≠ 0 ∧
    ∃ cycle, rtcIsTick cycle = true ∧ since ≤ cycle ∧ Served state cycle ∧
      state.cpu.registers.clintMtimecmp ≤ rtcCycleToTime cycle

/-- The inner loop ends at the next tick at the latest. -/
def LoopState.Ticks (state : LoopState Rest Cache) : Prop :=
  ∀ mcycleTickEnd, state.phase = .inner mcycleTickEnd → state.mcycle < mcycleTickEnd →
    mcycleTickEnd.toNat ≤ 8192 * (state.mcycle.toNat / 8192 + 1)

/-- The timer that a round writes can be compared in cycles, and a wait in the round ends neither at
the cycle of the timer nor at the last cycle of all. -/
structure Punctual (interpreter : Interpreter Rest Cache) (mcycleEnd : Word)
    (state : LoopState Rest Cache) : Prop where
  writes : ∀ value, timerWrite interpreter state = some value → Representable value
  waits : ∀ mcycleTickEnd cpu insn, Fetches interpreter state mcycleTickEnd cpu insn →
    Waits interpreter cpu state.mcycle mcycleEnd insn →
    (interpreter.poll cpu state.mcycle (waitLimit cpu mcycleEnd)).mcycle ≠
        rtcTimeToCycle cpu.registers.clintMtimecmp ∧
      (interpreter.poll cpu state.mcycle (waitLimit cpu mcycleEnd)).mcycle ≠ -1

theorem rtcTimeToCycle_toNat {value : Word} (small : value.toNat < 2 ^ 51) :
    (rtcTimeToCycle value).toNat = value.toNat * 8192 := by
  unfold rtcTimeToCycle rtcFreqDiv
  rw [BitVec.toNat_mul]
  exact Nat.mod_eq_of_lt (by show value.toNat * 8192 < 2 ^ 64; omega)

theorem rtcCycleToTime_toNat (cycle : Word) : (rtcCycleToTime cycle).toNat = cycle.toNat / 8192 := by
  unfold rtcCycleToTime rtcFreqDiv
  rw [BitVec.toNat_udiv]
  rfl

theorem rtcIsTick_iff (cycle : Word) : rtcIsTick cycle = true ↔ cycle.toNat % 8192 = 0 := by
  unfold rtcIsTick rtcFreqDiv
  rw [beq_iff_eq, ← BitVec.toNat_inj, BitVec.toNat_umod]
  rfl

/-- The comparison in cycles is the comparison of the times. -/
theorem rtcTimeToCycle_reached {value cycle : Word} (representable : Representable value) :
    (rtcTimeToCycle value ≤ cycle ∧ rtcTimeToCycle value ≠ 0) ↔
      (value ≠ 0 ∧ value ≤ rtcCycleToTime cycle) := by
  have bounded := cycle.isLt
  have nonzero (word : Word) : word ≠ 0 ↔ word.toNat ≠ 0 := by
    rw [ne_eq, ← BitVec.toNat_inj]
    rfl
  rw [nonzero, nonzero, BitVec.le_def, BitVec.le_def, rtcCycleToTime_toNat]
  by_cases small : value.toNat < 2 ^ 51
  · rw [rtcTimeToCycle_toNat small]
    omega
  · obtain small' | zero := representable
    · exact absurd small' small
    · rw [zero]
      constructor
      · rintro ⟨-, reached⟩
        exact absurd rfl reached
      · rintro ⟨-, reached⟩
        omega

theorem timerWrite_insn {mcycleTickEnd : Word} {cpu : Cpu Rest} {insn : BitVec 32}
    (fetches : Fetches interpreter state mcycleTickEnd cpu insn) :
    timerWrite interpreter state =
      writtenMtimecmp interpreter cpu state.pc state.mcycle insn := by
  obtain ⟨phase, room, walked, page, cache, fetched, same⟩ := fetches
  subst same
  unfold timerWrite
  rw [phase]
  dsimp only
  rw [if_pos room, fetched]

/-- The cycle after an instruction, which is later than the cycle before it and does not wrap. -/
theorem executeInsn_later (between : interpreter.PollsBetween)
    (punctual : Punctual interpreter mcycleEnd state) {mcycleTickEnd : Word} {cpu : Cpu Rest}
    {insn : BitVec 32} (fetches : Fetches interpreter state mcycleTickEnd cpu insn) :
    state.mcycle ≤ (executeInsn cpu state.pc state.mcycle insn interpreter mcycleEnd).mcycle ∧
    (executeInsn cpu state.pc state.mcycle insn interpreter mcycleEnd).mcycle ≠ -1 ∧
    ((executeInsn cpu state.pc state.mcycle insn interpreter mcycleEnd).mcycle = state.mcycle ∨
      (executeInsn cpu state.pc state.mcycle insn interpreter mcycleEnd).mcycle <
        rtcTimeToCycle cpu.registers.clintMtimecmp) := by
  by_cases waits : Waits interpreter cpu state.mcycle mcycleEnd insn
  · have room : state.mcycle ≤ waitLimit cpu mcycleEnd := BitVec.le_of_lt waits.2.2.2
    obtain ⟨later, limited⟩ := between cpu state.mcycle _ room
    obtain ⟨early, last⟩ := punctual.waits mcycleTickEnd cpu insn fetches waits
    have limit : waitLimit cpu mcycleEnd ≤ rtcTimeToCycle cpu.registers.clintMtimecmp := by
      unfold waitLimit minWord
      split
      next smaller => exact BitVec.le_of_lt smaller
      next => exact BitVec.le_refl _
    rw [executeInsn_waits waits]
    exact ⟨later, last, Or.inr (by bv_omega)⟩
  · have regular : (executeInsn cpu state.pc state.mcycle insn interpreter mcycleEnd).Regular
        state.mcycle := executeInsn_regular waits
    have room := fetches.2.1
    rw [regular.mcycle]
    exact ⟨BitVec.le_refl _, by bv_omega, Or.inl rfl⟩

/-- The inner loop ends at the next tick after every round. -/
theorem LoopState.Ticks.advance {mcycleTickEnd cycle : Word} (ticks : state.Ticks)
    (phase : state.phase = .inner mcycleTickEnd) (room : state.mcycle < mcycleTickEnd)
    (later : state.mcycle ≤ cycle) (last : cycle ≠ -1) (after : next.mcycle = cycle + 1)
    (phaseAfter : next.phase = .inner mcycleTickEnd ∨ next.phase = .outer) : next.Ticks := by
  have limit := ticks mcycleTickEnd phase room
  have counted : next.mcycle.toNat = cycle.toNat + 1 := by
    rw [after]
    bv_omega
  rw [BitVec.le_def] at later
  intro other inner before
  obtain same | same := phaseAfter
  · rw [inner] at same
    cases same
    omega
  · rw [inner] at same
    cases same

/-- No tick is served between the cycles of two rounds, but for those that a wait leaves behind. -/
theorem TimerExact.advance {mcycleTickEnd cycle since : Word} (exact' : TimerExact since state)
    (ticks : state.Ticks) (phase : state.phase = .inner mcycleTickEnd)
    (room : state.mcycle < mcycleTickEnd) (later : state.mcycle ≤ cycle) (last : cycle ≠ -1)
    (after : next.mcycle = cycle + 1)
    (phaseAfter : next.phase = .inner mcycleTickEnd ∨ next.phase = .outer)
    (same : SameTimer state.cpu.registers next.cpu.registers)
    (early : ∀ tick, state.mcycle < tick → tick ≤ cycle → state.cpu.registers.clintMtimecmp ≠ 0 →
      ¬state.cpu.registers.clintMtimecmp ≤ rtcCycleToTime tick) : TimerExact since next := by
  have limit := ticks mcycleTickEnd phase room
  have counted : next.mcycle.toNat = cycle.toNat + 1 := by
    rw [after]
    bv_omega
  unfold TimerExact
  rw [same.mtip, same.clintMtimecmp]
  refine exact'.trans ?_
  constructor
  · rintro ⟨enabled, tick, isTick, from', served, expired⟩
    refine ⟨enabled, tick, isTick, from', ?_, expired⟩
    left
    obtain before | ⟨now, -⟩ := served <;> bv_omega
  · rintro ⟨enabled, tick, isTick, from', served, expired⟩
    refine ⟨enabled, tick, isTick, from', ?_, expired⟩
    have reached : tick ≤ cycle := by
      obtain before | ⟨now, other, inner, before⟩ := served
      · bv_omega
      · exfalso
        rw [rtcIsTick_iff, now] at isTick
        rw [BitVec.le_def] at later
        obtain phaseSame | phaseSame := phaseAfter
        · rw [inner] at phaseSame
          cases phaseSame
          rw [BitVec.lt_def] at before
          omega
        · rw [inner] at phaseSame
          cases phaseSame
    by_cases past : state.mcycle < tick
    · exact absurd expired (early tick past reached enabled)
    · by_cases now : tick = state.mcycle
      · exact Or.inr ⟨now, mcycleTickEnd, phase, room⟩
      · left
        bv_omega

/-- Just after a write of the timer no tick has been served. -/
theorem TimerExact.written {mcycleTickEnd : Word} (ticks : state.Ticks)
    (phase : state.phase = .inner mcycleTickEnd) (room : state.mcycle < mcycleTickEnd)
    (after : next.mcycle = state.mcycle + 1)
    (phaseAfter : next.phase = .inner mcycleTickEnd ∨ next.phase = .outer)
    (cleared : next.cpu.registers.mtip = false) : TimerExact next.mcycle next := by
  have limit := ticks mcycleTickEnd phase room
  have counted : next.mcycle.toNat = state.mcycle.toNat + 1 := by
    rw [after]
    bv_omega
  unfold TimerExact
  rw [cleared]
  simp only [Bool.false_eq_true, false_iff, not_and, not_exists]
  intro enabled tick isTick from' served
  exfalso
  obtain before | ⟨now, other, inner, before⟩ := served
  · bv_omega
  · rw [rtcIsTick_iff, now] at isTick
    obtain phaseSame | phaseSame := phaseAfter
    · rw [inner] at phaseSame
      cases phaseSame
      rw [BitVec.lt_def] at before
      omega
    · rw [inner] at phaseSame
      cases phaseSame

theorem tick_timer (cpu : Cpu Rest) (mcycle : Word) :
    ((tick interpreter cpu mcycle).registers.mtip = true ↔
      cpu.registers.mtip = true ∨
      rtcIsTick mcycle = true ∧ rtcTimeToCycle cpu.registers.clintMtimecmp ≤ mcycle ∧
        rtcTimeToCycle cpu.registers.clintMtimecmp ≠ 0) ∧
    (tick interpreter cpu mcycle).registers.clintMtimecmp = cpu.registers.clintMtimecmp := by
  have timed : ((setRtcInterrupt cpu mcycle).registers.mtip = true ↔
      cpu.registers.mtip = true ∨ rtcTimeToCycle cpu.registers.clintMtimecmp ≤ mcycle ∧
        rtcTimeToCycle cpu.registers.clintMtimecmp ≠ 0) ∧
      (setRtcInterrupt cpu mcycle).registers.clintMtimecmp = cpu.registers.clintMtimecmp := by
    unfold setRtcInterrupt
    extract_lets timecmpCycle
    split
    next reached =>
      have set : (cpu.withRegisters (cpu.registers.setMip mipMtipMask)).registers.mtip = true := by
        simp [Cpu.withRegisters, mipMtipMask]
      exact ⟨⟨fun _ => Or.inr reached, fun _ => set⟩, rfl⟩
    next early => exact ⟨⟨Or.inl, fun pending => pending.resolve_right early⟩, rfl⟩
  unfold tick
  split
  next ticked =>
    simp only [ticked, true_and]
    split
    · have kept : SameTimer (setRtcInterrupt cpu mcycle).registers _ :=
        Polled.apply_timer (interpreter.poll (setRtcInterrupt cpu mcycle) mcycle mcycle)
      rw [kept.mtip, kept.clintMtimecmp]
      exact timed
    · exact timed
  next untimed => simp [untimed]

theorem raiseInterruptIfAny_timer (cpu : Cpu Rest) (pc : Word) :
    SameTimer cpu.registers (raiseInterruptIfAny cpu pc).1.registers := by
  unfold raiseInterruptIfAny
  extract_lets
  split
  · exact SameTimer.of_counters raiseException_counters
  · exact ⟨rfl, rfl⟩

theorem nextTickEnd_tick {mcycle : Word} (room : mcycle < mcycleEnd) :
    (nextTickEnd mcycleEnd mcycle).toNat ≤ 8192 * (mcycle.toNat / 8192 + 1) := by
  have remainder : (mcycle % rtcFreqDiv).toNat = mcycle.toNat % 8192 := by
    rw [BitVec.toNat_umod]
    rfl
  unfold nextTickEnd minWord
  generalize mcycle % rtcFreqDiv = phase at remainder ⊢
  unfold rtcFreqDiv
  split <;> bv_omega

/-- The head of the outer loop serves the tick at its cycle. -/
theorem TimerExact.head {since : Word} (exact' : TimerExact since state)
    (phase : state.phase = .outer) (room : state.mcycle < mcycleEnd)
    (passed : since ≤ state.mcycle)
    (representable : Representable state.cpu.registers.clintMtimecmp) :
    TimerExact since (outerRound interpreter mcycleEnd state) ∧
    (outerRound interpreter mcycleEnd state).cpu.registers.clintMtimecmp =
      state.cpu.registers.clintMtimecmp := by
  obtain ⟨pending, compare⟩ := @tick_timer _ _ interpreter state.cpu state.mcycle
  have kept := raiseInterruptIfAny_timer (tick interpreter state.cpu state.mcycle) state.pc
  have value : (outerRound interpreter mcycleEnd state).cpu.registers.clintMtimecmp =
      state.cpu.registers.clintMtimecmp := kept.clintMtimecmp.trans compare
  have flag : (outerRound interpreter mcycleEnd state).cpu.registers.mtip =
      (tick interpreter state.cpu state.mcycle).registers.mtip := kept.mtip
  refine ⟨?_, value⟩
  unfold TimerExact
  rw [value, flag, pending, rtcTimeToCycle_reached representable]
  unfold TimerExact at exact'
  rw [exact']
  obtain ⟨inside, -⟩ := nextTickEnd_bounds room
  constructor
  · rintro (⟨enabled, tick, isTick, from', served, expired⟩ | ⟨isTick, enabled, expired⟩)
    · refine ⟨enabled, tick, isTick, from', ?_, expired⟩
      obtain before | ⟨-, other, inner, -⟩ := served
      · exact Or.inl before
      · rw [phase] at inner
        cases inner
    · exact ⟨enabled, state.mcycle, isTick, passed, Or.inr ⟨rfl, _, rfl, inside⟩, expired⟩
  · rintro ⟨enabled, tick, isTick, from', served, expired⟩
    obtain before | ⟨now, -⟩ := served
    · exact Or.inl ⟨enabled, tick, isTick, from', Or.inl before, expired⟩
    · have same : tick = state.mcycle := now
      subst same
      exact Or.inr ⟨isTick, enabled, expired⟩

end Ticks

section Runs

variable {interpreter : Interpreter Rest Cache} {mcycleEnd : Word}
  {first state next : LoopState Rest Cache} {since : Option Word}

/-- A run of the loop with the cycle after its last write of the timer. -/
inductive TimerRuns (interpreter : Interpreter Rest Cache) (mcycleEnd : Word) :
    LoopState Rest Cache → Option Word → LoopState Rest Cache → Prop
  | start (state : LoopState Rest Cache) : TimerRuns interpreter mcycleEnd state none state
  | step {first state next : LoopState Rest Cache} {since : Option Word}
      (runs : TimerRuns interpreter mcycleEnd first since state)
      (goes : Steps interpreter mcycleEnd state next) :
      TimerRuns interpreter mcycleEnd first
        (if (timerWrite interpreter state).isSome then some next.mcycle else since) next

theorem TimerRuns.reaches (runs : TimerRuns interpreter mcycleEnd first since state) :
    Reaches interpreter mcycleEnd first state := by
  induction runs with
  | start => exact Relation.ReflTransGen.refl
  | step runs goes ih => exact ih.tail goes

/-- What every round keeps: the interrupt is exact since the last write. -/
structure TimerKept (since : Option Word) (state : LoopState Rest Cache) : Prop where
  ticks : state.Ticks
  passed : ∀ cycle, since = some cycle → cycle ≤ state.mcycle
  representable : since.isSome = true → Representable state.cpu.registers.clintMtimecmp
  exact : ∀ cycle, since = some cycle → TimerExact cycle state

theorem executeInsn_early (between : interpreter.PollsBetween)
    (punctual : Punctual interpreter mcycleEnd state) {mcycleTickEnd : Word} {cpu : Cpu Rest}
    {insn : BitVec 32} (fetches : Fetches interpreter state mcycleTickEnd cpu insn)
    (representable : Representable state.cpu.registers.clintMtimecmp) (tick : Word)
    (past : state.mcycle < tick)
    (reached : tick ≤ (executeInsn cpu state.pc state.mcycle insn interpreter mcycleEnd).mcycle)
    (enabled : state.cpu.registers.clintMtimecmp ≠ 0) :
    ¬state.cpu.registers.clintMtimecmp ≤ rtcCycleToTime tick := by
  intro expired
  obtain ⟨compare, -⟩ := (rtcTimeToCycle_reached representable).mpr ⟨enabled, expired⟩
  have same : cpu.registers = state.cpu.registers := by
    obtain ⟨-, -, walked, page, cache, -, rfl⟩ := fetches
    rfl
  obtain ⟨-, -, now | before⟩ := executeInsn_later between punctual fetches
  · bv_omega
  · rw [same] at before
    bv_omega

/-- An instruction that does not write the timer keeps the interrupt exact. -/
theorem TimerKept.advance {mcycleTickEnd cycle : Word} (kept : TimerKept since state)
    (phase : state.phase = .inner mcycleTickEnd) (room : state.mcycle < mcycleTickEnd)
    (later : state.mcycle ≤ cycle) (last : cycle ≠ -1) (after : next.mcycle = cycle + 1)
    (phaseAfter : next.phase = .inner mcycleTickEnd ∨ next.phase = .outer)
    (same : SameTimer state.cpu.registers next.cpu.registers)
    (early : Representable state.cpu.registers.clintMtimecmp → ∀ tick, state.mcycle < tick →
      tick ≤ cycle → state.cpu.registers.clintMtimecmp ≠ 0 →
      ¬state.cpu.registers.clintMtimecmp ≤ rtcCycleToTime tick) : TimerKept since next := by
  constructor
  · exact kept.ticks.advance phase room later last after phaseAfter
  · intro cycle written
    have passed := kept.passed cycle written
    bv_omega
  · intro written
    rw [same.clintMtimecmp]
    exact kept.representable written
  · intro cycle written
    exact (kept.exact cycle written).advance kept.ticks phase room later last after phaseAfter same
      (early (kept.representable (by rw [written]; rfl)))

/-- A round keeps the interrupt exact. -/
theorem TimerKept.step (kept : TimerKept since state) (between : interpreter.PollsBetween)
    (punctual : Punctual interpreter mcycleEnd state)
    (goes : Steps interpreter mcycleEnd state next) :
    TimerKept (if (timerWrite interpreter state).isSome then some next.mcycle else since) next := by
  cases goes.stepped with
  | head phase room reached =>
      have unwritten : timerWrite interpreter state = none := by
        rw [timerWrite, phase]
      simp only [unwritten, Option.isSome_none, Bool.false_eq_true, if_false]
      subst reached
      obtain ⟨inside, -⟩ := nextTickEnd_bounds room
      have compare : (outerRound interpreter mcycleEnd state).cpu.registers.clintMtimecmp =
          state.cpu.registers.clintMtimecmp :=
        (raiseInterruptIfAny_timer _ _).clintMtimecmp.trans (tick_timer _ _).2
      constructor
      · intro mcycleTickEnd inner before
        cases inner
        exact nextTickEnd_tick room
      · exact kept.passed
      · intro written
        rw [compare]
        exact kept.representable written
      · intro cycle same
        exact (TimerExact.head (kept.exact cycle same) phase room (kept.passed cycle same)
          (kept.representable (by rw [same]; rfl))).1
  | leave mcycleTickEnd phase ticked reached =>
      have unwritten : timerWrite interpreter state = none := by
        rw [timerWrite, phase]
        dsimp only
        rw [if_neg ticked]
      simp only [unwritten, Option.isSome_none, Bool.false_eq_true, if_false]
      subst reached
      constructor
      · intro other inner
        cases inner
      · exact kept.passed
      · exact kept.representable
      · intro cycle same
        refine (kept.exact cycle same).trans ?_
        have served (tick : Word) : Served state tick ↔
            Served { state with phase := .outer } tick := by
          apply or_congr Iff.rfl
          constructor
          · rintro ⟨-, other, inner, before⟩
            rw [phase] at inner
            cases inner
            exact absurd before ticked
          · rintro ⟨-, other, inner, -⟩
            cases inner
        simp only [served]
  | insn mcycleTickEnd cpu insn fetches advanced ran cpuAfter pcAfter mcycleAfter phaseAfter =>
      obtain ⟨later, last, -⟩ := executeInsn_later between punctual fetches
      have early := executeInsn_early between punctual fetches
      have timer : TimerAfter (writtenMtimecmp interpreter cpu state.pc state.mcycle insn)
          cpu.registers (executeInsn cpu state.pc state.mcycle insn interpreter
            mcycleEnd).cpu.registers := executeInsn_timer
      have same : cpu.registers = state.cpu.registers := by
        obtain ⟨-, -, walked, page, cache, -, rfl⟩ := fetches
        rfl
      have ticks : next.Ticks := by
        rw [ran] at later last
        exact kept.ticks.advance fetches.1 fetches.2.1 later last mcycleAfter phaseAfter
      rw [← timerWrite_insn fetches, same, ran, ← cpuAfter] at timer
      cases written : timerWrite interpreter state with
      | none =>
          simp only [Option.isSome_none, Bool.false_eq_true, if_false]
          rw [written] at timer
          rw [ran] at later last early
          exact kept.advance fetches.1 fetches.2.1 later last mcycleAfter phaseAfter timer early
      | some value =>
          simp only [Option.isSome_some, if_true]
          rw [written] at timer
          have stays : advanced.mcycle = state.mcycle := by
            have still : ¬Waits interpreter cpu state.mcycle mcycleEnd insn := by
              intro waits
              rw [timerWrite_insn fetches, writtenMtimecmp_system (by rw [waits.1]; rfl)] at written
              cases written
            have regular : (executeInsn cpu state.pc state.mcycle insn interpreter
                mcycleEnd).Regular state.mcycle := executeInsn_regular still
            rw [ran] at regular
            exact regular.mcycle
          rw [stays] at mcycleAfter
          constructor
          · exact ticks
          · intro cycle same
            cases same
            exact BitVec.le_refl _
          · intro _
            rw [timer.2]
            exact punctual.writes value written
          · intro cycle same
            cases same
            exact .written kept.ticks fetches.1 fetches.2.1 mcycleAfter phaseAfter timer.1
  | fault mcycleTickEnd phase room walked cache cause tval faults cpuAfter mcycleAfter inner =>
      have unwritten : timerWrite interpreter state = none := by
        rw [timerWrite, phase]
        dsimp only
        rw [if_pos room, faults]
      simp only [unwritten, Option.isSome_none, Bool.false_eq_true, if_false]
      have same : SameTimer state.cpu.registers next.cpu.registers := by
        rw [cpuAfter]
        exact SameTimer.of_counters raiseException_counters
      apply kept.advance phase room (BitVec.le_refl _) (by bv_omega) mcycleAfter (Or.inl inner) same
      intro representable tick past reached
      bv_omega

/-- A run from the entry of the loop keeps the interrupt exact. -/
theorem TimerRuns.kept (runs : TimerRuns interpreter mcycleEnd first since state)
    (between : interpreter.PollsBetween) (entered : first.phase = .outer)
    (punctual : ∀ state, Reaches interpreter mcycleEnd first state →
      Punctual interpreter mcycleEnd state) : TimerKept since state := by
  induction runs with
  | start =>
      constructor
      · intro mcycleTickEnd inner
        rw [entered] at inner
        cases inner
      · intro cycle written
        cases written
      · intro written
        cases written
      · intro cycle written
        cases written
  | step runs goes ih => exact ih.step between (punctual _ runs.reaches) goes

end Runs

section Interrupt

/-- A machine that stores a value to `mtimecmp` at every address. -/
def timerInterpreter (value : Word) : Interpreter Unit Unit where
  fetch cpu _ _ _ := .fetched ⟨cpu.tlbValid, ()⟩ 0 () 0x13
  ordinary cpu pc _ _ :=
    .storesClint ⟨⟨cpu.tlbValid, ()⟩, cpu.x, 0, 0, []⟩ 0x4000 3 value 0x2004000
      (fun cpu => ⟨⟨cpu.tlbValid, ()⟩, cpu.x, 0, 0, []⟩) (pc + 4)
  interactive := false
  poll cpu mcycle _ := ⟨cpu.rest, [], mcycle, .success, success_answers⟩
  noCache := ()

/-- The machine one cycle before a tick. -/
def timerCpu : Cpu Unit :=
  scratchCpu.withRegisters { scratchCpu.registers with mcycle := 8191 }

/-- The states of the machine: the loop begins, the store, the tick and the head of the loop. -/
def timerState (value : Word) : Nat → LoopState Unit Unit
  | 0 => firstState (timerInterpreter value) timerCpu
  | number + 1 => nextState (timerInterpreter value) 8200 (timerState value number)

/-- Whether a round goes on, and whether it writes the timer. -/
def timerRound (value : Word) (number : Nat) : Bool × Bool :=
  (match round (timerInterpreter value) 8200 (timerState value number) with
    | .goes _ => true
    | .ends _ _ => false,
  (timerWrite (timerInterpreter value) (timerState value number)).isSome)

theorem timerState_step {value : Word} {number : Nat} {since : Option Word} {writes : Bool}
    (runs : TimerRuns (timerInterpreter value) 8200
      (firstState (timerInterpreter value) timerCpu) since (timerState value number))
    (goes : timerRound value number = (true, writes)) :
    TimerRuns (timerInterpreter value) 8200 (firstState (timerInterpreter value) timerCpu)
      (if writes then some (timerState value (number + 1)).mcycle else since)
      (timerState value (number + 1)) := by
  obtain ⟨goesOn, written⟩ := Prod.mk.inj goes
  have steps : Steps (timerInterpreter value) 8200 (timerState value number)
      (timerState value (number + 1)) := by
    show round _ _ _ = .goes (nextState _ _ _)
    unfold nextState
    split at goesOn
    next next ran => rw [ran]
    next => cases goesOn
  rw [← written]
  exact runs.step steps

theorem timerState_runs {value : Word}
    (rounds : (List.range 4).map (timerRound value) =
      [(true, false), (true, true), (true, false), (true, false)])
    (cycle : (timerState value 2).mcycle = 8192) :
    TimerRuns (timerInterpreter value) 8200 (firstState (timerInterpreter value) timerCpu)
      (some 8192) (timerState value 4) := by
  simp only [List.range, List.range.loop, List.map_cons, List.map_nil, List.cons.injEq,
    and_true] at rounds
  obtain ⟨enter, store, leave, head⟩ := rounds
  have written := timerState_step (timerState_step (.start _) enter) store
  rw [if_pos rfl, cycle] at written
  exact timerState_step (timerState_step written leave) head

end Interrupt

end MachineEmulator.Interpret
