/-
This file gives the loop of the interpreter. The fetch of an instruction, the instructions that touch
neither the counters nor the traps, and the polls of the host are parameters.
-/

import MachineEmulator.Construction.Interpret.Csr
import MachineEmulator.Construction.Interpret.Devices

namespace MachineEmulator.Interpret

variable {Rest Cache : Type}

section Instructions

/-- What is changed by the translation of addresses: the look-aside buffer and the page tables. -/
structure Walked (Rest : Type) where
  tlbValid : TlbSet → Nat → Bool
  rest : Rest

def Walked.apply (walked : Walked Rest) (cpu : Cpu Rest) : Cpu Rest :=
  { cpu with tlbValid := walked.tlbValid, rest := walked.rest }

/-- What an instruction writes besides the registers of the supervisor and of the machine. -/
structure Effects (Rest : Type) extends Walked Rest where
  x : Fin 32 → Word
  fcsr : Word
  ilrsc : Word
  calls : List DeviceCall

def Effects.apply (effects : Effects Rest) (cpu : Cpu Rest) : Cpu Rest :=
  (Cpu.mk { cpu.registers with fcsr := effects.fcsr, ilrsc := effects.ilrsc } effects.x
    effects.tlbValid effects.rest).perform effects.calls

/-- The ways in which an instruction ends: it completes, it raises an exception, or it stores to the
CLINT, after which it completes with other effects. Only the halt of HTIF halts the machine. -/
inductive Outcome (Rest : Type) where
  | completes (effects : Effects Rest) (pc : Word) (status : ExecuteStatus)
      (passed : status ≠ .failure) (halts : status = .successAndHalt → .halt ∈ effects.calls)
  | raises (effects : Effects Rest) (cause tval : Word)
  | storesClint (before : Effects Rest) (offset : Word) (log2Size : Nat) (val vaddr : Word)
      (after : Cpu Rest → Effects Rest) (pc : Word)

/-- A fetch gives an instruction or the cause of an exception. -/
inductive Fetched (Rest Cache : Type) where
  | fetched (walked : Walked Rest) (vaddrPage : Word) (cache : Cache) (insn : BitVec 32)
  | faults (walked : Walked Rest) (cache : Cache) (cause tval : Word)

/-- The parameters of the interpreter. -/
structure Interpreter (Rest Cache : Type) where
  fetch : Cpu Rest → Word → Cache → Word → Fetched Rest Cache
  ordinary : Cpu Rest → Word → Word → BitVec 32 → Outcome Rest
  interactive : Bool
  poll : Cpu Rest → Word → Word → Polled Rest
  noCache : Cache

/-- The state, the program counter, the cycle and the status after an instruction. -/
structure Advanced (Rest : Type) where
  cpu : Cpu Rest
  pc : Word
  mcycle : Word
  status : ExecuteStatus

/-- An instruction that leaves the cycle to the loop. -/
def Executed.at (executed : Executed Rest) (mcycle : Word) : Advanced Rest :=
  ⟨executed.cpu, executed.pc, mcycle, executed.status⟩

/-- The end of an ordinary instruction, where a device may refuse a store. -/
def Outcome.finish (cpu : Cpu Rest) (pc : Word) : Outcome Rest → Executed Rest
  | .completes effects next status _ _ => ⟨effects.apply cpu, next, status⟩
  | .raises effects cause tval => Interpret.raises (effects.apply cpu) pc cause tval
  | .storesClint before offset log2Size val vaddr after next =>
      let reached := before.apply cpu
      let written := clintWriteDevice reached offset log2Size val
      if written.1 ≠ .failure then ⟨(after written.2).apply written.2, next, written.1⟩
      else Interpret.raises reached pc mcauseStoreAmoAccessFault vaddr

variable (cpu : Cpu Rest) (pc mcycle : Word) (insn : BitVec 32)

def executeECALL : Executed Rest := raises cpu pc (mcauseEcallBase + cpu.registers.iprv) 0

def executeEBREAK : Executed Rest := raises cpu pc mcauseBreakpoint pc

def executeSRET : Executed Rest :=
  let prv := cpu.registers.iprv
  let mstatus : Word := cpu.registers.readMstatus
  if prv < prvS ∨ prv = prvS ∧ mstatus &&& mstatusTsrMask ≠ 0 then
    raiseIllegalInsnException cpu pc insn
  else
    let spp : Word := (mstatus &&& mstatusSppMask) >>> 8
    let spie : Word := (mstatus &&& mstatusSpieMask) >>> 5
    let enabled : Word := (mstatus &&& ~~~mstatusSieMask) ||| (spie <<< 1)
    let left : Word := (enabled ||| mstatusSpieMask) &&& ~~~mstatusSppMask
    let written : Word := if spp < prvM then left &&& ~~~mstatusMprvMask else left
    let stored := cpu.withRegisters { cpu.registers with mstatus := warlMstatus written }
    let reached := if prv ≠ spp then setPrv stored spp else stored
    ⟨reached, reached.registers.readSepc, .successAndServeInterrupts⟩

def executeMRET : Executed Rest :=
  let prv := cpu.registers.iprv
  if prv < prvM then raiseIllegalInsnException cpu pc insn
  else
    let mstatus : Word := cpu.registers.readMstatus
    let mpp : Word := (mstatus &&& mstatusMppMask) >>> 11
    let mpie : Word := (mstatus &&& mstatusMpieMask) >>> 7
    let enabled : Word := (mstatus &&& ~~~mstatusMieMask) ||| (mpie <<< 3)
    let left : Word := (enabled ||| mstatusMpieMask) &&& ~~~mstatusMppMask
    let written : Word := if mpp < prvM then left &&& ~~~mstatusMprvMask else left
    let stored := cpu.withRegisters { cpu.registers with mstatus := warlMstatus written }
    let reached := if prv ≠ mpp then setPrv stored mpp else stored
    ⟨reached, reached.registers.readMepc, .successAndServeInterrupts⟩

/-- This is `execute_SFENCE_VMA`, which flushes every address, with one given or not. -/
def executeSFENCEVMA : Executed Rest :=
  if insn &&& 0xfe007fff ≠ 0x12000073 then raiseIllegalInsnException cpu pc insn
  else if cpu.registers.iprv = prvU ∨ tvmTraps cpu.registers then
    raiseIllegalInsnException cpu pc insn
  else advanceToNextInsn cpu.flushAllTlb pc .successAndFlushFetch

/-- The state after a poll. -/
def Polled.apply (polled : Polled Rest) : Cpu Rest :=
  { cpu with rest := polled.rest }.perform polled.calls

/-- The last cycle that a wait may reach. -/
def waitLimit (mcycleEnd : Word) : Word :=
  minWord (rtcTimeToCycle cpu.registers.clintMtimecmp) mcycleEnd

/-- This is `execute_WFI`. -/
def executeWFI (interpreter : Interpreter Rest Cache) (mcycleEnd : Word) : Advanced Rest :=
  let prv := cpu.registers.iprv
  if prv = prvU ∨ prv < prvM ∧ cpu.registers.readMstatus &&& mstatusTwMask ≠ 0 then
    (raiseIllegalInsnException cpu pc insn).at mcycle
  else if interpreter.interactive ∧ mcycle < waitLimit cpu mcycleEnd then
    let polled := interpreter.poll cpu mcycle (waitLimit cpu mcycleEnd)
    (advanceToNextInsn (polled.apply cpu) pc polled.status).at polled.mcycle
  else (advanceToNextInsn cpu pc .success).at mcycle

/-- This is `execute_privileged`. -/
def executePrivileged (interpreter : Interpreter Rest Cache) (mcycleEnd : Word) : Advanced Rest :=
  if insn = 0x00000073 then (executeECALL cpu pc).at mcycle
  else if insn = 0x00100073 then (executeEBREAK cpu pc).at mcycle
  else if insn = 0x10200073 then (executeSRET cpu pc insn).at mcycle
  else if insn = 0x30200073 then (executeMRET cpu pc insn).at mcycle
  else if insn = 0x10500073 then executeWFI cpu pc mcycle insn interpreter mcycleEnd
  else (executeSFENCEVMA cpu pc insn).at mcycle

/-- The instructions of the loop, of which those with the opcode `SYSTEM` are told apart by a field
of three bits. -/
def executeInsn (interpreter : Interpreter Rest Cache) (mcycleEnd : Word) : Advanced Rest :=
  if insn &&& 0x7f = 0x73 then
    match ((insn >>> 12) &&& 7).toNat with
    | 0 => executePrivileged cpu pc mcycle insn interpreter mcycleEnd
    | 1 => (executeCSRRW cpu pc mcycle insn).at mcycle
    | 2 => (executeCSRRS cpu pc mcycle insn).at mcycle
    | 3 => (executeCSRRC cpu pc mcycle insn).at mcycle
    | 5 => (executeCSRRWI cpu pc mcycle insn).at mcycle
    | 6 => (executeCSRRSI cpu pc mcycle insn).at mcycle
    | 7 => (executeCSRRCI cpu pc mcycle insn).at mcycle
    | _ => (raiseIllegalInsnException cpu pc insn).at mcycle
  else ((interpreter.ordinary cpu pc mcycle insn).finish cpu pc).at mcycle

end Instructions

section Loop

/-- The two nested loops: the inner one runs up to the next tick. -/
inductive Phase where
  | outer
  | inner (mcycleTickEnd : Word)
deriving DecidableEq, Repr

/-- The local variables of the loop. -/
structure LoopState (Rest Cache : Type) where
  phase : Phase
  cpu : Cpu Rest
  pc : Word
  mcycle : Word
  fetchVaddrPage : Word
  fetchCache : Cache

/-- This is `ensure_fetch_cache_miss`. -/
def ensureFetchCacheMiss (pc : Word) : Word := ~~~pc

/-- A round of the loop goes on, or the loop ends with a status. -/
inductive Round (Rest Cache : Type) where
  | goes (state : LoopState Rest Cache)
  | ends (status : ExecuteStatus) (cpu : Cpu Rest)

/-- The program counter and the cycle are written when the loop ends. -/
def LoopState.commit (state : LoopState Rest Cache) (status : ExecuteStatus) : Round Rest Cache :=
  .ends status (state.cpu.withRegisters
    { state.cpu.registers with pc := state.pc, mcycle := state.mcycle })

variable (interpreter : Interpreter Rest Cache) (mcycleEnd : Word)

/-- The work at a tick: the timer interrupt and, in interactive mode, a poll. -/
def tick (cpu : Cpu Rest) (mcycle : Word) : Cpu Rest :=
  if rtcIsTick mcycle then
    let timed := setRtcInterrupt cpu mcycle
    if interpreter.interactive then (interpreter.poll timed mcycle mcycle).apply timed else timed
  else cpu

/-- The limit of the inner loop. -/
def nextTickEnd (mcycle : Word) : Word :=
  mcycle + minWord (mcycleEnd - mcycle) (rtcFreqDiv - mcycle % rtcFreqDiv)

/-- The head of the outer loop. -/
def outerRound (state : LoopState Rest Cache) : LoopState Rest Cache :=
  let served := raiseInterruptIfAny (tick interpreter state.cpu state.mcycle) state.pc
  { phase := .inner (nextTickEnd mcycleEnd state.mcycle)
    cpu := served.1
    pc := served.2.1
    mcycle := state.mcycle
    fetchVaddrPage := if served.2.2 then ensureFetchCacheMiss served.2.1 else state.fetchVaddrPage
    fetchCache := state.fetchCache }

/-- The end of a round of the inner loop, after an instruction. -/
def afterInsn (mcycleTickEnd vaddrPage : Word) (cache : Cache) (advanced : Advanced Rest) :
    Round Rest Cache :=
  let page := if advanced.status = .success then vaddrPage else ensureFetchCacheMiss advanced.pc
  let next : LoopState Rest Cache :=
    ⟨.inner mcycleTickEnd, advanced.cpu, advanced.pc, advanced.mcycle + 1, page, cache⟩
  match advanced.status with
  | .success | .failure | .successAndFlushFetch => .goes next
  | .successAndServeInterrupts => .goes { next with phase := .outer }
  | status => next.commit status

/-- A round of the inner loop. -/
def innerRound (mcycleTickEnd : Word) (state : LoopState Rest Cache) : Round Rest Cache :=
  match interpreter.fetch state.cpu state.fetchVaddrPage state.fetchCache state.pc with
  | .fetched walked vaddrPage cache insn =>
      afterInsn mcycleTickEnd vaddrPage cache
        (executeInsn (walked.apply state.cpu) state.pc state.mcycle insn interpreter mcycleEnd)
  | .faults walked cache cause tval =>
      let trapped := raiseException (walked.apply state.cpu) state.pc cause tval
      .goes ⟨.inner mcycleTickEnd, trapped.1, trapped.2, state.mcycle + 1,
        ensureFetchCacheMiss trapped.2, cache⟩

/-- A round of either loop. -/
def round (state : LoopState Rest Cache) : Round Rest Cache :=
  match state.phase with
  | .outer =>
      if state.mcycle < mcycleEnd then .goes (outerRound interpreter mcycleEnd state)
      else state.commit .success
  | .inner mcycleTickEnd =>
      if state.mcycle < mcycleTickEnd then innerRound interpreter mcycleEnd mcycleTickEnd state
      else .goes { state with phase := .outer }

/-- A misaligned program counter raises an exception on the way into the loop. -/
def enterLoop (cpu : Cpu Rest) (mcycle : Word) : LoopState Rest Cache :=
  let pc := cpu.registers.pc
  let entered := if pc &&& 1 ≠ 0 then raiseException cpu pc mcauseInsnAddressMisaligned pc
    else (cpu, pc)
  ⟨.outer, entered.1, entered.2, mcycle, ensureFetchCacheMiss entered.2, interpreter.noCache⟩

/-- The loop, with a bound on the number of rounds. -/
def runLoop : Nat → LoopState Rest Cache → Option (ExecuteStatus × Cpu Rest)
  | 0, _ => none
  | fuel + 1, state =>
      match round interpreter mcycleEnd state with
      | .goes next => runLoop fuel next
      | .ends status cpu => some (status, cpu)

/-- This is `interpret_loop`. -/
def interpretLoop (fuel : Nat) (cpu : Cpu Rest) (mcycle : Word) :
    Option (ExecuteStatus × Cpu Rest) :=
  runLoop interpreter mcycleEnd fuel (enterLoop interpreter cpu mcycle)

end Loop

section Interpret

/-- This is `interpreter_break_reason`. -/
inductive InterpreterBreakReason where
  | halted
  | yieldedManually
  | yieldedAutomatically
  | yieldedSoftly
  | reachedTargetMcycle
  | consoleOutput
  | consoleInput
deriving DecidableEq, Repr

/-- The reason for which the loop has stopped. -/
def breakReason (status : ExecuteStatus) (cpu : Cpu Rest) : InterpreterBreakReason :=
  if cpu.registers.iflagsH ≠ 0 then .halted
  else if cpu.registers.iflagsY ≠ 0 then .yieldedManually
  else if cpu.registers.iflagsX ≠ 0 then .yieldedAutomatically
  else if status = .successAndYield then .yieldedSoftly
  else if status = .successAndConsoleOutput then .consoleOutput
  else if status = .successAndConsoleInput then .consoleInput
  else .reachedTargetMcycle

/-- This is `interpret`, in the build of the interpreter that has no assertions. -/
def interpret (interpreter : Interpreter Rest Cache) (fuel : Nat) (cpu : Cpu Rest)
    (mcycleEnd : Word) : Option (InterpreterBreakReason × Cpu Rest) :=
  let mcycle := cpu.registers.mcycle
  if cpu.registers.iflagsH ≠ 0 then some (.halted, cpu)
  else if cpu.registers.iflagsY ≠ 0 then some (.yieldedManually, cpu)
  else if mcycle ≥ mcycleEnd then some (.reachedTargetMcycle, cpu)
  else
    let reset := cpu.withRegisters { cpu.registers with iflagsX := 0 }
    (interpretLoop interpreter mcycleEnd fuel reset mcycle).map fun ended =>
      (breakReason ended.1 ended.2, ended.2)

end Interpret

end MachineEmulator.Interpret
