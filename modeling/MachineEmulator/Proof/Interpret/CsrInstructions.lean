/-
This file compares the six instructions on control and status registers with one specification.
-/

import MachineEmulator.Construction.Interpret.Csr

namespace MachineEmulator.Interpret

section Specification

inductive CsrOperation where
  | write
  | set
  | clear
deriving DecidableEq, Repr

/-- One of the six instructions, by its operation and by the kind of its operand. -/
structure CsrInstruction where
  operation : CsrOperation
  immediate : Bool
deriving DecidableEq, Repr

variable {Rest : Type}

/-- The function of the interpreter for an instruction. -/
def CsrInstruction.execute (instruction : CsrInstruction) (cpu : Cpu Rest) (pc mcycle : Word)
    (insn : BitVec 32) : Executed Rest :=
  match instruction.operation, instruction.immediate with
  | .write, false => executeCSRRW cpu pc mcycle insn
  | .write, true => executeCSRRWI cpu pc mcycle insn
  | .set, false => executeCSRRS cpu pc mcycle insn
  | .set, true => executeCSRRSI cpu pc mcycle insn
  | .clear, false => executeCSRRC cpu pc mcycle insn
  | .clear, true => executeCSRRCI cpu pc mcycle insn

/-- A register is there for the privilege level, and neither `FS` nor `TVM` takes it away. -/
def CsrPresent (registers : Registers) (csraddr : CsrAddress) (csr : Csr) : Prop :=
  csrPrv csraddr ≤ registers.iprv ∧
  (csr ∈ [Csr.fflags, .frm, .fcsr] → ¬fsOff registers) ∧
  (csr = .satp → ¬tvmTraps registers)

/-- A user counter can be read when it is enabled. -/
def CsrReadable (registers : Registers) (csraddr : CsrAddress) (csr : Csr) : Prop :=
  CsrPresent registers csraddr csr ∧
  (csr = .ucycle → rdcounteren registers 1) ∧ (csr = .utime → rdcounteren registers 2) ∧
  (csr = .uinstret → rdcounteren registers 4)

/-- The address says whether a register is read-only, and `mcycle` is never written. -/
def CsrWritable (registers : Registers) (csraddr : CsrAddress) (csr : Csr) : Prop :=
  CsrPresent registers csraddr csr ∧ csrIsReadOnly csraddr = false ∧ csr ≠ .mcycle

/-- The operand over 64 bits. -/
def CsrInstruction.operand (instruction : CsrInstruction) (cpu : Cpu Rest) (insn : BitVec 32) :
    Word :=
  if instruction.immediate then BitVec.ofNat 64 (insnGetRs1 insn).val else cpu.x (insnGetRs1 insn)

def CsrOperation.apply : CsrOperation → Word → Word → Word
  | .write, _, operand => operand
  | .set, old, operand => old ||| operand
  | .clear, old, operand => old &&& ~~~operand

def CsrInstruction.Reads (instruction : CsrInstruction) (insn : BitVec 32) : Prop :=
  instruction.operation = .write → insnGetRd insn ≠ 0

def CsrInstruction.Writes (instruction : CsrInstruction) (insn : BitVec 32) : Prop :=
  instruction.operation = .write ∨ insnGetRs1 insn ≠ 0

/-- What an instruction is to do: a legal access gives the old value to the destination register and
the new one to the register, whose legalisation follows; any other access is an illegal instruction. -/
inductive CsrInstruction.Specified (instruction : CsrInstruction) (cpu : Cpu Rest) (pc mcycle : Word)
    (insn : BitVec 32) : Executed Rest → Prop
  | writes (csr : Csr) (old : Word) (known : csrOfAddress (insnIGetUimm insn) = some csr)
      (writing : instruction.Writes insn)
      (readable : instruction.Reads insn → CsrReadable cpu.registers (insnIGetUimm insn) csr)
      (writable : CsrWritable cpu.registers (insnIGetUimm insn) csr)
      (value : instruction.Reads insn → readCsrOf cpu.registers mcycle csr = some old) :
      Specified instruction cpu pc mcycle insn
        (let written := writeCsrOf cpu mcycle
          (instruction.operation.apply old (instruction.operand cpu insn)) csr
        ⟨written.2.writeX (insnGetRd insn) old, pc + 4, written.1⟩)
  | keeps (csr : Csr) (old : Word) (known : csrOfAddress (insnIGetUimm insn) = some csr)
      (keeping : ¬instruction.Writes insn)
      (readable : CsrReadable cpu.registers (insnIGetUimm insn) csr)
      (value : readCsrOf cpu.registers mcycle csr = some old) :
      Specified instruction cpu pc mcycle insn
        ⟨cpu.writeX (insnGetRd insn) old, pc + 4, .success⟩
  | traps (refused : ∀ csr, csrOfAddress (insnIGetUimm insn) = some csr →
        (instruction.Reads insn ∧ ¬CsrReadable cpu.registers (insnIGetUimm insn) csr) ∨
        (instruction.Writes insn ∧ ¬CsrWritable cpu.registers (insnIGetUimm insn) csr)) :
      Specified instruction cpu pc mcycle insn (raiseIllegalInsnException cpu pc insn)

/-- The registers with bits above the low half that a write can change. -/
def Csr.wide : Csr → Bool
  | .stvec | .sscratch | .sepc | .scause | .stval | .satp | .mtvec | .mscratch | .mepc | .mcause
  | .mtval | .minstret => true
  | _ => false

/-- The instruction clears bits by an immediate operand in a wide register whose high half is not
zero. -/
def CsrInstruction.LosesHighHalf (instruction : CsrInstruction) (cpu : Cpu Rest) (mcycle : Word)
    (insn : BitVec 32) : Prop :=
  instruction = ⟨.clear, true⟩ ∧ insnGetRs1 insn ≠ 0 ∧
  ∃ csr, csrOfAddress (insnIGetUimm insn) = some csr ∧ csr.wide = true ∧
    CsrPresent cpu.registers (insnIGetUimm insn) csr ∧
    ∃ old, readCsrOf cpu.registers mcycle csr = some old ∧ old >>> 32 ≠ 0

end Specification

section Access

variable {Rest : Type} {cpu : Cpu Rest} {registers : Registers} {mcycle : Word}
  {csraddr : CsrAddress} {csr : Csr}

/-- A read fails where `FS`, `TVM` or the counter enables forbid it. -/
theorem readCsrOf_isSome :
    (readCsrOf registers mcycle csr).isSome = true ↔
      (csr ∈ [Csr.fflags, .frm, .fcsr] → ¬fsOff registers) ∧
      (csr = .satp → ¬tvmTraps registers) ∧
      (csr = .ucycle → rdcounteren registers 1) ∧ (csr = .utime → rdcounteren registers 2) ∧
      (csr = .uinstret → rdcounteren registers 4) := by
  cases csr <;> simp [readCsrOf]

variable (mcycle) in
theorem readCsr_readable (known : csrOfAddress csraddr = some csr)
    (readable : CsrReadable registers csraddr csr) :
    ∃ value, readCsrOf registers mcycle csr = some value ∧
      readCsr registers mcycle csraddr = some value := by
  obtain ⟨⟨privilege, float, translation⟩, counters⟩ := readable
  obtain ⟨value, read⟩ := Option.isSome_iff_exists.mp
    (readCsrOf_isSome.mpr ⟨float, translation, counters⟩)
  use value, read
  rw [readCsr, if_neg (by simpa using privilege), known]
  exact read

theorem readCsr_refused (refused : ∀ csr, csrOfAddress csraddr = some csr →
    ¬CsrReadable registers csraddr csr) : readCsr registers mcycle csraddr = none := by
  rw [readCsr]
  split
  · rfl
  next privilege =>
    cases known : csrOfAddress csraddr with
    | none => rfl
    | some csr =>
        show readCsrOf registers mcycle csr = none
        rw [← Option.not_isSome_iff_eq_none, readCsrOf_isSome]
        rintro ⟨float, translation, counters⟩
        exact refused csr known ⟨⟨by simpa using privilege, float, translation⟩, counters⟩

/-- The registers that no case of a write covers have read-only addresses. -/
theorem csrOfAddress_readOnly (known : csrOfAddress csraddr = some csr)
    (unwritten : csr ∈ [Csr.ucycle, .utime, .uinstret, .mvendorid, .marchid, .mimpid, .mhartid,
      .mconfigptr]) : csrIsReadOnly csraddr = true := by
  have address (value : Nat) (same : csraddr.toNat = value) : csraddr = BitVec.ofNat 12 value := by
    rw [← same, BitVec.ofNat_toNat, BitVec.setWidth_eq]
  unfold csrOfAddress at known
  split at known
  all_goals first
    | (cases known; simp at unwritten; done)
    | (rename_i same; rw [address _ same]; rfl)
    | skip
  split at known
  · cases known
    simp at unwritten
  · split at known
    · cases known
      simp at unwritten
    · cases known

theorem writeCsrOf_failure {val : Word} :
    (writeCsrOf cpu mcycle val csr).1 = .failure ↔
      (csr ∈ [Csr.fflags, .frm, .fcsr] ∧ fsOff cpu.registers) ∨
      (csr = .satp ∧ tvmTraps cpu.registers) ∨ csr = .mcycle ∨
      csr ∈ [Csr.ucycle, .utime, .uinstret, .mvendorid, .marchid, .mimpid, .mhartid,
        .mconfigptr] := by
  have mstatus (val : Word) : (writeCsrMstatus cpu val).1 ≠ .failure := by
    unfold writeCsrMstatus
    extract_lets
    split <;> simp
  have satp : (writeCsrSatp cpu val).1 = .failure ↔ tvmTraps cpu.registers := by
    unfold writeCsrSatp
    by_cases traps : tvmTraps cpu.registers
    · simp [traps]
    · rw [if_neg traps]
      simp only [traps, iff_false]
      split
      · split <;> simp
      · simp
  cases csr <;> simp [writeCsrOf, wrote, mstatus, satp] <;> split <;> simp_all

theorem writeCsr_refused {val : Word} (refused : ∀ csr, csrOfAddress csraddr = some csr →
    ¬CsrWritable cpu.registers csraddr csr) : (writeCsr cpu mcycle val csraddr).1 = .failure := by
  rw [writeCsr]
  split
  · rfl
  next written =>
    split
    · rfl
    next privilege =>
      cases known : csrOfAddress csraddr with
      | none => rfl
      | some csr =>
          show (writeCsrOf cpu mcycle val csr).1 = .failure
          rw [writeCsrOf_failure]
          by_contra passes
          simp only [not_or, not_and] at passes
          obtain ⟨float, translation, cycle, _⟩ := passes
          exact refused csr known
            ⟨⟨by simpa using privilege, float, translation⟩, by simpa using written, cycle⟩

variable (mcycle) in
theorem writeCsr_writable (val : Word) (known : csrOfAddress csraddr = some csr)
    (writable : CsrWritable cpu.registers csraddr csr) :
    writeCsr cpu mcycle val csraddr = writeCsrOf cpu mcycle val csr ∧
    (writeCsrOf cpu mcycle val csr).1 ≠ .failure := by
  obtain ⟨⟨privilege, float, translation⟩, written, cycle⟩ := writable
  constructor
  · rw [writeCsr, if_neg (by simp [written]), if_neg (by simpa using privilege), known]
  · rw [ne_eq, writeCsrOf_failure]
    rintro (⟨member, off⟩ | ⟨same, traps⟩ | same | member)
    · exact float member off
    · exact translation same traps
    · exact cycle same
    · rw [csrOfAddress_readOnly known member] at written
      exact Bool.noConfusion written

end Access

section Halves

variable {Rest : Type} {cpu : Cpu Rest} {mcycle first second : Word} {csr : Csr}

/-- A mask in the low half reads the low half. -/
theorem and_narrow {mask : Word} (same : first.setWidth 32 = second.setWidth 32)
    (narrow : mask >>> 32 = 0) : first &&& mask = second &&& mask := by
  apply BitVec.eq_of_getLsbD_eq
  intro bit inside
  rw [BitVec.getLsbD_and, BitVec.getLsbD_and]
  by_cases low : bit < 32
  · have agree := congrArg (fun value => BitVec.getLsbD value bit) same
    simp only [BitVec.getLsbD_setWidth, low, decide_true, Bool.true_and] at agree
    rw [agree]
  · have clear := congrArg (fun value => BitVec.getLsbD value (bit - 32)) narrow
    have position : 32 + (bit - 32) = bit := by omega
    simp only [BitVec.getLsbD_ushiftRight, position] at clear
    rw [clear]
    simp

theorem writeCsrMstatus_narrow (same : first.setWidth 32 = second.setWidth 32) :
    writeCsrMstatus cpu first = writeCsrMstatus cpu second := by
  have mode : first &&& mstatusMppMask = second &&& mstatusMppMask := and_narrow same (by decide)
  have legal : (if (first &&& mstatusMppMask) >>> 11 = prvHs then first &&& ~~~mstatusMppMask
        else first) &&& mstatusWMask =
      (if (second &&& mstatusMppMask) >>> 11 = prvHs then second &&& ~~~mstatusMppMask
        else second) &&& mstatusWMask := by
    rw [mode]
    split
    · rw [BitVec.and_assoc, BitVec.and_assoc]
      exact and_narrow same (by decide)
    · exact and_narrow same (by decide)
  simp only [writeCsrMstatus, legal]

/-- The high half of a value is lost on all but the wide registers. -/
theorem writeCsrOf_narrow (same : first.setWidth 32 = second.setWidth 32)
    (narrow : csr.wide = false) :
    writeCsrOf cpu mcycle first csr = writeCsrOf cpu mcycle second csr := by
  have masked (mask : Word) (low : mask >>> 32 = 0) : first &&& mask = second &&& mask :=
    and_narrow same low
  have delegated : cpu.registers.readMideleg >>> 32 = 0 := by
    rw [Registers.readMideleg, warlMideleg, BitVec.ushiftRight_and_distrib]
    have clear : mipSRwMask >>> 32 = 0 := by decide
    rw [clear]
    simp
  have shifted : (first <<< 5) &&& fcsrFrmRwMask = (second <<< 5) &&& fcsrFrmRwMask := by
    apply and_narrow _ (by decide)
    apply BitVec.eq_of_getLsbD_eq
    intro bit inside
    have agree := congrArg (fun value => BitVec.getLsbD value (bit - 5)) same
    have low : bit - 5 < 32 := by omega
    simp only [BitVec.getLsbD_setWidth, low, decide_true, Bool.true_and] at agree
    simp [agree]
  cases csr with
  | fflags => simp only [writeCsrOf, merge, masked fcsrFflagsRwMask (by decide)]
  | frm => simp only [writeCsrOf, merge, shifted]
  | fcsr => simp only [writeCsrOf, warlFcsr, masked fcsrRwMask (by decide)]
  | sstatus => simp only [writeCsrOf, merge, masked sstatusWMask (by decide)]
  | senvcfg => simp only [writeCsrOf, warlSenvcfg, masked senvcfgRMask (by decide)]
  | sie => simp only [writeCsrOf, merge, masked _ delegated]
  | scounteren => simp only [writeCsrOf, warlCounteren, masked counterenRwMask (by decide)]
  | sip => simp only [writeCsrOf, merge, masked _ delegated]
  | mstatus => exact writeCsrMstatus_narrow same
  | menvcfg => simp only [writeCsrOf, warlMenvcfg, masked menvcfgRMask (by decide)]
  | medeleg => simp only [writeCsrOf, warlMedeleg, masked medelegWMask (by decide)]
  | mideleg => simp only [writeCsrOf, warlMideleg, masked mipSRwMask (by decide)]
  | mie => simp only [writeCsrOf, warlMie, masked mipRwMask (by decide)]
  | mcounteren => simp only [writeCsrOf, warlCounteren, masked counterenRwMask (by decide)]
  | mip => simp only [writeCsrOf, merge, masked mipSRwMask (by decide)]
  | stvec | sscratch | sepc | scause | stval | satp | mtvec | mscratch | mepc | mcause | mtval
  | minstret => cases narrow
  | _ => rfl

theorem shifted_and_ones (value : Word) (shift : Nat) (inside : shift ≤ 64) :
    value >>> shift &&& BitVec.ofNat 64 (2 ^ (64 - shift) - 1) = value >>> shift := by
  have bound : value.toNat / 2 ^ shift < 2 ^ (64 - shift) := by
    rw [Nat.div_lt_iff_lt_mul (by positivity), ← Nat.pow_add, Nat.sub_add_cancel inside]
    exact value.isLt
  have ones : 2 ^ (64 - shift) - 1 < 2 ^ 64 := by
    have := Nat.pow_le_pow_right (show 0 < 2 by decide) (Nat.sub_le 64 shift)
    have := Nat.two_pow_pos (64 - shift)
    omega
  apply BitVec.eq_of_toNat_eq
  rw [BitVec.toNat_and, BitVec.toNat_ofNat, Nat.mod_eq_of_lt ones, Nat.and_two_pow_sub_one_eq_mod,
    BitVec.toNat_ushiftRight, Nat.shiftRight_eq_div_pow, Nat.mod_eq_of_lt bound]

theorem warlSatp_parts (val : Word) :
    warlSatp ((val &&& satpPpnMask) ||| (val &&& satpAsidMask) ||| (val &&& satpModeMask)) =
      warlSatp val := by
  have parts : (val &&& satpPpnMask) ||| (val &&& satpAsidMask) ||| (val &&& satpModeMask) =
      val &&& satpRwMask := by
    rw [← BitVec.and_or_distrib_left, ← BitVec.and_or_distrib_left]
    rfl
  have mode : (val &&& satpRwMask) >>> 60 = val >>> 60 := by
    rw [BitVec.ushiftRight_and_distrib]
    exact shifted_and_ones val 60 (by decide)
  simp only [parts, warlSatp, satpSupported, mode, BitVec.and_assoc, BitVec.and_self]

/-- A wide register keeps the high half of what is written to it. -/
theorem writeCsrOf_wide (wide : csr.wide = true)
    (translation : csr = .satp → ¬tvmTraps cpu.registers ∧ satpSupported first ∧
      first &&& satpRwMask = first)
    (narrow : second >>> 32 = 0)
    (same : (writeCsrOf cpu mcycle first csr).2.registers =
      (writeCsrOf cpu mcycle second csr).2.registers) : first >>> 32 = 0 := by
  have cleared (mask : Word) (high : mask >>> 32 = 0xffffffff)
      (equal : first &&& mask = second &&& mask) : first >>> 32 = 0 := by
    rw [← shifted_and_ones first 32 (by decide)]
    show first >>> 32 &&& 0xffffffff = 0
    rw [← high, ← BitVec.ushiftRight_and_distrib, equal, BitVec.ushiftRight_and_distrib, narrow]
    exact BitVec.zero_and
  have vector := cleared (~~~3) (by decide)
  have counter := cleared (~~~1) (by decide)
  cases csr with
  | stvec => exact vector (congrArg Registers.stvec same)
  | mtvec => exact vector (congrArg Registers.mtvec same)
  | sepc => exact counter (congrArg Registers.sepc same)
  | mepc => exact counter (congrArg Registers.mepc same)
  | sscratch =>
      have equal : first = second := congrArg Registers.sscratch same
      rw [equal, narrow]
  | scause =>
      have equal : first = second := congrArg Registers.scause same
      rw [equal, narrow]
  | stval =>
      have equal : first = second := congrArg Registers.stval same
      rw [equal, narrow]
  | mscratch =>
      have equal : first = second := congrArg Registers.mscratch same
      rw [equal, narrow]
  | mcause =>
      have equal : first = second := congrArg Registers.mcause same
      rw [equal, narrow]
  | mtval =>
      have equal : first = second := congrArg Registers.mtval same
      rw [equal, narrow]
  | minstret =>
      have equal : mcycle + 1 - first = mcycle + 1 - second :=
        congrArg Registers.icycleinstret same
      have values : first = second := by bv_omega
      rw [values, narrow]
  | satp =>
      obtain ⟨allowed, supported, masked⟩ := translation rfl
      have bare : satpSupported second := by
        left
        have shifted : second >>> 60 = (second >>> 32) >>> 28 := by
          rw [← BitVec.shiftRight_add]
        rw [shifted, narrow]
        rfl
      have stored (value : Word) (mode : satpSupported value) :
          (writeCsrOf cpu mcycle value .satp).2.registers.satp = value &&& satpRwMask := by
        rw [writeCsrOf, writeCsrSatp, if_neg allowed, if_pos mode]
        dsimp only
        split <;> exact (warlSatp_parts value).trans (if_pos mode)
      have equal : first &&& satpRwMask = second &&& satpRwMask := by
        rw [← stored first supported, ← stored second bare, same]
      rw [← masked, equal, BitVec.ushiftRight_and_distrib, narrow]
      exact BitVec.zero_and
  | _ => cases wide

end Halves

section Execution

variable {Rest : Type} {cpu : Cpu Rest} {pc mcycle : Word} {insn : BitVec 32}
  {instruction : CsrInstruction}

instance (instruction : CsrInstruction) (insn : BitVec 32) : Decidable (instruction.Reads insn) := by
  unfold CsrInstruction.Reads
  infer_instance

instance (instruction : CsrInstruction) (insn : BitVec 32) :
    Decidable (instruction.Writes insn) := by
  unfold CsrInstruction.Writes
  infer_instance

/-- The value that an instruction writes, where `CSRRCI` complements 32 bits. -/
def CsrInstruction.written (instruction : CsrInstruction) (cpu : Cpu Rest) (insn : BitVec 32)
    (old : Word) : Word :=
  if instruction = ⟨.clear, true⟩ then
    old &&& (~~~(BitVec.ofNat 32 (insnGetRs1 insn).val)).setWidth 64
  else instruction.operation.apply old (instruction.operand cpu insn)

/-- The six functions are one. -/
theorem CsrInstruction.execute_eq : instruction.execute cpu pc mcycle insn =
    match if instruction.Reads insn then readCsr cpu.registers mcycle (insnIGetUimm insn)
      else some 0 with
    | none => raiseIllegalInsnException cpu pc insn
    | some old => finishCsr cpu insn pc old
        (if instruction.Writes insn then
          writeCsr cpu mcycle (instruction.written cpu insn old) (insnIGetUimm insn)
        else (.success, cpu)) := by
  have narrow : (BitVec.ofNat 32 (insnGetRs1 insn).val).setWidth 64 =
      BitVec.ofNat 64 (insnGetRs1 insn).val := by
    have small := (insnGetRs1 insn).isLt
    bv_omega
  obtain ⟨operation, immediate⟩ := instruction
  cases operation <;> cases immediate <;>
    simp [CsrInstruction.execute, executeCSRRW, executeCSRRWI, executeCSRRS, executeCSRRSI,
      executeCSRRC, executeCSRRCI, executeCsrRw, executeCsrSc, executeCsrSci,
      CsrInstruction.Reads, CsrInstruction.Writes, CsrInstruction.written,
      CsrInstruction.operand, CsrOperation.apply, narrow] <;>
    rfl

/-- An instruction with an allowed access ends with a write of the value that it computes. -/
theorem CsrInstruction.execute_writes {csr : Csr} {old : Word}
    (known : csrOfAddress (insnIGetUimm insn) = some csr) (writing : instruction.Writes insn)
    (readable : instruction.Reads insn → CsrReadable cpu.registers (insnIGetUimm insn) csr)
    (writable : CsrWritable cpu.registers (insnIGetUimm insn) csr)
    (value : instruction.Reads insn → readCsrOf cpu.registers mcycle csr = some old)
    (unread : ¬instruction.Reads insn → old = 0) :
    instruction.execute cpu pc mcycle insn =
      (let written := writeCsrOf cpu mcycle (instruction.written cpu insn old) csr
      ⟨written.2.writeX (insnGetRd insn) old, pc + 4, written.1⟩) := by
  obtain ⟨same, passes⟩ := writeCsr_writable mcycle (instruction.written cpu insn old) known
    writable
  have read : (if instruction.Reads insn then readCsr cpu.registers mcycle (insnIGetUimm insn)
      else some 0) = some old := by
    split
    next reads =>
      obtain ⟨found, first, second⟩ := readCsr_readable mcycle known (readable reads)
      rw [second, ← first, value reads]
    next reads => rw [unread reads]
  rw [CsrInstruction.execute_eq, read]
  show finishCsr cpu insn pc old _ = _
  rw [if_pos writing, same, finishCsr, if_neg passes]
  rfl

theorem CsrInstruction.execute_keeps {csr : Csr} {old : Word}
    (known : csrOfAddress (insnIGetUimm insn) = some csr) (keeping : ¬instruction.Writes insn)
    (readable : CsrReadable cpu.registers (insnIGetUimm insn) csr)
    (value : readCsrOf cpu.registers mcycle csr = some old) :
    instruction.execute cpu pc mcycle insn =
      ⟨cpu.writeX (insnGetRd insn) old, pc + 4, .success⟩ := by
  have reads : instruction.Reads insn := fun write => absurd (Or.inl write) keeping
  obtain ⟨found, first, second⟩ := readCsr_readable mcycle known readable
  rw [CsrInstruction.execute_eq, if_pos reads, second, ← first, value]
  show finishCsr cpu insn pc old _ = _
  rw [if_neg keeping]
  rfl

/-- An access that is refused traps, and so does an access that is not. -/
theorem CsrInstruction.execute_traps
    (refused : ∀ csr, csrOfAddress (insnIGetUimm insn) = some csr →
      (instruction.Reads insn ∧ ¬CsrReadable cpu.registers (insnIGetUimm insn) csr) ∨
      (instruction.Writes insn ∧ ¬CsrWritable cpu.registers (insnIGetUimm insn) csr)) :
    instruction.execute cpu pc mcycle insn = raiseIllegalInsnException cpu pc insn := by
  rw [CsrInstruction.execute_eq]
  cases read : (if instruction.Reads insn then readCsr cpu.registers mcycle (insnIGetUimm insn)
      else some 0) with
  | none => rfl
  | some old =>
      have readable (csr : Csr) (known : csrOfAddress (insnIGetUimm insn) = some csr) :
          instruction.Reads insn → CsrReadable cpu.registers (insnIGetUimm insn) csr := by
        intro reads
        rw [if_pos reads] at read
        by_contra unreadable
        rw [readCsr_refused] at read
        · cases read
        · intro other same
          rw [known] at same
          cases same
          exact unreadable
      have writing : instruction.Writes insn := by
        by_contra keeping
        have reads : instruction.Reads insn := fun write => absurd (Or.inl write) keeping
        rw [if_pos reads, readCsr] at read
        split at read
        · cases read
        · obtain ⟨csr, known, -⟩ := Option.bind_eq_some_iff.mp read
          obtain ⟨_, unreadable⟩ | ⟨writes, _⟩ := refused csr known
          · exact unreadable (readable csr known reads)
          · exact keeping writes
      show finishCsr cpu insn pc old _ = _
      rw [if_pos writing, finishCsr, if_pos]
      apply writeCsr_refused
      intro csr known writable
      obtain ⟨reads, unreadable⟩ | ⟨_, unwritable⟩ := refused csr known
      · exact unreadable (readable csr known reads)
      · exact unwritable writable

end Execution

section HighHalf

variable {Rest : Type} {cpu : Cpu Rest} {pc mcycle : Word} {insn : BitVec 32}
  {instruction : CsrInstruction}

/-- The value of `CSRRCI` has the low half that it should have, and a high half of zeros. -/
theorem clear_halves (old : Word) (operand : Fin 32) :
    (old &&& (~~~(BitVec.ofNat 32 operand.val)).setWidth 64).setWidth 32 =
      (old &&& ~~~(BitVec.ofNat 64 operand.val)).setWidth 32 ∧
    (old &&& (~~~(BitVec.ofNat 32 operand.val)).setWidth 64) >>> 32 = 0 ∧
    (old &&& ~~~(BitVec.ofNat 64 operand.val)) >>> 32 = old >>> 32 := by
  have small := operand.isLt
  have low : ((~~~(BitVec.ofNat 32 operand.val)).setWidth 64 : Word).setWidth 32 =
      (~~~(BitVec.ofNat 64 operand.val)).setWidth 32 := by
    apply BitVec.eq_of_getLsbD_eq
    intro bit inside
    simp [inside]
  have none : ((~~~(BitVec.ofNat 32 operand.val)).setWidth 64 : Word) >>> 32 = 0 := by
    apply BitVec.eq_of_toNat_eq
    rw [BitVec.toNat_ushiftRight, Nat.shiftRight_eq_div_pow]
    apply Nat.div_eq_of_lt
    bv_omega
  have all : (~~~(BitVec.ofNat 64 operand.val)) >>> 32 = 0xffffffff := by
    bv_omega
  refine ⟨?_, ?_, ?_⟩
  · rw [BitVec.setWidth_and, BitVec.setWidth_and, low]
  · rw [BitVec.ushiftRight_and_distrib, none]
    exact BitVec.and_zero
  · rw [BitVec.ushiftRight_and_distrib, all]
    exact shifted_and_ones old 32 (by decide)

/-- Only a wide register with bits in its high half sees the value that `CSRRCI` writes. -/
theorem CsrInstruction.written_stored {csr : Csr} (old : Word)
    (safe : instruction = ⟨.clear, true⟩ → csr.wide = true → old >>> 32 = 0) :
    writeCsrOf cpu mcycle (instruction.written cpu insn old) csr =
      writeCsrOf cpu mcycle (instruction.operation.apply old (instruction.operand cpu insn)) csr := by
  by_cases clearing : instruction = ⟨.clear, true⟩
  · subst clearing
    obtain ⟨low, none, high⟩ := clear_halves old (insnGetRs1 insn)
    show writeCsrOf cpu mcycle (old &&& _) csr = writeCsrOf cpu mcycle (old &&& _) csr
    cases wide : csr.wide with
    | false => exact writeCsrOf_narrow low wide
    | true =>
        have zero : old >>> 32 = 0 := safe rfl wide
        have equal : old &&& (~~~(BitVec.ofNat 32 (insnGetRs1 insn).val)).setWidth 64 =
            old &&& ~~~(BitVec.ofNat 64 (insnGetRs1 insn).val) := by
          rw [zero] at high
          have low := congrArg BitVec.toNat low
          have none := congrArg BitVec.toNat none
          have high := congrArg BitVec.toNat high
          apply BitVec.eq_of_toNat_eq
          simp only [BitVec.toNat_setWidth, BitVec.toNat_ushiftRight,
            Nat.shiftRight_eq_div_pow] at low none high
          omega
        exact congrArg (fun value => writeCsrOf cpu mcycle value csr) equal
  · rw [CsrInstruction.written, if_neg clearing]

theorem csrOfAddress_wide {csraddr : CsrAddress} {csr : Csr}
    (known : csrOfAddress csraddr = some csr) (wide : csr.wide = true) :
    csrIsReadOnly csraddr = false := by
  have address (value : Nat) (same : csraddr.toNat = value) : csraddr = BitVec.ofNat 12 value := by
    rw [← same, BitVec.ofNat_toNat, BitVec.setWidth_eq]
  unfold csrOfAddress at known
  split at known
  all_goals first
    | (cases known; simp [Csr.wide] at wide; done)
    | (rename_i same; rw [address _ same]; rfl)
    | skip
  split at known
  · cases known
    cases wide
  · split at known
    · cases known
      cases wide
    · cases known

@[simp] theorem Cpu.writeX_registers (index : Fin 32) (value : Word) :
    (cpu.writeX index value).registers = cpu.registers := by
  unfold Cpu.writeX
  split <;> rfl

/-- The translation mode and the page number of `satp` are kept by a clear in the low half. -/
theorem readSatp_cleared {old : Word} (operand : Fin 32) (high : old >>> 32 ≠ 0)
    (value : readCsrOf cpu.registers mcycle .satp = some old) :
    ¬tvmTraps cpu.registers ∧ satpSupported (old &&& ~~~(BitVec.ofNat 64 operand.val)) ∧
      old &&& ~~~(BitVec.ofNat 64 operand.val) &&& satpRwMask =
        old &&& ~~~(BitVec.ofNat 64 operand.val) := by
  by_cases traps : tvmTraps cpu.registers
  · simp [readCsrOf, traps] at value
  have stored : warlSatp cpu.registers.satp = old := by
    simpa [readCsrOf, traps, Registers.readSatp] using value
  rw [warlSatp] at stored
  split at stored
  next supported =>
    have masked : old &&& satpRwMask = old := by
      rw [← stored, BitVec.and_assoc, BitVec.and_self]
    have mode : old >>> 60 = cpu.registers.satp >>> 60 := by
      rw [← stored, BitVec.ushiftRight_and_distrib]
      exact shifted_and_ones cpu.registers.satp 60 (by decide)
    have kept : (old &&& ~~~(BitVec.ofNat 64 operand.val)) >>> 60 = old >>> 60 := by
      obtain ⟨-, -, half⟩ := clear_halves old operand
      rw [show 60 = 32 + 28 by rfl, BitVec.shiftRight_add, half, ← BitVec.shiftRight_add]
    refine ⟨traps, ?_, ?_⟩
    · rw [satpSupported, kept, mode]
      exact supported
    · rw [BitVec.and_assoc, BitVec.and_comm _ satpRwMask, ← BitVec.and_assoc, masked]
  next unsupported =>
    rw [← stored] at high
    exact absurd rfl high

/-- The high half is lost: the register should have kept it. -/
theorem CsrInstruction.execute_loses (loses : instruction.LosesHighHalf cpu mcycle insn) :
    ¬instruction.Specified cpu pc mcycle insn (instruction.execute cpu pc mcycle insn) := by
  obtain ⟨rfl, operand, csr, known, wide, present, old, value, high⟩ := loses
  intro specified
  have readable : CsrReadable cpu.registers (insnIGetUimm insn) csr := by
    refine ⟨present, ?_, ?_, ?_⟩ <;> rintro rfl <;> cases wide
  have writable : CsrWritable cpu.registers (insnIGetUimm insn) csr := by
    refine ⟨present, csrOfAddress_wide known wide, ?_⟩
    rintro rfl
    cases wide
  have reads : CsrInstruction.Reads ⟨.clear, true⟩ insn := fun write => by cases write
  obtain ⟨-, none, half⟩ := clear_halves old (insnGetRs1 insn)
  have ran : CsrInstruction.execute ⟨.clear, true⟩ cpu pc mcycle insn = _ :=
    CsrInstruction.execute_writes known (Or.inr operand) (fun _ => readable) writable
      (fun _ => value) (fun unread => absurd reads unread)
  generalize CsrInstruction.execute ⟨.clear, true⟩ cpu pc mcycle insn = executed
    at specified ran
  cases specified with
  | writes other found same _ _ _ read =>
      rw [known] at same
      cases same
      rw [value] at read
      cases read reads
      have registers := congrArg (fun executed => executed.cpu.registers) ran
      simp only [Cpu.writeX_registers] at registers
      apply high
      rw [← half]
      apply writeCsrOf_wide wide _ none registers
      rintro rfl
      exact readSatp_cleared (insnGetRs1 insn) high value
  | keeps _ _ _ keeping _ _ => exact keeping (Or.inr operand)
  | traps refused =>
      obtain ⟨_, unreadable⟩ | ⟨_, unwritable⟩ := refused csr known
      · exact unreadable readable
      · exact unwritable writable

theorem CsrInstruction.execute_keeps_halves (safe : ¬instruction.LosesHighHalf cpu mcycle insn) :
    instruction.Specified cpu pc mcycle insn (instruction.execute cpu pc mcycle insn) := by
  by_cases refused : ∀ csr, csrOfAddress (insnIGetUimm insn) = some csr →
    (instruction.Reads insn ∧ ¬CsrReadable cpu.registers (insnIGetUimm insn) csr) ∨
    (instruction.Writes insn ∧ ¬CsrWritable cpu.registers (insnIGetUimm insn) csr)
  · rw [CsrInstruction.execute_traps refused]
    exact .traps refused
  simp only [not_forall, not_or, not_and, not_not] at refused
  obtain ⟨csr, known, readable, writable⟩ := refused
  obtain ⟨old, value, unread⟩ : ∃ old,
      (instruction.Reads insn → readCsrOf cpu.registers mcycle csr = some old) ∧
      (¬instruction.Reads insn → old = 0) := by
    by_cases reads : instruction.Reads insn
    · obtain ⟨old, first, -⟩ := readCsr_readable mcycle known (readable reads)
      exact ⟨old, fun _ => first, fun unread => absurd reads unread⟩
    · exact ⟨0, fun read => absurd read reads, fun _ => rfl⟩
  by_cases writing : instruction.Writes insn
  · rw [CsrInstruction.execute_writes known writing readable (writable writing) value unread,
      CsrInstruction.written_stored old]
    · exact .writes csr old known writing readable (writable writing) value
    · intro clearing wide
      subst clearing
      by_contra high
      apply safe
      obtain write | operand := writing
      · cases write
      have reads : CsrInstruction.Reads ⟨.clear, true⟩ insn := fun write => by cases write
      exact ⟨rfl, operand, csr, known, wide, (writable (Or.inr operand)).1, old, value reads, high⟩
  · have reads : instruction.Reads insn := fun write => absurd (Or.inl write) writing
    rw [CsrInstruction.execute_keeps known writing (readable reads) (value reads)]
    exact .keeps csr old known writing (readable reads) (value reads)

/-- A machine in machine mode whose `mscratch` has a bit in its high half. -/
def scratchCpu : Cpu Unit where
  registers :=
    { pc := 0, fcsr := 0, mvendorid := 0, marchid := 0, mimpid := 0, mcycle := 0,
      icycleinstret := 0, mstatus := 0, mtvec := 0, mscratch := 0x100000001, mepc := 0,
      mcause := 0, mtval := 0, misa := 0, mie := 0, mip := 0, medeleg := 0, mideleg := 0,
      mcounteren := 0, menvcfg := 0, stvec := 0, sscratch := 0, sepc := 0, scause := 0,
      stval := 0, satp := 0, scounteren := 0, senvcfg := 0, ilrsc := 0, iprv := 3,
      iflagsX := 0, iflagsY := 0, iflagsH := 0, clintMtimecmp := 0 }
  x := fun _ => 0
  tlbValid := fun _ _ => false
  rest := ()

end HighHalf

end MachineEmulator.Interpret
