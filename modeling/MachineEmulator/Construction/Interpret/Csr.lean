/-
This file gives the control and status registers of the guest and the six instructions on them.
-/

import MachineEmulator.Construction.Interpret.Trap

namespace MachineEmulator.Interpret

/-- This is `CSR_address`. The event counters and their selectors are numbered. -/
inductive Csr where
  | fflags | frm | fcsr
  | ucycle | utime | uinstret
  | sstatus | sie | stvec | scounteren | senvcfg
  | sscratch | sepc | scause | stval | sip | satp
  | mvendorid | marchid | mimpid | mhartid | mconfigptr
  | mstatus | misa | medeleg | mideleg | mie | mtvec | mcounteren | menvcfg
  | mscratch | mepc | mcause | mtval | mip
  | mcycle | minstret
  | mhpmcounter (number : Nat)
  | mcountinhibit
  | mhpmevent (number : Nat)
  | tselect | tdata1 | tdata2 | tdata3
deriving DecidableEq, Repr

/-- The address of a register in an instruction. -/
abbrev CsrAddress := BitVec 12

/-- The register at an address, if there is one. -/
def csrOfAddress (csraddr : CsrAddress) : Option Csr :=
  match csraddr.toNat with
  | 0x001 => some .fflags
  | 0x002 => some .frm
  | 0x003 => some .fcsr
  | 0xc00 => some .ucycle
  | 0xc01 => some .utime
  | 0xc02 => some .uinstret
  | 0x100 => some .sstatus
  | 0x104 => some .sie
  | 0x105 => some .stvec
  | 0x106 => some .scounteren
  | 0x10a => some .senvcfg
  | 0x140 => some .sscratch
  | 0x141 => some .sepc
  | 0x142 => some .scause
  | 0x143 => some .stval
  | 0x144 => some .sip
  | 0x180 => some .satp
  | 0xf11 => some .mvendorid
  | 0xf12 => some .marchid
  | 0xf13 => some .mimpid
  | 0xf14 => some .mhartid
  | 0xf15 => some .mconfigptr
  | 0x300 => some .mstatus
  | 0x301 => some .misa
  | 0x302 => some .medeleg
  | 0x303 => some .mideleg
  | 0x304 => some .mie
  | 0x305 => some .mtvec
  | 0x306 => some .mcounteren
  | 0x30a => some .menvcfg
  | 0x320 => some .mcountinhibit
  | 0x340 => some .mscratch
  | 0x341 => some .mepc
  | 0x342 => some .mcause
  | 0x343 => some .mtval
  | 0x344 => some .mip
  | 0xb00 => some .mcycle
  | 0xb02 => some .minstret
  | 0x7a0 => some .tselect
  | 0x7a1 => some .tdata1
  | 0x7a2 => some .tdata2
  | 0x7a3 => some .tdata3
  | address =>
      if 0xb03 ≤ address ∧ address ≤ 0xb1f then some (.mhpmcounter (address - 0xb00))
      else if 0x323 ≤ address ∧ address ≤ 0x33f then some (.mhpmevent (address - 0x320))
      else none

/-- This is `csr_is_read_only`. -/
def csrIsReadOnly (csraddr : CsrAddress) : Bool := csraddr &&& 0xc00 == 0xc00

/-- This is `csr_prv`. -/
def csrPrv (csraddr : CsrAddress) : Word := ((csraddr >>> 8) &&& 3).setWidth 64

section Read

variable (registers : Registers) (mcycle : Word)

/-- This is `rdcounteren`. -/
def rdcounteren (mask : Word) : Bool :=
  let machine : Word := if registers.iprv ≤ prvS then 0xffffffff &&& registers.readMcounteren
    else 0xffffffff
  let counteren : Word := if registers.iprv < prvS then machine &&& registers.readScounteren
    else machine
  counteren &&& mask == mask

def fsOff : Prop := registers.readMstatus &&& mstatusFsMask = mstatusFsOff

instance : Decidable (fsOff registers) := by
  unfold fsOff
  infer_instance

/-- Whether `TVM` forbids the supervisor the access to `satp`. -/
def tvmTraps : Prop := registers.iprv = prvS ∧ registers.readMstatus &&& mstatusTvmMask ≠ 0

instance : Decidable (tvmTraps registers) := by
  unfold tvmTraps
  infer_instance

/-- The cases of `read_csr`, which gives nothing when it fails. -/
def readCsrOf : Csr → Option Word
  | .fflags => if fsOff registers then none else some (registers.readFcsr &&& fcsrFflagsRwMask)
  | .frm => if fsOff registers then none else some ((registers.readFcsr &&& fcsrFrmRwMask) >>> 5)
  | .fcsr => if fsOff registers then none else some registers.readFcsr
  | .ucycle => if rdcounteren registers 1 then some mcycle else none
  | .uinstret => if rdcounteren registers 4 then some (mcycle - registers.icycleinstret) else none
  | .utime => if rdcounteren registers 2 then some (mcycle / 8192) else none
  | .sstatus => some (registers.readMstatus &&& sstatusRMask)
  | .senvcfg => some registers.readSenvcfg
  | .sie => some (registers.readMie &&& registers.readMideleg)
  | .stvec => some registers.readStvec
  | .scounteren => some registers.readScounteren
  | .sscratch => some registers.sscratch
  | .sepc => some registers.readSepc
  | .scause => some registers.scause
  | .stval => some registers.stval
  | .sip => some (registers.readMip &&& registers.readMideleg)
  | .satp => if tvmTraps registers then none else some registers.readSatp
  | .mstatus => some registers.readMstatus
  | .menvcfg => some registers.readMenvcfg
  | .misa => some registers.misa
  | .medeleg => some registers.readMedeleg
  | .mideleg => some registers.readMideleg
  | .mie => some registers.readMie
  | .mtvec => some registers.readMtvec
  | .mcounteren => some registers.readMcounteren
  | .mscratch => some registers.mscratch
  | .mepc => some registers.readMepc
  | .mcause => some registers.mcause
  | .mtval => some registers.mtval
  | .mip => some registers.readMip
  | .mcycle => some mcycle
  | .minstret => some (mcycle - registers.icycleinstret)
  | .mvendorid => some registers.mvendorid
  | .marchid => some registers.marchid
  | .mimpid => some registers.mimpid
  | .mhartid | .mcountinhibit | .mconfigptr | .mhpmcounter _ | .mhpmevent _ | .tselect | .tdata1
  | .tdata2 | .tdata3 => some 0

/-- This is `read_csr`. -/
def readCsr (csraddr : CsrAddress) : Option Word :=
  if registers.iprv < csrPrv csraddr then none
  else (csrOfAddress csraddr).bind (readCsrOf registers mcycle)

end Read

section Write

variable {Rest : Type} (cpu : Cpu Rest) (mcycle val : Word)

/-- The registers change, and the instruction succeeds with a status. -/
def wrote (registers : Registers) (status : ExecuteStatus) : ExecuteStatus × Cpu Rest :=
  (status, cpu.withRegisters registers)

/-- This is `write_csr_mstatus`. -/
def writeCsrMstatus : ExecuteStatus × Cpu Rest :=
  let old : Word := cpu.registers.readMstatus &&& mstatusRMask
  let legal : Word := if (val &&& mstatusMppMask) >>> 11 = prvHs then val &&& ~~~mstatusMppMask
    else val
  let merged : Word := (old &&& ~~~mstatusWMask) ||| (legal &&& mstatusWMask)
  let mstatus : Word := if merged &&& mstatusFsMask ≠ mstatusFsOff then
      merged ||| mstatusFsDirty ||| mstatusSdMask
    else merged &&& ~~~mstatusSdMask
  let written := cpu.withRegisters { cpu.registers with mstatus := warlMstatus mstatus }
  let mod : Word := old ^^^ mstatus
  let data : Bool := mod &&& mstatusSumMask ≠ 0 ∨ mod &&& mstatusMprvMask ≠ 0 ∨
    mstatus &&& mstatusMprvMask ≠ 0 ∧ mod &&& mstatusMppMask ≠ 0
  let read : Bool := data || decide (mod &&& mstatusMxrMask ≠ 0)
  let flushedRead := if read then written.flushTlbSet .read else written
  let flushed := if data then flushedRead.flushTlbSet .write else flushedRead
  if mod &&& (mstatusSieMask ||| mstatusMieMask) ≠ 0 then (.successAndServeInterrupts, flushed)
  else (.success, flushed)

/-- This is `write_csr_satp`. -/
def writeCsrSatp : ExecuteStatus × Cpu Rest :=
  if tvmTraps cpu.registers then (.failure, cpu)
  else if satpSupported val then
    let old : Word := cpu.registers.readSatp
    let satp : Word := (val &&& satpPpnMask) ||| (val &&& satpAsidMask) ||| (val &&& satpModeMask)
    let written := cpu.withRegisters { cpu.registers with satp := warlSatp satp }
    if (old ^^^ satp) &&& (satpAsidMask ||| satpModeMask) ≠ 0 then
      (.successAndFlushFetch, written.flushAllTlb)
    else (.success, written)
  else (.success, cpu)

/-- The bits of a mask come from the second word, the others from the first. -/
def merge (old val mask : Word) : Word := (old &&& ~~~mask) ||| (val &&& mask)

/-- The cases of `write_csr`. A failed write leaves the state as it is. -/
def writeCsrOf : Csr → ExecuteStatus × Cpu Rest
  | .fflags =>
      if fsOff cpu.registers then (.failure, cpu)
      else wrote cpu { cpu.registers with
        fcsr := warlFcsr (merge cpu.registers.readFcsr val fcsrFflagsRwMask) } .success
  | .frm =>
      if fsOff cpu.registers then (.failure, cpu)
      else wrote cpu { cpu.registers with
        fcsr := warlFcsr (merge cpu.registers.readFcsr (val <<< 5) fcsrFrmRwMask) } .success
  | .fcsr =>
      if fsOff cpu.registers then (.failure, cpu)
      else wrote cpu { cpu.registers with fcsr := warlFcsr val } .success
  | .sstatus => writeCsrMstatus cpu (merge cpu.registers.readMstatus val sstatusWMask)
  | .senvcfg => wrote cpu { cpu.registers with senvcfg := warlSenvcfg val } .success
  | .sie =>
      wrote cpu { cpu.registers with
        mie := warlMie (merge cpu.registers.readMie val cpu.registers.readMideleg) }
        .successAndServeInterrupts
  | .stvec => wrote cpu { cpu.registers with stvec := warlXtvec val } .success
  | .scounteren => wrote cpu { cpu.registers with scounteren := warlCounteren val } .success
  | .sscratch => wrote cpu { cpu.registers with sscratch := val } .success
  | .sepc => wrote cpu { cpu.registers with sepc := warlXepc val } .success
  | .scause => wrote cpu { cpu.registers with scause := val } .success
  | .stval => wrote cpu { cpu.registers with stval := val } .success
  | .sip =>
      wrote cpu { cpu.registers with
        mip := warlMip (merge cpu.registers.readMip val cpu.registers.readMideleg) }
        .successAndServeInterrupts
  | .satp => writeCsrSatp cpu val
  | .mstatus => writeCsrMstatus cpu val
  | .menvcfg => wrote cpu { cpu.registers with menvcfg := warlMenvcfg val } .success
  | .medeleg => wrote cpu { cpu.registers with medeleg := warlMedeleg val } .success
  | .mideleg =>
      wrote cpu { cpu.registers with mideleg := warlMideleg val } .successAndServeInterrupts
  | .mie => wrote cpu { cpu.registers with mie := warlMie val } .successAndServeInterrupts
  | .mtvec => wrote cpu { cpu.registers with mtvec := warlXtvec val } .success
  | .mcounteren => wrote cpu { cpu.registers with mcounteren := warlCounteren val } .success
  | .mscratch => wrote cpu { cpu.registers with mscratch := val } .success
  | .mepc => wrote cpu { cpu.registers with mepc := warlXepc val } .success
  | .mcause => wrote cpu { cpu.registers with mcause := val } .success
  | .mtval => wrote cpu { cpu.registers with mtval := val } .success
  | .mip =>
      wrote cpu { cpu.registers with
        mip := warlMip (merge cpu.registers.readMip val mipSRwMask) } .successAndServeInterrupts
  | .minstret =>
      wrote cpu { cpu.registers with icycleinstret := (mcycle + 1) - val } .success
  | .misa | .mhpmcounter _ | .mcountinhibit | .mhpmevent _ | .tselect | .tdata1 | .tdata2
  | .tdata3 => (.success, cpu)
  | .mcycle | .ucycle | .utime | .uinstret | .mvendorid | .marchid | .mimpid | .mhartid
  | .mconfigptr => (.failure, cpu)

/-- This is `write_csr`. -/
def writeCsr (csraddr : CsrAddress) : ExecuteStatus × Cpu Rest :=
  if csrIsReadOnly csraddr then (.failure, cpu)
  else if cpu.registers.iprv < csrPrv csraddr then (.failure, cpu)
  else
    match csrOfAddress csraddr with
    | none => (.failure, cpu)
    | some csr => writeCsrOf cpu mcycle val csr

end Write

section Instructions

variable {Rest : Type} (cpu : Cpu Rest) (pc mcycle : Word) (insn : BitVec 32)

def insnGetRd (insn : BitVec 32) : Fin 32 := ((insn >>> 7).setWidth 5).toFin

def insnGetRs1 (insn : BitVec 32) : Fin 32 := ((insn >>> 15).setWidth 5).toFin

def insnIGetUimm (insn : BitVec 32) : CsrAddress := (insn >>> 20).setWidth 12

/-- The state, the program counter and the status after an instruction. -/
structure Executed (Rest : Type) where
  cpu : Cpu Rest
  pc : Word
  status : ExecuteStatus

/-- An instruction ends with an exception. -/
def raises (cause tval : Word) : Executed Rest :=
  let trapped := raiseException cpu pc cause tval
  ⟨trapped.1, trapped.2, .failure⟩

/-- This is `raise_illegal_insn_exception`. -/
def raiseIllegalInsnException : Executed Rest :=
  raises cpu pc mcauseIllegalInsn (insn.setWidth 64)

/-- This is `advance_to_next_insn`. -/
def advanceToNextInsn (status : ExecuteStatus) : Executed Rest := ⟨cpu, pc + 4, status⟩

/-- The old value goes to the destination register after a write that did not fail. -/
def finishCsr (old csrval : Word) (written : ExecuteStatus × Cpu Rest) : Executed Rest :=
  if written.1 = .failure then raiseIllegalInsnException cpu old insn
  else advanceToNextInsn (written.2.writeX (insnGetRd insn) csrval) old written.1

/-- This is `execute_csr_RW`. -/
def executeCsrRw (rs1val : Word) : Executed Rest :=
  let csraddr := insnIGetUimm insn
  let csrval := if insnGetRd insn ≠ 0 then readCsr cpu.registers mcycle csraddr else some 0
  match csrval with
  | none => raiseIllegalInsnException cpu pc insn
  | some csrval => finishCsr cpu insn pc csrval (writeCsr cpu mcycle rs1val csraddr)

def executeCSRRW : Executed Rest := executeCsrRw cpu pc mcycle insn (cpu.x (insnGetRs1 insn))

def executeCSRRWI : Executed Rest :=
  executeCsrRw cpu pc mcycle insn (BitVec.ofNat 64 (insnGetRs1 insn).val)

/-- This is `execute_csr_SC`. -/
def executeCsrSc (f : Word → Word → Word) : Executed Rest :=
  let csraddr := insnIGetUimm insn
  match readCsr cpu.registers mcycle csraddr with
  | none => raiseIllegalInsnException cpu pc insn
  | some csrval =>
      let rs1 := insnGetRs1 insn
      let rs1val := cpu.x rs1
      finishCsr cpu insn pc csrval
        (if rs1 ≠ 0 then writeCsr cpu mcycle (f csrval rs1val) csraddr else (.success, cpu))

def executeCSRRS : Executed Rest :=
  executeCsrSc cpu pc mcycle insn fun csr rs1 => csr ||| rs1

def executeCSRRC : Executed Rest :=
  executeCsrSc cpu pc mcycle insn fun csr rs1 => csr &&& ~~~rs1

/-- This is `execute_csr_SCI`, where the operand has 32 bits. -/
def executeCsrSci (f : Word → BitVec 32 → Word) : Executed Rest :=
  let csraddr := insnIGetUimm insn
  match readCsr cpu.registers mcycle csraddr with
  | none => raiseIllegalInsnException cpu pc insn
  | some csrval =>
      let rs1 := insnGetRs1 insn
      finishCsr cpu insn pc csrval
        (if rs1 ≠ 0 then writeCsr cpu mcycle (f csrval (BitVec.ofNat 32 rs1.val)) csraddr
        else (.success, cpu))

/-- The `|` of a 64-bit and a 32-bit operand extends the latter with zeros. -/
def executeCSRRSI : Executed Rest :=
  executeCsrSci cpu pc mcycle insn fun csr rs1 => csr ||| rs1.setWidth 64

/-- The complement is taken before the extension to 64 bits. -/
def executeCSRRCI : Executed Rest :=
  executeCsrSci cpu pc mcycle insn fun csr rs1 => csr &&& (~~~rs1).setWidth 64

end Instructions

end MachineEmulator.Interpret
