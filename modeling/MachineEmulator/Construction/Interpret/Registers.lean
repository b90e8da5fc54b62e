/-
This file gives the registers of the processor and the values that each of them can hold.
-/

import MachineEmulator.Construction.Memory

namespace MachineEmulator.Interpret

section Constants

def prvU : Word := 0
def prvS : Word := 1
def prvHs : Word := 2
def prvM : Word := 3

def mipSsipMask : Word := 0x2
def mipMsipMask : Word := 0x8
def mipStipMask : Word := 0x20
def mipMtipMask : Word := 0x80
def mipSeipMask : Word := 0x200
def mipMeipMask : Word := 0x800
def mipSRwMask : Word := 0x222
def mipRwMask : Word := 0xaaa

def mstatusSieMask : Word := 0x2
def mstatusMieMask : Word := 0x8
def mstatusSpieMask : Word := 0x20
def mstatusMpieMask : Word := 0x80
def mstatusSppMask : Word := 0x100
def mstatusMppMask : Word := 0x1800
def mstatusFsMask : Word := 0x6000
def mstatusFsOff : Word := 0
def mstatusFsDirty : Word := 0x6000
def mstatusMprvMask : Word := 0x20000
def mstatusSumMask : Word := 0x40000
def mstatusMxrMask : Word := 0x80000
def mstatusTvmMask : Word := 0x100000
def mstatusTwMask : Word := 0x200000
def mstatusTsrMask : Word := 0x400000
def mstatusSdMask : Word := 0x8000000000000000
def mstatusWMask : Word := 0x7e79aa
def mstatusRMask : Word := 0x8000003f007e7fea
def sstatusWMask : Word := 0xc6122
def sstatusRMask : Word := 0x80000003000de762

def medelegWMask : Word := 0xb3ff
def counterenRwMask : Word := 0x7
def menvcfgRMask : Word := 0x1
def senvcfgRMask : Word := 0x1
def fcsrFflagsRwMask : Word := 0x1f
def fcsrFrmRwMask : Word := 0xe0
def fcsrRwMask : Word := 0xff

def satpPpnMask : Word := 0xfffffffffff
def satpAsidMask : Word := 0
def satpModeMask : Word := 0xf000000000000000
def satpRwMask : Word := 0xf0000fffffffffff

end Constants

section Legalisation

/-- This is `WARL_mstatus`. -/
def warlMstatus (val : Word) : Word :=
  let readable := val &&& mstatusRMask
  let mode := if (readable &&& mstatusMppMask) >>> 11 = prvHs then readable &&& ~~~mstatusMppMask
    else readable
  if mode &&& mstatusFsMask ≠ mstatusFsOff then mode ||| mstatusFsDirty ||| mstatusSdMask
  else mode &&& ~~~mstatusSdMask

def warlMenvcfg (val : Word) : Word := val &&& menvcfgRMask

def warlSenvcfg (val : Word) : Word := val &&& senvcfgRMask

def warlMedeleg (val : Word) : Word := val &&& medelegWMask

def warlMideleg (val : Word) : Word := val &&& mipSRwMask

def warlMie (val : Word) : Word := val &&& mipRwMask

def warlMip (val : Word) : Word := val &&& mipRwMask

/-- This is `WARL_xtvec`, for `mtvec` and for `stvec`. -/
def warlXtvec (val : Word) : Word := val &&& ~~~3

/-- This is `WARL_mepc` and `WARL_sepc`. -/
def warlXepc (val : Word) : Word := val &&& ~~~1

/-- This is `WARL_mcounteren` and `WARL_scounteren`. -/
def warlCounteren (val : Word) : Word := val &&& counterenRwMask

/-- The translation modes of `satp` that are supported: none, Sv39 and Sv48. -/
def satpSupported (val : Word) : Prop := val >>> 60 = 0 ∨ val >>> 60 = 8 ∨ val >>> 60 = 9

instance (val : Word) : Decidable (satpSupported val) := by
  unfold satpSupported
  infer_instance

def warlSatp (val : Word) : Word := if satpSupported val then val &&& satpRwMask else 0

def warlFcsr (val : Word) : Word := val &&& fcsrRwMask

end Legalisation

/-- The three sets of the translation look-aside buffer. -/
inductive TlbSet where
  | code
  | read
  | write
deriving DecidableEq, Repr

/-- The registers of the shadow state that the interpreter reads and writes, as they are stored. -/
structure Registers where
  pc : Word
  fcsr : Word
  mvendorid : Word
  marchid : Word
  mimpid : Word
  mcycle : Word
  icycleinstret : Word
  mstatus : Word
  mtvec : Word
  mscratch : Word
  mepc : Word
  mcause : Word
  mtval : Word
  misa : Word
  mie : Word
  mip : Word
  medeleg : Word
  mideleg : Word
  mcounteren : Word
  menvcfg : Word
  stvec : Word
  sscratch : Word
  sepc : Word
  scause : Word
  stval : Word
  satp : Word
  scounteren : Word
  senvcfg : Word
  ilrsc : Word
  iprv : Word
  iflagsX : Word
  iflagsY : Word
  iflagsH : Word
  clintMtimecmp : Word
deriving DecidableEq, Repr

/-- The processor: its registers, the general purpose registers, a look-aside buffer whose slots are
valid or not, and the rest of the machine. -/
structure Cpu (Rest : Type) where
  registers : Registers
  x : Fin 32 → Word
  tlbValid : TlbSet → Nat → Bool
  rest : Rest

instance registerCount_ne_zero : NeZero 32 := ⟨by decide⟩

/-- This is `write_x`, which leaves register 0 alone. -/
def Cpu.writeX {Rest : Type} (cpu : Cpu Rest) (index : Fin 32) (value : Word) : Cpu Rest :=
  if index = 0 then cpu else { cpu with x := Function.update cpu.x index value }

/-- The state with other registers. -/
def Cpu.withRegisters {Rest : Type} (cpu : Cpu Rest) (registers : Registers) : Cpu Rest :=
  { cpu with registers }

/-- This is `flush_tlb_set`. -/
def Cpu.flushTlbSet {Rest : Type} (cpu : Cpu Rest) (set : TlbSet) : Cpu Rest :=
  { cpu with tlbValid := Function.update cpu.tlbValid set fun _ => false }

/-- This is `flush_all_tlb`. -/
def Cpu.flushAllTlb {Rest : Type} (cpu : Cpu Rest) : Cpu Rest :=
  ((cpu.flushTlbSet .code).flushTlbSet .read).flushTlbSet .write

section Accessors

variable (registers : Registers)

def Registers.readMstatus : Word := warlMstatus registers.mstatus
def Registers.readMtvec : Word := warlXtvec registers.mtvec
def Registers.readMepc : Word := warlXepc registers.mepc
def Registers.readMie : Word := warlMie registers.mie
def Registers.readMip : Word := warlMip registers.mip
def Registers.readMedeleg : Word := warlMedeleg registers.medeleg
def Registers.readMideleg : Word := warlMideleg registers.mideleg
def Registers.readMcounteren : Word := warlCounteren registers.mcounteren
def Registers.readMenvcfg : Word := warlMenvcfg registers.menvcfg
def Registers.readStvec : Word := warlXtvec registers.stvec
def Registers.readSepc : Word := warlXepc registers.sepc
def Registers.readSatp : Word := warlSatp registers.satp
def Registers.readScounteren : Word := warlCounteren registers.scounteren
def Registers.readSenvcfg : Word := warlSenvcfg registers.senvcfg
def Registers.readFcsr : Word := warlFcsr registers.fcsr

end Accessors

end MachineEmulator.Interpret
