/-
This file gives the microarchitecture interpreter: the operand decoders, one function for each
instruction, the decoder and the step.
-/

import MachineEmulator.Construction.Uarch.SolidityCompat

namespace MachineEmulator.Uarch

section Memory

def readUint64 (paddr : Word) : Action Word := do
  require (paddr &&& 7 = 0)
  readWord paddr

def alignedAddress (paddr : Word) : Word := paddr &&& ~~~ 7

def bitOffset (paddr : Word) : BitVec 32 := uint32ShiftLeft (paddr.setWidth 32 &&& 7) 3

def readUint32 (paddr : Word) : Action (BitVec 32) := do
  require (paddr &&& 3 = 0)
  let value ← readUint64 (alignedAddress paddr)
  return (uint64ShiftRight value (bitOffset paddr)).setWidth 32

def readUint16 (paddr : Word) : Action (BitVec 16) := do
  require (paddr &&& 1 = 0)
  let value ← readUint64 (alignedAddress paddr)
  return (uint64ShiftRight value (bitOffset paddr)).setWidth 16

def readUint8 (paddr : Word) : Action (BitVec 8) := do
  let value ← readUint64 (alignedAddress paddr)
  return (uint64ShiftRight value (bitOffset paddr)).setWidth 8

def writeUint64 (paddr value : Word) : Action Unit := do
  require (paddr &&& 7 = 0)
  writeWord paddr value

/-- The low bits of one word replace the bits of another from an offset on. -/
def copyBits (source count : BitVec 32) (target : Word) (offset : BitVec 32) : Action Word := do
  require (offset + count ≤ 64)
  let eraseMask := ~~~ uint64ShiftLeft (uint64ShiftLeft 1 count - 1) offset
  return uint64ShiftLeft (source.setWidth 64) offset ||| (target &&& eraseMask)

def writeUint32 (paddr : Word) (value : BitVec 32) : Action Unit := do
  require (paddr &&& 3 = 0)
  let old ← readUint64 (alignedAddress paddr)
  let new ← copyBits value 32 old (bitOffset paddr)
  writeUint64 (alignedAddress paddr) new

def writeUint16 (paddr : Word) (value : BitVec 16) : Action Unit := do
  require (paddr &&& 1 = 0)
  let old ← readUint64 (alignedAddress paddr)
  let new ← copyBits (value.setWidth 32) 16 old (bitOffset paddr)
  writeUint64 (alignedAddress paddr) new

def writeUint8 (paddr : Word) (value : BitVec 8) : Action Unit := do
  let old ← readUint64 (alignedAddress paddr)
  let new ← copyBits (value.setWidth 32) 8 old (bitOffset paddr)
  writeUint64 (alignedAddress paddr) new

end Memory

section Operands

def operandRd (insn : BitVec 32) : BitVec 8 :=
  (uint32ShiftRight (uint32ShiftLeft insn 20) 27).setWidth 8

def operandRs1 (insn : BitVec 32) : BitVec 8 :=
  (uint32ShiftRight (uint32ShiftLeft insn 12) 27).setWidth 8

def operandRs2 (insn : BitVec 32) : BitVec 8 :=
  (uint32ShiftRight (uint32ShiftLeft insn 7) 27).setWidth 8

def operandImm12 (insn : BitVec 32) : BitVec 32 := int32ShiftRight insn 20

def operandImm20 (insn : BitVec 32) : BitVec 32 := uint32ShiftLeft (uint32ShiftRight insn 12) 12

def operandJimm20 (insn : BitVec 32) : BitVec 32 :=
  let a := uint32ShiftLeft (int32ShiftRight insn 31) 20
  let b := uint32ShiftLeft (uint32ShiftRight (uint32ShiftLeft insn 1) 22) 1
  let c := uint32ShiftLeft (uint32ShiftRight (uint32ShiftLeft insn 11) 31) 11
  let d := uint32ShiftLeft (uint32ShiftRight (uint32ShiftLeft insn 12) 24) 12
  a ||| b ||| c ||| d

def operandShamt5 (insn : BitVec 32) : BitVec 32 := uint32ShiftRight (uint32ShiftLeft insn 7) 27

def operandShamt6 (insn : BitVec 32) : BitVec 32 := uint32ShiftRight (uint32ShiftLeft insn 6) 26

def operandSbimm12 (insn : BitVec 32) : BitVec 32 :=
  let a := uint32ShiftLeft (int32ShiftRight insn 31) 12
  let b := uint32ShiftLeft (uint32ShiftRight (uint32ShiftLeft insn 1) 26) 5
  let c := uint32ShiftLeft (uint32ShiftRight (uint32ShiftLeft insn 20) 28) 1
  let d := uint32ShiftLeft (uint32ShiftRight (uint32ShiftLeft insn 24) 31) 11
  a ||| b ||| c ||| d

def operandSimm12 (insn : BitVec 32) : BitVec 32 :=
  uint32ShiftLeft (int32ShiftRight insn 25) 5 ||| uint32ShiftRight (uint32ShiftLeft insn 20) 27

end Operands

section Families

def advancePc (pc : Word) : Action Unit := writePc (uint64AddUint64 pc 4)

def branch (pc : Word) : Action Unit := writePc pc

/-- No instruction writes register zero. -/
def whenRd (rd : BitVec 8) (action : Action Unit) : Action Unit :=
  if rd ≠ 0 then action else pure ()

def executeBranch (taken : Word → Word → Bool) (insn : BitVec 32) (pc : Word) : Action Unit := do
  let rs1val ← readX (operandRs1 insn)
  let rs2val ← readX (operandRs2 insn)
  if taken rs1val rs2val then branch (uint64AddInt32 pc (operandSbimm12 insn))
  else advancePc pc

def executeLoad {width : Nat} (read : Word → Action (BitVec width))
    (extend : BitVec width → Word) (insn : BitVec 32) (pc : Word) : Action Unit := do
  let rs1val ← readX (operandRs1 insn)
  let value ← read (uint64AddInt32 rs1val (operandImm12 insn))
  whenRd (operandRd insn) (writeX (operandRd insn) (extend value))
  advancePc pc

def executeStore {width : Nat} (write : Word → BitVec width → Action Unit) (insn : BitVec 32)
    (pc : Word) : Action Unit := do
  let rs1val ← readX (operandRs1 insn)
  let rs2val ← readX (operandRs2 insn)
  write (uint64AddInt32 rs1val (operandSimm12 insn)) (rs2val.setWidth width)
  advancePc pc

/-- These instructions read their source only when they have a destination. -/
def executeImmediate (result : Word → Word) (insn : BitVec 32) (pc : Word) : Action Unit := do
  whenRd (operandRd insn) do
    let rs1val ← readX (operandRs1 insn)
    writeX (operandRd insn) (result rs1val)
  advancePc pc

/-- These instructions read their source in any case. -/
def executeImmediateW (result : Word → Word) (insn : BitVec 32) (pc : Word) : Action Unit := do
  let rs1val ← readX (operandRs1 insn)
  whenRd (operandRd insn) (writeX (operandRd insn) (result rs1val))
  advancePc pc

/-- These instructions read their sources only when they have a destination. -/
def executeRegister (result : Word → Word → Word) (insn : BitVec 32) (pc : Word) :
    Action Unit := do
  whenRd (operandRd insn) do
    let rs1val ← readX (operandRs1 insn)
    let rs2val ← readX (operandRs2 insn)
    writeX (operandRd insn) (result rs1val rs2val)
  advancePc pc

/-- These instructions read their sources in any case. -/
def executeRegisterW (result : Word → Word → Word) (insn : BitVec 32) (pc : Word) :
    Action Unit := do
  let rs1val ← readX (operandRs1 insn)
  let rs2val ← readX (operandRs2 insn)
  whenRd (operandRd insn) (writeX (operandRd insn) (result rs1val rs2val))
  advancePc pc

end Families

section Instructions

variable (insn : BitVec 32) (pc : Word)

def executeLUI : Action Unit := do
  whenRd (operandRd insn) (writeX (operandRd insn) (int32ToUint64 (operandImm20 insn)))
  advancePc pc

def executeAUIPC : Action Unit := do
  whenRd (operandRd insn) (writeX (operandRd insn) (uint64AddInt32 pc (operandImm20 insn)))
  advancePc pc

def executeJAL : Action Unit := do
  whenRd (operandRd insn) (writeX (operandRd insn) (uint64AddUint64 pc 4))
  branch (uint64AddInt32 pc (operandJimm20 insn))

def executeJALR : Action Unit := do
  let rs1val ← readX (operandRs1 insn)
  whenRd (operandRd insn) (writeX (operandRd insn) (uint64AddUint64 pc 4))
  branch (uint64AddInt32 rs1val (operandImm12 insn) &&& ~~~ 1)

def executeBEQ : Action Unit := executeBranch (fun left right => left = right) insn pc

def executeBNE : Action Unit := executeBranch (fun left right => left ≠ right) insn pc

def executeBLT : Action Unit := executeBranch (fun left right => left.slt right) insn pc

def executeBGE : Action Unit := executeBranch (fun left right => !left.slt right) insn pc

def executeBLTU : Action Unit := executeBranch (fun left right => left.ult right) insn pc

def executeBGEU : Action Unit := executeBranch (fun left right => !left.ult right) insn pc

def executeLB : Action Unit := executeLoad readUint8 int8ToUint64 insn pc

def executeLHU : Action Unit := executeLoad readUint16 (fun value => value.setWidth 64) insn pc

def executeLH : Action Unit := executeLoad readUint16 int16ToUint64 insn pc

def executeLW : Action Unit := executeLoad readUint32 int32ToUint64 insn pc

def executeLBU : Action Unit := executeLoad readUint8 (fun value => value.setWidth 64) insn pc

def executeLWU : Action Unit := executeLoad readUint32 (fun value => value.setWidth 64) insn pc

def executeLD : Action Unit := executeLoad readUint64 (fun value => value) insn pc

def executeSB : Action Unit := executeStore writeUint8 insn pc

def executeSH : Action Unit := executeStore writeUint16 insn pc

def executeSW : Action Unit := executeStore writeUint32 insn pc

def executeSD : Action Unit := executeStore writeUint64 insn pc

def executeADDI : Action Unit :=
  executeImmediate (fun rs1val => int64AddInt64 rs1val (int32ToUint64 (operandImm12 insn))) insn pc

def executeADDIW : Action Unit :=
  executeImmediateW
    (fun rs1val => int32ToUint64 (int32AddInt32 (uint64ToInt32 rs1val) (operandImm12 insn))) insn pc

def executeSLTI : Action Unit :=
  executeImmediate
    (fun rs1val => if rs1val.slt (int32ToUint64 (operandImm12 insn)) then 1 else 0) insn pc

def executeSLTIU : Action Unit :=
  executeImmediate
    (fun rs1val => if rs1val.ult (int32ToUint64 (operandImm12 insn)) then 1 else 0) insn pc

def executeXORI : Action Unit :=
  executeImmediate (fun rs1val => rs1val ^^^ int32ToUint64 (operandImm12 insn)) insn pc

def executeORI : Action Unit :=
  executeImmediate (fun rs1val => rs1val ||| int32ToUint64 (operandImm12 insn)) insn pc

def executeANDI : Action Unit :=
  executeImmediate (fun rs1val => rs1val &&& int32ToUint64 (operandImm12 insn)) insn pc

def executeSLLI : Action Unit :=
  executeImmediate (fun rs1val => uint64ShiftLeft rs1val (operandShamt6 insn)) insn pc

def executeSLLIW : Action Unit :=
  executeImmediateW
    (fun rs1val => int32ToUint64 (uint32ShiftLeft (rs1val.setWidth 32) (operandShamt5 insn))) insn pc

def executeSRLI : Action Unit :=
  executeImmediate (fun rs1val => uint64ShiftRight rs1val (operandShamt6 insn)) insn pc

def executeSRLIW : Action Unit :=
  executeImmediateW
    (fun rs1val => int32ToUint64 (uint32ShiftRight (rs1val.setWidth 32) (operandShamt5 insn))) insn pc

def executeSRAI : Action Unit :=
  executeImmediate (fun rs1val => int64ShiftRight rs1val (operandShamt6 insn)) insn pc

def executeSRAIW : Action Unit :=
  executeImmediateW
    (fun rs1val => int32ToUint64 (int32ShiftRight (uint64ToInt32 rs1val) (operandShamt5 insn))) insn pc

def executeADD : Action Unit := executeRegister uint64AddUint64 insn pc

def executeADDW : Action Unit :=
  executeRegisterW (fun rs1val rs2val =>
    int32ToUint64 (int32AddInt32 (uint64ToInt32 rs1val) (uint64ToInt32 rs2val))) insn pc

def executeSUB : Action Unit := executeRegister uint64SubUint64 insn pc

def executeSUBW : Action Unit :=
  executeRegisterW (fun rs1val rs2val =>
    int32ToUint64 (int32SubInt32 (uint64ToInt32 rs1val) (uint64ToInt32 rs2val))) insn pc

def executeSLL : Action Unit :=
  executeRegister (fun rs1val rs2val => uint64ShiftLeft rs1val (rs2val.setWidth 32)) insn pc

def executeSLLW : Action Unit :=
  executeRegisterW (fun rs1val rs2val =>
    int32ToUint64 (uint32ShiftLeft (rs1val.setWidth 32) (rs2val.setWidth 32))) insn pc

def executeSLT : Action Unit :=
  executeRegister (fun rs1val rs2val => if rs1val.slt rs2val then 1 else 0) insn pc

def executeSLTU : Action Unit :=
  executeRegister (fun rs1val rs2val => if rs1val.ult rs2val then 1 else 0) insn pc

def executeXOR : Action Unit := executeRegister (fun rs1val rs2val => rs1val ^^^ rs2val) insn pc

def executeSRL : Action Unit :=
  executeRegister (fun rs1val rs2val => uint64ShiftRight rs1val (rs2val.setWidth 32)) insn pc

def executeSRLW : Action Unit :=
  executeRegisterW (fun rs1val rs2val =>
    int32ToUint64 (uint32ShiftRight (rs1val.setWidth 32) (rs2val.setWidth 32))) insn pc

def executeSRA : Action Unit :=
  executeRegister (fun rs1val rs2val => int64ShiftRight rs1val (rs2val.setWidth 32)) insn pc

def executeSRAW : Action Unit :=
  executeRegisterW (fun rs1val rs2val =>
    int32ToUint64 (int32ShiftRight (uint64ToInt32 rs1val) (rs2val.setWidth 32))) insn pc

def executeOR : Action Unit := executeRegister (fun rs1val rs2val => rs1val ||| rs2val) insn pc

def executeAND : Action Unit := executeRegister (fun rs1val rs2val => rs1val &&& rs2val) insn pc

end Instructions

def executeFENCE (_ : BitVec 32) (pc : Word) : Action Unit := advancePc pc

def uarchEcallFnHalt : Word := 1

def uarchEcallFnPutchar : Word := 2

def uarchEcallFnWriteTlb : Word := 4

/-- The function number is in `a7` and the arguments are in `a0` to `a4`. -/
def executeECALL (_ : BitVec 32) (pc : Word) : Action Unit := do
  let fn ← readX 17
  if fn = uarchEcallFnHalt then writeHaltFlag 1
  else if fn = uarchEcallFnPutchar then do
    let character ← readX 10
    putCharECALL (character.setWidth 8)
    advancePc pc
  else if fn = uarchEcallFnWriteTlb then do
    let setIndex ← readX 10
    let slotIndex ← readX 11
    let vaddrPage ← readX 12
    let vpOffset ← readX 13
    let pmaIndex ← readX 14
    writeTlbECALL setIndex slotIndex vaddrPage vpOffset pmaIndex
    advancePc pc
  else throwRuntimeError .unsupportedEcall

def executeEBREAK (_ : BitVec 32) (_ : Word) : Action Unit := throwRuntimeError .uarchAborted

section Decoder

def insnMatchOpcode (opcode insn : BitVec 32) : Bool := insn &&& 0x7f = opcode

def insnMatchOpcodeFunct3 (opcode funct3 insn : BitVec 32) : Bool :=
  insn &&& ((7 <<< 12) ||| 0x7f) = uint32ShiftLeft funct3 12 ||| opcode

def insnMatchOpcodeFunct3Funct7 (opcode funct3 funct7 insn : BitVec 32) : Bool :=
  insn &&& ((0x7f <<< 25) ||| (7 <<< 12) ||| 0x7f) =
    uint32ShiftLeft funct7 25 ||| uint32ShiftLeft funct3 12 ||| opcode

def insnMatchOpcodeFunct3Funct7Sr1 (opcode funct3 funct7Sr1 insn : BitVec 32) : Bool :=
  insn &&& ((0x3f <<< 26) ||| (7 <<< 12) ||| 0x7f) =
    uint32ShiftLeft funct7Sr1 26 ||| uint32ShiftLeft funct3 12 ||| opcode

/-- One test of the decoder and the function that it selects. -/
structure DecoderEntry where
  isMatch : BitVec 32 → Bool
  execute : BitVec 32 → Word → Action Unit

/-- The tests of `executeInsn` in the source's order. -/
def decoder : List DecoderEntry := [
  ⟨insnMatchOpcodeFunct3 0x13 0x0, executeADDI⟩,
  ⟨insnMatchOpcodeFunct3 0x3 0x3, executeLD⟩,
  ⟨insnMatchOpcodeFunct3 0x63 0x6, executeBLTU⟩,
  ⟨insnMatchOpcodeFunct3 0x63 0x0, executeBEQ⟩,
  ⟨insnMatchOpcodeFunct3 0x13 0x7, executeANDI⟩,
  ⟨insnMatchOpcodeFunct3Funct7 0x33 0x0 0x0, executeADD⟩,
  ⟨insnMatchOpcode 0x6f, executeJAL⟩,
  ⟨insnMatchOpcodeFunct3Funct7Sr1 0x13 0x1 0x0, executeSLLI⟩,
  ⟨insnMatchOpcodeFunct3Funct7 0x33 0x7 0x0, executeAND⟩,
  ⟨insnMatchOpcodeFunct3 0x23 0x3, executeSD⟩,
  ⟨insnMatchOpcode 0x37, executeLUI⟩,
  ⟨insnMatchOpcodeFunct3 0x67 0x0, executeJALR⟩,
  ⟨insnMatchOpcodeFunct3 0x1b 0x0, executeADDIW⟩,
  ⟨insnMatchOpcodeFunct3Funct7Sr1 0x13 0x5 0x0, executeSRLI⟩,
  ⟨insnMatchOpcodeFunct3Funct7 0x1b 0x5 0x0, executeSRLIW⟩,
  ⟨insnMatchOpcodeFunct3 0x63 0x1, executeBNE⟩,
  ⟨insnMatchOpcodeFunct3 0x3 0x2, executeLW⟩,
  ⟨insnMatchOpcode 0x17, executeAUIPC⟩,
  ⟨insnMatchOpcodeFunct3 0x63 0x7, executeBGEU⟩,
  ⟨insnMatchOpcodeFunct3Funct7 0x3b 0x0 0x0, executeADDW⟩,
  ⟨insnMatchOpcodeFunct3Funct7Sr1 0x13 0x5 0x10, executeSRAI⟩,
  ⟨insnMatchOpcodeFunct3Funct7 0x33 0x6 0x0, executeOR⟩,
  ⟨insnMatchOpcodeFunct3Funct7 0x1b 0x5 0x20, executeSRAIW⟩,
  ⟨insnMatchOpcodeFunct3 0x63 0x5, executeBGE⟩,
  ⟨insnMatchOpcodeFunct3Funct7 0x33 0x0 0x20, executeSUB⟩,
  ⟨insnMatchOpcodeFunct3 0x3 0x4, executeLBU⟩,
  ⟨insnMatchOpcodeFunct3Funct7 0x1b 0x1 0x0, executeSLLIW⟩,
  ⟨insnMatchOpcodeFunct3Funct7 0x33 0x5 0x0, executeSRL⟩,
  ⟨insnMatchOpcodeFunct3Funct7 0x33 0x4 0x0, executeXOR⟩,
  ⟨insnMatchOpcodeFunct3 0x23 0x2, executeSW⟩,
  ⟨insnMatchOpcodeFunct3Funct7 0x33 0x1 0x0, executeSLL⟩,
  ⟨insnMatchOpcodeFunct3 0x63 0x4, executeBLT⟩,
  ⟨insnMatchOpcodeFunct3 0x23 0x0, executeSB⟩,
  ⟨insnMatchOpcodeFunct3Funct7 0x3b 0x0 0x20, executeSUBW⟩,
  ⟨insnMatchOpcodeFunct3 0x13 0x4, executeXORI⟩,
  ⟨insnMatchOpcodeFunct3Funct7 0x33 0x5 0x20, executeSRA⟩,
  ⟨insnMatchOpcodeFunct3 0x3 0x5, executeLHU⟩,
  ⟨insnMatchOpcodeFunct3 0x23 0x1, executeSH⟩,
  ⟨insnMatchOpcodeFunct3Funct7 0x3b 0x5 0x0, executeSRLW⟩,
  ⟨insnMatchOpcodeFunct3 0x3 0x6, executeLWU⟩,
  ⟨insnMatchOpcodeFunct3Funct7 0x3b 0x1 0x0, executeSLLW⟩,
  ⟨insnMatchOpcodeFunct3 0x3 0x0, executeLB⟩,
  ⟨insnMatchOpcodeFunct3Funct7 0x33 0x3 0x0, executeSLTU⟩,
  ⟨insnMatchOpcodeFunct3Funct7 0x3b 0x5 0x20, executeSRAW⟩,
  ⟨insnMatchOpcodeFunct3 0x3 0x1, executeLH⟩,
  ⟨insnMatchOpcodeFunct3 0x13 0x6, executeORI⟩,
  ⟨insnMatchOpcodeFunct3 0x13 0x3, executeSLTIU⟩,
  ⟨insnMatchOpcodeFunct3Funct7 0x33 0x2 0x0, executeSLT⟩,
  ⟨insnMatchOpcodeFunct3 0x13 0x2, executeSLTI⟩,
  ⟨insnMatchOpcodeFunct3 0xf 0x0, executeFENCE⟩,
  ⟨fun insn => insn = 0x73, executeECALL⟩,
  ⟨fun insn => insn = 0x100073, executeEBREAK⟩]

/-- The first test that matches selects the instruction. -/
def executeInsn (insn : BitVec 32) (pc : Word) : Action Unit :=
  match decoder.find? (fun entry => entry.isMatch insn) with
  | some entry => entry.execute insn pc
  | none => throwRuntimeError .illegalInstruction

end Decoder

inductive UArchStepStatus where
  | success
  | cycleOverflow
  | uarchHalted
deriving DecidableEq, Repr

def uarchStep : Action UArchStepStatus := do
  let cycle ← readCycle
  if uarchCycleMax ≤ cycle then return .cycleOverflow
  else do
    let halted ← readHaltFlag
    if halted ≠ 0 then return .uarchHalted
    else do
      let pc ← readPc
      let insn ← readUint32 pc
      executeInsn insn pc
      writeCycle (cycle + 1)
      return .success

end MachineEmulator.Uarch
