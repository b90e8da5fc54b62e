/-
This file states the RV64I instructions: how a word encodes each of them and what each of them
does. It follows the instruction set's own tables and not the interpreter.
-/

import MachineEmulator.Construction.Uarch.Plain

namespace MachineEmulator.Rv64i

open Uarch (ShadowUarchStateWhat PlainMachine)

section Syntax

inductive BranchOp where
  | beq | bne | blt | bge | bltu | bgeu
deriving DecidableEq, Repr

inductive LoadOp where
  | lb | lh | lw | ld | lbu | lhu | lwu
deriving DecidableEq, Repr

inductive StoreOp where
  | sb | sh | sw | sd
deriving DecidableEq, Repr

inductive ImmediateOp where
  | addi | slti | sltiu | xori | ori | andi
deriving DecidableEq, Repr

inductive ShiftOp where
  | sll | srl | sra
deriving DecidableEq, Repr

inductive RegisterOp where
  | add | sub | sll | slt | sltu | xor | srl | sra | or | and
deriving DecidableEq, Repr

inductive RegisterWOp where
  | addw | subw | sllw | srlw | sraw
deriving DecidableEq, Repr

/-- An instruction with its operands. The offsets of jumps and branches keep their bit zero. -/
inductive Instruction where
  | lui (rd : BitVec 5) (imm : BitVec 20)
  | auipc (rd : BitVec 5) (imm : BitVec 20)
  | jal (rd : BitVec 5) (offset : BitVec 21)
  | jalr (rd rs1 : BitVec 5) (imm : BitVec 12)
  | branch (op : BranchOp) (rs1 rs2 : BitVec 5) (offset : BitVec 13)
  | load (op : LoadOp) (rd rs1 : BitVec 5) (imm : BitVec 12)
  | store (op : StoreOp) (rs1 rs2 : BitVec 5) (imm : BitVec 12)
  | immediate (op : ImmediateOp) (rd rs1 : BitVec 5) (imm : BitVec 12)
  | addiw (rd rs1 : BitVec 5) (imm : BitVec 12)
  | shift (op : ShiftOp) (rd rs1 : BitVec 5) (shamt : BitVec 6)
  | shiftW (op : ShiftOp) (rd rs1 : BitVec 5) (shamt : BitVec 5)
  | register (op : RegisterOp) (rd rs1 rs2 : BitVec 5)
  | registerW (op : RegisterWOp) (rd rs1 rs2 : BitVec 5)
  | fence (ordering : BitVec 12) (rd rs1 : BitVec 5)
  | ecall
  | ebreak
deriving DecidableEq, Repr

end Syntax

section Encoding

variable (word : BitVec 32)

def opcode : BitVec 7 := word.extractLsb' 0 7

def rd : BitVec 5 := word.extractLsb' 7 5

def funct3 : BitVec 3 := word.extractLsb' 12 3

def rs1 : BitVec 5 := word.extractLsb' 15 5

def rs2 : BitVec 5 := word.extractLsb' 20 5

def funct7 : BitVec 7 := word.extractLsb' 25 7

/-- The six bits over a six-bit shift amount. -/
def funct6 : BitVec 6 := word.extractLsb' 26 6

def shamt6 : BitVec 6 := word.extractLsb' 20 6

def immI : BitVec 12 := word.extractLsb' 20 12

def immS : BitVec 12 := word.extractLsb' 25 7 ++ word.extractLsb' 7 5

def immB : BitVec 13 :=
  word.extractLsb' 31 1 ++ word.extractLsb' 7 1 ++ word.extractLsb' 25 6 ++ word.extractLsb' 8 4 ++
    0#1

def immU : BitVec 20 := word.extractLsb' 12 20

def immJ : BitVec 21 :=
  word.extractLsb' 31 1 ++ word.extractLsb' 12 8 ++ word.extractLsb' 20 1 ++
    word.extractLsb' 21 10 ++ 0#1

def BranchOp.funct3 : BranchOp → BitVec 3
  | .beq => 0 | .bne => 1 | .blt => 4 | .bge => 5 | .bltu => 6 | .bgeu => 7

def LoadOp.funct3 : LoadOp → BitVec 3
  | .lb => 0 | .lh => 1 | .lw => 2 | .ld => 3 | .lbu => 4 | .lhu => 5 | .lwu => 6

def StoreOp.funct3 : StoreOp → BitVec 3
  | .sb => 0 | .sh => 1 | .sw => 2 | .sd => 3

def ImmediateOp.funct3 : ImmediateOp → BitVec 3
  | .addi => 0 | .slti => 2 | .sltiu => 3 | .xori => 4 | .ori => 6 | .andi => 7

def ShiftOp.funct3 : ShiftOp → BitVec 3
  | .sll => 1 | .srl => 5 | .sra => 5

def ShiftOp.funct6 : ShiftOp → BitVec 6
  | .sll => 0 | .srl => 0 | .sra => 0x10

def ShiftOp.funct7 : ShiftOp → BitVec 7
  | .sll => 0 | .srl => 0 | .sra => 0x20

def RegisterOp.funct3 : RegisterOp → BitVec 3
  | .add => 0 | .sub => 0 | .sll => 1 | .slt => 2 | .sltu => 3
  | .xor => 4 | .srl => 5 | .sra => 5 | .or => 6 | .and => 7

def RegisterOp.funct7 : RegisterOp → BitVec 7
  | .sub => 0x20 | .sra => 0x20 | _ => 0

def RegisterWOp.funct3 : RegisterWOp → BitVec 3
  | .addw => 0 | .subw => 0 | .sllw => 1 | .srlw => 5 | .sraw => 5

def RegisterWOp.funct7 : RegisterWOp → BitVec 7
  | .subw => 0x20 | .sraw => 0x20 | _ => 0

/-- The full encoding of an instruction matches a word: its fixed fields and all its operands. -/
def Instruction.Encodes : Instruction → BitVec 32 → Prop
  | .lui dest imm, word => opcode word = 0x37 ∧ rd word = dest ∧ immU word = imm
  | .auipc dest imm, word => opcode word = 0x17 ∧ rd word = dest ∧ immU word = imm
  | .jal dest offset, word => opcode word = 0x6f ∧ rd word = dest ∧ immJ word = offset
  | .jalr dest source imm, word =>
      opcode word = 0x67 ∧ Rv64i.funct3 word = 0 ∧ rd word = dest ∧ rs1 word = source ∧
        immI word = imm
  | .branch op left right offset, word =>
      opcode word = 0x63 ∧ Rv64i.funct3 word = op.funct3 ∧ rs1 word = left ∧ rs2 word = right ∧
        immB word = offset
  | .load op dest source imm, word =>
      opcode word = 0x03 ∧ Rv64i.funct3 word = op.funct3 ∧ rd word = dest ∧ rs1 word = source ∧
        immI word = imm
  | .store op base source imm, word =>
      opcode word = 0x23 ∧ Rv64i.funct3 word = op.funct3 ∧ rs1 word = base ∧ rs2 word = source ∧
        immS word = imm
  | .immediate op dest source imm, word =>
      opcode word = 0x13 ∧ Rv64i.funct3 word = op.funct3 ∧ rd word = dest ∧ rs1 word = source ∧
        immI word = imm
  | .addiw dest source imm, word =>
      opcode word = 0x1b ∧ Rv64i.funct3 word = 0 ∧ rd word = dest ∧ rs1 word = source ∧
        immI word = imm
  | .shift op dest source shamt, word =>
      opcode word = 0x13 ∧ Rv64i.funct3 word = op.funct3 ∧ Rv64i.funct6 word = op.funct6 ∧
        rd word = dest ∧ rs1 word = source ∧ shamt6 word = shamt
  | .shiftW op dest source shamt, word =>
      opcode word = 0x1b ∧ Rv64i.funct3 word = op.funct3 ∧ Rv64i.funct7 word = op.funct7 ∧
        rd word = dest ∧ rs1 word = source ∧ rs2 word = shamt
  | .register op dest left right, word =>
      opcode word = 0x33 ∧ Rv64i.funct3 word = op.funct3 ∧ Rv64i.funct7 word = op.funct7 ∧
        rd word = dest ∧ rs1 word = left ∧ rs2 word = right
  | .registerW op dest left right, word =>
      opcode word = 0x3b ∧ Rv64i.funct3 word = op.funct3 ∧ Rv64i.funct7 word = op.funct7 ∧
        rd word = dest ∧ rs1 word = left ∧ rs2 word = right
  | .fence ordering dest source, word =>
      opcode word = 0x0f ∧ Rv64i.funct3 word = 0 ∧ rd word = dest ∧ rs1 word = source ∧
        immI word = ordering
  | .ecall, word => word = 0x00000073
  | .ebreak, word => word = 0x00100073

end Encoding

section Semantics

/-- The general registers, with a first one that is always zero. -/
def getX (memory : Memory) (reg : BitVec 5) : Word :=
  if reg = 0 then 0 else memory.loadWord (ShadowUarchStateWhat.x (reg.setWidth 8)).address

def setX (memory : Memory) (reg : BitVec 5) (value : Word) : Memory :=
  if reg = 0 then memory
  else memory.storeWord (ShadowUarchStateWhat.x (reg.setWidth 8)).address value

def setPc (memory : Memory) (pc : Word) : Memory :=
  memory.storeWord ShadowUarchStateWhat.pc.address pc

def BranchOp.taken : BranchOp → Word → Word → Bool
  | .beq, left, right => left = right
  | .bne, left, right => left ≠ right
  | .blt, left, right => left.toInt < right.toInt
  | .bge, left, right => right.toInt ≤ left.toInt
  | .bltu, left, right => left.toNat < right.toNat
  | .bgeu, left, right => right.toNat ≤ left.toNat

def LoadOp.size : LoadOp → Nat
  | .lb => 1 | .lbu => 1 | .lh => 2 | .lhu => 2 | .lw => 4 | .lwu => 4 | .ld => 8

/-- The signed loads extend the sign of what they read. -/
def LoadOp.extend : LoadOp → Word → Word
  | .lb, raw => (raw.setWidth 8).signExtend 64
  | .lh, raw => (raw.setWidth 16).signExtend 64
  | .lw, raw => (raw.setWidth 32).signExtend 64
  | _, raw => raw

def StoreOp.size : StoreOp → Nat
  | .sb => 1 | .sh => 2 | .sw => 4 | .sd => 8

def ImmediateOp.result : ImmediateOp → Word → Word → Word
  | .addi, source, imm => source + imm
  | .slti, source, imm => if source.toInt < imm.toInt then 1 else 0
  | .sltiu, source, imm => if source.toNat < imm.toNat then 1 else 0
  | .xori, source, imm => source ^^^ imm
  | .ori, source, imm => source ||| imm
  | .andi, source, imm => source &&& imm

def ShiftOp.result {width : Nat} : ShiftOp → BitVec width → Nat → BitVec width
  | .sll, value, count => value <<< count
  | .srl, value, count => value >>> count
  | .sra, value, count => value.sshiftRight count

/-- A register shift uses the low six bits of its second operand. -/
def RegisterOp.result : RegisterOp → Word → Word → Word
  | .add, left, right => left + right
  | .sub, left, right => left - right
  | .sll, left, right => left <<< (right.toNat % 64)
  | .slt, left, right => if left.toInt < right.toInt then 1 else 0
  | .sltu, left, right => if left.toNat < right.toNat then 1 else 0
  | .xor, left, right => left ^^^ right
  | .srl, left, right => left >>> (right.toNat % 64)
  | .sra, left, right => left.sshiftRight (right.toNat % 64)
  | .or, left, right => left ||| right
  | .and, left, right => left &&& right

/-- A shift of the low words uses the low five bits of its second operand. -/
def RegisterWOp.result : RegisterWOp → BitVec 32 → BitVec 32 → BitVec 32
  | .addw, left, right => left + right
  | .subw, left, right => left - right
  | .sllw, left, right => left <<< (right.toNat % 32)
  | .srlw, left, right => left >>> (right.toNat % 32)
  | .sraw, left, right => left.sshiftRight (right.toNat % 32)

variable (machine : PlainMachine)

/-- A load from a naturally aligned address. -/
def loadValue (op : LoadOp) (address : Word) (memory : Memory) : Except Failure Word := do
  check (address.toNat % op.size = 0) .assertionFailed
  return op.extend (wordOfBytes (memory.load address op.size))

/-- A store to a naturally aligned address changes just its own bytes. The machine may refuse the
word around them. -/
def storeValue (op : StoreOp) (address value : Word) (memory : Memory) :
    Except Failure Memory := do
  check (address.toNat % op.size = 0) .assertionFailed
  Machine.checkWriteWord machine.ranges (BitVec.ofNat 64 (8 * (address.toNat / 8)))
  return memory.store address ((wordToBytes value).take op.size)

/-- The conventions of the environment call: `a7` selects halt, putchar or the TLB write. -/
def ecallResult (pc : Word) (memory : Memory) : Except Failure Memory :=
  if getX memory 17 = 1 then
    .ok (memory.storeWord ShadowUarchStateWhat.haltFlag.address 1)
  else if getX memory 17 = 2 then .ok (setPc memory (pc + 4))
  else if getX memory 17 = 4 then do
    let written ← Uarch.writeUnverifiedTlb machine (getX memory 10) (getX memory 11)
      (getX memory 12) (getX memory 13) (getX memory 14) memory
    return setPc written (pc + 4)
  else .error .unsupportedEcall

/-- What an instruction at a program counter does to the machine. -/
def Instruction.execute (pc : Word) (memory : Memory) : Instruction → Except Failure Memory
  | .lui rd imm => .ok (setPc (setX memory rd ((imm ++ 0#12).signExtend 64)) (pc + 4))
  | .auipc rd imm => .ok (setPc (setX memory rd (pc + (imm ++ 0#12).signExtend 64)) (pc + 4))
  | .jal rd offset => .ok (setPc (setX memory rd (pc + 4)) (pc + offset.signExtend 64))
  | .jalr rd rs1 imm =>
      .ok (setPc (setX memory rd (pc + 4)) ((getX memory rs1 + imm.signExtend 64) &&& ~~~ 1))
  | .branch op rs1 rs2 offset =>
      .ok (setPc memory
        (if op.taken (getX memory rs1) (getX memory rs2) then pc + offset.signExtend 64 else pc + 4))
  | .load op rd rs1 imm => do
      let value ← loadValue op (getX memory rs1 + imm.signExtend 64) memory
      return setPc (setX memory rd value) (pc + 4)
  | .store op rs1 rs2 imm => do
      let written ← storeValue machine op (getX memory rs1 + imm.signExtend 64) (getX memory rs2)
        memory
      return setPc written (pc + 4)
  | .immediate op rd rs1 imm =>
      .ok (setPc (setX memory rd (op.result (getX memory rs1) (imm.signExtend 64))) (pc + 4))
  | .addiw rd rs1 imm =>
      .ok (setPc (setX memory rd
        (((getX memory rs1).setWidth 32 + imm.signExtend 32).signExtend 64)) (pc + 4))
  | .shift op rd rs1 shamt =>
      .ok (setPc (setX memory rd (op.result (getX memory rs1) shamt.toNat)) (pc + 4))
  | .shiftW op rd rs1 shamt =>
      .ok (setPc (setX memory rd
        ((op.result ((getX memory rs1).setWidth 32) shamt.toNat).signExtend 64)) (pc + 4))
  | .register op rd rs1 rs2 =>
      .ok (setPc (setX memory rd (op.result (getX memory rs1) (getX memory rs2))) (pc + 4))
  | .registerW op rd rs1 rs2 =>
      .ok (setPc (setX memory rd ((op.result ((getX memory rs1).setWidth 32)
        ((getX memory rs2).setWidth 32)).signExtend 64)) (pc + 4))
  | .fence _ _ _ => .ok (setPc memory (pc + 4))
  | .ecall => ecallResult machine pc memory
  | .ebreak => .error .uarchAborted

end Semantics

end MachineEmulator.Rv64i
