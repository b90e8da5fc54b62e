/-
This file relates the operands and the tests of the interpreter to the fields of an RV64I word.
-/

import MachineEmulator.Construction.Uarch.Rv64i

namespace MachineEmulator.Uarch

open Rv64i (Instruction)

section Operands

variable (insn : BitVec 32)

theorem operandRd_eq : operandRd insn = (Rv64i.rd insn).setWidth 8 := by
  show ((insn <<< 20) >>> 27).setWidth 8 = _
  apply BitVec.eq_of_getLsbD_eq
  intro position inside
  simp only [Rv64i.rd, BitVec.getLsbD_setWidth, BitVec.getLsbD_ushiftRight,
    BitVec.getLsbD_shiftLeft, BitVec.getLsbD_extractLsb']
  grind

theorem operandRs1_eq : operandRs1 insn = (Rv64i.rs1 insn).setWidth 8 := by
  show ((insn <<< 12) >>> 27).setWidth 8 = _
  apply BitVec.eq_of_getLsbD_eq
  intro position inside
  simp only [Rv64i.rs1, BitVec.getLsbD_setWidth, BitVec.getLsbD_ushiftRight,
    BitVec.getLsbD_shiftLeft, BitVec.getLsbD_extractLsb']
  grind

theorem operandRs2_eq : operandRs2 insn = (Rv64i.rs2 insn).setWidth 8 := by
  show ((insn <<< 7) >>> 27).setWidth 8 = _
  apply BitVec.eq_of_getLsbD_eq
  intro position inside
  simp only [Rv64i.rs2, BitVec.getLsbD_setWidth, BitVec.getLsbD_ushiftRight,
    BitVec.getLsbD_shiftLeft, BitVec.getLsbD_extractLsb']
  grind

theorem operandImm12_eq : operandImm12 insn = (Rv64i.immI insn).signExtend 32 := by
  show insn.sshiftRight 20 = _
  apply BitVec.eq_of_getLsbD_eq
  intro position inside
  simp only [Rv64i.immI, BitVec.getLsbD_sshiftRight, BitVec.getLsbD_signExtend,
    BitVec.msb_eq_getLsbD_last, BitVec.getLsbD_extractLsb']
  grind

theorem operandImm20_eq : operandImm20 insn = Rv64i.immU insn ++ 0#12 := by
  show (insn >>> 12) <<< 12 = _
  apply BitVec.eq_of_getLsbD_eq
  intro position inside
  simp only [Rv64i.immU, BitVec.getLsbD_shiftLeft, BitVec.getLsbD_ushiftRight,
    BitVec.getLsbD_append, BitVec.getLsbD_extractLsb', BitVec.getLsbD_zero]
  grind

theorem operandShamt5_eq : operandShamt5 insn = (Rv64i.rs2 insn).setWidth 32 := by
  show (insn <<< 7) >>> 27 = _
  apply BitVec.eq_of_getLsbD_eq
  intro position inside
  simp only [Rv64i.rs2, BitVec.getLsbD_setWidth, BitVec.getLsbD_ushiftRight,
    BitVec.getLsbD_shiftLeft, BitVec.getLsbD_extractLsb']
  grind

theorem operandShamt6_eq : operandShamt6 insn = (Rv64i.shamt6 insn).setWidth 32 := by
  show (insn <<< 6) >>> 26 = _
  apply BitVec.eq_of_getLsbD_eq
  intro position inside
  simp only [Rv64i.shamt6, BitVec.getLsbD_setWidth, BitVec.getLsbD_ushiftRight,
    BitVec.getLsbD_shiftLeft, BitVec.getLsbD_extractLsb']
  grind

theorem operandSimm12_eq : operandSimm12 insn = (Rv64i.immS insn).signExtend 32 := by
  show ((insn.sshiftRight 25) <<< 5) ||| ((insn <<< 20) >>> 27) = _
  apply BitVec.eq_of_getLsbD_eq
  intro position inside
  simp only [Rv64i.immS, BitVec.getLsbD_or, BitVec.getLsbD_ushiftRight, BitVec.getLsbD_shiftLeft,
    BitVec.getLsbD_sshiftRight, BitVec.getLsbD_signExtend, BitVec.msb_eq_getLsbD_last,
    BitVec.getLsbD_append, BitVec.getLsbD_extractLsb']
  grind

theorem operandSbimm12_eq : operandSbimm12 insn = (Rv64i.immB insn).signExtend 32 := by
  show ((insn.sshiftRight 31) <<< 12) ||| (((insn <<< 1) >>> 26) <<< 5) |||
    (((insn <<< 20) >>> 28) <<< 1) ||| (((insn <<< 24) >>> 31) <<< 11) = _
  apply BitVec.eq_of_getLsbD_eq
  intro position inside
  simp only [Rv64i.immB, BitVec.getLsbD_or, BitVec.getLsbD_ushiftRight, BitVec.getLsbD_shiftLeft,
    BitVec.getLsbD_sshiftRight, BitVec.getLsbD_signExtend, BitVec.msb_eq_getLsbD_last,
    BitVec.getLsbD_append, BitVec.getLsbD_extractLsb', BitVec.getLsbD_zero]
  grind

theorem operandJimm20_eq : operandJimm20 insn = (Rv64i.immJ insn).signExtend 32 := by
  show ((insn.sshiftRight 31) <<< 20) ||| (((insn <<< 1) >>> 22) <<< 1) |||
    (((insn <<< 11) >>> 31) <<< 11) ||| (((insn <<< 12) >>> 24) <<< 12) = _
  apply BitVec.eq_of_getLsbD_eq
  intro position inside
  simp only [Rv64i.immJ, BitVec.getLsbD_or, BitVec.getLsbD_ushiftRight, BitVec.getLsbD_shiftLeft,
    BitVec.getLsbD_sshiftRight, BitVec.getLsbD_signExtend, BitVec.msb_eq_getLsbD_last,
    BitVec.getLsbD_append, BitVec.getLsbD_extractLsb', BitVec.getLsbD_zero]
  grind

end Operands

section Tests

variable (opcode : BitVec 7) (funct3 : BitVec 3) (funct7 : BitVec 7) (funct6 : BitVec 6)
  (insn : BitVec 32)

theorem insnMatchOpcode_iff :
    insnMatchOpcode (opcode.setWidth 32) insn = true ↔ Rv64i.opcode insn = opcode := by
  have test : insnMatchOpcode (opcode.setWidth 32) insn = true ↔
      insn &&& (BitVec.allOnes 7).setWidth 32 = opcode.setWidth 32 := decide_eq_true_iff
  rw [test, BitVec.eq_of_getLsbD_eq_iff, BitVec.eq_of_getLsbD_eq_iff]
  simp only [Rv64i.opcode, BitVec.getLsbD_and, BitVec.getLsbD_setWidth, BitVec.getLsbD_allOnes,
    BitVec.getLsbD_extractLsb']
  grind

theorem insnMatchOpcodeFunct3_iff :
    insnMatchOpcodeFunct3 (opcode.setWidth 32) (funct3.setWidth 32) insn = true ↔
      Rv64i.opcode insn = opcode ∧ Rv64i.funct3 insn = funct3 := by
  have test : insnMatchOpcodeFunct3 (opcode.setWidth 32) (funct3.setWidth 32) insn = true ↔
      insn &&& (((BitVec.allOnes 3).setWidth 32 <<< 12) ||| (BitVec.allOnes 7).setWidth 32) =
        (funct3.setWidth 32 <<< 12) ||| opcode.setWidth 32 := decide_eq_true_iff
  rw [test, BitVec.eq_of_getLsbD_eq_iff, BitVec.eq_of_getLsbD_eq_iff, BitVec.eq_of_getLsbD_eq_iff]
  simp only [Rv64i.opcode, Rv64i.funct3, BitVec.getLsbD_and, BitVec.getLsbD_or,
    BitVec.getLsbD_shiftLeft, BitVec.getLsbD_setWidth, BitVec.getLsbD_allOnes,
    BitVec.getLsbD_extractLsb']
  constructor
  · intro same
    constructor
    · intro position inside
      have bit := same position (by omega)
      clear same test
      grind
    · intro position inside
      have bit := same (12 + position) (by omega)
      clear same test
      grind
  · rintro ⟨low, middle⟩ position inside
    have bit := low position
    have bit' := middle (position - 12)
    grind

theorem insnMatchOpcodeFunct3Funct7_iff :
    insnMatchOpcodeFunct3Funct7 (opcode.setWidth 32) (funct3.setWidth 32) (funct7.setWidth 32) insn =
        true ↔
      Rv64i.opcode insn = opcode ∧ Rv64i.funct3 insn = funct3 ∧ Rv64i.funct7 insn = funct7 := by
  have test : insnMatchOpcodeFunct3Funct7 (opcode.setWidth 32) (funct3.setWidth 32)
      (funct7.setWidth 32) insn = true ↔
      insn &&& (((BitVec.allOnes 7).setWidth 32 <<< 25) ||| ((BitVec.allOnes 3).setWidth 32 <<< 12)
          ||| (BitVec.allOnes 7).setWidth 32) =
        (funct7.setWidth 32 <<< 25) ||| (funct3.setWidth 32 <<< 12) ||| opcode.setWidth 32 :=
    decide_eq_true_iff
  rw [test, BitVec.eq_of_getLsbD_eq_iff, BitVec.eq_of_getLsbD_eq_iff, BitVec.eq_of_getLsbD_eq_iff,
    BitVec.eq_of_getLsbD_eq_iff]
  simp only [Rv64i.opcode, Rv64i.funct3, Rv64i.funct7, BitVec.getLsbD_and, BitVec.getLsbD_or,
    BitVec.getLsbD_shiftLeft, BitVec.getLsbD_setWidth, BitVec.getLsbD_allOnes,
    BitVec.getLsbD_extractLsb']
  constructor
  · intro same
    refine ⟨?_, ?_, ?_⟩
    · intro position inside
      have bit := same position (by omega)
      clear same test
      grind
    · intro position inside
      have bit := same (12 + position) (by omega)
      clear same test
      grind
    · intro position inside
      have bit := same (25 + position) (by omega)
      clear same test
      grind
  · rintro ⟨low, middle, high⟩ position inside
    have bit := low position
    have bit' := middle (position - 12)
    have bit'' := high (position - 25)
    grind

theorem insnMatchOpcodeFunct3Funct7Sr1_iff :
    insnMatchOpcodeFunct3Funct7Sr1 (opcode.setWidth 32) (funct3.setWidth 32) (funct6.setWidth 32)
        insn = true ↔
      Rv64i.opcode insn = opcode ∧ Rv64i.funct3 insn = funct3 ∧ Rv64i.funct6 insn = funct6 := by
  have test : insnMatchOpcodeFunct3Funct7Sr1 (opcode.setWidth 32) (funct3.setWidth 32)
      (funct6.setWidth 32) insn = true ↔
      insn &&& (((BitVec.allOnes 6).setWidth 32 <<< 26) ||| ((BitVec.allOnes 3).setWidth 32 <<< 12)
          ||| (BitVec.allOnes 7).setWidth 32) =
        (funct6.setWidth 32 <<< 26) ||| (funct3.setWidth 32 <<< 12) ||| opcode.setWidth 32 :=
    decide_eq_true_iff
  rw [test, BitVec.eq_of_getLsbD_eq_iff, BitVec.eq_of_getLsbD_eq_iff, BitVec.eq_of_getLsbD_eq_iff,
    BitVec.eq_of_getLsbD_eq_iff]
  simp only [Rv64i.opcode, Rv64i.funct3, Rv64i.funct6, BitVec.getLsbD_and, BitVec.getLsbD_or,
    BitVec.getLsbD_shiftLeft, BitVec.getLsbD_setWidth, BitVec.getLsbD_allOnes,
    BitVec.getLsbD_extractLsb']
  constructor
  · intro same
    refine ⟨?_, ?_, ?_⟩
    · intro position inside
      have bit := same position (by omega)
      clear same test
      grind
    · intro position inside
      have bit := same (12 + position) (by omega)
      clear same test
      grind
    · intro position inside
      have bit := same (26 + position) (by omega)
      clear same test
      grind
  · rintro ⟨low, middle, high⟩ position inside
    have bit := low position
    have bit' := middle (position - 12)
    have bit'' := high (position - 26)
    grind

end Tests

section Rows

/-- The row of the decoder for an instruction. -/
def rowOf : Instruction → DecoderEntry
  | .lui _ _ => ⟨insnMatchOpcode 0x37, executeLUI⟩
  | .auipc _ _ => ⟨insnMatchOpcode 0x17, executeAUIPC⟩
  | .jal _ _ => ⟨insnMatchOpcode 0x6f, executeJAL⟩
  | .jalr _ _ _ => ⟨insnMatchOpcodeFunct3 0x67 0x0, executeJALR⟩
  | .branch .beq _ _ _ => ⟨insnMatchOpcodeFunct3 0x63 0x0, executeBEQ⟩
  | .branch .bne _ _ _ => ⟨insnMatchOpcodeFunct3 0x63 0x1, executeBNE⟩
  | .branch .blt _ _ _ => ⟨insnMatchOpcodeFunct3 0x63 0x4, executeBLT⟩
  | .branch .bge _ _ _ => ⟨insnMatchOpcodeFunct3 0x63 0x5, executeBGE⟩
  | .branch .bltu _ _ _ => ⟨insnMatchOpcodeFunct3 0x63 0x6, executeBLTU⟩
  | .branch .bgeu _ _ _ => ⟨insnMatchOpcodeFunct3 0x63 0x7, executeBGEU⟩
  | .load .lb _ _ _ => ⟨insnMatchOpcodeFunct3 0x3 0x0, executeLB⟩
  | .load .lh _ _ _ => ⟨insnMatchOpcodeFunct3 0x3 0x1, executeLH⟩
  | .load .lw _ _ _ => ⟨insnMatchOpcodeFunct3 0x3 0x2, executeLW⟩
  | .load .ld _ _ _ => ⟨insnMatchOpcodeFunct3 0x3 0x3, executeLD⟩
  | .load .lbu _ _ _ => ⟨insnMatchOpcodeFunct3 0x3 0x4, executeLBU⟩
  | .load .lhu _ _ _ => ⟨insnMatchOpcodeFunct3 0x3 0x5, executeLHU⟩
  | .load .lwu _ _ _ => ⟨insnMatchOpcodeFunct3 0x3 0x6, executeLWU⟩
  | .store .sb _ _ _ => ⟨insnMatchOpcodeFunct3 0x23 0x0, executeSB⟩
  | .store .sh _ _ _ => ⟨insnMatchOpcodeFunct3 0x23 0x1, executeSH⟩
  | .store .sw _ _ _ => ⟨insnMatchOpcodeFunct3 0x23 0x2, executeSW⟩
  | .store .sd _ _ _ => ⟨insnMatchOpcodeFunct3 0x23 0x3, executeSD⟩
  | .immediate .addi _ _ _ => ⟨insnMatchOpcodeFunct3 0x13 0x0, executeADDI⟩
  | .immediate .slti _ _ _ => ⟨insnMatchOpcodeFunct3 0x13 0x2, executeSLTI⟩
  | .immediate .sltiu _ _ _ => ⟨insnMatchOpcodeFunct3 0x13 0x3, executeSLTIU⟩
  | .immediate .xori _ _ _ => ⟨insnMatchOpcodeFunct3 0x13 0x4, executeXORI⟩
  | .immediate .ori _ _ _ => ⟨insnMatchOpcodeFunct3 0x13 0x6, executeORI⟩
  | .immediate .andi _ _ _ => ⟨insnMatchOpcodeFunct3 0x13 0x7, executeANDI⟩
  | .addiw _ _ _ => ⟨insnMatchOpcodeFunct3 0x1b 0x0, executeADDIW⟩
  | .shift .sll _ _ _ => ⟨insnMatchOpcodeFunct3Funct7Sr1 0x13 0x1 0x0, executeSLLI⟩
  | .shift .srl _ _ _ => ⟨insnMatchOpcodeFunct3Funct7Sr1 0x13 0x5 0x0, executeSRLI⟩
  | .shift .sra _ _ _ => ⟨insnMatchOpcodeFunct3Funct7Sr1 0x13 0x5 0x10, executeSRAI⟩
  | .shiftW .sll _ _ _ => ⟨insnMatchOpcodeFunct3Funct7 0x1b 0x1 0x0, executeSLLIW⟩
  | .shiftW .srl _ _ _ => ⟨insnMatchOpcodeFunct3Funct7 0x1b 0x5 0x0, executeSRLIW⟩
  | .shiftW .sra _ _ _ => ⟨insnMatchOpcodeFunct3Funct7 0x1b 0x5 0x20, executeSRAIW⟩
  | .register .add _ _ _ => ⟨insnMatchOpcodeFunct3Funct7 0x33 0x0 0x0, executeADD⟩
  | .register .sub _ _ _ => ⟨insnMatchOpcodeFunct3Funct7 0x33 0x0 0x20, executeSUB⟩
  | .register .sll _ _ _ => ⟨insnMatchOpcodeFunct3Funct7 0x33 0x1 0x0, executeSLL⟩
  | .register .slt _ _ _ => ⟨insnMatchOpcodeFunct3Funct7 0x33 0x2 0x0, executeSLT⟩
  | .register .sltu _ _ _ => ⟨insnMatchOpcodeFunct3Funct7 0x33 0x3 0x0, executeSLTU⟩
  | .register .xor _ _ _ => ⟨insnMatchOpcodeFunct3Funct7 0x33 0x4 0x0, executeXOR⟩
  | .register .srl _ _ _ => ⟨insnMatchOpcodeFunct3Funct7 0x33 0x5 0x0, executeSRL⟩
  | .register .sra _ _ _ => ⟨insnMatchOpcodeFunct3Funct7 0x33 0x5 0x20, executeSRA⟩
  | .register .or _ _ _ => ⟨insnMatchOpcodeFunct3Funct7 0x33 0x6 0x0, executeOR⟩
  | .register .and _ _ _ => ⟨insnMatchOpcodeFunct3Funct7 0x33 0x7 0x0, executeAND⟩
  | .registerW .addw _ _ _ => ⟨insnMatchOpcodeFunct3Funct7 0x3b 0x0 0x0, executeADDW⟩
  | .registerW .subw _ _ _ => ⟨insnMatchOpcodeFunct3Funct7 0x3b 0x0 0x20, executeSUBW⟩
  | .registerW .sllw _ _ _ => ⟨insnMatchOpcodeFunct3Funct7 0x3b 0x1 0x0, executeSLLW⟩
  | .registerW .srlw _ _ _ => ⟨insnMatchOpcodeFunct3Funct7 0x3b 0x5 0x0, executeSRLW⟩
  | .registerW .sraw _ _ _ => ⟨insnMatchOpcodeFunct3Funct7 0x3b 0x5 0x20, executeSRAW⟩
  | .fence _ _ _ => ⟨insnMatchOpcodeFunct3 0xf 0x0, executeFENCE⟩
  | .ecall => ⟨fun insn => insn = 0x73, executeECALL⟩
  | .ebreak => ⟨fun insn => insn = 0x100073, executeEBREAK⟩

/-- The same instruction with the operands that a word holds. -/
def withOperandsOf : Instruction → BitVec 32 → Instruction
  | .lui _ _, word => .lui (Rv64i.rd word) (Rv64i.immU word)
  | .auipc _ _, word => .auipc (Rv64i.rd word) (Rv64i.immU word)
  | .jal _ _, word => .jal (Rv64i.rd word) (Rv64i.immJ word)
  | .jalr _ _ _, word => .jalr (Rv64i.rd word) (Rv64i.rs1 word) (Rv64i.immI word)
  | .branch op _ _ _, word => .branch op (Rv64i.rs1 word) (Rv64i.rs2 word) (Rv64i.immB word)
  | .load op _ _ _, word => .load op (Rv64i.rd word) (Rv64i.rs1 word) (Rv64i.immI word)
  | .store op _ _ _, word => .store op (Rv64i.rs1 word) (Rv64i.rs2 word) (Rv64i.immS word)
  | .immediate op _ _ _, word => .immediate op (Rv64i.rd word) (Rv64i.rs1 word) (Rv64i.immI word)
  | .addiw _ _ _, word => .addiw (Rv64i.rd word) (Rv64i.rs1 word) (Rv64i.immI word)
  | .shift op _ _ _, word => .shift op (Rv64i.rd word) (Rv64i.rs1 word) (Rv64i.shamt6 word)
  | .shiftW op _ _ _, word => .shiftW op (Rv64i.rd word) (Rv64i.rs1 word) (Rv64i.rs2 word)
  | .register op _ _ _, word => .register op (Rv64i.rd word) (Rv64i.rs1 word) (Rv64i.rs2 word)
  | .registerW op _ _ _, word => .registerW op (Rv64i.rd word) (Rv64i.rs1 word) (Rv64i.rs2 word)
  | .fence _ _ _, word => .fence (Rv64i.immI word) (Rv64i.rd word) (Rv64i.rs1 word)
  | .ecall, _ => .ecall
  | .ebreak, _ => .ebreak

/-- The instructions, without their operands, in the order of the decoder. -/
def decoderOrder : List Instruction := [
  .immediate .addi 0 0 0, .load .ld 0 0 0, .branch .bltu 0 0 0, .branch .beq 0 0 0,
  .immediate .andi 0 0 0, .register .add 0 0 0, .jal 0 0, .shift .sll 0 0 0, .register .and 0 0 0,
  .store .sd 0 0 0, .lui 0 0, .jalr 0 0 0, .addiw 0 0 0, .shift .srl 0 0 0, .shiftW .srl 0 0 0,
  .branch .bne 0 0 0, .load .lw 0 0 0, .auipc 0 0, .branch .bgeu 0 0 0, .registerW .addw 0 0 0,
  .shift .sra 0 0 0, .register .or 0 0 0, .shiftW .sra 0 0 0, .branch .bge 0 0 0,
  .register .sub 0 0 0, .load .lbu 0 0 0, .shiftW .sll 0 0 0, .register .srl 0 0 0,
  .register .xor 0 0 0, .store .sw 0 0 0, .register .sll 0 0 0, .branch .blt 0 0 0,
  .store .sb 0 0 0, .registerW .subw 0 0 0, .immediate .xori 0 0 0, .register .sra 0 0 0,
  .load .lhu 0 0 0, .store .sh 0 0 0, .registerW .srlw 0 0 0, .load .lwu 0 0 0,
  .registerW .sllw 0 0 0, .load .lb 0 0 0, .register .sltu 0 0 0, .registerW .sraw 0 0 0,
  .load .lh 0 0 0, .immediate .ori 0 0 0, .immediate .sltiu 0 0 0, .register .slt 0 0 0,
  .immediate .slti 0 0 0, .fence 0 0 0, .ecall, .ebreak]

theorem decoder_eq : decoder = decoderOrder.map rowOf := rfl

variable {instruction : Instruction} {word : BitVec 32}

/-- A row's test passes exactly on the words that encode its instruction. -/
theorem rowOf_isMatch :
    (rowOf instruction).isMatch word = true ↔ (withOperandsOf instruction word).Encodes word := by
  cases instruction with
  | lui => exact (insnMatchOpcode_iff 0x37 word).trans (by simp [withOperandsOf, Instruction.Encodes])
  | auipc => exact (insnMatchOpcode_iff 0x17 word).trans (by simp [withOperandsOf, Instruction.Encodes])
  | jal => exact (insnMatchOpcode_iff 0x6f word).trans (by simp [withOperandsOf, Instruction.Encodes])
  | jalr => exact (insnMatchOpcodeFunct3_iff 0x67 0 word).trans (by simp [withOperandsOf, Instruction.Encodes])
  | branch op =>
      have test := insnMatchOpcodeFunct3_iff 0x63 op.funct3 word
      cases op <;> exact test.trans (by simp [withOperandsOf, Instruction.Encodes])
  | load op =>
      have test := insnMatchOpcodeFunct3_iff 0x3 op.funct3 word
      cases op <;> exact test.trans (by simp [withOperandsOf, Instruction.Encodes])
  | store op =>
      have test := insnMatchOpcodeFunct3_iff 0x23 op.funct3 word
      cases op <;> exact test.trans (by simp [withOperandsOf, Instruction.Encodes])
  | immediate op =>
      have test := insnMatchOpcodeFunct3_iff 0x13 op.funct3 word
      cases op <;> exact test.trans (by simp [withOperandsOf, Instruction.Encodes])
  | addiw => exact (insnMatchOpcodeFunct3_iff 0x1b 0 word).trans (by simp [withOperandsOf, Instruction.Encodes])
  | shift op =>
      have test := insnMatchOpcodeFunct3Funct7Sr1_iff 0x13 op.funct3 op.funct6 word
      cases op <;> exact test.trans (by simp [withOperandsOf, Instruction.Encodes])
  | shiftW op =>
      have test := insnMatchOpcodeFunct3Funct7_iff 0x1b op.funct3 op.funct7 word
      cases op <;> exact test.trans (by simp [withOperandsOf, Instruction.Encodes])
  | register op =>
      have test := insnMatchOpcodeFunct3Funct7_iff 0x33 op.funct3 op.funct7 word
      cases op <;> exact test.trans (by simp [withOperandsOf, Instruction.Encodes])
  | registerW op =>
      have test := insnMatchOpcodeFunct3Funct7_iff 0x3b op.funct3 op.funct7 word
      cases op <;> exact test.trans (by simp [withOperandsOf, Instruction.Encodes])
  | fence => exact (insnMatchOpcodeFunct3_iff 0xf 0 word).trans (by simp [withOperandsOf, Instruction.Encodes])
  | ecall => simp [rowOf, withOperandsOf, Instruction.Encodes]
  | ebreak => simp [rowOf, withOperandsOf, Instruction.Encodes]

theorem withOperandsOf_of_encodes (encodes : instruction.Encodes word) :
    withOperandsOf instruction word = instruction := by
  cases instruction <;> simp_all [withOperandsOf, Instruction.Encodes]

/-- The mask and the value of an instruction's fixed fields. -/
def fixedBits : Instruction → BitVec 32 × BitVec 32
  | .lui _ _ => (0x7f, 0x37)
  | .auipc _ _ => (0x7f, 0x17)
  | .jal _ _ => (0x7f, 0x6f)
  | .jalr _ _ _ => (0x707f, 0x67)
  | .branch op _ _ _ => (0x707f, op.funct3.setWidth 32 <<< 12 ||| 0x63)
  | .load op _ _ _ => (0x707f, op.funct3.setWidth 32 <<< 12 ||| 0x3)
  | .store op _ _ _ => (0x707f, op.funct3.setWidth 32 <<< 12 ||| 0x23)
  | .immediate op _ _ _ => (0x707f, op.funct3.setWidth 32 <<< 12 ||| 0x13)
  | .addiw _ _ _ => (0x707f, 0x1b)
  | .shift op _ _ _ =>
      (0xfc00707f, op.funct6.setWidth 32 <<< 26 ||| op.funct3.setWidth 32 <<< 12 ||| 0x13)
  | .shiftW op _ _ _ =>
      (0xfe00707f, op.funct7.setWidth 32 <<< 25 ||| op.funct3.setWidth 32 <<< 12 ||| 0x1b)
  | .register op _ _ _ =>
      (0xfe00707f, op.funct7.setWidth 32 <<< 25 ||| op.funct3.setWidth 32 <<< 12 ||| 0x33)
  | .registerW op _ _ _ =>
      (0xfe00707f, op.funct7.setWidth 32 <<< 25 ||| op.funct3.setWidth 32 <<< 12 ||| 0x3b)
  | .fence _ _ _ => (0x707f, 0xf)
  | .ecall => (0xffffffff, 0x73)
  | .ebreak => (0xffffffff, 0x100073)

theorem rowOf_fixedBits :
    (rowOf instruction).isMatch word = true ↔
      word &&& (fixedBits instruction).1 = (fixedBits instruction).2 := by
  cases instruction with
  | branch op => cases op <;> exact decide_eq_true_iff
  | load op => cases op <;> exact decide_eq_true_iff
  | store op => cases op <;> exact decide_eq_true_iff
  | immediate op => cases op <;> exact decide_eq_true_iff
  | shift op => cases op <;> exact decide_eq_true_iff
  | shiftW op => cases op <;> exact decide_eq_true_iff
  | register op => cases op <;> exact decide_eq_true_iff
  | registerW op => cases op <;> exact decide_eq_true_iff
  | ecall =>
      have all : word &&& 0xffffffff#32 = word := BitVec.and_allOnes
      simp [rowOf, fixedBits, all]
  | ebreak =>
      have all : word &&& 0xffffffff#32 = word := BitVec.and_allOnes
      simp [rowOf, fixedBits, all]
  | _ => exact decide_eq_true_iff

/-- Two instructions disagree on a bit that both fix. -/
def Apart (first second : Instruction) : Prop :=
  (fixedBits first).2 &&& (fixedBits second).1 ≠ (fixedBits second).2 &&& (fixedBits first).1

instance (first second : Instruction) : Decidable (Apart first second) :=
  inferInstanceAs (Decidable (_ ≠ _))

instance : Std.Symm Apart where
  symm := fun _ _ apart => Ne.symm apart

theorem decoderOrder_apart : decoderOrder.Pairwise Apart := by
  decide

theorem not_both_match {first second : Instruction} (apart : Apart first second) :
    ¬ ((rowOf first).isMatch word = true ∧ (rowOf second).isMatch word = true) := by
  rintro ⟨firstMatch, secondMatch⟩
  rw [rowOf_fixedBits] at firstMatch secondMatch
  apply apart
  rw [← firstMatch, ← secondMatch, BitVec.and_assoc, BitVec.and_assoc,
    BitVec.and_comm (fixedBits first).1]

/-- At most one test of the decoder matches a word. -/
theorem decoder_exclusive (word : BitVec 32) :
    decoder.Pairwise fun first second =>
      ¬ (first.isMatch word = true ∧ second.isMatch word = true) := by
  rw [decoder_eq, List.pairwise_map]
  exact decoderOrder_apart.imp not_both_match

/-- The instruction of the decoder's order with the same mnemonic. -/
theorem withOperandsOf_mem : withOperandsOf instruction 0 ∈ decoderOrder := by
  cases instruction with
  | branch op => cases op <;> exact List.elem_iff.mp rfl
  | load op => cases op <;> exact List.elem_iff.mp rfl
  | store op => cases op <;> exact List.elem_iff.mp rfl
  | immediate op => cases op <;> exact List.elem_iff.mp rfl
  | shift op => cases op <;> exact List.elem_iff.mp rfl
  | shiftW op => cases op <;> exact List.elem_iff.mp rfl
  | register op => cases op <;> exact List.elem_iff.mp rfl
  | registerW op => cases op <;> exact List.elem_iff.mp rfl
  | _ => exact List.elem_iff.mp rfl

theorem rowOf_withOperandsOf (other : BitVec 32) :
    rowOf (withOperandsOf instruction other) = rowOf instruction := by
  cases instruction with
  | branch op => cases op <;> rfl
  | load op => cases op <;> rfl
  | store op => cases op <;> rfl
  | immediate op => cases op <;> rfl
  | shift op => cases op <;> rfl
  | shiftW op => cases op <;> rfl
  | register op => cases op <;> rfl
  | registerW op => cases op <;> rfl
  | _ => rfl

theorem withOperandsOf_twice (other : BitVec 32) :
    withOperandsOf (withOperandsOf instruction other) word = withOperandsOf instruction word := by
  cases instruction <;> rfl

theorem rowOf_mem (instruction : Instruction) : rowOf instruction ∈ decoder := by
  rw [decoder_eq, ← rowOf_withOperandsOf 0]
  exact List.mem_map_of_mem withOperandsOf_mem

theorem isMatch_of_encodes (encodes : instruction.Encodes word) :
    (rowOf instruction).isMatch word = true := by
  rw [rowOf_isMatch, withOperandsOf_of_encodes encodes]
  exact encodes

/-- A word encodes at most one instruction. -/
theorem encodes_unique {other : Instruction} (first : instruction.Encodes word)
    (second : other.Encodes word) : instruction = other := by
  by_cases same : withOperandsOf instruction 0 = withOperandsOf other 0
  · rw [← withOperandsOf_of_encodes first, ← withOperandsOf_of_encodes second,
      ← withOperandsOf_twice 0, same, withOperandsOf_twice]
  · have apart := decoderOrder_apart.forall withOperandsOf_mem withOperandsOf_mem same
    have firstMatch := isMatch_of_encodes first
    have secondMatch := isMatch_of_encodes second
    rw [← rowOf_withOperandsOf 0] at firstMatch secondMatch
    exact absurd ⟨firstMatch, secondMatch⟩ (not_both_match apart)

/-- An entry whose test passes is the row of an instruction that the word encodes. -/
theorem exists_encodes {entry : DecoderEntry} (member : entry ∈ decoder)
    (matched : entry.isMatch word = true) :
    ∃ instruction, rowOf instruction = entry ∧ instruction.Encodes word := by
  rw [decoder_eq] at member
  obtain ⟨instruction, _, rfl⟩ := List.mem_map.mp member
  exact ⟨withOperandsOf instruction word, rowOf_withOperandsOf word, rowOf_isMatch.mp matched⟩

/-- The interpreter runs the row of the instruction that the word encodes. -/
theorem executeInsn_of_encodes (encodes : instruction.Encodes word) (pc : Word) :
    executeInsn word pc = (rowOf instruction).execute word pc := by
  unfold executeInsn
  cases found : decoder.find? (fun entry => entry.isMatch word) with
  | none =>
      have missed := List.find?_eq_none.mp found _ (rowOf_mem instruction)
      exact absurd (isMatch_of_encodes encodes) missed
  | some entry =>
      have matched := List.find?_some found
      obtain ⟨other, rfl, encodes'⟩ := exists_encodes (List.mem_of_find?_eq_some found) matched
      rw [encodes_unique encodes encodes']

/-- The interpreter throws on every other word. -/
theorem executeInsn_illegal (none : ∀ instruction : Instruction, ¬ instruction.Encodes word)
    (pc : Word) : executeInsn word pc = throwRuntimeError .illegalInstruction := by
  unfold executeInsn
  cases found : decoder.find? (fun entry => entry.isMatch word) with
  | none => rfl
  | some entry =>
      have matched := List.find?_some found
      obtain ⟨instruction, _, encodes⟩ := exists_encodes (List.mem_of_find?_eq_some found) matched
      exact absurd encodes (none instruction)

end Rows

end MachineEmulator.Uarch
