/-
This file proves that the interpreter refines the instruction set.
-/

import MachineEmulator.Proof.Uarch.Rv64iExecution

namespace MachineEmulator.Uarch

open Effects
open Rv64i (Instruction getX setX setPc)

variable {machine : PlainMachine} {memory : Memory}

section Results

variable (left right : Word)

theorem ite_slt (yes no : Word) :
    (if left.slt right then yes else no) = if left.toInt < right.toInt then yes else no := by
  simp only [BitVec.slt, decide_eq_true_eq]

theorem ite_ult (yes no : Word) :
    (if left.ult right then yes else no) = if left.toNat < right.toNat then yes else no := by
  simp only [BitVec.ult, decide_eq_true_eq]

theorem not_slt : (!left.slt right) = decide (right.toInt ≤ left.toInt) := by
  rw [BitVec.slt, ← decide_not, decide_eq_decide, Int.not_lt]

theorem not_ult : (!left.ult right) = decide (right.toNat ≤ left.toNat) := by
  rw [BitVec.ult, ← decide_not, decide_eq_decide, Nat.not_lt]

/-- A register's shift count is the rest of its division by the width of what is shifted. -/
theorem count_of_register : (right.setWidth 32 &&& 0x3f).toNat = right.toNat % 64 := by
  have masked := toNat_and_low (right.setWidth 32) 6 (by omega)
  rw [BitVec.toNat_setWidth] at masked
  have narrow : right.toNat % 2 ^ 32 % 2 ^ 6 = right.toNat % 64 := by omega
  exact masked.trans narrow

theorem countW_of_register :
    (right.setWidth 32 &&& 0x1f).toNat = (right.setWidth 32).toNat % 32 :=
  toNat_and_low (right.setWidth 32) 5 (by omega)

theorem count_of_shamt6 (shamt : BitVec 6) : (shamt.setWidth 32 &&& 0x3f).toNat = shamt.toNat := by
  have masked := toNat_and_low (shamt.setWidth 32) 6 (by omega)
  rw [BitVec.toNat_setWidth] at masked
  have narrow : shamt.toNat % 2 ^ 32 % 2 ^ 6 = shamt.toNat := by omega
  exact masked.trans narrow

theorem count_of_shamt5 (shamt : BitVec 5) : (shamt.setWidth 32 &&& 0x1f).toNat = shamt.toNat := by
  have masked := toNat_and_low (shamt.setWidth 32) 5 (by omega)
  rw [BitVec.toNat_setWidth] at masked
  have narrow : shamt.toNat % 2 ^ 32 % 2 ^ 5 = shamt.toNat := by omega
  exact masked.trans narrow

/-- An unsigned load is as wide as the bytes that it reads. -/
theorem setWidth_load (size : Nat) (address : Word) :
    ((wordOfBytes (memory.load address size)).setWidth (8 * size)).setWidth 64 =
      wordOfBytes (memory.load address size) := by
  have whole := setWidth_wordOfBytes (memory.load address size)
  rw [Memory.length_load] at whole
  exact whole

end Results

/-- The instruction with the operands of the word is what its row of the decoder runs. -/
def Refines (machine : PlainMachine) (memory : Memory) (insn : BitVec 32) (pc : Word)
    (instruction : Instruction) : Prop :=
  ((rowOf instruction).execute insn pc).run (plainAccess machine) memory =
    ((withOperandsOf instruction insn).execute machine pc memory).map fun after => ((), after)

section Rows

variable (zero : ZeroX0 memory) (insn : BitVec 32) (pc : Word)

include zero

theorem refines_branch (op : Rv64i.BranchOp) (rs1 rs2 : BitVec 5) (offset : BitVec 13) :
    Refines machine memory insn pc (.branch op rs1 rs2 offset) := by
  cases op with
  | beq => exact run_executeBranch zero insn pc _
  | bne => exact run_executeBranch zero insn pc _
  | blt => exact run_executeBranch zero insn pc _
  | bge =>
      apply (run_executeBranch zero insn pc _).trans
      simp only [not_slt]
      rfl
  | bltu => exact run_executeBranch zero insn pc _
  | bgeu =>
      apply (run_executeBranch zero insn pc _).trans
      simp only [not_ult]
      rfl

theorem refines_immediate (op : Rv64i.ImmediateOp) (rd rs1 : BitVec 5) (imm : BitVec 12) :
    Refines machine memory insn pc (.immediate op rd rs1 imm) := by
  cases op with
  | slti =>
      apply (run_executeImmediate zero insn pc _).trans
      simp only [wideImm12, ite_slt]
      rfl
  | sltiu =>
      apply (run_executeImmediate zero insn pc _).trans
      simp only [wideImm12, ite_ult]
      rfl
  | _ =>
      apply (run_executeImmediate zero insn pc _).trans
      simp only [wideImm12]
      rfl

theorem refines_shift (op : Rv64i.ShiftOp) (rd rs1 : BitVec 5) (shamt : BitVec 6) :
    Refines machine memory insn pc (.shift op rd rs1 shamt) := by
  cases op with
  | _ =>
      apply (run_executeImmediate zero insn pc _).trans
      simp only [uint64ShiftLeft, uint64ShiftRight, int64ShiftRight, operandShamt6_eq,
        count_of_shamt6]
      rfl

theorem refines_shiftW (op : Rv64i.ShiftOp) (rd rs1 shamt : BitVec 5) :
    Refines machine memory insn pc (.shiftW op rd rs1 shamt) := by
  cases op with
  | _ =>
      apply (run_executeImmediateW zero insn pc _).trans
      simp only [uint32ShiftLeft, uint32ShiftRight, int32ShiftRight, operandShamt5_eq,
        count_of_shamt5]
      rfl

theorem refines_register (op : Rv64i.RegisterOp) (rd rs1 rs2 : BitVec 5) :
    Refines machine memory insn pc (.register op rd rs1 rs2) := by
  cases op with
  | slt =>
      apply (run_executeRegister zero insn pc _).trans
      simp only [ite_slt]
      rfl
  | sltu =>
      apply (run_executeRegister zero insn pc _).trans
      simp only [ite_ult]
      rfl
  | sll =>
      apply (run_executeRegister zero insn pc _).trans
      simp only [uint64ShiftLeft, count_of_register]
      rfl
  | srl =>
      apply (run_executeRegister zero insn pc _).trans
      simp only [uint64ShiftRight, count_of_register]
      rfl
  | sra =>
      apply (run_executeRegister zero insn pc _).trans
      simp only [int64ShiftRight, count_of_register]
      rfl
  | _ => exact run_executeRegister zero insn pc _

theorem refines_registerW (op : Rv64i.RegisterWOp) (rd rs1 rs2 : BitVec 5) :
    Refines machine memory insn pc (.registerW op rd rs1 rs2) := by
  cases op with
  | addw => exact run_executeRegisterW zero insn pc _
  | subw => exact run_executeRegisterW zero insn pc _
  | _ =>
      apply (run_executeRegisterW zero insn pc _).trans
      simp only [uint32ShiftLeft, uint32ShiftRight, int32ShiftRight, countW_of_register]
      rfl

theorem refines_addiw (rd rs1 : BitVec 5) (imm : BitVec 12) :
    Refines machine memory insn pc (.addiw rd rs1 imm) := by
  apply (run_executeImmediateW zero insn pc _).trans
  simp only [operandImm12_eq]
  rfl

theorem refines_load (op : Rv64i.LoadOp) (rd rs1 : BitVec 5) (imm : BitVec 12) :
    Refines machine memory insn pc (.load op rd rs1 imm) := by
  cases op with
  | lb => exact run_executeLoad zero insn pc .lb _ run_readUint8 fun _ => rfl
  | lh => exact run_executeLoad zero insn pc .lh _ run_readUint16 fun _ => rfl
  | lw => exact run_executeLoad zero insn pc .lw _ run_readUint32 fun _ => rfl
  | ld => exact run_executeLoad zero insn pc .ld _ run_readUint64 fun _ => rfl
  | lbu => exact run_executeLoad zero insn pc .lbu _ run_readUint8 (setWidth_load 1)
  | lhu => exact run_executeLoad zero insn pc .lhu _ run_readUint16 (setWidth_load 2)
  | lwu => exact run_executeLoad zero insn pc .lwu _ run_readUint32 (setWidth_load 4)

theorem refines_store (op : Rv64i.StoreOp) (rs1 rs2 : BitVec 5) (imm : BitVec 12) :
    Refines machine memory insn pc (.store op rs1 rs2 imm) := by
  cases op with
  | sb => exact run_executeStore zero insn pc .sb run_writeUint8
  | sh => exact run_executeStore zero insn pc .sh run_writeUint16
  | sw => exact run_executeStore zero insn pc .sw run_writeUint32
  | sd => exact run_executeStore zero insn pc .sd run_writeUint64

theorem refines_jalr (rd rs1 : BitVec 5) (imm : BitVec 12) :
    Refines machine memory insn pc (.jalr rd rs1 imm) := by
  show (executeJALR insn pc).run (plainAccess machine) memory = _
  simp only [executeJALR, operandRd_eq, operandRs1_eq, Program.run_bind, run_readX zero,
    run_writeRd, addImm12, branch, run_writePc]
  rfl

/-- The arguments of a call are general registers. -/
theorem run_readArgument (reg : BitVec 8) (argument : BitVec 5) (same : reg = argument.setWidth 8) :
    (readX reg).run (plainAccess machine) memory = .ok (getX memory argument, memory) := by
  rw [same]
  exact run_readX zero argument

theorem refines_ecall : Refines machine memory insn pc .ecall := by
  show (executeECALL insn pc).run (plainAccess machine) memory =
    (Rv64i.ecallResult machine pc memory).map fun after => ((), after)
  have argument := @run_readArgument machine memory zero
  simp only [executeECALL, Program.run_bind, argument 17 17 rfl, Rv64i.ecallResult]
  by_cases halts : getX memory 17 = uarchEcallFnHalt
  · have other : ShadowUarchStateWhat.haltFlag ≠ .x 0 := by simp
    rw [if_pos halts, if_pos (show getX memory 17 = 1 from halts), writeHaltFlag, perform,
      Program.run_perform]
    exact bind_ok.mpr ⟨(), check_pos other, rfl⟩
  rw [if_neg halts, if_neg (show ¬ getX memory 17 = 1 from halts)]
  by_cases prints : getX memory 17 = uarchEcallFnPutchar
  · rw [if_pos prints, if_pos (show getX memory 17 = 2 from prints)]
    simp only [Program.run_bind, argument 10 10 rfl, putCharECALL, perform, Program.run_perform]
    exact run_advancePc pc
  rw [if_neg prints, if_neg (show ¬ getX memory 17 = 2 from prints)]
  by_cases writes : getX memory 17 = uarchEcallFnWriteTlb
  · rw [if_pos writes, if_pos (show getX memory 17 = 4 from writes)]
    simp only [Program.run_bind, argument 10 10 rfl, argument 11 11 rfl, argument 12 12 rfl,
      argument 13 13 rfl, argument 14 14 rfl, writeTlbECALL, perform, Program.run_perform,
      plainAccess]
    cases writeUnverifiedTlb machine (getX memory 10) (getX memory 11) (getX memory 12)
        (getX memory 13) (getX memory 14) memory with
    | error failure => rfl
    | ok written => exact run_advancePc pc
  rw [if_neg writes, if_neg (show ¬ getX memory 17 = 4 from writes)]
  rfl

omit zero

theorem refines_lui (rd : BitVec 5) (imm : BitVec 20) :
    Refines machine memory insn pc (.lui rd imm) := by
  show (executeLUI insn pc).run (plainAccess machine) memory = _
  simp only [executeLUI, operandRd_eq, operandImm20_eq, Program.run_bind, run_writeRd,
    run_advancePc]
  rfl

theorem refines_auipc (rd : BitVec 5) (imm : BitVec 20) :
    Refines machine memory insn pc (.auipc rd imm) := by
  show (executeAUIPC insn pc).run (plainAccess machine) memory = _
  simp only [executeAUIPC, operandRd_eq, addImm20, Program.run_bind, run_writeRd, run_advancePc]
  rfl

theorem refines_jal (rd : BitVec 5) (offset : BitVec 21) :
    Refines machine memory insn pc (.jal rd offset) := by
  show (executeJAL insn pc).run (plainAccess machine) memory = _
  simp only [executeJAL, operandRd_eq, addJimm20, Program.run_bind, run_writeRd, branch,
    run_writePc]
  rfl

end Rows

/-- The interpreter does what the instruction that the word encodes does. -/
theorem run_executeInsn {instruction : Instruction} {insn : BitVec 32} (pc : Word)
    (zero : ZeroX0 memory) (encodes : instruction.Encodes insn) :
    (executeInsn insn pc).run (plainAccess machine) memory =
      (instruction.execute machine pc memory).map fun after => ((), after) := by
  have refines : Refines machine memory insn pc instruction := by
    cases instruction with
    | lui rd imm => exact refines_lui insn pc rd imm
    | auipc rd imm => exact refines_auipc insn pc rd imm
    | jal rd offset => exact refines_jal insn pc rd offset
    | jalr rd rs1 imm => exact refines_jalr zero insn pc rd rs1 imm
    | branch op rs1 rs2 offset => exact refines_branch zero insn pc op rs1 rs2 offset
    | load op rd rs1 imm => exact refines_load zero insn pc op rd rs1 imm
    | store op rs1 rs2 imm => exact refines_store zero insn pc op rs1 rs2 imm
    | immediate op rd rs1 imm => exact refines_immediate zero insn pc op rd rs1 imm
    | addiw rd rs1 imm => exact refines_addiw zero insn pc rd rs1 imm
    | shift op rd rs1 shamt => exact refines_shift zero insn pc op rd rs1 shamt
    | shiftW op rd rs1 shamt => exact refines_shiftW zero insn pc op rd rs1 shamt
    | register op rd rs1 rs2 => exact refines_register zero insn pc op rd rs1 rs2
    | registerW op rd rs1 rs2 => exact refines_registerW zero insn pc op rd rs1 rs2
    | fence ordering rd rs1 => exact run_advancePc pc
    | ecall => exact refines_ecall zero insn pc
    | ebreak => rfl
  rw [executeInsn_of_encodes encodes, refines, withOperandsOf_of_encodes encodes]

section ZeroRegister

/-- A write that does not meet the first register keeps it. -/
theorem ZeroX0.store (zero : ZeroX0 memory) {start : Word} {data : List Byte}
    (fits : start.toNat + data.length ≤ 2 ^ 64)
    (apart : start.toNat + data.length ≤ 0x400018 ∨ 0x400020 ≤ start.toNat) :
    ZeroX0 (memory.store start data) := by
  have place : (ShadowUarchStateWhat.x 0).address.toNat = 0x400018 := rfl
  unfold ZeroX0 Memory.loadWord
  rw [Memory.load_store_of_disjoint _ _ _ _ _ fits (by omega) (by omega)]
  exact zero

theorem ZeroX0.setPc (zero : ZeroX0 memory) (pc : Word) : ZeroX0 (setPc memory pc) := by
  have place : ShadowUarchStateWhat.pc.address.toNat = 0x400010 := rfl
  apply zero.store <;> rw [length_wordToBytes] <;> omega

theorem toNat_x_address (reg : BitVec 5) :
    (ShadowUarchStateWhat.x (reg.setWidth 8)).address.toNat = 0x400018 + 8 * reg.toNat := by
  have bound := reg.isLt
  simp only [ShadowUarchStateWhat.address, shadowUarchStateStart, BitVec.ofNat_eq_ofNat,
    BitVec.toNat_add, BitVec.toNat_mul, BitVec.toNat_setWidth, BitVec.toNat_ofNat]
  omega

theorem ZeroX0.setX (zero : ZeroX0 memory) (reg : BitVec 5) (value : Word) :
    ZeroX0 (setX memory reg value) := by
  unfold Rv64i.setX
  split
  · exact zero
  · rename_i other
    have positive : 0 < reg.toNat := by
      apply Nat.pos_of_ne_zero
      intro none
      exact other (BitVec.toNat_inj.mp none)
    have bound := reg.isLt
    have place := toNat_x_address reg
    apply zero.store <;> rw [length_wordToBytes] <;> omega

/-- No write may go to the word of the first register. -/
theorem checkWriteWord_ne {ranges : List Machine.AddressRange} {paddr : Word} {done : Unit}
    (allowed : Machine.checkWriteWord ranges paddr = .ok done) : paddr ≠ Machine.uarchX0 := by
  have refused : Machine.checkWriteWord ranges Machine.uarchX0 = .error .registerReadOnly := rfl
  intro same
  rw [same, refused] at allowed
  cases allowed

theorem ZeroX0.storeValue (zero : ZeroX0 memory) {op : Rv64i.StoreOp} {address value : Word}
    {after : Memory} (stored : Rv64i.storeValue machine op address value memory = .ok after) :
    ZeroX0 after := by
  obtain ⟨_, aligned, rest⟩ := bind_ok.mp stored
  obtain ⟨_, allowed, done⟩ := bind_ok.mp rest
  cases done
  have whole := check_ok.mp aligned
  have other := checkWriteWord_ne allowed
  have bound := address.isLt
  have elsewhere : 8 * (address.toNat / 8) ≠ 0x400018 := by
    intro same
    apply other
    rw [same]
    rfl
  apply zero.store <;> rw [List.length_take, length_wordToBytes] <;> cases op <;>
    simp only [Rv64i.StoreOp.size] at whole ⊢ <;> omega

theorem ZeroX0.writeUnverifiedTlb (zero : ZeroX0 memory)
    {setIndex slotIndex vaddrPage vpOffset pmaIndex : Word} {after : Memory}
    (written : writeUnverifiedTlb machine setIndex slotIndex vaddrPage vpOffset pmaIndex memory =
      .ok after) : ZeroX0 after := by
  obtain ⟨_, slot, rest⟩ := bind_ok.mp written
  obtain ⟨_, set, rest⟩ := bind_ok.mp rest
  have stored : memory.store (shadowTlbGetAbsAddr setIndex slotIndex)
      (shadowTlbSlot vaddrPage vpOffset pmaIndex) = after := by
    split at rest
    · obtain ⟨_, _, done⟩ := bind_ok.mp rest
      exact Except.ok.inj done
    · exact Except.ok.inj rest
  rw [← stored]
  have slotBound : slotIndex.toNat < 256 := BitVec.lt_def.mp (check_ok.mp slot)
  have setBound : setIndex.toNat < 3 := BitVec.lt_def.mp (check_ok.mp set)
  have place : (shadowTlbGetAbsAddr setIndex slotIndex).toNat =
      0x1000 + setIndex.toNat * 8192 + slotIndex.toNat * 32 := by
    simp only [shadowTlbGetAbsAddr, shadowTlbStart, BitVec.ofNat_eq_ofNat, BitVec.toNat_add,
      BitVec.toNat_mul, BitVec.toNat_ofNat]
    omega
  have size : (shadowTlbSlot vaddrPage vpOffset pmaIndex).length = 32 := rfl
  apply zero.store <;> omega

theorem ZeroX0.ecallResult (zero : ZeroX0 memory) {pc : Word} {after : Memory}
    (ran : Rv64i.ecallResult machine pc memory = .ok after) : ZeroX0 after := by
  unfold Rv64i.ecallResult at ran
  split at ran
  · cases ran
    have place : ShadowUarchStateWhat.haltFlag.address.toNat = 0x400000 := rfl
    apply zero.store <;> rw [length_wordToBytes] <;> omega
  split at ran
  · cases ran
    exact zero.setPc _
  split at ran
  · obtain ⟨written, wrote, done⟩ := bind_ok.mp ran
    cases done
    exact (zero.writeUnverifiedTlb wrote).setPc _
  · cases ran

/-- No instruction changes the first register. -/
theorem ZeroX0.execute (zero : ZeroX0 memory) {instruction : Instruction} {pc : Word}
    {after : Memory} (ran : instruction.execute machine pc memory = .ok after) : ZeroX0 after := by
  cases instruction with
  | branch op rs1 rs2 offset => cases ran; exact zero.setPc _
  | fence ordering rd rs1 => cases ran; exact zero.setPc _
  | load op rd rs1 imm =>
      obtain ⟨value, _, done⟩ := bind_ok.mp ran
      cases done
      exact (zero.setX _ _).setPc _
  | store op rs1 rs2 imm =>
      obtain ⟨written, stored, done⟩ := bind_ok.mp ran
      cases done
      exact (zero.storeValue stored).setPc _
  | ecall => exact zero.ecallResult ran
  | ebreak => cases ran
  | _ => cases ran; exact (zero.setX _ _).setPc _

end ZeroRegister

/-- The interpreter refines the instruction set: it runs the only instruction that a word encodes,
throws on a word that encodes none, never has a choice between two tests, and keeps the first
register at zero. -/
theorem executeInsn_refines_rv64i (machine : PlainMachine) (memory : Memory) (insn : BitVec 32)
    (pc : Word) (zero : ZeroX0 memory) :
    (∀ instruction : Instruction, instruction.Encodes insn →
      (executeInsn insn pc).run (plainAccess machine) memory =
        (instruction.execute machine pc memory).map fun after => ((), after)) ∧
    ((∀ instruction : Instruction, ¬ instruction.Encodes insn) →
      (executeInsn insn pc).run (plainAccess machine) memory = .error .illegalInstruction) ∧
    (∀ first second : Instruction, first.Encodes insn → second.Encodes insn → first = second) ∧
    (decoder.Pairwise fun first second =>
      ¬ (first.isMatch insn = true ∧ second.isMatch insn = true)) ∧
    (∀ after, (executeInsn insn pc).run (plainAccess machine) memory = .ok ((), after) →
      ZeroX0 after) := by
  have refines := fun (instruction : Instruction) (encodes : instruction.Encodes insn) =>
    @run_executeInsn machine memory instruction insn pc zero encodes
  have illegal : (∀ instruction : Instruction, ¬ instruction.Encodes insn) →
      (executeInsn insn pc).run (plainAccess machine) memory = .error .illegalInstruction := by
    intro none
    rw [executeInsn_illegal none]
    rfl
  have kept : ∀ after,
      (executeInsn insn pc).run (plainAccess machine) memory = .ok ((), after) → ZeroX0 after := by
    intro after ran
    by_cases legal : ∃ instruction : Instruction, instruction.Encodes insn
    · obtain ⟨instruction, encodes⟩ := legal
      rw [refines instruction encodes] at ran
      cases executed : instruction.execute machine pc memory with
      | error failure =>
          rw [executed] at ran
          cases ran
      | ok reached =>
          rw [executed] at ran
          cases ran
          exact zero.execute executed
    · rw [illegal (not_exists.mp legal)] at ran
      cases ran
  exact ⟨refines, illegal, fun _ _ => encodes_unique, decoder_exclusive insn, kept⟩

/-- The word of `addi x1, x0, 5` adds five to the zero of the first register. -/
theorem executeInsn_refines_rv64i_addi :
    (executeInsn 0x00500093 uarchRamStart).run (plainAccess ⟨[], fun _ _ => .ok (), []⟩)
        zeroMemory =
      .ok ((), setPc (setX zeroMemory 1 5) 0x600004) :=
  (executeInsn_refines_rv64i ⟨[], fun _ _ => .ok (), []⟩ zeroMemory 0x00500093 uarchRamStart rfl).1
    (.immediate .addi 1 0 5) ⟨rfl, rfl, rfl, rfl, rfl⟩

end MachineEmulator.Uarch
