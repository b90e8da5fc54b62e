/-
This file runs the families of the interpreter's instructions on the machine.
-/

import MachineEmulator.Proof.Uarch.Rv64iDecoding
import MachineEmulator.Proof.Uarch.SubWordAccess

namespace MachineEmulator.Uarch

open Effects
open Rv64i (getX setX setPc)

variable {machine : PlainMachine} {memory : Memory}

/-- The first register of the machine holds zero. -/
def ZeroX0 (memory : Memory) : Prop := memory.loadWord (ShadowUarchStateWhat.x 0).address = 0

section Registers

theorem setWidth_eq_zero (reg : BitVec 5) : reg.setWidth 8 = 0 ↔ reg = 0 := by
  rw [← BitVec.toNat_inj, ← BitVec.toNat_inj, BitVec.toNat_setWidth]
  have bound := reg.isLt
  simp only [BitVec.ofNat_eq_ofNat, BitVec.toNat_ofNat]
  omega

theorem run_readX (zero : ZeroX0 memory) (reg : BitVec 5) :
    (readX (reg.setWidth 8)).run (plainAccess machine) memory = .ok (getX memory reg, memory) := by
  rw [readX, perform, Program.run_perform, getX]
  by_cases first : reg = 0
  · subst first
    exact congrArg (fun value => Except.ok (value, memory)) zero
  · rw [if_neg first]
    rfl

/-- An action that writes the destination register writes it if there is one. -/
theorem run_whenRd {reg : BitVec 5} {value : Word} {action : Action Unit}
    (writes : action.run (plainAccess machine) memory =
      (writeX (reg.setWidth 8) value).run (plainAccess machine) memory) :
    (whenRd (reg.setWidth 8) action).run (plainAccess machine) memory =
      .ok ((), setX memory reg value) := by
  unfold whenRd
  by_cases first : reg = 0
  · rw [if_neg (by rw [not_not, setWidth_eq_zero]; exact first), setX, if_pos first]
    rfl
  · have present : reg.setWidth 8 ≠ 0 := fun none => first ((setWidth_eq_zero reg).mp none)
    have other : ShadowUarchStateWhat.x (reg.setWidth 8) ≠ .x 0 := by
      intro same
      exact present (ShadowUarchStateWhat.x.inj same)
    rw [if_pos present, writes, writeX, perform, Program.run_perform, setX, if_neg first]
    exact bind_ok.mpr ⟨(), check_pos other, rfl⟩

theorem run_writeRd (reg : BitVec 5) (value : Word) :
    (whenRd (reg.setWidth 8) (writeX (reg.setWidth 8) value)).run (plainAccess machine) memory =
      .ok ((), setX memory reg value) :=
  run_whenRd rfl

theorem run_writePc (pc : Word) :
    (writePc pc).run (plainAccess machine) memory = .ok ((), setPc memory pc) := by
  rw [writePc, perform, Program.run_perform]
  exact bind_ok.mpr ⟨(), check_pos (by simp), rfl⟩

theorem run_advancePc (pc : Word) :
    (advancePc pc).run (plainAccess machine) memory = .ok ((), setPc memory (pc + 4)) :=
  run_writePc (pc + 4)

end Registers

section Immediates

theorem signExtend_twice {width : Nat} (value : BitVec width) (narrow : width ≤ 32) :
    (value.signExtend 32).signExtend 64 = value.signExtend 64 := by
  apply BitVec.eq_of_getLsbD_eq
  intro position inside
  simp only [BitVec.getLsbD_signExtend, BitVec.msb_signExtend]
  grind

variable (value : Word) (insn : BitVec 32)

theorem addImm12 : uint64AddInt32 value (operandImm12 insn) =
    value + (Rv64i.immI insn).signExtend 64 := by
  rw [uint64AddInt32, operandImm12_eq, signExtend_twice _ (by omega)]

theorem addSimm12 : uint64AddInt32 value (operandSimm12 insn) =
    value + (Rv64i.immS insn).signExtend 64 := by
  rw [uint64AddInt32, operandSimm12_eq, signExtend_twice _ (by omega)]

theorem addSbimm12 : uint64AddInt32 value (operandSbimm12 insn) =
    value + (Rv64i.immB insn).signExtend 64 := by
  rw [uint64AddInt32, operandSbimm12_eq, signExtend_twice _ (by omega)]

theorem addJimm20 : uint64AddInt32 value (operandJimm20 insn) =
    value + (Rv64i.immJ insn).signExtend 64 := by
  rw [uint64AddInt32, operandJimm20_eq, signExtend_twice _ (by omega)]

theorem addImm20 : uint64AddInt32 value (operandImm20 insn) =
    value + (Rv64i.immU insn ++ 0#12).signExtend 64 := by
  rw [uint64AddInt32, operandImm20_eq]

theorem wideImm12 : int32ToUint64 (operandImm12 insn) = (Rv64i.immI insn).signExtend 64 := by
  rw [int32ToUint64, operandImm12_eq, signExtend_twice _ (by omega)]

end Immediates

section Families

variable (zero : ZeroX0 memory) (insn : BitVec 32) (pc : Word)

include zero

theorem run_executeBranch (taken : Word → Word → Bool) :
    (executeBranch taken insn pc).run (plainAccess machine) memory =
      .ok ((), setPc memory
        (if taken (getX memory (Rv64i.rs1 insn)) (getX memory (Rv64i.rs2 insn)) then
          pc + (Rv64i.immB insn).signExtend 64 else pc + 4)) := by
  simp only [executeBranch, operandRs1_eq, operandRs2_eq, Program.run_bind, run_readX zero,
    addSbimm12, branch]
  split
  · exact run_writePc _
  · exact run_advancePc _

theorem run_executeImmediate (result : Word → Word) :
    (executeImmediate result insn pc).run (plainAccess machine) memory =
      .ok ((), setPc (setX memory (Rv64i.rd insn) (result (getX memory (Rv64i.rs1 insn))))
        (pc + 4)) := by
  have writes : (whenRd ((Rv64i.rd insn).setWidth 8) do
      let rs1val ← readX ((Rv64i.rs1 insn).setWidth 8)
      writeX ((Rv64i.rd insn).setWidth 8) (result rs1val)).run (plainAccess machine) memory =
      .ok ((), setX memory (Rv64i.rd insn) (result (getX memory (Rv64i.rs1 insn)))) := by
    apply run_whenRd
    simp only [Program.run_bind, run_readX zero]
  simp only [executeImmediate, operandRd_eq, operandRs1_eq, Program.run_bind, writes,
    run_advancePc]

theorem run_executeImmediateW (result : Word → Word) :
    (executeImmediateW result insn pc).run (plainAccess machine) memory =
      .ok ((), setPc (setX memory (Rv64i.rd insn) (result (getX memory (Rv64i.rs1 insn))))
        (pc + 4)) := by
  simp only [executeImmediateW, operandRd_eq, operandRs1_eq, Program.run_bind, run_readX zero,
    run_writeRd, run_advancePc]

theorem run_executeRegister (result : Word → Word → Word) :
    (executeRegister result insn pc).run (plainAccess machine) memory =
      .ok ((), setPc (setX memory (Rv64i.rd insn)
        (result (getX memory (Rv64i.rs1 insn)) (getX memory (Rv64i.rs2 insn)))) (pc + 4)) := by
  have writes : (whenRd ((Rv64i.rd insn).setWidth 8) do
      let rs1val ← readX ((Rv64i.rs1 insn).setWidth 8)
      let rs2val ← readX ((Rv64i.rs2 insn).setWidth 8)
      writeX ((Rv64i.rd insn).setWidth 8) (result rs1val rs2val)).run (plainAccess machine) memory =
      .ok ((), setX memory (Rv64i.rd insn)
        (result (getX memory (Rv64i.rs1 insn)) (getX memory (Rv64i.rs2 insn)))) := by
    apply run_whenRd
    simp only [Program.run_bind, run_readX zero]
  simp only [executeRegister, operandRd_eq, operandRs1_eq, operandRs2_eq, Program.run_bind, writes,
    run_advancePc]

theorem run_executeRegisterW (result : Word → Word → Word) :
    (executeRegisterW result insn pc).run (plainAccess machine) memory =
      .ok ((), setPc (setX memory (Rv64i.rd insn)
        (result (getX memory (Rv64i.rs1 insn)) (getX memory (Rv64i.rs2 insn)))) (pc + 4)) := by
  simp only [executeRegisterW, operandRd_eq, operandRs1_eq, operandRs2_eq, Program.run_bind,
    run_readX zero, run_writeRd, run_advancePc]

/-- A load extends the bytes at its address, which must be aligned. -/
theorem run_executeLoad {width : Nat} {read : Word → Action (BitVec width)}
    {extend : BitVec width → Word} (op : Rv64i.LoadOp) (raw : Word → BitVec width)
    (reads : ∀ paddr, (read paddr).run (plainAccess machine) memory =
      if paddr.toNat % op.size = 0 then .ok (raw paddr, memory) else .error .assertionFailed)
    (extends' : ∀ paddr,
      extend (raw paddr) = op.extend (wordOfBytes (memory.load paddr op.size))) :
    (executeLoad read extend insn pc).run (plainAccess machine) memory =
      ((Rv64i.Instruction.load op (Rv64i.rd insn) (Rv64i.rs1 insn) (Rv64i.immI insn)).execute
        machine pc memory).map fun after => ((), after) := by
  simp only [executeLoad, operandRd_eq, operandRs1_eq, Program.run_bind, run_readX zero, addImm12,
    Rv64i.Instruction.execute, Rv64i.loadValue, reads, check]
  by_cases aligned : (getX memory (Rv64i.rs1 insn) +
      (Rv64i.immI insn).signExtend 64).toNat % op.size = 0
  · simp only [aligned, if_true, run_writeRd, run_advancePc, extends']
    rfl
  · simp only [aligned, if_false]
    rfl

/-- A store writes the bytes at its address, if the address is aligned and the machine lets it. -/
theorem run_executeStore {width : Nat} {write : Word → BitVec width → Action Unit}
    (op : Rv64i.StoreOp)
    (writes : ∀ paddr value, (write paddr (value.setWidth width)).run (plainAccess machine) memory =
      (Rv64i.storeValue machine op paddr value memory).map fun after => ((), after)) :
    (executeStore write insn pc).run (plainAccess machine) memory =
      ((Rv64i.Instruction.store op (Rv64i.rs1 insn) (Rv64i.rs2 insn) (Rv64i.immS insn)).execute
        machine pc memory).map fun after => ((), after) := by
  simp only [executeStore, operandRs1_eq, operandRs2_eq, Program.run_bind, run_readX zero,
    addSimm12, Rv64i.Instruction.execute, writes]
  cases Rv64i.storeValue machine op
      (getX memory (Rv64i.rs1 insn) + (Rv64i.immS insn).signExtend 64)
      (getX memory (Rv64i.rs2 insn)) memory with
  | error failure => rfl
  | ok after =>
      simp only [Except.map, run_advancePc]
      rfl

end Families

section MemoryAccess

variable (paddr : Word)

theorem run_require (condition : Prop) [Decidable condition] :
    (require condition).run (plainAccess machine) memory =
      if condition then .ok ((), memory) else .error .assertionFailed := by
  unfold require
  split <;> rfl

theorem alignedAddress_aligned : alignedAddress paddr &&& 7 = 0 := by
  have bound := paddr.isLt
  rw [alignedAddress_eq]
  apply (aligned_iff _ 3 (by omega)).mpr
  rw [BitVec.toNat_ofNat]
  omega

theorem run_readUint64 :
    (readUint64 paddr).run (plainAccess machine) memory =
      if paddr.toNat % 8 = 0 then .ok (memory.loadWord paddr, memory)
      else .error .assertionFailed := by
  have aligned : paddr &&& 7 = 0 ↔ paddr.toNat % 8 = 0 := aligned_iff paddr 3 (by omega)
  simp only [readUint64, Program.run_bind, run_require, readWord, perform, Program.run_perform,
    plainAccess, Machine.readWord, check, aligned]
  by_cases whole : paddr.toNat % 8 = 0
  · simp only [whole, if_true]
    rfl
  · simp only [whole, if_false]

theorem run_readUint64_aligned :
    (readUint64 (alignedAddress paddr)).run (plainAccess machine) memory =
      .ok (memory.loadWord (alignedAddress paddr), memory) := by
  rw [run_readUint64, if_pos]
  exact (aligned_iff _ 3 (by omega)).mp (alignedAddress_aligned paddr)

theorem run_readUint32 :
    (readUint32 paddr).run (plainAccess machine) memory =
      if paddr.toNat % 4 = 0 then .ok ((wordOfBytes (memory.load paddr 4)).setWidth 32, memory)
      else .error .assertionFailed := by
  have aligned : paddr &&& 3 = 0 ↔ paddr.toNat % 4 = 0 := aligned_iff paddr 2 (by omega)
  simp only [readUint32, Program.run_bind, run_require, run_readUint64_aligned, aligned]
  by_cases whole : paddr.toNat % 4 = 0
  · have part := setWidth_shifted_word memory paddr 4 (by omega)
    rw [if_pos whole, if_pos whole, ← part]
    rfl
  · simp only [whole, if_false]

theorem run_readUint16 :
    (readUint16 paddr).run (plainAccess machine) memory =
      if paddr.toNat % 2 = 0 then .ok ((wordOfBytes (memory.load paddr 2)).setWidth 16, memory)
      else .error .assertionFailed := by
  have aligned : paddr &&& 1 = 0 ↔ paddr.toNat % 2 = 0 := aligned_iff paddr 1 (by omega)
  simp only [readUint16, Program.run_bind, run_require, run_readUint64_aligned, aligned]
  by_cases whole : paddr.toNat % 2 = 0
  · have part := setWidth_shifted_word memory paddr 2 (by omega)
    rw [if_pos whole, if_pos whole, ← part]
    rfl
  · simp only [whole, if_false]

theorem run_readUint8 :
    (readUint8 paddr).run (plainAccess machine) memory =
      if paddr.toNat % 1 = 0 then .ok ((wordOfBytes (memory.load paddr 1)).setWidth 8, memory)
      else .error .assertionFailed := by
  have part := setWidth_shifted_word memory paddr 1 (by omega)
  simp only [readUint8, Program.run_bind, run_readUint64_aligned, Nat.mod_one]
  rw [if_pos trivial, ← part]
  rfl

theorem run_writeUint64_aligned (value : Word) :
    (writeUint64 (alignedAddress paddr) value).run (plainAccess machine) memory =
      (Machine.writeWord machine.ranges (alignedAddress paddr) value memory).map
        fun after => ((), after) := by
  simp only [writeUint64, Program.run_bind, run_require, alignedAddress_aligned, if_true,
    writeWord, perform, Program.run_perform, plainAccess]
  cases Machine.writeWord machine.ranges (alignedAddress paddr) value memory with
  | error failure => rfl
  | ok after => rfl

theorem run_copyBits {source count : BitVec 32} {size : Nat} (old : Word)
    (inside : paddr.toNat % 8 + size ≤ 8) (counts : count.toNat = 8 * size)
    (mask : uint64ShiftLeft 1 count - 1 = (BitVec.allOnes (8 * size)).setWidth 64) :
    (copyBits source count old (bitOffset paddr)).run (plainAccess machine) memory =
      .ok (replacedWord old (source.setWidth 64) size (bitOffset paddr), memory) := by
  have fits : bitOffset paddr + count ≤ 64 := by
    have sum : (bitOffset paddr + count).toNat = 8 * (paddr.toNat % 8) + 8 * size := by
      rw [BitVec.toNat_add, toNat_bitOffset, counts]
      omega
    rw [BitVec.le_def, sum]
    have limit : (64 : BitVec 32).toNat = 64 := rfl
    omega
  simp only [copyBits, Program.run_bind, run_require, fits, if_true, mask]
  rfl

/-- The read, the change and the write of a whole word write the bytes of a part of it. -/
theorem run_writePart (size : Nat) {source count : BitVec 32} {value : Word}
    (inside : paddr.toNat % 8 + size ≤ 8) (counts : count.toNat = 8 * size)
    (mask : uint64ShiftLeft 1 count - 1 = (BitVec.allOnes (8 * size)).setWidth 64)
    (narrowed : source.setWidth 64 = (value.setWidth (8 * size)).setWidth 64) :
    (do
      let old ← readUint64 (alignedAddress paddr)
      let new ← copyBits source count old (bitOffset paddr)
      writeUint64 (alignedAddress paddr) new : Action Unit).run (plainAccess machine) memory =
    (do
      Machine.checkWriteWord machine.ranges (BitVec.ofNat 64 (8 * (paddr.toNat / 8)))
      return memory.store paddr ((wordToBytes value).take size)).map fun after => ((), after) := by
  simp only [Program.run_bind, run_readUint64_aligned,
    run_copyBits paddr (memory.loadWord (alignedAddress paddr)) inside counts mask,
    run_writeUint64_aligned, Machine.writeWord]
  rw [narrowed, storeWord_replacedWord memory paddr inside (toNat_setWidth_lt value size),
    take_wordToBytes value (by omega), alignedAddress_eq]

theorem setWidth_twice {width : Nat} (value : BitVec width) (narrow : width ≤ 32) :
    (value.setWidth 32).setWidth 64 = value.setWidth 64 := by
  apply BitVec.eq_of_getLsbD_eq
  intro position inside
  simp only [BitVec.getLsbD_setWidth]
  grind

/-- The checks of a store and its bytes. -/
theorem storeValue_of_aligned (op : Rv64i.StoreOp) (value : Word)
    (aligned : paddr.toNat % op.size = 0) :
    Rv64i.storeValue machine op paddr value memory = do
      Machine.checkWriteWord machine.ranges (BitVec.ofNat 64 (8 * (paddr.toNat / 8)))
      return memory.store paddr ((wordToBytes value).take op.size) := by
  unfold Rv64i.storeValue
  rw [check_pos aligned]
  rfl

theorem storeValue_of_misaligned (op : Rv64i.StoreOp) (value : Word)
    (misaligned : ¬ paddr.toNat % op.size = 0) :
    Rv64i.storeValue machine op paddr value memory = .error .assertionFailed := by
  unfold Rv64i.storeValue check
  rw [if_neg misaligned]
  rfl

theorem run_writeUint32 (value : Word) :
    (writeUint32 paddr (value.setWidth 32)).run (plainAccess machine) memory =
      (Rv64i.storeValue machine .sw paddr value memory).map fun after => ((), after) := by
  have aligned : paddr &&& 3 = 0 ↔ paddr.toNat % 4 = 0 := aligned_iff paddr 2 (by omega)
  rw [writeUint32, Program.run_bind, run_require]
  by_cases whole : paddr.toNat % 4 = 0
  · rw [if_pos (aligned.mpr whole), storeValue_of_aligned paddr .sw value whole]
    exact run_writePart paddr 4 (by omega) rfl rfl rfl
  · rw [if_neg (mt aligned.mp whole), storeValue_of_misaligned paddr .sw value whole]
    rfl

theorem run_writeUint16 (value : Word) :
    (writeUint16 paddr (value.setWidth 16)).run (plainAccess machine) memory =
      (Rv64i.storeValue machine .sh paddr value memory).map fun after => ((), after) := by
  have aligned : paddr &&& 1 = 0 ↔ paddr.toNat % 2 = 0 := aligned_iff paddr 1 (by omega)
  rw [writeUint16, Program.run_bind, run_require]
  by_cases whole : paddr.toNat % 2 = 0
  · rw [if_pos (aligned.mpr whole), storeValue_of_aligned paddr .sh value whole]
    exact run_writePart paddr 2 (by omega) rfl rfl (setWidth_twice _ (by omega))
  · rw [if_neg (mt aligned.mp whole), storeValue_of_misaligned paddr .sh value whole]
    rfl

theorem run_writeUint8 (value : Word) :
    (writeUint8 paddr (value.setWidth 8)).run (plainAccess machine) memory =
      (Rv64i.storeValue machine .sb paddr value memory).map fun after => ((), after) := by
  rw [storeValue_of_aligned paddr .sb value (Nat.mod_one _)]
  exact run_writePart paddr 1 (by omega) rfl rfl (setWidth_twice _ (by omega))

theorem alignedAddress_of_aligned (whole : paddr.toNat % 8 = 0) : alignedAddress paddr = paddr := by
  have bound := paddr.isLt
  rw [alignedAddress_eq, ← BitVec.toNat_inj, BitVec.toNat_ofNat]
  omega

theorem run_writeUint64 (value : Word) :
    (writeUint64 paddr (value.setWidth 64)).run (plainAccess machine) memory =
      (Rv64i.storeValue machine .sd paddr value memory).map fun after => ((), after) := by
  have aligned : paddr &&& 7 = 0 ↔ paddr.toNat % 8 = 0 := aligned_iff paddr 3 (by omega)
  rw [BitVec.setWidth_eq]
  by_cases whole : paddr.toNat % 8 = 0
  · have written := @run_writeUint64_aligned machine memory paddr value
    have all : (wordToBytes value).take Rv64i.StoreOp.sd.size = wordToBytes value :=
      List.take_of_length_le (le_of_eq (length_wordToBytes value))
    rw [storeValue_of_aligned paddr .sd value whole, ← alignedAddress_eq, all]
    rw [alignedAddress_of_aligned paddr whole] at written ⊢
    exact written
  · rw [writeUint64, Program.run_bind, run_require, if_neg (mt aligned.mp whole),
      storeValue_of_misaligned paddr .sd value whole]
    rfl

end MemoryAccess

end MachineEmulator.Uarch
