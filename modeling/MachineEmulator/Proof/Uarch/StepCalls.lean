/-
This file says which operations the microarchitecture step can make.
-/

import MachineEmulator.Proof.Uarch.ReplayHandler

namespace MachineEmulator.Uarch

open Effects

section Access

variable {A : Type}

theorem calls_require {condition : Prop} [Decidable condition] {permitted : Op → Prop}
    {next : Unit → Action A} (rest : condition → (next ()).Calls permitted) :
    (require condition >>= next).Calls permitted := by
  unfold require
  split
  · next holds => exact rest holds
  · trivial

theorem calls_whenRd {rd : BitVec 8} {permitted : Op → Prop} {action : Action Unit}
    (calls : action.Calls permitted) : (whenRd rd action).Calls permitted := by
  unfold whenRd
  split
  · exact calls
  · trivial

theorem calls_readX (reg : BitVec 8) : (readX reg).Calls Op.IsWordAccess := .perform trivial

theorem calls_writeX (reg : BitVec 8) (value : Word) : (writeX reg value).Calls Op.IsWordAccess :=
  .perform trivial

theorem calls_advancePc (pc : Word) : (advancePc pc).Calls Op.IsWordAccess := .perform trivial

theorem calls_branch (pc : Word) : (branch pc).Calls Op.IsWordAccess := .perform trivial

theorem calls_readUint64 (paddr : Word) : (readUint64 paddr).Calls Op.IsWordAccess :=
  calls_require fun aligned => .perform aligned

theorem calls_readUint32 (paddr : Word) : (readUint32 paddr).Calls Op.IsWordAccess :=
  calls_require fun _ => (calls_readUint64 _).bind fun _ => trivial

theorem calls_readUint16 (paddr : Word) : (readUint16 paddr).Calls Op.IsWordAccess :=
  calls_require fun _ => (calls_readUint64 _).bind fun _ => trivial

theorem calls_readUint8 (paddr : Word) : (readUint8 paddr).Calls Op.IsWordAccess :=
  (calls_readUint64 _).bind fun _ => trivial

theorem calls_writeUint64 (paddr value : Word) :
    (writeUint64 paddr value).Calls Op.IsWordAccess :=
  calls_require fun aligned => .perform aligned

theorem calls_copyBits (source count : BitVec 32) (target : Word) (offset : BitVec 32) :
    (copyBits source count target offset).Calls Op.IsWordAccess :=
  calls_require fun _ => trivial

/-- The narrow writes read a word, replace some of its bits and write it back. -/
theorem calls_replace (paddr : Word) (source count : BitVec 32) :
    (do
      let old ← readUint64 (alignedAddress paddr)
      let new ← copyBits source count old (bitOffset paddr)
      writeUint64 (alignedAddress paddr) new : Action Unit).Calls Op.IsWordAccess := by
  refine (calls_readUint64 _).bind fun old => ?_
  exact (calls_copyBits _ _ _ _).bind fun new => calls_writeUint64 _ _

theorem calls_writeUint32 (paddr : Word) (value : BitVec 32) :
    (writeUint32 paddr value).Calls Op.IsWordAccess :=
  calls_require fun _ => calls_replace paddr value 32

theorem calls_writeUint16 (paddr : Word) (value : BitVec 16) :
    (writeUint16 paddr value).Calls Op.IsWordAccess :=
  calls_require fun _ => calls_replace paddr _ 16

theorem calls_writeUint8 (paddr : Word) (value : BitVec 8) :
    (writeUint8 paddr value).Calls Op.IsWordAccess :=
  calls_replace paddr _ 8

end Access

section Families

variable (insn : BitVec 32) (pc : Word)

/-- Many instructions end with a write of their destination and the next program counter. -/
theorem calls_finish (rd : BitVec 8) {action : Action Unit} (calls : action.Calls Op.IsWordAccess) :
    (do whenRd rd action; advancePc pc : Action Unit).Calls Op.IsWordAccess :=
  (calls_whenRd calls).bind fun _ => calls_advancePc pc

theorem calls_executeBranch (taken : Word → Word → Bool) :
    (executeBranch taken insn pc).Calls Op.IsWordAccess := by
  refine (calls_readX _).bind fun rs1val => (calls_readX _).bind fun rs2val => ?_
  split
  · exact calls_branch _
  · exact calls_advancePc pc

theorem calls_executeLoad {width : Nat} {read : Word → Action (BitVec width)}
    (extend : BitVec width → Word) (reads : ∀ paddr, (read paddr).Calls Op.IsWordAccess) :
    (executeLoad read extend insn pc).Calls Op.IsWordAccess := by
  refine (calls_readX _).bind fun rs1val => (reads _).bind fun value => ?_
  exact calls_finish pc _ (calls_writeX _ _)

theorem calls_executeStore {width : Nat} {write : Word → BitVec width → Action Unit}
    (writes : ∀ paddr value, (write paddr value).Calls Op.IsWordAccess) :
    (executeStore write insn pc).Calls Op.IsWordAccess := by
  refine (calls_readX _).bind fun rs1val => (calls_readX _).bind fun rs2val => ?_
  exact (writes _ _).bind fun _ => calls_advancePc pc

theorem calls_executeImmediate (result : Word → Word) :
    (executeImmediate result insn pc).Calls Op.IsWordAccess :=
  calls_finish pc _ ((calls_readX _).bind fun _ => calls_writeX _ _)

theorem calls_executeImmediateW (result : Word → Word) :
    (executeImmediateW result insn pc).Calls Op.IsWordAccess :=
  (calls_readX _).bind fun _ => calls_finish pc _ (calls_writeX _ _)

theorem calls_executeRegister (result : Word → Word → Word) :
    (executeRegister result insn pc).Calls Op.IsWordAccess :=
  calls_finish pc _ ((calls_readX _).bind fun _ => (calls_readX _).bind fun _ => calls_writeX _ _)

theorem calls_executeRegisterW (result : Word → Word → Word) :
    (executeRegisterW result insn pc).Calls Op.IsWordAccess :=
  (calls_readX _).bind fun _ => (calls_readX _).bind fun _ => calls_finish pc _ (calls_writeX _ _)

theorem calls_executeLUI : (executeLUI insn pc).Calls Op.IsWordAccess :=
  calls_finish pc _ (calls_writeX _ _)

theorem calls_executeAUIPC : (executeAUIPC insn pc).Calls Op.IsWordAccess :=
  calls_finish pc _ (calls_writeX _ _)

theorem calls_executeJAL : (executeJAL insn pc).Calls Op.IsWordAccess :=
  (calls_whenRd (calls_writeX _ _)).bind fun _ => calls_branch _

theorem calls_executeJALR : (executeJALR insn pc).Calls Op.IsWordAccess :=
  (calls_readX _).bind fun _ => (calls_whenRd (calls_writeX _ _)).bind fun _ => calls_branch _

end Families

section Step

/-- Only the environment call makes an operation that is not on one word. -/
theorem decoder_calls : ∀ entry ∈ decoder,
    (∀ insn pc, (entry.execute insn pc).Calls Op.IsWordAccess) ∨ entry.execute = executeECALL := by
  simp only [decoder, List.forall_mem_cons]
  exact ⟨
    Or.inl fun insn pc => calls_executeImmediate insn pc _,
    Or.inl fun insn pc => calls_executeLoad insn pc _ calls_readUint64,
    Or.inl fun insn pc => calls_executeBranch insn pc _,
    Or.inl fun insn pc => calls_executeBranch insn pc _,
    Or.inl fun insn pc => calls_executeImmediate insn pc _,
    Or.inl fun insn pc => calls_executeRegister insn pc _,
    Or.inl calls_executeJAL,
    Or.inl fun insn pc => calls_executeImmediate insn pc _,
    Or.inl fun insn pc => calls_executeRegister insn pc _,
    Or.inl fun insn pc => calls_executeStore insn pc calls_writeUint64,
    Or.inl calls_executeLUI,
    Or.inl calls_executeJALR,
    Or.inl fun insn pc => calls_executeImmediateW insn pc _,
    Or.inl fun insn pc => calls_executeImmediate insn pc _,
    Or.inl fun insn pc => calls_executeImmediateW insn pc _,
    Or.inl fun insn pc => calls_executeBranch insn pc _,
    Or.inl fun insn pc => calls_executeLoad insn pc _ calls_readUint32,
    Or.inl calls_executeAUIPC,
    Or.inl fun insn pc => calls_executeBranch insn pc _,
    Or.inl fun insn pc => calls_executeRegisterW insn pc _,
    Or.inl fun insn pc => calls_executeImmediate insn pc _,
    Or.inl fun insn pc => calls_executeRegister insn pc _,
    Or.inl fun insn pc => calls_executeImmediateW insn pc _,
    Or.inl fun insn pc => calls_executeBranch insn pc _,
    Or.inl fun insn pc => calls_executeRegister insn pc _,
    Or.inl fun insn pc => calls_executeLoad insn pc _ calls_readUint8,
    Or.inl fun insn pc => calls_executeImmediateW insn pc _,
    Or.inl fun insn pc => calls_executeRegister insn pc _,
    Or.inl fun insn pc => calls_executeRegister insn pc _,
    Or.inl fun insn pc => calls_executeStore insn pc calls_writeUint32,
    Or.inl fun insn pc => calls_executeRegister insn pc _,
    Or.inl fun insn pc => calls_executeBranch insn pc _,
    Or.inl fun insn pc => calls_executeStore insn pc calls_writeUint8,
    Or.inl fun insn pc => calls_executeRegisterW insn pc _,
    Or.inl fun insn pc => calls_executeImmediate insn pc _,
    Or.inl fun insn pc => calls_executeRegister insn pc _,
    Or.inl fun insn pc => calls_executeLoad insn pc _ calls_readUint16,
    Or.inl fun insn pc => calls_executeStore insn pc calls_writeUint16,
    Or.inl fun insn pc => calls_executeRegisterW insn pc _,
    Or.inl fun insn pc => calls_executeLoad insn pc _ calls_readUint32,
    Or.inl fun insn pc => calls_executeRegisterW insn pc _,
    Or.inl fun insn pc => calls_executeLoad insn pc _ calls_readUint8,
    Or.inl fun insn pc => calls_executeRegister insn pc _,
    Or.inl fun insn pc => calls_executeRegisterW insn pc _,
    Or.inl fun insn pc => calls_executeLoad insn pc _ calls_readUint16,
    Or.inl fun insn pc => calls_executeImmediate insn pc _,
    Or.inl fun insn pc => calls_executeImmediate insn pc _,
    Or.inl fun insn pc => calls_executeRegister insn pc _,
    Or.inl fun insn pc => calls_executeImmediate insn pc _,
    Or.inl fun _ pc => calls_advancePc pc,
    Or.inr trivial,
    Or.inl fun _ _ => trivial,
    by simp⟩

theorem executeECALL_calls (insn : BitVec 32) (pc : Word) :
    (executeECALL insn pc).CallsOnce Op.IsWordAccess ∧
      (executeECALL insn pc).Calls Op.IsStateAccess := by
  have reads : ∀ reg, (readX reg).Calls Op.IsStateAccess := fun _ => .perform trivial
  have advances : (advancePc pc).Calls Op.IsStateAccess := .perform trivial
  constructor
  · refine (calls_readX _).bindOnce fun fn => ?_
    split
    · exact Program.Calls.once (.perform trivial)
    split
    · refine Program.Calls.once ((calls_readX _).bind fun _ => ?_)
      exact Program.Calls.bind (.perform trivial) fun _ => calls_advancePc pc
    split
    · refine (calls_readX _).bindOnce fun _ => (calls_readX _).bindOnce fun _ => ?_
      refine (calls_readX _).bindOnce fun _ => (calls_readX _).bindOnce fun _ => ?_
      refine (calls_readX _).bindOnce fun _ => ?_
      exact Program.CallsOnce.bind (.perform _) fun _ => calls_advancePc pc
    · trivial
  · refine (reads _).bind fun fn => ?_
    split
    · exact .perform trivial
    split
    · exact (reads _).bind fun _ => Program.Calls.bind (.perform trivial) fun _ => advances
    split
    · refine (reads _).bind fun _ => (reads _).bind fun _ => (reads _).bind fun _ => ?_
      refine (reads _).bind fun _ => (reads _).bind fun _ => ?_
      exact Program.Calls.bind (.perform trivial) fun _ => advances
    · trivial

theorem executeInsn_calls (insn : BitVec 32) (pc : Word) :
    (executeInsn insn pc).CallsOnce Op.IsWordAccess ∧
      (executeInsn insn pc).Calls Op.IsStateAccess := by
  unfold executeInsn
  split
  · next entry found =>
      rcases decoder_calls entry (List.mem_of_find?_eq_some found) with words | ecall
      · exact ⟨(words insn pc).once,
          (words insn pc).mono fun op word => word.isStateAccess⟩
      · rw [ecall]
        exact executeECALL_calls insn pc
  · exact ⟨trivial, trivial⟩

theorem uarchStep_callsOnce : uarchStep.CallsOnce Op.IsWordAccess := by
  refine Program.Calls.bindOnce (.perform trivial) fun cycle => ?_
  split
  · trivial
  refine Program.Calls.bindOnce (.perform trivial) fun halted => ?_
  split
  · trivial
  refine Program.Calls.bindOnce (.perform trivial) fun pc => ?_
  refine (calls_readUint32 pc).bindOnce fun insn => ?_
  refine (executeInsn_calls insn pc).1.bind fun _ => ?_
  exact Program.Calls.bind (.perform trivial) fun _ => trivial

theorem uarchStep_calls : uarchStep.Calls Op.IsStateAccess := by
  refine Program.Calls.bind (.perform trivial) fun cycle => ?_
  split
  · trivial
  refine Program.Calls.bind (.perform trivial) fun halted => ?_
  split
  · trivial
  refine Program.Calls.bind (.perform trivial) fun pc => ?_
  refine ((calls_readUint32 pc).mono fun op word => word.isStateAccess).bind fun insn => ?_
  refine (executeInsn_calls insn pc).2.bind fun _ => ?_
  exact Program.Calls.bind (.perform trivial) fun _ => trivial

end Step

end MachineEmulator.Uarch
