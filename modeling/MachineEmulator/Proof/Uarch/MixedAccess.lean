/-
This file proves that loads and stores of all sizes, one after another, are those of a memory of
single bytes.
-/

import MachineEmulator.Proof.Uarch.Rv64iExecution

namespace MachineEmulator.Uarch

open Effects

/-- The accesses of the interpreter to data. -/
inductive DataAccess where
  | readUint8 (paddr : Word)
  | readUint16 (paddr : Word)
  | readUint32 (paddr : Word)
  | readUint64 (paddr : Word)
  | writeUint8 (paddr : Word) (value : BitVec 8)
  | writeUint16 (paddr : Word) (value : BitVec 16)
  | writeUint32 (paddr : Word) (value : BitVec 32)
  | writeUint64 (paddr : Word) (value : BitVec 64)

namespace DataAccess

def paddr : DataAccess → Word
  | .readUint8 paddr | .readUint16 paddr | .readUint32 paddr | .readUint64 paddr => paddr
  | .writeUint8 paddr _ | .writeUint16 paddr _ => paddr
  | .writeUint32 paddr _ | .writeUint64 paddr _ => paddr

/-- The number of bytes. -/
def size : DataAccess → Nat
  | .readUint8 _ | .writeUint8 _ _ => 1
  | .readUint16 _ | .writeUint16 _ _ => 2
  | .readUint32 _ | .writeUint32 _ _ => 4
  | .readUint64 _ | .writeUint64 _ _ => 8

/-- What a store stores. -/
def stored : DataAccess → Option Word
  | .writeUint8 _ value => some (value.setWidth 64)
  | .writeUint16 _ value => some (value.setWidth 64)
  | .writeUint32 _ value => some (value.setWidth 64)
  | .writeUint64 _ value => some value
  | _ => none

def NaturallyAligned (access : DataAccess) : Prop := access.paddr.toNat % access.size = 0

/-- The access as the interpreter makes it; a load gives its value. -/
def perform : DataAccess → Action (List Word)
  | .readUint8 paddr => do return [(← Uarch.readUint8 paddr).setWidth 64]
  | .readUint16 paddr => do return [(← Uarch.readUint16 paddr).setWidth 64]
  | .readUint32 paddr => do return [(← Uarch.readUint32 paddr).setWidth 64]
  | .readUint64 paddr => do return [← Uarch.readUint64 paddr]
  | .writeUint8 paddr value => do
      Uarch.writeUint8 paddr value
      return []
  | .writeUint16 paddr value => do
      Uarch.writeUint16 paddr value
      return []
  | .writeUint32 paddr value => do
      Uarch.writeUint32 paddr value
      return []
  | .writeUint64 paddr value => do
      Uarch.writeUint64 paddr value
      return []

/-- The access on a memory of single bytes: a load reads the bytes at its address, the lowest one
first, and a store replaces these bytes and no others. -/
def onBytes (access : DataAccess) (memory : Memory) : List Word × Memory :=
  match access.stored with
  | none => ([wordOfBytes (memory.load access.paddr access.size)], memory)
  | some value =>
      ([], fun address =>
        if access.paddr.toNat ≤ address.toNat ∧ address.toNat < access.paddr.toNat + access.size then
          value.extractLsb' (8 * (address.toNat - access.paddr.toNat)) 8
        else memory address)

/-- The machine may refuse a store to the word around the address. -/
def permitted (machine : PlainMachine) (access : DataAccess) : Except Failure Unit :=
  match access.stored with
  | none => .ok ()
  | some _ => Machine.checkWriteWord machine.ranges (BitVec.ofNat 64 (8 * (access.paddr.toNat / 8)))

end DataAccess

def performAll : List DataAccess → Action (List Word)
  | [] => return []
  | access :: rest => do
      let loaded ← access.perform
      let others ← performAll rest
      return loaded ++ others

/-- The accesses on a memory of single bytes, up to the first store that the machine refuses. -/
def allOnBytes (machine : PlainMachine) :
    List DataAccess → Memory → Except Failure (List Word × Memory)
  | [], memory => .ok ([], memory)
  | access :: rest, memory => do
      access.permitted machine
      let (loaded, stored) := access.onBytes memory
      let (others, final) ← allOnBytes machine rest stored
      return (loaded ++ others, final)

variable {machine : PlainMachine} {memory : Memory}

section Single

theorem setWidth_loaded (paddr : Word) (size : Nat) :
    ((wordOfBytes (memory.load paddr size)).setWidth (8 * size)).setWidth 64 =
      wordOfBytes (memory.load paddr size) := by
  have whole := setWidth_wordOfBytes (memory.load paddr size)
  rw [Memory.length_load] at whole
  exact whole

/-- Storing the low bytes of a value changes just the bytes at the address. -/
theorem store_take_eq (paddr value : Word) {size : Nat} (small : size ≤ 8)
    (inside : paddr.toNat % 8 + size ≤ 8) :
    memory.store paddr ((wordToBytes value).take size) = fun address =>
      if paddr.toNat ≤ address.toNat ∧ address.toNat < paddr.toNat + size then
        value.extractLsb' (8 * (address.toNat - paddr.toNat)) 8
      else memory address := by
  have bound := paddr.isLt
  have length : ((wordToBytes value).take size).length = size := by
    rw [List.length_take, length_wordToBytes]
    omega
  funext address
  rw [Memory.store_apply _ _ _ _ (by omega), length]
  by_cases covered : paddr.toNat ≤ address.toNat ∧ address.toNat < paddr.toNat + size
  · rw [if_pos covered, if_pos covered, List.getD_eq_getElem?_getD,
      List.getElem?_take_of_lt (by omega), ← List.getD_eq_getElem?_getD,
      getD_wordToBytes _ (by omega)]
  · rw [if_neg covered, if_neg covered]

/-- A store that has passed its own check depends on the machine alone. -/
theorem run_store {access : DataAccess} (op : Rv64i.StoreOp) (value : Word)
    (stores : access.stored = some value) (sized : access.size = op.size)
    (aligned : access.NaturallyAligned) {action : Action Unit}
    (performs : access.perform = do
      action
      return [])
    (ran : action.run (plainAccess machine) memory =
      (Rv64i.storeValue machine op access.paddr value memory).map fun after => ((), after)) :
    access.perform.run (plainAccess machine) memory = do
      access.permitted machine
      return access.onBytes memory := by
  have small : op.size = 1 ∨ op.size = 2 ∨ op.size = 4 ∨ op.size = 8 := by
    cases op <;> simp [Rv64i.StoreOp.size]
  have whole : access.paddr.toNat % op.size = 0 := sized ▸ aligned
  have inside : access.paddr.toNat % 8 + op.size ≤ 8 := by
    rcases small with size | size | size | size <;> rw [size] at whole ⊢ <;> omega
  rw [performs, Program.run_bind, ran, storeValue_of_aligned _ _ _ whole,
    store_take_eq _ _ (by omega) inside]
  simp only [DataAccess.permitted, DataAccess.onBytes, stores, sized]
  cases Machine.checkWriteWord machine.ranges (BitVec.ofNat 64 (8 * (access.paddr.toNat / 8))) with
  | error failure => rfl
  | ok passed => rfl

/-- Every aligned access is the one on single bytes, if the machine permits it. -/
theorem run_access (access : DataAccess) (aligned : access.NaturallyAligned) :
    access.perform.run (plainAccess machine) memory = do
      access.permitted machine
      return access.onBytes memory := by
  cases access with
  | readUint8 paddr =>
      have whole : paddr.toNat % 1 = 0 := aligned
      rw [DataAccess.perform, Program.run_bind, run_readUint8, if_pos whole]
      exact congrArg (fun value => Except.ok ([value], memory)) (setWidth_loaded paddr 1)
  | readUint16 paddr =>
      have whole : paddr.toNat % 2 = 0 := aligned
      rw [DataAccess.perform, Program.run_bind, run_readUint16, if_pos whole]
      exact congrArg (fun value => Except.ok ([value], memory)) (setWidth_loaded paddr 2)
  | readUint32 paddr =>
      have whole : paddr.toNat % 4 = 0 := aligned
      rw [DataAccess.perform, Program.run_bind, run_readUint32, if_pos whole]
      exact congrArg (fun value => Except.ok ([value], memory)) (setWidth_loaded paddr 4)
  | readUint64 paddr =>
      have whole : paddr.toNat % 8 = 0 := aligned
      rw [DataAccess.perform, Program.run_bind, run_readUint64, if_pos whole]
      rfl
  | writeUint8 paddr value =>
      have ran := @run_writeUint8 machine memory paddr (value.setWidth 64)
      rw [BitVec.setWidth_setWidth_of_le value (by omega), BitVec.setWidth_eq] at ran
      exact run_store .sb (value.setWidth 64) rfl rfl aligned rfl ran
  | writeUint16 paddr value =>
      have ran := @run_writeUint16 machine memory paddr (value.setWidth 64)
      rw [BitVec.setWidth_setWidth_of_le value (by omega), BitVec.setWidth_eq] at ran
      exact run_store .sh (value.setWidth 64) rfl rfl aligned rfl ran
  | writeUint32 paddr value =>
      have ran := @run_writeUint32 machine memory paddr (value.setWidth 64)
      rw [BitVec.setWidth_setWidth_of_le value (by omega), BitVec.setWidth_eq] at ran
      exact run_store .sw (value.setWidth 64) rfl rfl aligned rfl ran
  | writeUint64 paddr value =>
      have ran := @run_writeUint64 machine memory paddr value
      rw [BitVec.setWidth_eq] at ran
      exact run_store .sd value rfl rfl aligned rfl ran

end Single

/-- Aligned accesses of all sizes, one after another, do what they do on a memory of single bytes, and
each load gives what the bytes are at that moment. -/
theorem mixedAccesses (machine : PlainMachine) (accesses : List DataAccess)
    (aligned : ∀ access ∈ accesses, access.NaturallyAligned) (memory : Memory) :
    (performAll accesses).run (plainAccess machine) memory =
      allOnBytes machine accesses memory := by
  induction accesses generalizing memory with
  | nil => rfl
  | cons access rest ih =>
      obtain ⟨first, others⟩ := List.forall_mem_cons.mp aligned
      rw [performAll, allOnBytes, Program.run_bind, run_access access first]
      cases access.permitted machine with
      | error failure => rfl
      | ok passed =>
          have later := ih others (access.onBytes memory).2
          change (performAll rest >>= fun others =>
            (return (access.onBytes memory).1 ++ others : Action (List Word))).run
              (plainAccess machine) (access.onBytes memory).2 = _
          rw [Program.run_bind, later]
          change _ = (allOnBytes machine rest (access.onBytes memory).2 >>= _)
          cases allOnBytes machine rest (access.onBytes memory).2 with
          | error failure => rfl
          | ok answered => rfl

/-- A machine that lets its RAM be written. -/
def ramMachine : PlainMachine where
  ranges := [⟨0x80000000, 0x80001000, true, .memory, true, false⟩]
  flush := fun _ _ => .ok ()
  pristineRam := []

/-- A byte and a half word go into a word, which is loaded whole and in parts. -/
theorem mixedAccesses_ram :
    ((performAll [.writeUint32 0x80000004 0x11223344, .writeUint8 0x80000005 0xab,
        .writeUint16 0x80000006 0xcdef, .readUint64 0x80000000, .readUint16 0x80000004]).run
      (plainAccess ramMachine) zeroMemory).toOption.map Prod.fst =
      some [0xcdefab4400000000, 0xab44] := by
  rw [mixedAccesses ramMachine _
    (by simp [DataAccess.NaturallyAligned, DataAccess.paddr, DataAccess.size])]
  decide

end MachineEmulator.Uarch
