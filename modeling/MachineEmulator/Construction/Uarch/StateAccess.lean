/-
This file gives the interface through which the microarchitecture code reaches the machine state.
-/

import MachineEmulator.Construction.Failure
import MachineEmulator.Construction.Memory
import MachineEmulator.Library.Program

namespace MachineEmulator.Uarch

def shadowUarchStateStart : Word := 0x400000

def uarchRamStart : Word := 0x600000

def uarchRamLength : Nat := 0x200000

def uarchStateStartAddress : Word := 0x400000

def uarchStateLog2Size : Nat := 22

def uarchCycleMax : Word := 1 <<< 20

/-- This is `shadow_uarch_state_what`: the registers in the order of their shadow. -/
inductive ShadowUarchStateWhat where
  | haltFlag
  | cycle
  | pc
  | x (index : BitVec 8)
deriving DecidableEq, Repr

def ShadowUarchStateWhat.address : ShadowUarchStateWhat → Word
  | .haltFlag => shadowUarchStateStart
  | .cycle => shadowUarchStateStart + 8
  | .pc => shadowUarchStateStart + 16
  | .x index => shadowUarchStateStart + 24 + 8 * index.setWidth 64

/-- This is `i_uarch_state_access`. -/
inductive Op where
  | readReg (what : ShadowUarchStateWhat)
  | writeReg (what : ShadowUarchStateWhat) (value : Word)
  | readWord (paddr : Word)
  | writeWord (paddr value : Word)
  | putchar (character : BitVec 8)
  | writeTlb (setIndex slotIndex vaddrPage vpOffset pmaIndex : Word)
  | resetUarch
  | revertState

abbrev Op.Answer : Op → Type
  | .readReg _ => Word
  | .readWord _ => Word
  | _ => Unit

abbrev Action := Effects.Program Op Op.Answer Failure

def perform (op : Op) : Action op.Answer := Effects.Program.perform op

def readWord (paddr : Word) : Action Word := perform (.readWord paddr)

def writeWord (paddr value : Word) : Action Unit := perform (.writeWord paddr value)

def readCycle : Action Word := perform (.readReg .cycle)

def writeCycle (value : Word) : Action Unit := perform (.writeReg .cycle value)

def readHaltFlag : Action Word := perform (.readReg .haltFlag)

def writeHaltFlag (value : Word) : Action Unit := perform (.writeReg .haltFlag value)

def readPc : Action Word := perform (.readReg .pc)

def writePc (value : Word) : Action Unit := perform (.writeReg .pc value)

def readX (reg : BitVec 8) : Action Word := perform (.readReg (.x reg))

def writeX (reg : BitVec 8) (value : Word) : Action Unit := perform (.writeReg (.x reg) value)

def resetState : Action Unit := perform .resetUarch

def revertState : Action Unit := perform .revertState

def putCharECALL (character : BitVec 8) : Action Unit := perform (.putchar character)

def writeTlbECALL (setIndex slotIndex vaddrPage vpOffset pmaIndex : Word) : Action Unit :=
  perform (.writeTlb setIndex slotIndex vaddrPage vpOffset pmaIndex)

def throwRuntimeError {A : Type} (failure : Failure) : Action A := .throw failure

/-- A false condition aborts, as the source's assertion does. -/
def require (condition : Prop) [Decidable condition] : Action Unit :=
  if condition then pure () else .throw .assertionFailed

end MachineEmulator.Uarch
