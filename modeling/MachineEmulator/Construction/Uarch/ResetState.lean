/-
This file gives the microarchitecture reset and the pristine state that it installs.
-/

import MachineEmulator.Construction.Uarch.SolidityCompat
import MachineEmulator.Construction.Hasher

namespace MachineEmulator.Uarch

def iflagsYAddress : Word := 0x300

def htifTohostAddress : Word := 0x328

def htifFromhostAddress : Word := 0x330

def revertRootHashStart : Word := 0xfe0

/-- A rejected input puts the state that the revert root hash records in place of the reset one. -/
def uarchResetState : Action Unit := do
  resetState
  let iflagsY ← readWord iflagsYAddress
  if iflagsY ≠ 0 then do
    let tohost ← readWord htifTohostAddress
    if isYieldedManualWith tohost htifYieldManualReasonRxRejected then revertState
    else pure ()
  else pure ()

/-- The registers of a pristine shadow: only the program counter is not zero. -/
def pristineShadow : List Byte :=
  wordToBytes 0 ++ wordToBytes 0 ++ wordToBytes uarchRamStart

/-- The shadow page comes first and the image of the RAM in the second half; the rest is zero. -/
def pristineByte (pristineRam : List Byte) (offset : Nat) : Byte :=
  if offset < uarchRamLength then pristineShadow.getD offset 0
  else pristineRam.getD (offset - uarchRamLength) 0

/-- The whole node of the microarchitecture state becomes pristine. -/
def resetUarch (pristineRam : List Byte) (memory : Memory) : Memory := fun address =>
  let offset := (address - uarchStateStartAddress).toNat
  if offset < 2 ^ uarchStateLog2Size then pristineByte pristineRam offset else memory address

/-- The build computes this constant from the image of the RAM. -/
def getUarchPristineStateHash {Hash : Type} (hasher : Hasher Hash) (pristineRam : List Byte) : Hash :=
  hasher.regionHash (resetUarch pristineRam fun _ => 0) uarchStateLog2Size 1

/-- The last yield was manual and rejected the input. -/
def isRejectedManualYield (memory : Memory) : Bool :=
  memory.loadWord iflagsYAddress ≠ 0 &&
    isYieldedManualWith (memory.loadWord htifTohostAddress) htifYieldManualReasonRxRejected

/-- The canonical hash of a state after the reset. -/
def canonicalRootHash {Hash : Type} (hasher : Hasher Hash) (memory : Memory) : Hash :=
  if isRejectedManualYield memory then hasher.ofBytes (memory.load revertRootHashStart 32)
  else hasher.merkleRoot memory

end MachineEmulator.Uarch
