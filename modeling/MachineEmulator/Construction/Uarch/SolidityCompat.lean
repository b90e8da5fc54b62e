/-
This file gives the conversions and the arithmetic that the microarchitecture code shares with
its Solidity port. A signed integer is its two's complement bit vector.
-/

import MachineEmulator.Construction.Uarch.StateAccess

namespace MachineEmulator.Uarch

def uint64ToInt32 (value : BitVec 64) : BitVec 32 := value.setWidth 32

def uint64AddInt32 (value : BitVec 64) (addend : BitVec 32) : BitVec 64 :=
  value + addend.signExtend 64

def uint64SubUint64 (value subtrahend : BitVec 64) : BitVec 64 := value - subtrahend

def uint64AddUint64 (value addend : BitVec 64) : BitVec 64 := value + addend

def uint64ShiftRight (value : BitVec 64) (count : BitVec 32) : BitVec 64 :=
  value >>> (count &&& 0x3f).toNat

def uint64ShiftLeft (value : BitVec 64) (count : BitVec 32) : BitVec 64 :=
  value <<< (count &&& 0x3f).toNat

def int64ShiftRight (value : BitVec 64) (count : BitVec 32) : BitVec 64 :=
  value.sshiftRight (count &&& 0x3f).toNat

def int64AddInt64 (value addend : BitVec 64) : BitVec 64 := value + addend

def uint32ShiftRight (value count : BitVec 32) : BitVec 32 := value >>> (count &&& 0x1f).toNat

def uint32ShiftLeft (value count : BitVec 32) : BitVec 32 := value <<< (count &&& 0x1f).toNat

def int32ToUint64 (value : BitVec 32) : BitVec 64 := value.signExtend 64

def int32ShiftRight (value count : BitVec 32) : BitVec 32 := value.sshiftRight (count &&& 0x1f).toNat

def int32AddInt32 (value addend : BitVec 32) : BitVec 32 := value + addend

def int32SubInt32 (value subtrahend : BitVec 32) : BitVec 32 := value - subtrahend

def int16ToUint64 (value : BitVec 16) : BitVec 64 := value.signExtend 64

def int8ToUint64 (value : BitVec 8) : BitVec 64 := value.signExtend 64

/-- This is `31 - __builtin_clz(v)`; the builtin leaves zero undefined and no caller passes it. -/
def uint32Log2 (value : BitVec 32) : BitVec 32 := BitVec.ofNat 32 value.toNat.log2

def htifDevYield : Word := 2

def htifYieldCmdManual : Word := 1

def htifYieldManualReasonRxAccepted : Word := 1

def htifYieldManualReasonRxRejected : Word := 2

def htifYieldReasonAdvanceState : BitVec 16 := 0

def isYieldedManualWith (tohost yieldReason : Word) : Bool :=
  let dev := uint64ShiftRight (tohost &&& 0xFF00000000000000) 56
  let cmd := uint64ShiftRight (tohost &&& 0x00FF000000000000) 48
  let reason := uint64ShiftRight (tohost &&& 0x0000FFFF00000000) 32
  dev = htifDevYield && cmd = htifYieldCmdManual && reason = yieldReason

end MachineEmulator.Uarch
