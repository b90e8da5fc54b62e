/-
This file gives the values that a configuration leaves open and that are chosen for it: versions,
lengths of image files, and places for the drives behind RAM.
-/

import MachineEmulator.Construction.HashTree.HashTree
import MachineEmulator.Construction.Json.Value
import MachineEmulator.Construction.Machine.MachineConfig

namespace MachineEmulator.Machine

open HashTree (Extent)
open Json (Rejection)

/-- This is `std::bit_ceil`, which is undefined if the power of two does not fit. -/
def stdBitCeil (value : Word) : Except Rejection Word :=
  if value.toNat ≤ 2 ^ 63 then .ok (BitVec.ofNat 64 (HashTree.bitCeil value.toNat))
  else .error .undefinedBehavior

namespace MachineConfig

/-- This is `adjust_lengths` from an index on; `fileSize` is `os::file_size`. -/
def adjustLengths (fileSize : String → Except Rejection Word) (what : String) :
    Nat → List MemoryRangeConfig → Except Rejection (List MemoryRangeConfig)
  | _, [] => .ok []
  | index, range :: rest => do
      let range ←
        if range.length = memoryRangeAuto then
          if range.backingStore.dataFilename.isEmpty then
            .error (.runtimeError ("unable to auto-detect length of " ++ what ++ toString index ++
              " with empty image file"))
          else do
            let length ← fileSize range.backingStore.dataFilename
            pure { range with length := length }
        else .ok range
      return range :: (← adjustLengths fileSize what (index + 1) rest)

/-- This is `__builtin_add_overflow` with its exception. -/
def advance (what : String) (index : Nat) (start length : Word) : Except Rejection Word :=
  if start.toNat + length.toNat < 2 ^ 64 then .ok (start + length)
  else .error (.runtimeError ("no address space to auto-detect start of " ++ what ++ toString index))

/-- The next multiple of the rounded length. -/
def align (what : String) (index : Nat) (start lengthPo2 : Word) : Except Rejection Word :=
  if start % lengthPo2 = 0 then .ok start
  else advance what index (start - start % lengthPo2) lengthPo2

/-- This is `adjust_starts` from an index on. -/
def adjustStarts (what : String) :
    Nat → Word → List MemoryRangeConfig → Except Rejection (Word × List MemoryRangeConfig)
  | _, start, [] => .ok (start, [])
  | index, start, range :: rest =>
      if range.start = memoryRangeAuto then do
        let lengthPo2 ← stdBitCeil range.length
        let place ← align what index start lengthPo2
        let next ← advance what index place lengthPo2
        let (last, others) ← adjustStarts what (index + 1) next rest
        return (last, { range with start := place } :: others)
      else do
        let (last, others) ← adjustStarts what (index + 1) start rest
        return (last, range :: others)

/-- The versions that are left open. -/
def adjustVersions (registers : RegistersState) : RegistersState :=
  { registers with
    marchid := if registers.marchid = -1 then 20 else registers.marchid
    mvendorid := if registers.mvendorid = -1 then 0x6361727465736920 else registers.mvendorid
    mimpid := if registers.mimpid = -1 then 20 else registers.mimpid }

/-- This is `adjust_defaults`. -/
def adjustDefaults (fileSize : String → Except Rejection Word) (config : MachineConfig) :
    Except Rejection MachineConfig := do
  let flashDrive ← adjustLengths fileSize "flash drive " 0 config.flashDrive
  let nvram ← adjustLengths fileSize "nvram " 0 config.nvram
  let ramLengthPo2 ← stdBitCeil config.ram.length
  let (behind, flashDrive) ← adjustStarts "flash drive " 0 (arRamStart + ramLengthPo2) flashDrive
  let (_, nvram) ← adjustStarts "nvram " 0 behind nvram
  return { config with
    processor := { config.processor with registers := adjustVersions config.processor.registers }
    flashDrive, nvram }

end MachineConfig

/-- The extent of a range in the hash tree. -/
def MemoryRangeConfig.extent (range : MemoryRangeConfig) : Extent :=
  (range.start.toNat, range.length.toNat)

/-- The ranges besides RAM and the drives that are registered with the hash tree. -/
def fixedExtents : List Extent :=
  [(arShadowStateStart.toNat, arShadowStateLength.toNat),
    (arShadowUarchStateStart.toNat, arShadowUarchStateLength.toNat),
    (Uarch.uarchRamStart.toNat, Uarch.uarchRamLength), (arDtbStart.toNat, arDtbLength.toNat),
    (arCmioTxBufferStart.toNat, arCmioTxBufferLength.toNat),
    (Cmio.cmioRxBufferStart.toNat, Cmio.cmioRxBufferLength.toNat),
    (arPmasStart.toNat, arPmasLength.toNat)]

/-- The ranges that are registered with the hash tree, which sorts them by their starts. -/
def MachineConfig.registeredExtents (config : MachineConfig) : List Extent :=
  fixedExtents ++ (arRamStart.toNat, config.ram.length.toNat) ::
    (config.flashDrive ++ config.nvram).map MemoryRangeConfig.extent

end MachineEmulator.Machine
