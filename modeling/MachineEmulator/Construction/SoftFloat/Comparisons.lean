/-
This file gives the comparisons of floating-point words and their classes.
-/

import MachineEmulator.Construction.SoftFloat.Format

namespace MachineEmulator.SoftFloat.Format

variable (f : Format)

section Extremes

def minMaxNan (a b : f.FUint) (fflags : Flags) : f.FUint × Flags :=
  let fflags := if f.isSigNan a ∨ f.isSigNan b then fflags ||| fflagsNvMask else fflags
  if f.isNan a then
    if f.isNan b then (f.fQnan, fflags) else (b, fflags)
  else (a, fflags)

/-- This is `min`. -/
def minimum (a b : f.FUint) (fflags : Flags) : f.FUint × Flags :=
  if f.isNan a ∨ f.isNan b then f.minMaxNan a b fflags
  else if f.signOf a ≠ f.signOf b then (if f.signOf a then a else b, fflags)
  else (if decide (a < b) ^^ f.signOf a then a else b, fflags)

/-- This is `max`. -/
def maximum (a b : f.FUint) (fflags : Flags) : f.FUint × Flags :=
  if f.isNan a ∨ f.isNan b then f.minMaxNan a b fflags
  else if f.signOf a ≠ f.signOf b then (if f.signOf a then b else a, fflags)
  else (if decide (a < b) ^^ f.signOf a then b else a, fflags)

end Extremes

section Relations

def eq (a b : f.FUint) (fflags : Flags) : Bool × Flags :=
  if f.isNan a ∨ f.isNan b then
    (false, if f.isSigNan a ∨ f.isSigNan b then fflags ||| fflagsNvMask else fflags)
  -- the two zeros are equal
  else if (a ||| b) <<< 1 = 0 then (true, fflags)
  else (a = b, fflags)

def le (a b : f.FUint) (fflags : Flags) : Bool × Flags :=
  if f.isNan a ∨ f.isNan b then (false, fflags ||| fflagsNvMask)
  else if f.signOf a ≠ f.signOf b then (f.signOf a || decide ((a ||| b) <<< 1 = 0), fflags)
  else (if f.signOf a then decide (a ≥ b) else decide (a ≤ b), fflags)

def lt (a b : f.FUint) (fflags : Flags) : Bool × Flags :=
  if f.isNan a ∨ f.isNan b then (false, fflags ||| fflagsNvMask)
  else if f.signOf a ≠ f.signOf b then (f.signOf a && decide ((a ||| b) <<< 1 ≠ 0), fflags)
  else (if f.signOf a then decide (a > b) else decide (a < b), fflags)

end Relations

section Classes

/-- These are `FCLASS_classes`. -/
inductive FloatClass where
  | ninf
  | nnormal
  | nsubnormal
  | nzero
  | pzero
  | psubnormal
  | pnormal
  | pinf
  | snan
  | qnan
deriving DecidableEq

def fclass (a : f.FUint) : FloatClass :=
  if f.expOf a = f.expMask then
    if f.mantOf a ≠ 0 then
      if f.mantOf a &&& f.qnanMask ≠ 0 then .qnan else .snan
    else if f.signOf a then .ninf else .pinf
  else if f.expOf a = 0 then
    if f.mantOf a = 0 then
      if f.signOf a then .nzero else .pzero
    else if f.signOf a then .nsubnormal else .psubnormal
  else if f.signOf a then .nnormal else .pnormal

end Classes

end MachineEmulator.SoftFloat.Format
