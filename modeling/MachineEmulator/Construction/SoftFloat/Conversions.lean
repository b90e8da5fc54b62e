/-
This file gives the conversions between floating-point numbers and integers and between the two
formats.
-/

import MachineEmulator.Construction.SoftFloat.Format

namespace MachineEmulator.SoftFloat

namespace Format

variable (f : Format)

section Integers

/-- The largest magnitude that an integer type has for a sign. -/
def cvtMax (isUnsigned : Bool) (icvtSize : Nat) (aSign : Bool) : Nat :=
  if isUnsigned then (aSign.toNat + 2 ^ icvtSize - 1) % 2 ^ icvtSize
  else (1 <<< (icvtSize - 1)) - (!aSign).toNat

/-- This is `cvt_f_i`. -/
def cvtFI (isUnsigned : Bool) (icvtSize : Nat) (a : f.FUint) (rm : FrmMode) (fflags : Flags) :
    BitVec icvtSize × Flags :=
  let aExp := f.expOf a
  let aMant := f.mantOf a
  -- a NaN is like a positive infinity
  let aSign := if aExp = f.expMask ∧ aMant ≠ 0 then false else f.signOf a
  let (aExp, aMant) := if aExp = 0 then (1, aMant) else (aExp, aMant ||| (1 <<< f.mantSize))
  let aMant := f.shl aMant f.rndSize
  let aExp : Int := aExp - (f.expMask / 2 : Nat) - f.mantSize
  let rMax := cvtMax isUnsigned icvtSize aSign
  if 0 ≤ aExp then
    if aExp ≤ (icvtSize : Int) - 1 - f.mantSize then
      let r := ((aMant >>> f.rndSize) <<< aExp.toNat) % 2 ^ icvtSize
      if rMax < r then (BitVec.ofNat icvtSize rMax, fflags ||| fflagsNvMask)
      else (if aSign then -BitVec.ofNat icvtSize r else BitVec.ofNat icvtSize r, fflags)
    else (BitVec.ofNat icvtSize rMax, fflags ||| fflagsNvMask)
  else
    let aMant := f.mantRshiftRnd aMant (-aExp)
    let rounded := f.roundMant rm (f.roundAddend aSign rm) aMant
    if rMax < rounded then (BitVec.ofNat icvtSize rMax, fflags ||| fflagsNvMask)
    else
      (if aSign then -BitVec.ofNat icvtSize rounded else BitVec.ofNat icvtSize rounded,
        if f.rndBits aMant ≠ 0 then fflags ||| fflagsNxMask else fflags)

/-- This is `cvt_i_f`. -/
def cvtIF (isUnsigned : Bool) {icvtSize : Nat} (a : BitVec icvtSize) (rm : FrmMode) (fflags : Flags) :
    f.FUint × Flags :=
  let aSign := !isUnsigned && a.msb
  let r := if aSign then (-a).toNat else a.toNat
  let aExp : Int := (f.expMask / 2 : Nat) + f.fSize - 2
  let l : Int := (icvtSize : Int) - clz icvtSize r - (f.fSize - 1)
  if 0 < l then
    let mask := r &&& ((1 <<< l.toNat) - 1)
    f.normalize aSign (aExp + l) ((r >>> l.toNat) ||| (if r &&& mask ≠ 0 then 1 else 0)) rm fflags
  else f.normalize aSign aExp r rm fflags

end Integers

end Format

section Formats

/-- This is `sfloat_cvt_f32_f64`. -/
def sfloatCvtF32F64 (a : sfloat32.FUint) (fflags : Flags) : sfloat64.FUint × Flags :=
  let aSign := sfloat32.signOf a
  let aExp := sfloat32.expOf a
  let aMant := sfloat32.mantOf a
  if aExp = 0xff then
    if aMant ≠ 0 then
      (sfloat64.fQnan, if sfloat32.isSigNan a then fflags ||| fflagsNvMask else fflags)
    else (sfloat64.pack aSign sfloat64.expMask 0, fflags)
  else if aExp = 0 ∧ aMant = 0 then (sfloat64.pack aSign 0 0, fflags)
  else
    let (aExp, aMant) : Int × Nat :=
      if aExp = 0 then sfloat32.mantNormalizeSubnormal aMant else (aExp, aMant)
    let aExp := aExp - 0x7f + (sfloat64.expMask / 2 : Nat)
    (sfloat64.pack aSign aExp.toNat (sfloat64.shl aMant (sfloat64.mantSize - 23)), fflags)

/-- This is `sfloat_cvt_f64_f32`; the mantissa of a subnormal number is not replaced. -/
def sfloatCvtF64F32 (a : sfloat64.FUint) (rm : FrmMode) (fflags : Flags) : sfloat32.FUint × Flags :=
  let aSign := sfloat64.signOf a
  let aExp := sfloat64.expOf a
  let aMant := sfloat64.mantOf a
  if aExp = sfloat64.expMask then
    if aMant ≠ 0 then
      (sfloat32.fQnan, if sfloat64.isSigNan a then fflags ||| fflagsNvMask else fflags)
    else (sfloat32.pack aSign 0xff 0, fflags)
  else if aExp = 0 ∧ aMant = 0 then (sfloat32.pack aSign 0 0, fflags)
  else
    let (aExp, aMant) : Int × Nat :=
      if aExp = 0 then ((sfloat64.mantNormalizeSubnormal aMant).1, aMant)
      else (aExp, aMant ||| (1 <<< sfloat64.mantSize))
    let aExp := aExp - (sfloat64.expMask / 2 : Nat) + 0x7f
    let aMant := sfloat64.mantRshiftRnd aMant (sfloat64.mantSize - (32 - 2))
    sfloat32.normalize aSign aExp aMant rm fflags

end Formats

end MachineEmulator.SoftFloat
