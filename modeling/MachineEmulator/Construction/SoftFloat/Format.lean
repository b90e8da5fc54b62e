/-
This file gives the formats of the software floating-point operations and how a result is rounded.
-/

import Mathlib.Tactic

namespace MachineEmulator.SoftFloat

/-- These are the values of `FRM_modes` that an operation can get. -/
inductive FrmMode where
  | rne
  | rtz
  | rdn
  | rup
  | rmm
deriving DecidableEq

def FrmMode.value : FrmMode → Nat
  | .rne => 0
  | .rtz => 1
  | .rdn => 2
  | .rup => 3
  | .rmm => 4

abbrev Flags := BitVec 32

def fflagsNxMask : Flags := 1
def fflagsUfMask : Flags := 2
def fflagsOfMask : Flags := 4
def fflagsDzMask : Flags := 8
def fflagsNvMask : Flags := 16

/-- This is `clz`, for a word of a size. -/
def clz (size value : Nat) : Nat :=
  if value = 0 then size else size - 1 - value.log2

/-- The parameters of `i_sfloat`: a sign, an exponent and a mantissa fill a word. -/
structure Format where
  fSize : Nat
  mantSize : Nat
  expSize : Nat
  fields : fSize = 1 + expSize + mantSize
  mant_large : 2 ≤ mantSize
  exp_large : 5 ≤ expSize

/-- This is `i_sfloat32`. -/
def sfloat32 : Format := ⟨32, 23, 8, rfl, by decide, by decide⟩

/-- This is `i_sfloat64`. -/
def sfloat64 : Format := ⟨64, 52, 11, rfl, by decide, by decide⟩

namespace Format

variable (f : Format)

/-- This is `F_UINT`; a mantissa is kept as the number that its word holds. -/
abbrev FUint := BitVec f.fSize

def imantSize : Nat := f.fSize - 2
def rndSize : Nat := f.imantSize - f.mantSize
def expMask : Nat := (1 <<< f.expSize) - 1
def mantMask : Nat := (1 <<< f.mantSize) - 1
def qnanMask : Nat := 1 <<< (f.mantSize - 1)
def signMask : f.FUint := BitVec.ofNat f.fSize (1 <<< (f.fSize - 1))
def fQnan : f.FUint := BitVec.ofNat f.fSize ((f.expMask <<< f.mantSize) ||| (1 <<< (f.mantSize - 1)))

/-- A number is cut to a word. -/
def wrap (value : Nat) : Nat := value % 2 ^ f.fSize

def shl (value count : Nat) : Nat := f.wrap (value <<< count)

section Fields

def signOf (a : f.FUint) : Bool := a.toNat >>> (f.fSize - 1) ≠ 0

def expOf (a : f.FUint) : Nat := (a.toNat >>> f.mantSize) &&& f.expMask

def mantOf (a : f.FUint) : Nat := a.toNat &&& f.mantMask

def pack (aSign : Bool) (aExp aMant : Nat) : f.FUint :=
  BitVec.ofNat f.fSize ((aSign.toNat <<< (f.fSize - 1)) ||| (aExp <<< f.mantSize) |||
    (aMant &&& f.mantMask))

def isSigNan (a : f.FUint) : Bool :=
  (a.toNat >>> (f.mantSize - 1)) &&& ((1 <<< (f.expSize + 1)) - 1) = 2 * f.expMask ∧ f.mantOf a ≠ 0

def isNan (a : f.FUint) : Bool := f.expOf a = f.expMask ∧ f.mantOf a ≠ 0

end Fields

section Rounding

/-- The bits that a shift loses are kept in the lowest bit. -/
def mantRshiftRnd (a : Nat) (d : Int) : Nat :=
  if 0 < d then
    if f.fSize ≤ d then (if a ≠ 0 then 1 else 0)
    else
      let mask := (1 <<< d.toNat) - 1
      (a >>> d.toNat) ||| (if a &&& mask ≠ 0 then 1 else 0)
  else a

/-- The exponent and the mantissa of a subnormal number, with its leading bit in place. -/
def mantNormalizeSubnormal (aMant : Nat) : Int × Nat :=
  let shift := f.mantSize - (f.fSize - 1 - clz f.fSize aMant)
  (1 - (shift : Int), f.shl aMant shift)

/-- What `round_pack` adds to the bits that it cuts. -/
def roundAddend (aSign : Bool) (rm : FrmMode) : Nat :=
  match rm with
  | .rne | .rmm => 1 <<< (f.rndSize - 1)
  | .rtz => 0
  | .rdn | .rup => if aSign ^^ (rm.value &&& 1 = 1) then (1 <<< f.rndSize) - 1 else 0

def rndBits (aMant : Nat) : Nat := aMant &&& ((1 <<< f.rndSize) - 1)

/-- The mantissa without its lowest bits; the half way selects the even result. -/
def roundMant (rm : FrmMode) (addend aMant : Nat) : Nat :=
  let rounded := f.wrap (aMant + addend) >>> f.rndSize
  if rm = .rne ∧ f.rndBits aMant = 1 <<< (f.rndSize - 1) then (rounded >>> 1) <<< 1 else rounded

/-- The start of `round_pack`, for a result that can be subnormal. -/
def denormalize (aExp : Int) (aMant addend : Nat) (fflags : Flags) : Int × Nat × Flags :=
  if aExp ≤ 0 then
    let isSubnormal := aExp < 0 ∨ f.wrap (aMant + addend) < 1 <<< (f.fSize - 1)
    let mant := f.mantRshiftRnd aMant (1 - aExp)
    (1, mant, if isSubnormal ∧ f.rndBits mant ≠ 0 then fflags ||| fflagsUfMask else fflags)
  else (aExp, aMant, fflags)

/-- The end of `round_pack`, for a mantissa that is rounded. -/
def packRounded (aSign : Bool) (aExp : Int) (aMant addend : Nat) (fflags : Flags) :
    f.FUint × Flags :=
  let exp := aExp + (aMant >>> (f.mantSize + 1) : Nat)
  if aMant ≤ f.mantMask then (f.pack aSign 0 aMant, fflags)
  else if (f.expMask : Int) ≤ exp then
    (if addend = 0 then f.pack aSign (f.expMask - 1) f.mantMask else f.pack aSign f.expMask 0,
      fflags ||| (fflagsOfMask ||| fflagsNxMask))
  else (f.pack aSign exp.toNat aMant, fflags)

/-- The leading bit of the mantissa is at `F_SIZE - 2`. -/
def roundPack (aSign : Bool) (aExp : Int) (aMant : Nat) (rm : FrmMode) (fflags : Flags) :
    f.FUint × Flags :=
  let addend := f.roundAddend aSign rm
  let (exp, mant, fflags) := f.denormalize aExp aMant addend fflags
  let fflags := if f.rndBits mant ≠ 0 then fflags ||| fflagsNxMask else fflags
  f.packRounded aSign exp (f.roundMant rm addend mant) addend fflags

/-- The mantissa has at most `F_SIZE - 1` bits. -/
def normalize (aSign : Bool) (aExp : Int) (aMant : Nat) (rm : FrmMode) (fflags : Flags) :
    f.FUint × Flags :=
  let shift := clz f.fSize aMant - (f.fSize - 1 - f.imantSize)
  f.roundPack aSign (aExp - (shift : Int)) (f.shl aMant shift) rm fflags

/-- The mantissa of two words, the first one the high one, is cut to one. -/
def joinWords (shift aMant1 aMant0 : Nat) : Nat :=
  if shift = 0 then aMant1 ||| (if aMant0 ≠ 0 then 1 else 0)
  else if shift < f.fSize then
    (f.shl aMant1 shift ||| (aMant0 >>> (f.fSize - shift))) |||
      (if f.shl aMant0 shift ≠ 0 then 1 else 0)
  else f.shl aMant0 (shift - f.fSize)

/-- This is `normalize` for a mantissa of two words. -/
def normalize2 (aSign : Bool) (aExp : Int) (aMant1 aMant0 : Nat) (rm : FrmMode) (fflags : Flags) :
    f.FUint × Flags :=
  let l := if aMant1 = 0 then f.fSize + clz f.fSize aMant0 else clz f.fSize aMant1
  let shift := l - (f.fSize - 1 - f.imantSize)
  f.roundPack aSign (aExp - (shift : Int)) (f.joinWords shift aMant1 aMant0) rm fflags

end Rounding

end Format

end MachineEmulator.SoftFloat
