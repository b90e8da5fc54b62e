/-
This file gives the addition, multiplication, division, square root and fused multiplication and
addition of the software floating-point numbers.
-/

import MachineEmulator.Construction.SoftFloat.Format

namespace MachineEmulator.SoftFloat.Format

variable (f : Format)

section Words

/-- The high and the low word of a product, as in `mul_u`. -/
def mulU (a b : Nat) : Nat × Nat := ((a * b) >>> f.fSize, f.wrap (a * b))

/-- The quotient and the remainder of a dividend of two words, as in `divrem_u`. -/
def divremU (ah al bl : Nat) : Nat × Nat :=
  let a := (ah <<< f.fSize) ||| al
  (f.wrap (a / bl), f.wrap (a % bl))

/-- The loop of `sqrtrem_u`, with the number of the bits that are left. -/
def sqrtremLoop : Nat → Nat → Nat → Nat × Nat
  | 0, res, rem => (res, rem)
  | count + 1, res, rem =>
      let bit := 1 <<< (2 * count)
      let tmp := res + bit
      if tmp ≤ rem then sqrtremLoop count ((res >>> 1) + bit) (rem - tmp)
      else sqrtremLoop count (res >>> 1) rem

/-- The root of a number of two words, and if it is not exact, as in `sqrtrem_u`. -/
def sqrtremU (ah al : Nat) : Nat × Bool :=
  let (res, rem) := sqrtremLoop f.fSize 0 ((ah <<< f.fSize) ||| al)
  (f.wrap res, rem ≠ 0)

end Words

section Operations

/-- The leading bit of a normal number is put in place, and a subnormal one is shifted. -/
def withLeadingBit (aExp : Int) (aMant : Nat) : Int × Nat :=
  if aExp = 0 then f.mantNormalizeSubnormal aMant else (aExp, aMant ||| (1 <<< f.mantSize))

/-- The part of `add` after the swap. -/
def addOrdered (a b : f.FUint) (rm : FrmMode) (fflags : Flags) : f.FUint × Flags :=
  let aSign := f.signOf a
  let bSign := f.signOf b
  let aExp := f.expOf a
  let bExp := f.expOf b
  let aMant := f.shl (f.mantOf a) 3
  let bMant := f.shl (f.mantOf b) 3
  if aExp = f.expMask then
    if aMant ≠ 0 then
      (f.fQnan, if aMant &&& (f.qnanMask <<< 3) = 0 ∨ f.isSigNan b then fflags ||| fflagsNvMask
        else fflags)
    else if bExp = f.expMask ∧ aSign ≠ bSign then (f.fQnan, fflags ||| fflagsNvMask)
    else (a, fflags)
  else
    let leading := 1 <<< (f.mantSize + 3)
    let (aExp, aMant) := if aExp = 0 then (1, aMant) else (aExp, aMant ||| leading)
    let (bExp, bMant) := if bExp = 0 then (1, bMant) else (bExp, bMant ||| leading)
    let bMant := f.mantRshiftRnd bMant ((aExp : Int) - bExp)
    let rExp : Int := aExp + (f.rndSize - 3 : Nat)
    if aSign = bSign then f.normalize aSign rExp (f.wrap (aMant + bMant)) rm fflags
    else
      let rMant := f.wrap (aMant + 2 ^ f.fSize - bMant)
      f.normalize (if rMant = 0 then rm = .rdn else aSign) rExp rMant rm fflags

def add (a b : f.FUint) (rm : FrmMode) (fflags : Flags) : f.FUint × Flags :=
  if a &&& ~~~f.signMask < b &&& ~~~f.signMask then f.addOrdered b a rm fflags
  else f.addOrdered a b rm fflags

def mul (a b : f.FUint) (rm : FrmMode) (fflags : Flags) : f.FUint × Flags :=
  let rSign := f.signOf a ^^ f.signOf b
  let aExp := f.expOf a
  let bExp := f.expOf b
  let aMant := f.mantOf a
  let bMant := f.mantOf b
  if aExp = f.expMask ∨ bExp = f.expMask then
    if f.isNan a ∨ f.isNan b then
      (f.fQnan, if f.isSigNan a ∨ f.isSigNan b then fflags ||| fflagsNvMask else fflags)
    else if (aExp = f.expMask ∧ bExp = 0 ∧ bMant = 0) ∨ (bExp = f.expMask ∧ aExp = 0 ∧ aMant = 0) then
      (f.fQnan, fflags ||| fflagsNvMask)
    else (f.pack rSign f.expMask 0, fflags)
  else if aExp = 0 ∧ aMant = 0 then (f.pack rSign 0 0, fflags)
  else if bExp = 0 ∧ bMant = 0 then (f.pack rSign 0 0, fflags)
  else
    let (aExp, aMant) := f.withLeadingBit aExp aMant
    let (bExp, bMant) := f.withLeadingBit bExp bMant
    let rExp := aExp + bExp - (1 <<< (f.expSize - 1) : Nat) + 2
    let (rMant, rMantLow) := f.mulU (f.shl aMant f.rndSize) (f.shl bMant (f.rndSize + 1))
    f.normalize rSign rExp (rMant ||| (if rMantLow ≠ 0 then 1 else 0)) rm fflags

/-- The smaller mantissa of two words is shifted right, with the bits that it loses in its lowest one. -/
def alignWords (shift cMant1 cMant0 : Nat) : Nat × Nat :=
  if 2 * f.fSize ≤ shift then (0, if cMant0 ||| cMant1 ≠ 0 then 1 else 0)
  else if f.fSize + 1 ≤ shift then (0, f.mantRshiftRnd cMant1 ((shift : Int) - f.fSize))
  else if shift = f.fSize then (0, cMant1 ||| (if cMant0 ≠ 0 then 1 else 0))
  else if shift ≠ 0 then
    let mask := (1 <<< shift) - 1
    (cMant1 >>> shift, (f.shl cMant1 (f.fSize - shift) ||| (cMant0 >>> shift)) |||
      (if cMant0 &&& mask ≠ 0 then 1 else 0))
  else (cMant1, cMant0)

/-- The end of `fma`, for mantissas of two words where the first is not below the second. -/
def addWords (rSign cSign : Bool) (rExp cExp : Int) (rMant1 rMant0 cMant1 cMant0 : Nat) (rm : FrmMode)
    (fflags : Flags) : f.FUint × Flags :=
  let (cMant1, cMant0) := f.alignWords (rExp - cExp).toNat cMant1 cMant0
  if rSign = cSign then
    let low := f.wrap (rMant0 + cMant0)
    let carry := if low < cMant0 then 1 else 0
    f.normalize2 rSign rExp (f.wrap (rMant1 + (cMant1 + carry))) low rm fflags
  else
    let low := f.wrap (rMant0 + 2 ^ f.fSize - cMant0)
    let borrow := if rMant0 < low then 1 else 0
    let high := f.wrap (rMant1 + 2 * 2 ^ f.fSize - cMant1 - borrow)
    f.normalize2 (if low ||| high = 0 then rm = .rdn else rSign) rExp high low rm fflags

/-- The part of `fma` for finite numbers whose product is not zero. -/
def fmaFinite (a b c : f.FUint) (rm : FrmMode) (fflags : Flags) : f.FUint × Flags :=
  let rSign := f.signOf a ^^ f.signOf b
  let cSign := f.signOf c
  let (aExp, aMant) := f.withLeadingBit (f.expOf a) (f.mantOf a)
  let (bExp, bMant) := f.withLeadingBit (f.expOf b) (f.mantOf b)
  let rExp := aExp + bExp - (1 <<< (f.expSize - 1) : Nat) + 3
  let (rMant1, rMant0) := f.mulU (f.shl aMant f.rndSize) (f.shl bMant f.rndSize)
  let (rExp, rMant1, rMant0) :=
    if rMant1 < 1 <<< (f.fSize - 3) then
      (rExp - 1, f.shl rMant1 1 ||| (rMant0 >>> (f.fSize - 1)), f.shl rMant0 1)
    else (rExp, rMant1, rMant0)
  if f.expOf c = 0 ∧ f.mantOf c = 0 then
    f.normalize rSign rExp (rMant1 ||| (if rMant0 ≠ 0 then 1 else 0)) rm fflags
  else
    let (cExp, cMant) := f.withLeadingBit (f.expOf c) (f.mantOf c)
    let cExp := cExp + 1
    let cMant1 := f.shl cMant (f.rndSize - 1)
    if ¬(cExp < rExp ∨ rExp = cExp ∧ cMant1 ≤ rMant1) then
      f.addWords cSign rSign cExp rExp cMant1 0 rMant1 rMant0 rm fflags
    else f.addWords rSign cSign rExp cExp rMant1 rMant0 cMant1 0 rm fflags

def fma (a b c : f.FUint) (rm : FrmMode) (fflags : Flags) : f.FUint × Flags :=
  let cSign := f.signOf c
  let rSign := f.signOf a ^^ f.signOf b
  let aExp := f.expOf a
  let bExp := f.expOf b
  let cExp := f.expOf c
  let aMant := f.mantOf a
  let bMant := f.mantOf b
  let cMant := f.mantOf c
  if aExp = f.expMask ∨ bExp = f.expMask ∨ cExp = f.expMask then
    if (aExp = f.expMask ∧ aMant = 0) ∧ (bExp = 0 ∧ bMant = 0) ∨
        (bExp = f.expMask ∧ bMant = 0) ∧ (aExp = 0 ∧ aMant = 0) then
      (f.fQnan, fflags ||| fflagsNvMask)
    else if f.isNan a ∨ f.isNan b ∨ f.isNan c then
      (f.fQnan, if f.isSigNan a ∨ f.isSigNan b ∨ f.isSigNan c then fflags ||| fflagsNvMask else fflags)
    else if (aExp = f.expMask ∨ bExp = f.expMask) ∧ cExp = f.expMask ∧ rSign ≠ cSign then
      (f.fQnan, fflags ||| fflagsNvMask)
    else if cExp = f.expMask then (f.pack cSign f.expMask 0, fflags)
    else (f.pack rSign f.expMask 0, fflags)
  else if (aExp = 0 ∧ aMant = 0) ∨ (bExp = 0 ∧ bMant = 0) then
    if cExp = 0 ∧ cMant = 0 then
      (f.pack (if cSign ≠ rSign then rm = .rdn else rSign) 0 0, fflags)
    else (c, fflags)
  else f.fmaFinite a b c rm fflags

def div (a b : f.FUint) (rm : FrmMode) (fflags : Flags) : f.FUint × Flags :=
  let rSign := f.signOf a ^^ f.signOf b
  let aExp := f.expOf a
  let bExp := f.expOf b
  let aMant := f.mantOf a
  let bMant := f.mantOf b
  if aExp = f.expMask then
    if aMant ≠ 0 ∨ f.isNan b then
      (f.fQnan, if f.isSigNan a ∨ f.isSigNan b then fflags ||| fflagsNvMask else fflags)
    else if bExp = f.expMask then (f.fQnan, fflags ||| fflagsNvMask)
    else (f.pack rSign f.expMask 0, fflags)
  else if bExp = f.expMask then
    if bMant ≠ 0 then (f.fQnan, if f.isSigNan b then fflags ||| fflagsNvMask else fflags)
    else (f.pack rSign 0 0, fflags)
  else if bExp = 0 ∧ bMant = 0 then
    if aExp = 0 ∧ aMant = 0 then (f.fQnan, fflags ||| fflagsNvMask)
    else (f.pack rSign f.expMask 0, fflags ||| fflagsDzMask)
  else if aExp = 0 ∧ aMant = 0 then (f.pack rSign 0 0, fflags)
  else
    let (bExp, bMant) := f.withLeadingBit bExp bMant
    let (aExp, aMant) := f.withLeadingBit aExp aMant
    let rExp := aExp - bExp + (1 <<< (f.expSize - 1) : Nat) - 1
    let (rMant, r) := f.divremU aMant 0 (f.shl bMant 2)
    f.normalize rSign rExp (if r ≠ 0 then rMant ||| 1 else rMant) rm fflags

def sqrt (a : f.FUint) (rm : FrmMode) (fflags : Flags) : f.FUint × Flags :=
  let aSign := f.signOf a
  let aExp := f.expOf a
  let aMant := f.mantOf a
  if aExp = f.expMask then
    if aMant ≠ 0 then (f.fQnan, if f.isSigNan a then fflags ||| fflagsNvMask else fflags)
    else if aSign then (f.fQnan, fflags ||| fflagsNvMask)
    else (a, fflags)
  else if aSign then
    if aExp = 0 ∧ aMant = 0 then (a, fflags) else (f.fQnan, fflags ||| fflagsNvMask)
  else if aExp = 0 ∧ aMant = 0 then (f.pack false 0 0, fflags)
  else
    let (aExp, aMant) := f.withLeadingBit aExp aMant
    let aExp := aExp - (f.expMask / 2 : Nat)
    -- an exponent that is odd gives one bit to the mantissa
    let (aExp, aMant) := if aExp % 2 ≠ 0 then (aExp - 1, f.shl aMant 1) else (aExp, aMant)
    let aExp := aExp / 2 + (f.expMask / 2 : Nat)
    let (root, inexact) := f.sqrtremU (f.shl aMant (f.fSize - 4 - f.mantSize)) 0
    f.normalize aSign aExp (if inexact then root ||| 1 else root) rm fflags

end Operations

end MachineEmulator.SoftFloat.Format
