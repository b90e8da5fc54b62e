/-
This file collects what the operations on two numbers deliver.
-/

import MachineEmulator.Proof.SoftFloat.Addition
import MachineEmulator.Proof.SoftFloat.Multiplication
import MachineEmulator.Proof.SoftFloat.SquareRoot

namespace MachineEmulator.SoftFloat.Format

/-- The sum, the product, the quotient and the root are the rounded exact results in all formats,
for all words and all modes, and their flags are added to the ones from before. -/
theorem operations_deliver (f : Format) (a b : f.FUint) (rm : FrmMode) (fflags : Flags) :
    f.Delivers rm (addOutcome rm (datum ℚ a) (datum ℚ b)) fflags (f.add a b rm fflags) ∧
      f.Delivers rm (mulOutcome (datum ℚ a) (datum ℚ b)) fflags (f.mul a b rm fflags) ∧
      f.Delivers rm (divOutcome (datum ℚ a) (datum ℚ b)) fflags (f.div a b rm fflags) ∧
      f.Delivers rm (sqrtOutcome (datum ℝ a)) fflags (f.sqrt a rm fflags) := by
  constructor
  · exact add_delivers rm fflags a b
  constructor
  · exact mul_delivers rm fflags a b
  constructor
  · exact div_delivers rm fflags a b
  · exact sqrt_delivers rm fflags a

end MachineEmulator.SoftFloat.Format
