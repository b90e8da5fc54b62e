/-
This file proves that the interrupt controller keeps its bit in `mip`, and that a source that is
claimed stays away from the driver until it is completed.
-/

import MachineEmulator.Construction.Interpret.Plic
import MachineEmulator.Proof.Interpret.TimerInterrupt

namespace MachineEmulator.Interpret

section Bits

/-- The mask of a source has the bit of that source alone. -/
theorem irqMask_bit {irqId : BitVec 32} (small : irqId < 32) (source : Nat) :
    ((1 : BitVec 32) <<< irqId).getLsbD source = decide (source = irqId.toNat) := by
  have bound : irqId.toNat < 32 := BitVec.lt_def.mp small
  show (BitVec.twoPow 32 irqId.toNat).getLsbD source = _
  rw [BitVec.getLsbD_twoPow]
  simp [bound, eq_comm]

theorem ilog2_spec {v : BitVec 32} (nonzero : v ≠ 0) :
    ilog2 v < 32 ∧ v.getLsbD (ilog2 v).toNat = true := by
  have top := BitVec.getLsbD_true_clz_of_ne_zero (by decide : 0 < 32) nonzero
  have few : v.clz < 32 := BitVec.clz_lt_iff_ne_zero.mpr nonzero
  have value : (ilog2 v).toNat = 32 - 1 - v.clz.toNat := by
    rw [ilog2]
    bv_omega
  constructor
  · bv_omega
  · rw [value]
    exact top

theorem exists_bit {v : BitVec 32} : v ≠ 0 ↔ ∃ source, v.getLsbD source = true := by
  constructor
  · intro nonzero
    exact ⟨_, (ilog2_spec nonzero).2⟩
  · rintro ⟨source, bit⟩ rfl
    simp at bit

end Bits

section State

variable {cpu : Cpu PlicState}

/-- Whether the external interrupt is pending. -/
def Registers.meip (registers : Registers) : Bool := registers.mip[11]

@[simp] theorem warlMip_meip (val : Word) : (warlMip val)[11] = val[11] := by
  have bit : mipRwMask[11] = true := by decide
  rw [warlMip, BitVec.getElem_and, bit, Bool.and_true]

/-- The bit of `mip` as the mask of the source tests it. -/
theorem meip_iff (registers : Registers) :
    registers.readMip &&& mipMeipMask ≠ 0 ↔ registers.meip = true := by
  have mask : mipMeipMask = BitVec.twoPow 64 11 := rfl
  rw [mask, BitVec.and_twoPow, Registers.readMip, Registers.meip, BitVec.getLsbD_eq_getElem (by decide),
    warlMip_meip]
  cases registers.mip[11] with
  | false => simp
  | true => exact iff_of_true (by decide) rfl

@[simp] theorem setExternal_meip : cpu.setExternal.registers.meip = true := by
  simp [Cpu.setExternal, Cpu.withRegisters, Registers.meip, Registers.setMip, mipMeipMask, mipSeipMask]

@[simp] theorem resetExternal_meip : cpu.resetExternal.registers.meip = false := by
  simp [Cpu.resetExternal, Cpu.withRegisters, Registers.meip, Registers.resetMip, mipMeipMask,
    mipSeipMask]

@[simp] theorem setExternal_ipmask : cpu.setExternal.ipmask = cpu.ipmask := rfl
@[simp] theorem resetExternal_ipmask : cpu.resetExternal.ipmask = cpu.ipmask := rfl

@[simp] theorem setExternal_pend : cpu.setExternal.readGirqpend = cpu.readGirqpend := rfl
@[simp] theorem resetExternal_pend : cpu.resetExternal.readGirqpend = cpu.readGirqpend := rfl
@[simp] theorem setExternal_srvd : cpu.setExternal.readGirqsrvd = cpu.readGirqsrvd := rfl
@[simp] theorem resetExternal_srvd : cpu.resetExternal.readGirqsrvd = cpu.readGirqsrvd := rfl

@[simp] theorem writeGirqpend_pend (val : BitVec 32) : (cpu.writeGirqpend val).readGirqpend = val := by
  simp [Cpu.writeGirqpend, Cpu.readGirqpend]

@[simp] theorem writeGirqsrvd_srvd (val : BitVec 32) : (cpu.writeGirqsrvd val).readGirqsrvd = val := by
  simp [Cpu.writeGirqsrvd, Cpu.readGirqsrvd]

@[simp] theorem writeGirqpend_srvd (val : BitVec 32) :
    (cpu.writeGirqpend val).readGirqsrvd = cpu.readGirqsrvd := rfl

@[simp] theorem writeGirqsrvd_pend (val : BitVec 32) :
    (cpu.writeGirqsrvd val).readGirqpend = cpu.readGirqpend := rfl

@[simp] theorem writeGirqpend_meip (val : BitVec 32) :
    (cpu.writeGirqpend val).registers.meip = cpu.registers.meip := rfl

@[simp] theorem writeGirqsrvd_meip (val : BitVec 32) :
    (cpu.writeGirqsrvd val).registers.meip = cpu.registers.meip := rfl

/-- A source that the driver can claim. -/
def Cpu.Claimable (cpu : Cpu PlicState) (source : Nat) : Prop := cpu.ipmask.getLsbD source = true

/-- A source that the driver has claimed and not completed. -/
def Cpu.Serving (cpu : Cpu PlicState) (source : Nat) : Prop :=
  cpu.readGirqsrvd.getLsbD source = true

theorem claimable_iff {source : Nat} :
    cpu.Claimable source ↔ cpu.readGirqpend.getLsbD source = true ∧ ¬cpu.Serving source := by
  rw [Cpu.Claimable, Cpu.ipmask, Cpu.Serving, BitVec.getLsbD_and, BitVec.getLsbD_not]
  by_cases inside : source < 32
  · simp [inside]
  · simp [BitVec.getLsbD_of_ge _ _ (Nat.le_of_not_lt inside)]

theorem ipmask_ne_zero : cpu.ipmask ≠ 0 ↔ ∃ source, cpu.Claimable source := exists_bit

/-- The bit in `mip` says whether there is a source to claim, and source 0 is never pending. -/
structure Wired (cpu : Cpu PlicState) : Prop where
  meip : cpu.registers.meip = true ↔ cpu.ipmask ≠ 0
  unused : cpu.readGirqpend.getLsbD 0 = false

/-- The sources that the devices have. -/
def IrqId (irqId : BitVec 32) : Prop := 1 ≤ irqId ∧ irqId ≤ plicMaxIrq

instance {irqId : BitVec 32} : Decidable (IrqId irqId) := inferInstanceAs (Decidable (_ ∧ _))

theorem IrqId.small {irqId : BitVec 32} (valid : IrqId irqId) : irqId < 32 := by
  obtain ⟨_, high⟩ := valid
  simp only [plicMaxIrq] at high
  bv_omega

theorem IrqId.nonzero {irqId : BitVec 32} (valid : IrqId irqId) : irqId.toNat ≠ 0 := by
  obtain ⟨low, _⟩ := valid
  bv_omega

/-- A controller that has just looked for a source to claim is wired. -/
theorem wired_of_look {after : Cpu PlicState} (unused : cpu.readGirqpend.getLsbD 0 = false)
    (set : cpu.ipmask ≠ 0 → after = cpu.setExternal ∨ after = cpu ∧ cpu.registers.meip = true)
    (reset : cpu.ipmask = 0 → after = cpu.resetExternal ∨ after = cpu ∧ cpu.registers.meip = false) :
    Wired after := by
  by_cases idle : cpu.ipmask = 0
  · rcases reset idle with rfl | ⟨rfl, clear⟩
    · exact ⟨iff_of_false (by simp) (not_not.mpr idle), unused⟩
    · exact ⟨iff_of_false (by simp [clear]) (not_not.mpr idle), unused⟩
  · rcases set idle with rfl | ⟨rfl, pending⟩
    · exact ⟨iff_of_true setExternal_meip idle, unused⟩
    · exact ⟨iff_of_true pending idle, unused⟩

/-- A device pends its source, and what is served stays so. -/
theorem Wired.setPendingIrq (wired : Wired cpu) {irqId : BitVec 32} (valid : IrqId irqId)
    {next : Cpu PlicState} (result : plicSetPendingIrq cpu irqId = .ok next) :
    Wired next ∧ next.readGirqsrvd = cpu.readGirqsrvd := by
  obtain ⟨_, _, returned⟩ := bind_ok.mp result
  obtain rfl := Except.ok.inj returned
  have unused : (cpu.writeGirqpend (cpu.readGirqpend ||| ((1 : BitVec 32) <<< irqId))
      ).readGirqpend.getLsbD 0 = false := by
    rw [writeGirqpend_pend, BitVec.getLsbD_or, wired.unused, irqMask_bit valid.small,
      decide_eq_false valid.nonzero.symm]
    rfl
  constructor
  · apply wired_of_look unused
    · intro pending
      exact Or.inl (if_pos pending)
    · intro idle
      refine Or.inr ⟨if_neg (not_not.mpr idle), ?_⟩
      -- Nothing was claimable before, since no source has left the pending ones.
      by_contra pending
      rw [Bool.not_eq_false] at pending
      obtain ⟨source, claimable⟩ := ipmask_ne_zero.mp (wired.meip.mp pending)
      obtain ⟨pend, free⟩ := claimable_iff.mp claimable
      apply ipmask_ne_zero.mpr _ idle
      refine ⟨source, claimable_iff.mpr ⟨?_, free⟩⟩
      rw [writeGirqpend_pend, BitVec.getLsbD_or, pend, Bool.true_or]
  · split <;> rfl

/-- A device takes its source back. -/
theorem Wired.resetPendingIrq (wired : Wired cpu) {irqId : BitVec 32}
    {next : Cpu PlicState} (result : plicResetPendingIrq cpu irqId = .ok next) :
    Wired next ∧ next.readGirqsrvd = cpu.readGirqsrvd := by
  obtain ⟨_, _, returned⟩ := bind_ok.mp result
  obtain rfl := Except.ok.inj returned
  have unused : (cpu.writeGirqpend (cpu.readGirqpend &&& ~~~((1 : BitVec 32) <<< irqId))
      ).readGirqpend.getLsbD 0 = false := by
    rw [writeGirqpend_pend, BitVec.getLsbD_and, wired.unused, Bool.false_and]
  constructor
  · apply wired_of_look unused
    · intro pending
      refine Or.inr ⟨if_neg pending, ?_⟩
      obtain ⟨source, claimable⟩ := ipmask_ne_zero.mp pending
      obtain ⟨pend, free⟩ := claimable_iff.mp claimable
      rw [writeGirqpend_pend, BitVec.getLsbD_and, Bool.and_eq_true] at pend
      exact wired.meip.mpr (ipmask_ne_zero.mpr ⟨source, claimable_iff.mpr ⟨pend.1, free⟩⟩)
    · intro idle
      exact Or.inl (if_pos idle)
  · split <;> rfl

/-- A claim takes a source that can be claimed, and takes no other away. -/
theorem Wired.claim (wired : Wired cpu) :
    Wired (plicReadClaimComplete cpu).2 ∧
    (∀ source, cpu.Serving source → (plicReadClaimComplete cpu).2.Serving source) ∧
    ((plicReadClaimComplete cpu).1 = 0 ↔ cpu.ipmask = 0) ∧
    (cpu.ipmask ≠ 0 → cpu.Claimable (plicReadClaimComplete cpu).1.toNat ∧
      (plicReadClaimComplete cpu).2.Serving (plicReadClaimComplete cpu).1.toNat ∧
      ∀ source, (plicReadClaimComplete cpu).2.Claimable source ↔
        cpu.Claimable source ∧ source ≠ (plicReadClaimComplete cpu).1.toNat) := by
  by_cases idle : cpu.ipmask = 0
  · have nothing : plicReadClaimComplete cpu = (0, cpu) := if_neg (not_not.mpr idle)
    rw [nothing]
    exact ⟨wired, fun _ => id, iff_of_true rfl idle, fun pending => absurd idle pending⟩
  · obtain ⟨small, bit⟩ := ilog2_spec idle
    have claimed : plicReadClaimComplete cpu = _ := if_pos idle
    rw [claimed]
    dsimp only
    generalize ilog2 cpu.ipmask = irqId at small bit
    generalize written : cpu.writeGirqsrvd (cpu.readGirqsrvd ||| ((1 : BitVec 32) <<< irqId)) = served
    have pend : served.readGirqpend = cpu.readGirqpend := by rw [← written, writeGirqsrvd_pend]
    have serving : ∀ source, served.Serving source ↔ cpu.Serving source ∨ source = irqId.toNat := by
      intro source
      rw [← written, Cpu.Serving, writeGirqsrvd_srvd, BitVec.getLsbD_or, irqMask_bit small,
        Bool.or_eq_true, decide_eq_true_iff]
      exact Iff.rfl
    have claimable : ∀ source, served.Claimable source ↔
        cpu.Claimable source ∧ source ≠ irqId.toNat := by
      intro source
      rw [claimable_iff, claimable_iff, pend, serving, not_or, and_assoc]
    have nonzero : irqId ≠ 0 := by
      rintro rfl
      have zero : cpu.readGirqpend.getLsbD 0 = true := (claimable_iff.mp bit).1
      rw [wired.unused] at zero
      exact absurd zero nofun
    have meip : served.registers.meip = true := by
      rw [← written, writeGirqsrvd_meip]
      exact wired.meip.mpr idle
    have same : ∀ source, (if served.ipmask = 0 then served.resetExternal else served).Serving source ↔
        served.Serving source := by
      intro source
      split <;> rfl
    have kept : ∀ source, (if served.ipmask = 0 then served.resetExternal else served).Claimable source ↔
        served.Claimable source := by
      intro source
      split <;> rfl
    constructor
    · apply wired_of_look (pend ▸ wired.unused)
      · intro pending
        exact Or.inr ⟨if_neg pending, meip⟩
      · intro done
        exact Or.inl (if_pos done)
    · constructor
      · intro source served'
        exact (same source).mpr ((serving source).mpr (Or.inl served'))
      · constructor
        · exact iff_of_false nonzero idle
        · intro _
          constructor
          · exact bit
          · constructor
            · exact (same _).mpr ((serving _).mpr (Or.inr rfl))
            · intro source
              exact (kept source).trans (claimable source)

/-- A completion ends the service of its source, and the interpreter looks for interrupts when there is
a source to claim. -/
theorem Wired.complete (wired : Wired cpu) (val : BitVec 32) :
    Wired (plicWriteClaimComplete cpu val).2 ∧
    (∀ source, (plicWriteClaimComplete cpu val).2.Serving source ↔
      cpu.Serving source ∧ ¬(IrqId val ∧ source = val.toNat)) ∧
    ((plicWriteClaimComplete cpu val).2.ipmask ≠ 0 → IrqId val →
      (plicWriteClaimComplete cpu val).1 = .successAndServeInterrupts) := by
  by_cases valid : IrqId val
  · have completed : plicWriteClaimComplete cpu val = _ := if_pos valid
    rw [completed]
    dsimp only
    generalize written : cpu.writeGirqsrvd (cpu.readGirqsrvd &&& ~~~((1 : BitVec 32) <<< val)) = served
    have pend : served.readGirqpend = cpu.readGirqpend := by rw [← written, writeGirqsrvd_pend]
    have serving : ∀ source, served.Serving source ↔ cpu.Serving source ∧ source ≠ val.toNat := by
      intro source
      rw [← written, Cpu.Serving, writeGirqsrvd_srvd, BitVec.getLsbD_and, BitVec.getLsbD_not,
        irqMask_bit valid.small, Cpu.Serving]
      by_cases inside : source < 32
      · simp [inside]
      · simp [BitVec.getLsbD_of_ge _ _ (Nat.le_of_not_lt inside)]
    have unused : served.readGirqpend.getLsbD 0 = false := pend ▸ wired.unused
    by_cases idle : served.ipmask = 0
    · rw [if_pos idle]
      constructor
      · exact wired_of_look unused (fun pending => absurd idle pending) fun _ => Or.inl rfl
      · constructor
        · intro source
          rw [and_iff_right valid]
          exact serving source
        · exact fun pending => absurd idle pending
    · rw [if_neg idle]
      constructor
      · exact wired_of_look unused (fun _ => Or.inl rfl) fun none => absurd none idle
      · constructor
        · intro source
          rw [and_iff_right valid]
          exact serving source
        · exact fun _ _ => rfl
  · have ignored : plicWriteClaimComplete cpu val = (.success, cpu) := if_neg valid
    rw [ignored]
    exact ⟨wired, fun source => by simp [valid], fun _ valid' => absurd valid' valid⟩

theorem merge_meip (old val mask : Word) (outside : mask[11] = false) :
    (warlMip (merge old val mask))[11] = old[11] := by
  simp [merge, outside]

theorem writeCsrOf_rest (mcycle val : Word) (csr : Csr) :
    (writeCsrOf cpu mcycle val csr).2.rest = cpu.rest := by
  cases csr with
  | sstatus | mstatus =>
      simp only [writeCsrOf, writeCsrMstatus]
      split_ifs <;> rfl
  | satp =>
      simp only [writeCsrOf, writeCsrSatp]
      split_ifs <;> rfl
  | fflags | frm | fcsr =>
      simp only [writeCsrOf]
      split_ifs <;> rfl
  | _ => rfl

theorem writeCsrOf_meip (mcycle val : Word) (csr : Csr) :
    (writeCsrOf cpu mcycle val csr).2.registers.meip = cpu.registers.meip := by
  have delegated : cpu.registers.readMideleg[11] = false := by
    have bit : mipSRwMask[11] = false := by decide
    rw [Registers.readMideleg, warlMideleg, BitVec.getElem_and, bit, Bool.and_false]
  have pending := congrArg Counters.mip (@writeCsrOf_counters PlicState cpu mcycle val csr)
  unfold Registers.meip
  refine (congrArg (fun mip : Word => mip[11]) pending).trans ?_
  dsimp only
  split_ifs
  · rw [merge_meip _ _ _ (by decide), Registers.readMip, warlMip_meip]
  · rw [merge_meip _ _ _ delegated, Registers.readMip, warlMip_meip]
  · rfl

variable (cpu) in
/-- No write to a control and status register reaches the controller or its bit in `mip`. -/
theorem writeCsr_plic (mcycle val : Word) (csraddr : CsrAddress) :
    (writeCsr cpu mcycle val csraddr).2.rest = cpu.rest ∧
      (writeCsr cpu mcycle val csraddr).2.registers.meip = cpu.registers.meip := by
  unfold writeCsr
  split
  · exact ⟨rfl, rfl⟩
  · split
    · exact ⟨rfl, rfl⟩
    · split
      · exact ⟨rfl, rfl⟩
      · exact ⟨writeCsrOf_rest _ _ _, writeCsrOf_meip _ _ _⟩

end State

section Runs

/-- The devices use ids of their own, which are not 0. -/
def PlicCall.Allowed : PlicCall → Prop
  | .setPendingIrq irqId => IrqId irqId
  | .resetPendingIrq irqId => IrqId irqId
  | _ => True

/-- A write that completes a source. -/
def PlicCall.Completes (irqId : BitVec 32) : PlicCall → Prop
  | .writeDevice offset log2Size val =>
      offset = 0x200004 ∧ log2Size = 2 ∧ val.setWidth 32 = irqId
  | _ => False

/-- The states of the runs of a fresh machine. -/
inductive PlicReachable : Cpu PlicState → Prop
  | start {cpu : Cpu PlicState} (mip : cpu.registers.mip = 0) (rest : cpu.rest = ⟨0, 0⟩) :
      PlicReachable cpu
  | perform {cpu next : Cpu PlicState} {status : ExecuteStatus} (before : PlicReachable cpu)
      (call : PlicCall) (allowed : call.Allowed) (result : call.perform cpu = .ok (status, next)) :
      PlicReachable next

/-- The states of the runs that do not complete a source. -/
inductive Uncompleted (irqId : BitVec 32) (cpu : Cpu PlicState) : Cpu PlicState → Prop
  | start : Uncompleted irqId cpu cpu
  | perform {middle next : Cpu PlicState} {status : ExecuteStatus}
      (before : Uncompleted irqId cpu middle) (call : PlicCall) (allowed : call.Allowed)
      (other : ¬call.Completes irqId) (result : call.perform middle = .ok (status, next)) :
      Uncompleted irqId cpu next

variable {cpu next : Cpu PlicState} {status : ExecuteStatus}

/-- What a call does to the controller: it stays wired, only a completion ends a service, and the
interpreter then looks for interrupts when it can be claimed again. -/
theorem Wired.perform (wired : Wired cpu) {call : PlicCall} (allowed : call.Allowed)
    (result : call.perform cpu = .ok (status, next)) :
    Wired next ∧ ∀ source, cpu.Serving source →
      next.Serving source ∨
        (∃ irqId, source = irqId.toNat ∧ call.Completes irqId) ∧
          (next.Claimable source → status = .successAndServeInterrupts) := by
  cases call with
  | setPendingIrq irqId =>
      obtain ⟨pended, pending, returned⟩ := bind_ok.mp result
      obtain ⟨rfl, rfl⟩ := Prod.mk.inj (Except.ok.inj returned)
      obtain ⟨wired', srvd⟩ := wired.setPendingIrq allowed pending
      refine ⟨wired', fun source serving => Or.inl ?_⟩
      rw [Cpu.Serving, srvd]
      exact serving
  | resetPendingIrq irqId =>
      obtain ⟨pended, pending, returned⟩ := bind_ok.mp result
      obtain ⟨rfl, rfl⟩ := Prod.mk.inj (Except.ok.inj returned)
      obtain ⟨wired', srvd⟩ := wired.resetPendingIrq pending
      refine ⟨wired', fun source serving => Or.inl ?_⟩
      rw [Cpu.Serving, srvd]
      exact serving
  | readDevice offset log2Size =>
      obtain ⟨claimed, kept, _⟩ := wired.claim
      rw [PlicCall.perform, plicReadDevice] at result
      split_ifs at result <;> obtain ⟨rfl, rfl⟩ := Prod.mk.inj (Except.ok.inj result)
      · exact ⟨wired, fun source serving => Or.inl serving⟩
      · exact ⟨wired, fun source serving => Or.inl serving⟩
      · exact ⟨wired, fun source serving => Or.inl serving⟩
      · exact ⟨wired, fun source serving => Or.inl serving⟩
      · exact ⟨claimed, fun source serving => Or.inl (kept source serving)⟩
      · exact ⟨wired, fun source serving => Or.inl serving⟩
  | writeDevice offset log2Size val =>
      rw [PlicCall.perform, plicWriteDevice] at result
      split_ifs at result with refused place
      · obtain ⟨rfl, rfl⟩ := Prod.mk.inj (Except.ok.inj result)
        exact ⟨wired, fun source serving => Or.inl serving⟩
      · obtain ⟨wired', serving', serves⟩ := wired.complete (val.setWidth 32)
        rw [Except.ok.inj result] at wired' serving' serves
        refine ⟨wired', fun source serving => ?_⟩
        by_cases completed : IrqId (val.setWidth 32) ∧ source = (val.setWidth 32).toNat
        · right
          constructor
          · push Not at refused
            exact ⟨_, completed.2, place, refused.2.1, rfl⟩
          · intro claimable
            exact serves (ipmask_ne_zero.mpr ⟨source, claimable⟩) completed.1
        · exact Or.inl ((serving' source).mpr ⟨serving, completed⟩)
      · obtain ⟨rfl, rfl⟩ := Prod.mk.inj (Except.ok.inj result)
        exact ⟨wired, fun source serving => Or.inl serving⟩
  | writeCsr mcycle csraddr val =>
      obtain ⟨rest, meip⟩ := writeCsr_plic cpu mcycle val csraddr
      rw [Except.ok.inj result] at rest meip
      have pend : next.readGirqpend = cpu.readGirqpend := by
        rw [Cpu.readGirqpend, rest, Cpu.readGirqpend]
      have srvd : next.readGirqsrvd = cpu.readGirqsrvd := by
        rw [Cpu.readGirqsrvd, rest, Cpu.readGirqsrvd]
      have mask : next.ipmask = cpu.ipmask := by rw [Cpu.ipmask, pend, srvd, Cpu.ipmask]
      refine ⟨⟨?_, pend ▸ wired.unused⟩, fun source serving => Or.inl ?_⟩
      · rw [meip, mask]
        exact wired.meip
      · rw [Cpu.Serving, srvd]
        exact serving

theorem PlicReachable.wired (reachable : PlicReachable cpu) : Wired cpu := by
  induction reachable with
  | start mip rest =>
      constructor
      · refine iff_of_false ?_ ?_
        · simp [Registers.meip, mip]
        · simp [Cpu.ipmask, Cpu.readGirqpend, rest]
      · simp [Cpu.readGirqpend, rest]
  | perform _ call allowed result ih => exact (ih.perform allowed result).1

/-- A source that is served stays so in a run that does not complete it. -/
theorem Uncompleted.serving {irqId : BitVec 32} (run : Uncompleted irqId cpu next)
    (wired : Wired cpu) (serving : cpu.Serving irqId.toNat) :
    Wired next ∧ next.Serving irqId.toNat := by
  induction run with
  | start => exact ⟨wired, serving⟩
  | perform _ call allowed other result ih =>
      obtain ⟨wired', kept⟩ := ih.1.perform allowed result
      refine ⟨wired', ?_⟩
      rcases kept _ ih.2 with still | ⟨⟨completed, same, completes⟩, _⟩
      · exact still
      · obtain rfl := BitVec.eq_of_toNat_eq same
        exact absurd completes other

def plicCpu : Cpu PlicState where
  registers := scratchCpu.registers
  x := scratchCpu.x
  tlbValid := scratchCpu.tlbValid
  rest := ⟨0, 0⟩

end Runs

end MachineEmulator.Interpret
