/-
This file proves at which cycles a collection takes its hashes.
-/

import MachineEmulator.Proof.Collect.McycleWrapAround

namespace MachineEmulator.Collect

open StepLog (HashFunctionType)

variable {Hash Machine : Type} (hashers : HashFunctionType → Hasher Hash) (config : CollectConfig)
variable (memory : Machine → Memory)
variable (interpret : Machine → Word → InterpreterBreakReason × Machine)

section Trace

/-- The collection of the hash of a machine. -/
def collectHash (collected : List Hash × BackMerkleTree Hash) (machine : Machine) :
    Except Failure (List Hash × BackMerkleTree Hash) :=
  appendRootHash hashers (Uarch.canonicalRootHash (hashers config.hashFunction) (memory machine))
    collected.1 collected.2

/-- The machine whose hash a round collects, if it collects one. -/
def collectedIn (next : Progress Hash Machine) : List Machine :=
  if next.mcyclePhase = 0 || next.atFixedPoint then [next.machine] else []

/-- The machines whose hashes the collection loop collects, in their order. -/
def collectedMachines (mcycleStart mcycleEnd mcyclePeriod mcyclePhase : Word) :
    Nat → Word → Progress Hash Machine → List Machine
  | 0, _, _ => []
  | rounds + 1, mcycleTarget, progress =>
      if readMcycle memory progress.machine < mcycleTarget then
        match collectPeriod hashers config memory interpret mcycleStart mcyclePeriod mcyclePhase
          mcycleTarget progress with
        | .error _ => []
        | .ok next =>
            collectedIn next ++
              if next.atFixedPoint || next.breakReason ≠ .reachedTargetMcycle then []
              else collectedMachines mcycleStart mcycleEnd mcyclePeriod mcyclePhase rounds
                (saturatingAdd mcycleTarget mcyclePeriod mcycleEnd) next
      else []

variable {hashers config memory interpret}

theorem collectPeriod_hashes {mcycleStart mcyclePeriod mcyclePhase mcycleTarget : Word}
    {progress next : Progress Hash Machine}
    (rounded : collectPeriod hashers config memory interpret mcycleStart mcyclePeriod mcyclePhase
      mcycleTarget progress = .ok next) :
    (collectedIn next).foldlM (collectHash hashers config memory)
      (progress.hashes, progress.backTree) = .ok (next.hashes, next.backTree) := by
  rw [collectPeriod_eq, settle] at rounded
  split at rounded
  · rename_i collected
    obtain ⟨⟨hashes, backTree⟩, appended, rounded⟩ := bind_ok.mp rounded
    obtain rfl := Except.ok.inj rounded
    rw [collectedIn, if_pos collected]
    exact bind_ok.mpr ⟨_, appended, rfl⟩
  · rename_i skipped
    obtain rfl := Except.ok.inj rounded
    rw [collectedIn, if_neg skipped]
    rfl

/-- The hashes and the back tree of the loop are those of the machines. -/
theorem collectPeriods_hashes {mcycleStart mcycleEnd mcyclePeriod mcyclePhase : Word} {rounds : Nat}
    {mcycleTarget : Word} {progress final : Progress Hash Machine}
    (looped : collectPeriods hashers config memory interpret mcycleStart mcycleEnd mcyclePeriod
      mcyclePhase rounds mcycleTarget progress = .ok final) :
    (collectedMachines hashers config memory interpret mcycleStart mcycleEnd mcyclePeriod
      mcyclePhase rounds mcycleTarget progress).foldlM (collectHash hashers config memory)
      (progress.hashes, progress.backTree) = .ok (final.hashes, final.backTree) := by
  induction rounds generalizing mcycleTarget progress with
  | zero => cases looped
  | succ rounds ih =>
      rw [collectPeriods] at looped
      rw [collectedMachines]
      split at looped
      · rename_i ahead
        obtain ⟨next, rounded, looped⟩ := bind_ok.mp looped
        rw [if_pos ahead, rounded]
        change (collectedIn next ++ if (next.atFixedPoint ||
          decide (next.breakReason ≠ .reachedTargetMcycle)) = true then _ else _).foldlM _ _ = _
        rw [List.foldlM_append, collectPeriod_hashes rounded]
        split at looped
        · rename_i stopped
          obtain rfl := Except.ok.inj looped
          rw [if_pos stopped]
          rfl
        · rename_i goes
          rw [if_neg goes]
          exact ih looped
      · rename_i arrived
        obtain rfl := Except.ok.inj looped
        rw [if_neg arrived]
        rfl

end Trace

section Segment

/-- The cycles of a round before its end are no period boundaries. -/
theorem not_dvd_inside {period phase here there mcycle : Nat} (inside : phase < period)
    (short : there ≤ here + (period - phase)) (after : here < mcycle) (before : mcycle < there) :
    ¬period ∣ mcycle - here + phase := by
  intro multiple
  have large := Nat.le_of_dvd (by omega) multiple
  omega

/-- A later cycle is a period boundary for the count from here if it is one from there. -/
theorem dvd_later {period phase here there mcycle : Nat} (first : here ≤ there)
    (second : there ≤ mcycle) :
    period ∣ mcycle - there + (phase + (there - here)) % period ↔
      period ∣ mcycle - here + phase := by
  rw [Nat.dvd_iff_mod_eq_zero, Nat.dvd_iff_mod_eq_zero, Nat.add_mod_mod]
  have sum : mcycle - there + (phase + (there - here)) = mcycle - here + phase := by omega
  rw [sum]

end Segment

section Boundaries

/-- A run of the interpreter to a later target executes at least one cycle. -/
def Moves (memory : Machine → Memory)
    (interpret : Machine → Word → InterpreterBreakReason × Machine) : Prop :=
  ∀ machine target, Running memory machine → readMcycle memory machine < target →
    readMcycle memory machine < readMcycle memory (interpret machine target).2

/-- The machines are taken at the period boundaries after a cycle up to the end of a run, and at
the end itself when that is a fixed point. -/
structure AtBoundaries (memory : Machine → Memory) (period phase here : Nat)
    (outcome : InterpreterBreakReason × Machine) (collected : List Machine) : Prop where
  increasing : (collected.map fun machine => (readMcycle memory machine).toNat).Pairwise (· < ·)
  members : ∀ mcycle, mcycle ∈ collected.map (fun machine => (readMcycle memory machine).toNat) ↔
    here < mcycle ∧ mcycle ≤ (readMcycle memory outcome.2).toNat ∧
      (period ∣ mcycle - here + phase ∨
        mcycle = (readMcycle memory outcome.2).toNat ∧ reachesFixedPoint memory outcome = true)

variable {memory} {period phase here there : Nat} {outcome : InterpreterBreakReason × Machine}

/-- A round collects at its end or not at all. -/
theorem mem_collectedIn {next : Progress Hash Machine} (mcycle : Nat) :
    mcycle ∈ (collectedIn next).map (fun machine => (readMcycle memory machine).toNat) ↔
      mcycle = (readMcycle memory next.machine).toNat ∧
        (next.mcyclePhase = 0 ∨ next.atFixedPoint = true) := by
  rw [collectedIn]
  by_cases collects : (decide (next.mcyclePhase = 0) || next.atFixedPoint) = true
  · rw [if_pos collects, List.map_singleton, List.mem_singleton]
    simp only [Bool.or_eq_true, decide_eq_true_eq] at collects
    exact ⟨fun same => ⟨same, collects⟩, And.left⟩
  · rw [if_neg collects]
    simp only [Bool.or_eq_true, decide_eq_true_eq] at collects
    exact ⟨fun member => absurd member (by simp), fun other => absurd other.2 collects⟩

theorem collectedIn_pairwise (next : Progress Hash Machine) :
    ((collectedIn next).map fun machine => (readMcycle memory machine).toNat).Pairwise (· < ·) := by
  rw [collectedIn]
  split <;> simp

/-- The phase after a round is 0 at a period boundary. -/
theorem phase_zero_iff {next : Progress Hash Machine} (counted : next.mcyclePhase.toNat =
      (phase + ((readMcycle memory next.machine).toNat - here)) % period) :
    next.mcyclePhase = 0 ↔
      period ∣ (readMcycle memory next.machine).toNat - here + phase := by
  rw [Nat.dvd_iff_mod_eq_zero, Nat.add_comm, ← counted]
  exact BitVec.toNat_eq

/-- The last round of a run. -/
theorem AtBoundaries.last {next : Progress Hash Machine} (inside : phase < period)
    (moved : here < (readMcycle memory next.machine).toNat)
    (short : (readMcycle memory next.machine).toNat ≤ here + (period - phase))
    (counted : next.mcyclePhase.toNat =
      (phase + ((readMcycle memory next.machine).toNat - here)) % period)
    (machine : next.machine = outcome.2)
    (fixed : next.atFixedPoint = reachesFixedPoint memory outcome) :
    AtBoundaries memory period phase here outcome (collectedIn next) := by
  refine ⟨collectedIn_pairwise next, ?_⟩
  intro mcycle
  rw [mem_collectedIn, phase_zero_iff counted, fixed, ← machine]
  constructor
  · rintro ⟨rfl, reason⟩
    exact ⟨moved, le_rfl, reason.imp_right fun fixed => ⟨rfl, fixed⟩⟩
  · rintro ⟨after, upTo, reason⟩
    rcases Nat.eq_or_lt_of_le upTo with same | before
    · exact ⟨same, reason.imp (fun multiple => same ▸ multiple) And.right⟩
    · rcases reason with multiple | ⟨same, _⟩
      · exact absurd multiple (not_dvd_inside inside short after before)
      · omega

/-- A round before others. -/
theorem AtBoundaries.cons {next : Progress Hash Machine} {rest : List Machine}
    (inside : phase < period) (moved : here < (readMcycle memory next.machine).toNat)
    (short : (readMcycle memory next.machine).toNat ≤ here + (period - phase))
    (counted : next.mcyclePhase.toNat =
      (phase + ((readMcycle memory next.machine).toNat - here)) % period)
    (moving : next.atFixedPoint = false)
    (onwards : (readMcycle memory next.machine).toNat ≤ (readMcycle memory outcome.2).toNat)
    (further : (readMcycle memory next.machine).toNat = (readMcycle memory outcome.2).toNat →
      reachesFixedPoint memory outcome = false)
    (boundaries : AtBoundaries memory period next.mcyclePhase.toNat
      (readMcycle memory next.machine).toNat outcome rest) :
    AtBoundaries memory period phase here outcome (collectedIn next ++ rest) := by
  constructor
  · rw [List.map_append, List.pairwise_append]
    refine ⟨collectedIn_pairwise next, boundaries.increasing, ?_⟩
    intro first fromNext second fromRest
    rw [mem_collectedIn] at fromNext
    rw [fromNext.1]
    exact ((boundaries.members second).mp fromRest).1
  · intro mcycle
    rw [List.map_append, List.mem_append, mem_collectedIn, boundaries.members, moving,
      phase_zero_iff counted]
    constructor
    · rintro (⟨rfl, reason⟩ | ⟨after, upTo, reason⟩)
      · exact ⟨moved, onwards, .inl (by simpa using reason)⟩
      · refine ⟨by omega, upTo, reason.imp_left ?_⟩
        rw [counted]
        exact (dvd_later moved.le after.le).mp
    · rintro ⟨after, upTo, reason⟩
      rcases Nat.lt_trichotomy mcycle (readMcycle memory next.machine).toNat with before | same | later
      · rcases reason with multiple | ⟨last, _⟩
        · exact absurd multiple (not_dvd_inside inside short after before)
        · omega
      · rcases reason with multiple | ⟨last, fixed⟩
        · exact .inl ⟨same, .inl (same ▸ multiple)⟩
        · rw [further (same.symm.trans last)] at fixed
          cases fixed
      · refine .inr ⟨later, upTo, reason.imp_left ?_⟩
        rw [counted]
        exact (dvd_later moved.le later.le).mpr

end Boundaries

section Loop

variable {hashers config memory interpret}
variable {mcycleStart mcycleEnd mcyclePeriod mcyclePhase : Word} {progress : Progress Hash Machine}

/-- Without a wrap-around the loop collects at the period boundaries. -/
theorem collectedMachines_boundaries (composes : Composes memory interpret)
    (moves : Moves memory interpret) {rounds : Nat} (live : Live memory mcyclePeriod progress)
    (counts : Counted memory interpret mcycleStart mcycleEnd mcyclePeriod mcyclePhase progress)
    (enough : mcycleEnd.toNat - (readMcycle memory progress.machine).toNat < rounds) :
    AtBoundaries memory mcyclePeriod.toNat progress.mcyclePhase.toNat
      (readMcycle memory progress.machine).toNat (interpret progress.machine mcycleEnd)
      (collectedMachines hashers config memory interpret mcycleStart mcycleEnd mcyclePeriod
        mcyclePhase rounds (nextTarget memory mcyclePeriod mcycleEnd progress) progress) := by
  induction rounds generalizing progress with
  | zero => omega
  | succ rounds ih =>
      rw [collectedMachines]
      by_cases before : readMcycle memory progress.machine < mcycleEnd
      · obtain ⟨towards, within⟩ := lt_nextTarget memory live before
        obtain ⟨next, newPhase, rounded, _, facts, counted⟩ :=
          round_settled hashers config composes live before
        have moved := BitVec.lt_def.mp (moves _ _ live.running towards)
        have short := BitVec.le_def.mp (composes.forward _ _ live.running towards).2
        rw [toNat_nextTarget memory live (BitVec.le_of_lt before)] at short
        rw [← facts.machine] at moved short
        rw [← facts.mcyclePhase] at counted
        have inside := BitVec.lt_def.mp live.mcyclePhase
        rw [if_pos towards, counts.collectPeriod composes live before, rounded]
        change AtBoundaries _ _ _ _ _ (collectedIn next ++ if (next.atFixedPoint ||
          decide (next.breakReason ≠ .reachedTargetMcycle)) = true then _ else _)
        by_cases stopped : (next.atFixedPoint ||
            decide (next.breakReason ≠ .reachedTargetMcycle)) = true
        · rw [if_pos stopped, List.append_nil]
          have advances : Advances hashers config memory interpret mcyclePeriod mcycleEnd progress
              next := .stop before rounded (by simpa using stopped)
          have ran := advances.machine composes live counts.ahead
          apply AtBoundaries.last inside moved (by omega) counted
          · rw [ran]
          · rw [ran, facts.atFixedPoint, facts.breakReason, facts.machine]
        · rw [if_neg stopped]
          simp only [Bool.or_eq_true, decide_eq_true_eq, not_or, Bool.not_eq_true, not_not] at stopped
          obtain ⟨live', arrived, reason, machine⟩ :=
            live_next hashers config composes live before rounded stopped.1 stopped.2
          obtain ⟨counts', target⟩ := counts.next composes live before rounded stopped.1 stopped.2
          have before' := BitVec.lt_def.mp before
          have towards' := BitVec.lt_def.mp towards
          have rest := ih live' counts' (by rw [arrived]; omega)
          have same := composes.continues _ _ _ live.running towards within reason
          rw [← machine] at same
          rw [target, same]
          have near : (readMcycle memory next.machine).toNat ≤
              (readMcycle memory progress.machine).toNat +
                (mcyclePeriod.toNat - progress.mcyclePhase.toNat) := by omega
          by_cases further : readMcycle memory next.machine < mcycleEnd
          · have onwards := BitVec.lt_def.mp (moves _ _ live'.running further)
            apply AtBoundaries.cons inside moved near counted stopped.1 onwards.le _ rest
            intro equal
            exact absurd equal onwards.ne
          · have past := composes.past _ _ live'.running (BitVec.not_lt.mp further)
            have here : (readMcycle memory next.machine).toNat ≤
                (readMcycle memory (interpret next.machine mcycleEnd).2).toNat := by rw [past]
            apply AtBoundaries.cons inside moved near counted stopped.1 here _ rest
            intro _
            rw [past, ← stopped.1, facts.atFixedPoint, reachesFixedPoint, reachesFixedPoint,
              reason, ← facts.machine]
      · have arrived : mcycleEnd ≤ readMcycle memory progress.machine := BitVec.not_lt.mp before
        have target : ¬readMcycle memory progress.machine <
            nextTarget memory mcyclePeriod mcycleEnd progress := by
          rw [BitVec.lt_def, toNat_nextTarget memory live counts.ahead]
          have arrived' := BitVec.le_def.mp arrived
          omega
        rw [if_neg target, composes.past _ _ live.running arrived]
        refine ⟨List.Pairwise.nil, ?_⟩
        intro mcycle
        simp only [List.map_nil, List.not_mem_nil, false_iff]
        rintro ⟨after, upTo, _⟩
        exact absurd after (by omega)

end Loop

section Calls

variable [Inhabited Hash]

/-- The machines whose hashes a call collects that passes its checks. -/
def callMachines (machine : Machine) (mcycleEnd mcyclePeriod mcyclePhase : Word)
    (log2BundleMcycleCount : Int) (previousBackTree : Option (BackMerkleTree Hash)) :
    List Machine :=
  if readIflagsH memory machine ≠ 0 ∨ readIflagsY memory machine ≠ 0 then []
  else
    let mcycleStart := readMcycle memory machine
    collectedMachines hashers config memory interpret mcycleStart mcycleEnd mcyclePeriod mcyclePhase
      ((mcycleEnd - mcycleStart).toNat + 1)
      (saturatingAdd mcycleStart (mcyclePeriod - mcyclePhase) mcycleEnd)
      (firstProgress config machine mcyclePhase log2BundleMcycleCount previousBackTree)

/-- The computations of a call are those of numbers without bounds: it does not divide by zero, its
targets do not wrap around, and neither does a phase up to where the run stops. -/
structure CountsAsNumbers (memory : Machine → Memory)
    (interpret : Machine → Word → InterpreterBreakReason × Machine) (machine : Machine)
    (mcycleEnd mcyclePeriod mcyclePhase : Word) (log2BundleMcycleCount : Int) : Prop where
  period : mcyclePeriod ≠ 0
  divisor : mcyclePeriod * (1#64 <<< log2BundleMcycleCount.toNat) ≠ 0
  product : (mcyclePeriod * (1#64 <<< log2BundleMcycleCount.toNat)).toNat =
    mcyclePeriod.toNat * 2 ^ log2BundleMcycleCount.toNat
  first : (mcyclePeriod - mcyclePhase).toNat = mcyclePeriod.toNat - mcyclePhase.toNat
  target : ∀ from_ cycles : Word, from_ ≤ mcycleEnd →
    (saturatingAdd from_ cycles mcycleEnd).toNat = min (from_.toNat + cycles.toNat) mcycleEnd.toNat
  phase : ∀ mcycleReached, readMcycle memory machine ≤ mcycleReached →
    mcycleReached ≤ readMcycle memory (interpret machine mcycleEnd).2 →
      ((mcycleReached - readMcycle memory machine) % mcyclePeriod + mcyclePhase).toNat =
        (mcycleReached.toNat - (readMcycle memory machine).toNat) % mcyclePeriod.toNat +
          mcyclePhase.toNat

variable {hashers config memory interpret}
variable {machine : Machine} {mcycleEnd mcyclePeriod mcyclePhase : Word} {log2Count : Int}
variable {previous : Option (BackMerkleTree Hash)}

omit [Inhabited Hash] in
theorem countsAsNumbers
    (admissible : Admissible config memory machine mcycleEnd mcyclePeriod mcyclePhase log2Count
      previous)
    (fits : mcyclePeriod.toNat * 2 ^ log2Count.toNat < 2 ^ 64)
    (counts : CountsExactly memory interpret machine mcycleEnd mcyclePeriod mcyclePhase) :
    CountsAsNumbers memory interpret machine mcycleEnd mcyclePeriod mcyclePhase log2Count := by
  have inside := BitVec.lt_def.mp admissible.mcyclePhase
  have power : 0 < 2 ^ log2Count.toNat := by positivity
  have product : (mcyclePeriod * (1#64 <<< log2Count.toNat)).toNat =
      mcyclePeriod.toNat * 2 ^ log2Count.toNat := by
    have bounded : 2 ^ log2Count.toNat < 2 ^ 64 := by
      apply lt_of_le_of_lt _ fits
      exact Nat.le_mul_of_pos_left _ (by omega)
    rw [BitVec.toNat_mul, BitVec.toNat_shiftLeft, BitVec.toNat_ofNat, Nat.shiftLeft_eq,
      show 1 % 2 ^ 64 = 1 by decide, Nat.one_mul, Nat.mod_eq_of_lt bounded, Nat.mod_eq_of_lt fits]
  refine ⟨?_, ?_, product, BitVec.toNat_sub_of_le (BitVec.le_of_lt admissible.mcyclePhase),
    fun from_ cycles within => toNat_saturatingAdd within, ?_⟩
  · rintro rfl
    exact absurd inside (by simp)
  · intro zero
    rw [zero] at product
    change 0 = _ at product
    have positive : 0 < mcyclePeriod.toNat * 2 ^ log2Count.toNat :=
      Nat.mul_pos (by omega) power
    omega
  · intro mcycleReached since upTo
    have remainder : (mcycleReached.toNat - (readMcycle memory machine).toNat) %
        mcyclePeriod.toNat < mcyclePeriod.toNat := Nat.mod_lt _ (by omega)
    have smaller := Nat.mod_le (mcycleReached.toNat - (readMcycle memory machine).toNat)
      mcyclePeriod.toNat
    have upTo' := BitVec.le_def.mp upTo
    rw [BitVec.toNat_add, BitVec.toNat_umod, BitVec.toNat_sub_of_le since, Nat.mod_eq_of_lt]
    rcases counts with small | short
    · omega
    · omega

/-- The hashes and the back tree that a call has before it bundles a fixed point are those of its
machines. -/
theorem callMachines_hashes
    (admissible : Admissible config memory machine mcycleEnd mcyclePeriod mcyclePhase log2Count
      previous) {result : McycleRootHashes Hash × Machine} (running : Running memory machine)
    (collected : collectMcycleRootHashes hashers config memory interpret machine mcycleEnd
      mcyclePeriod mcyclePhase log2Count previous = .ok result) :
    ∃ progress : Progress Hash Machine,
      (callMachines hashers config memory interpret machine mcycleEnd mcyclePeriod mcyclePhase
        log2Count previous).foldlM (collectHash hashers config memory)
          ([], firstTree config log2Count previous) = .ok (progress.hashes, progress.backTree) ∧
      finishCollection hashers config log2Count.toNat progress = .ok result := by
  rw [collectMcycleRootHashes_eq admissible, if_neg (not_not_intro running.1),
    if_neg (not_not_intro running.2), collectFrom, initialBackTree_eq admissible] at collected
  obtain ⟨_, _, collected⟩ := bind_ok.mp collected
  obtain ⟨_, _, collected⟩ := bind_ok.mp collected
  obtain ⟨progress, looped, finished⟩ := bind_ok.mp collected
  cases ‹Except.ok _ = Except.ok _›
  refine ⟨progress, ?_, finished⟩
  rw [callMachines, if_neg (by simp [running.1, running.2])]
  exact collectPeriods_hashes looped

theorem callMachines_boundaries (composes : Composes memory interpret)
    (moves : Moves memory interpret)
    (admissible : Admissible config memory machine mcycleEnd mcyclePeriod mcyclePhase log2Count
      previous) (running : Running memory machine)
    (counts : CountsExactly memory interpret machine mcycleEnd mcyclePeriod mcyclePhase) :
    AtBoundaries memory mcyclePeriod.toNat mcyclePhase.toNat (readMcycle memory machine).toNat
      (interpret machine mcycleEnd)
      (callMachines hashers config memory interpret machine mcycleEnd mcyclePeriod mcyclePhase
        log2Count previous) := by
  have rounds : mcycleEnd.toNat - (readMcycle memory machine).toNat <
      (mcycleEnd - readMcycle memory machine).toNat + 1 := by
    rw [BitVec.toNat_sub_of_le admissible.ahead]
    omega
  rw [callMachines, if_neg (by simp [running.1, running.2])]
  exact collectedMachines_boundaries composes moves (live_firstProgress admissible running)
    (counted_firstProgress admissible counts) rounds

variable (hashers config memory interpret machine mcycleEnd mcyclePeriod mcyclePhase log2Count)
  (previous)

/-- A call returns, computes as with numbers, and collects at the period boundaries up to where the
run stops and at a fixed point; a machine that is stopped already has nothing to collect. -/
structure CollectsAtBoundaries : Prop where
  numbers : CountsAsNumbers memory interpret machine mcycleEnd mcyclePeriod mcyclePhase log2Count
  returns : ∃ result, collectMcycleRootHashes hashers config memory interpret machine mcycleEnd
    mcyclePeriod mcyclePhase log2Count previous = .ok result
  boundaries : Running memory machine →
    AtBoundaries memory mcyclePeriod.toNat mcyclePhase.toNat (readMcycle memory machine).toNat
      (interpret machine mcycleEnd)
      (callMachines hashers config memory interpret machine mcycleEnd mcyclePeriod mcyclePhase
        log2Count previous)
  hashes : Running memory machine →
    ∀ result, collectMcycleRootHashes hashers config memory interpret machine mcycleEnd mcyclePeriod
        mcyclePhase log2Count previous = .ok result →
      ∃ progress : Progress Hash Machine,
        (callMachines hashers config memory interpret machine mcycleEnd mcyclePeriod mcyclePhase
          log2Count previous).foldlM (collectHash hashers config memory)
            ([], firstTree config log2Count previous) = .ok (progress.hashes, progress.backTree) ∧
        finishCollection hashers config log2Count.toNat progress = .ok result
  stopped : ¬Running memory machine →
    ∃ breakReason, collectMcycleRootHashes hashers config memory interpret machine mcycleEnd
      mcyclePeriod mcyclePhase log2Count previous =
        .ok (⟨[], mcyclePhase, breakReason, none⟩, machine)

variable {hashers config memory interpret machine mcycleEnd mcyclePeriod mcyclePhase log2Count}
  {previous}

theorem collect_stopped
    (admissible : Admissible config memory machine mcycleEnd mcyclePeriod mcyclePhase log2Count
      previous) (stopped : ¬Running memory machine) :
    ∃ breakReason, collectMcycleRootHashes hashers config memory interpret machine mcycleEnd
      mcyclePeriod mcyclePhase log2Count previous =
        .ok (⟨[], mcyclePhase, breakReason, none⟩, machine) := by
  rw [collectMcycleRootHashes_eq admissible]
  by_cases halted : readIflagsH memory machine ≠ 0
  · rw [if_pos halted]
    exact ⟨_, rfl⟩
  · have yielded : readIflagsY memory machine ≠ 0 := fun clear =>
      stopped ⟨not_not.mp halted, clear⟩
    rw [if_neg halted, if_pos yielded]
    exact ⟨_, rfl⟩

/-- A collection counts without a wrap-around and takes its hashes at the period boundaries and at a
fixed point, if the cycles of a bundle and the phases fit into 64 bits. -/
theorem collectMcycleRootHashes_boundaries (composes : Composes memory interpret)
    (moves : Moves memory interpret)
    (admissible : Admissible config memory machine mcycleEnd mcyclePeriod mcyclePhase log2Count
      previous)
    (fits : mcyclePeriod.toNat * 2 ^ log2Count.toNat < 2 ^ 64)
    (counts : CountsExactly memory interpret machine mcycleEnd mcyclePeriod mcyclePhase) :
    CollectsAtBoundaries hashers config memory interpret machine mcycleEnd mcyclePeriod mcyclePhase
      log2Count previous := by
  have numbers := countsAsNumbers admissible fits counts
  refine ⟨numbers, ?_, fun running => callMachines_boundaries composes moves admissible running
    counts, fun running result collected => callMachines_hashes admissible running collected,
    collect_stopped admissible⟩
  by_cases running : Running memory machine
  · obtain ⟨final, advances, collected⟩ := @collect_advances Hash Machine hashers _ _ _ _ _ _ _ _ _ _
      composes admissible running numbers.divisor counts
    obtain ⟨result, _, finished, -⟩ :=
      advances.finish composes admissible running (Follows.refl final)
    exact ⟨_, collected.trans finished⟩
  · obtain ⟨breakReason, collected⟩ := collect_stopped admissible running
    exact ⟨_, collected⟩

end Calls

section Halting

/-- A program whose first instruction halts the machine. -/
def haltFirst (memory : Memory) (target : Word) : InterpreterBreakReason × Memory :=
  if readIflagsH id memory ≠ 0 then (.halted, memory)
  else if readIflagsY id memory ≠ 0 then (.yieldedManually, memory)
  else if readMcycle id memory < target then
    (.halted, (memory.storeWord StepLog.mcycleAddress (readMcycle id memory + 1)).storeWord
      iflagsHAddress 1)
  else (.reachedTargetMcycle, memory)

theorem haltFirst_ahead {memory : Memory} {target : Word} (running : Running id memory)
    (ahead : readMcycle id memory < target) :
    haltFirst memory target =
      (.halted, (memory.storeWord StepLog.mcycleAddress (readMcycle id memory + 1)).storeWord
        iflagsHAddress 1) := by
  rw [haltFirst, if_neg (not_not_intro running.1), if_neg (not_not_intro running.2), if_pos ahead]

theorem readMcycle_haltFirst {memory : Memory} {target : Word} (running : Running id memory)
    (ahead : readMcycle id memory < target) :
    (readMcycle id (haltFirst memory target).2).toNat = (readMcycle id memory).toNat + 1 := by
  have before := BitVec.lt_def.mp ahead
  have bound := target.isLt
  rw [haltFirst_ahead running ahead, readMcycle, id,
    Memory.loadWord_storeWord_of_disjoint _ _ _ _ (by decide) (by decide) (by decide),
    Memory.loadWord_storeWord _ _ _ (by decide), BitVec.toNat_add]
  exact Nat.mod_eq_of_lt (by change _ + 1 < _; omega)

theorem haltFirst_moves : Moves id haltFirst := by
  intro memory target running ahead
  rw [BitVec.lt_def, readMcycle_haltFirst running ahead]
  omega

theorem haltFirst_composes : Composes id haltFirst where
  past memory target running arrived := by
    rw [haltFirst, if_neg (not_not_intro running.1), if_neg (not_not_intro running.2),
      if_neg (BitVec.not_lt.mpr arrived)]
  forward memory target running ahead := by
    have before := BitVec.lt_def.mp ahead
    rw [BitVec.le_def, BitVec.le_def, readMcycle_haltFirst running ahead]
    omega
  reached memory target running ahead reached := by
    rw [haltFirst_ahead running ahead] at reached
    cases reached
  halted memory target running ahead _ := by
    rw [haltFirst_ahead running ahead, readIflagsH, id,
      Memory.loadWord_storeWord _ _ _ (by decide)]
    decide
  yielded memory target running ahead yielded := by
    rw [haltFirst_ahead running ahead] at yielded
    cases yielded
  uarchCycle memory target running ahead := by
    rw [haltFirst_ahead running ahead, readUarchCycle, id,
      Memory.loadWord_storeWord_of_disjoint _ _ _ _ (by decide) (by decide) (by decide),
      Memory.loadWord_storeWord_of_disjoint _ _ _ _ (by decide) (by decide) (by decide)]
    rfl
  continues memory target later running ahead _ reached := by
    rw [haltFirst_ahead running ahead] at reached
    cases reached
  stops memory target later running ahead order _ := by
    rw [haltFirst_ahead running ahead, haltFirst_ahead running (word_lt_of_lt_of_le ahead order)]

theorem spin_moves : Moves id spin := by
  intro memory target running ahead
  rw [spin_ahead running ahead, readMcycle_storeWord]
  exact ahead

/-- Two cycles with a period of one cycle. -/
theorem spinning_boundaries :
    CollectsAtBoundaries (fun _ => symbolicHasher) plainConfig id spin zeroMemory 2 1 0 0 none :=
  collectMcycleRootHashes_boundaries spin_composes spin_moves
    (admissible_zeroMemory (by decide)) (by decide) (.inl (by decide))

/-- Two cycles of a program that halts at once with a period of two cycles: the hash is taken at the
first cycle. The cycles of a bundle and the phases of a long period wrap around. -/
theorem collections_off_boundary :
    (Admissible plainConfig id zeroMemory 2 2 0 0 (none : Option (BackMerkleTree Digest)) ∧
      ¬∀ mcycle, mcycle ∈ (callMachines (fun _ => symbolicHasher) plainConfig id haltFirst zeroMemory
          2 2 0 0 none).map (fun memory => (readMcycle id memory).toNat) ↔
        0 < mcycle ∧ mcycle ≤ 2 ∧ 2 ∣ mcycle - 0 + 0) ∧
    (Admissible plainConfig id zeroMemory 2 (1#64 <<< 63) 0 1
        (none : Option (BackMerkleTree Digest)) ∧
      ¬CountsAsNumbers id spin zeroMemory 2 (1#64 <<< 63) 0 1) ∧
    Admissible plainConfig id zeroMemory 2 (BitVec.allOnes 64) (BitVec.allOnes 64 - 1) 0
        (none : Option (BackMerkleTree Digest)) ∧
      ¬CountsAsNumbers id spin zeroMemory 2 (BitVec.allOnes 64) (BitVec.allOnes 64 - 1) 0 := by
  have start : readMcycle id zeroMemory = 0 := readWord_zeroMemory _
  have short := @admissible_zeroMemory 2 2 0 (by decide)
  have long := @admissible_zeroMemory 2 (1#64 <<< 63) 0 (by decide)
  have longest := @admissible_zeroMemory 2 (BitVec.allOnes 64) (BitVec.allOnes 64 - 1) (by decide)
  refine ⟨⟨short, ?_⟩, ⟨⟨long.ahead, long.mcyclePhase, by decide, by decide,
    fun backTree member => absurd member (by simp), rfl, rfl, long.uarchReset⟩, ?_⟩, longest, ?_⟩
  · intro claimed
    have ahead : readMcycle id zeroMemory < 2 := by
      rw [start]
      decide
    have boundaries := @callMachines_boundaries Digest Memory (fun _ => symbolicHasher) _ _ _ _ _ _ _
      _ _ _ haltFirst_composes haltFirst_moves short running_zeroMemory (.inl (by decide))
    have last := readMcycle_haltFirst running_zeroMemory ahead
    have fixed : reachesFixedPoint id (haltFirst zeroMemory 2) = true := by
      rw [haltFirst_ahead running_zeroMemory ahead]
      rfl
    rw [start] at last
    have halted := (boundaries.members 1).mpr ⟨by rw [start]; decide, by rw [last]; decide,
      .inr ⟨last.symm, fixed⟩⟩
    exact absurd ((claimed 1).mp halted).2.2 (by decide)
  · intro numbers
    exact absurd numbers.divisor (by decide)
  · intro numbers
    have phase := numbers.phase 2 (by rw [start]; decide) (by
      rw [spin_ahead running_zeroMemory (by rw [start]; decide), readMcycle_storeWord]
      exact BitVec.le_refl _)
    rw [start] at phase
    exact absurd phase (by decide)

end Halting

end MachineEmulator.Collect
