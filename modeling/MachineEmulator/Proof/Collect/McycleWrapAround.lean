/-
This file proves what a collection returns whether or not its phase wraps around, and that a
wrap-around inside the range makes some split differ from the whole.
-/

import MachineEmulator.Construction.SymbolicHasher
import MachineEmulator.Proof.Collect.McycleSplits

namespace MachineEmulator.Collect

open StepLog (HashFunctionType)

variable {Hash Machine : Type}
variable {hashers : HashFunctionType → Hasher Hash} {config : CollectConfig}
variable {memory : Machine → Memory}
variable {interpret : Machine → Word → InterpreterBreakReason × Machine}
variable {machine : Machine} {mcycleEnd mcyclePeriod mcyclePhase : Word} {log2Count : Int}
variable {previous : Option (BackMerkleTree Hash)}

section Loop

/-- What the loop of the code leaves, with the phase as the code counts it. -/
structure LoopOutcome (memory : Machine → Memory)
    (interpret : Machine → Word → InterpreterBreakReason × Machine)
    (mcycleStart mcycleEnd mcyclePeriod mcyclePhase : Word)
    (progress final : Progress Hash Machine) : Prop where
  ran : interpret progress.machine mcycleEnd = (final.breakReason, final.machine)
  mcyclePhase : final.mcyclePhase.toNat = phaseAfter mcyclePeriod.toNat mcyclePhase.toNat
    ((readMcycle memory final.machine).toNat - mcycleStart.toNat)
  room : HasRoom final.backTree
  log2MaxLeaves : final.backTree.log2MaxLeaves = progress.backTree.log2MaxLeaves
  hashFunction : final.backTree.hashFunction = progress.backTree.hashFunction
  bundled : final.atFixedPoint = true → final.backTree.log2MaxLeaves = 0 →
    final.backTree.leafCount = 0

theorem phaseAfter_lt {period phase cycles : Nat} (positive : 0 < period) :
    phaseAfter period phase cycles < period := Nat.mod_lt _ positive

theorem collectPeriods_outcome (composes : Composes memory interpret)
    {rounds : Nat} {mcycleStart target : Word} {progress final : Progress Hash Machine}
    (live : Live memory mcyclePeriod progress)
    (since : mcycleStart ≤ readMcycle memory progress.machine)
    (towards : readMcycle memory progress.machine < target ∨
      readMcycle memory progress.machine = mcycleEnd)
    (within : target ≤ mcycleEnd)
    (counted : progress.mcyclePhase.toNat = phaseAfter mcyclePeriod.toNat mcyclePhase.toNat
      ((readMcycle memory progress.machine).toNat - mcycleStart.toNat))
    (looped : collectPeriods hashers config memory interpret mcycleStart mcycleEnd mcyclePeriod
      mcyclePhase rounds target progress = .ok final) :
    LoopOutcome memory interpret mcycleStart mcycleEnd mcyclePeriod mcyclePhase progress final := by
  have positive : 0 < mcyclePeriod.toNat := Nat.zero_lt_of_lt (BitVec.lt_def.mp live.mcyclePhase)
  induction rounds generalizing target progress with
  | zero => exact absurd looped (by simp [collectPeriods])
  | succ rounds ih =>
      rw [collectPeriods] at looped
      by_cases ahead : readMcycle memory progress.machine < target
      · rw [if_pos ahead] at looped
        obtain ⟨next, rounded, looped⟩ := bind_ok.mp looped
        obtain ⟨_, _, settled, _, _, facts⟩ := settle_follows hashers config memory
          (Follows.refl progress) live.room
          (((readMcycle memory (interpret progress.machine target).2 - mcycleStart) % mcyclePeriod +
            mcyclePhase) % mcyclePeriod) (interpret progress.machine target)
        rw [collectPeriod_eq] at rounded
        cases rounded.symm.trans settled
        obtain ⟨onwards, _⟩ := composes.forward _ _ live.running ahead
        have counted' : next.mcyclePhase.toNat = phaseAfter mcyclePeriod.toNat mcyclePhase.toNat
            ((readMcycle memory next.machine).toNat - mcycleStart.toNat) := by
          rw [facts.mcyclePhase, facts.machine,
            toNat_newPhase _ _ (BitVec.le_trans since onwards)]
        by_cases stopped : (next.atFixedPoint ||
            decide (next.breakReason ≠ .reachedTargetMcycle)) = true
        · rw [if_pos stopped] at looped
          have same : next = final := Except.ok.inj looped
          subst same
          refine ⟨?_, counted', facts.room, facts.log2MaxLeaves, facts.hashFunction, facts.bundled⟩
          rw [facts.breakReason, facts.machine]
          by_cases reached : next.breakReason = .reachedTargetMcycle
          · have fixed : next.atFixedPoint = true := by simpa [reached] using stopped
            have reason := facts.breakReason.symm.trans reached
            rw [facts.atFixedPoint, reachesFixedPoint, reason,
              (composes.reached _ _ live.running ahead reason).1] at fixed
            have last : target = BitVec.allOnes 64 := by simpa using fixed
            rw [last, BitVec.allOnes_le_iff] at within
            rw [last, within]
          · exact composes.stops _ _ _ live.running ahead within (facts.breakReason ▸ reached)
        · rw [if_neg stopped] at looped
          simp only [Bool.or_eq_true, decide_eq_true_eq, not_or, Bool.not_eq_true, not_not] at stopped
          have reason := facts.breakReason.symm.trans stopped.2
          obtain ⟨arrived, running⟩ := composes.reached _ _ live.running ahead reason
          rw [← facts.machine] at arrived running
          have live' : Live memory mcyclePeriod next :=
            ⟨running, BitVec.lt_def.mpr (counted' ▸ phaseAfter_lt positive), facts.room, stopped.1,
              stopped.2⟩
          have further := toNat_saturatingAdd (b := mcyclePeriod) within
          have within' := BitVec.le_def.mp within
          have next_ := ih live' (facts.machine ▸ BitVec.le_trans since onwards)
            (by
              rw [arrived]
              by_cases short : target = mcycleEnd
              · exact .inr short
              · have differ : target.toNat ≠ mcycleEnd.toNat :=
                  fun same => short (BitVec.eq_of_toNat_eq same)
                exact .inl (BitVec.lt_def.mpr (by omega)))
            (BitVec.le_def.mpr (by omega)) counted' looped
          refine ⟨?_, next_.mcyclePhase, next_.room,
            next_.log2MaxLeaves.trans facts.log2MaxLeaves,
            next_.hashFunction.trans facts.hashFunction, next_.bundled⟩
          rw [composes.continues _ _ _ live.running ahead within reason, ← facts.machine]
          exact next_.ran
      · rw [if_neg ahead] at looped
        cases looped
        have arrived := towards.resolve_left ahead
        refine ⟨?_, counted, live.room, rfl, rfl, fun fixed => ?_⟩
        · rw [composes.past _ _ live.running (arrived ▸ BitVec.le_refl _), live.reached]
        · exact absurd (live.moving.symm.trans fixed) (by simp)

end Loop

section Calls

variable [Inhabited Hash]

/-- What a call returns, with the phase as the code counts it. -/
theorem collect_outcome (composes : Composes memory interpret)
    (admissible : Admissible config memory machine mcycleEnd mcyclePeriod mcyclePhase log2Count
      previous) (running : Running memory machine) {result : McycleRootHashes Hash}
    {reached : Machine}
    (collected : collectMcycleRootHashes hashers config memory interpret machine mcycleEnd
      mcyclePeriod mcyclePhase log2Count previous = .ok (result, reached)) :
    BundleFits mcyclePeriod log2Count ∧
      interpret machine mcycleEnd = (result.breakReason, reached) ∧
      result.mcyclePhase.toNat = phaseAfter mcyclePeriod.toNat mcyclePhase.toNat
        ((readMcycle memory reached).toNat - (readMcycle memory machine).toNat) ∧
      ∀ backTree ∈ result.backTree, (backTree.log2MaxLeaves : Int) = log2Count ∧
        backTree.hashFunction = config.hashFunction ∧ HasRoom backTree := by
  have live := live_firstProgress admissible running
  have phase := BitVec.lt_def.mp admissible.mcyclePhase
  rw [collectMcycleRootHashes_eq admissible, if_neg (not_not_intro running.1),
    if_neg (not_not_intro running.2), collectFrom, initialBackTree_eq admissible] at collected
  obtain ⟨tree, made, collected⟩ := bind_ok.mp collected
  cases made
  obtain ⟨_, fits, collected⟩ := bind_ok.mp collected
  obtain ⟨final, looped, finished⟩ := bind_ok.mp collected
  have towards : readMcycle memory machine < saturatingAdd (readMcycle memory machine)
      (mcyclePeriod - mcyclePhase) mcycleEnd ∨ readMcycle memory machine = mcycleEnd := by
    by_cases ahead : readMcycle memory machine < mcycleEnd
    · exact .inl (lt_nextTarget memory live ahead).1
    · exact .inr (BitVec.le_antisymm admissible.ahead (BitVec.not_lt.mp ahead))
  have within : saturatingAdd (readMcycle memory machine) (mcyclePeriod - mcyclePhase) mcycleEnd ≤
      mcycleEnd := by
    rw [BitVec.le_def, toNat_saturatingAdd admissible.ahead]
    exact Nat.min_le_right _ _
  have counted : mcyclePhase.toNat = phaseAfter mcyclePeriod.toNat mcyclePhase.toNat
      ((readMcycle memory machine).toNat - (readMcycle memory machine).toNat) := by
    rw [phaseAfter_eq (.inr (by have := mcyclePhase.isLt; omega)) phase, Nat.sub_self, Nat.add_zero,
      Nat.mod_eq_of_lt phase]
  have outcome := collectPeriods_outcome composes live (BitVec.le_refl _) towards within counted
    looped
  obtain ⟨_, height, function⟩ := firstTree_facts admissible
  have height' : final.backTree.log2MaxLeaves = log2Count.toNat :=
    outcome.log2MaxLeaves.trans height
  have small := admissible.small
  have nonnegative := admissible.nonnegative
  obtain ⟨result', _, finished', _, _, phase', reason, fixedTree, movingTree⟩ :=
    @finishCollection_follows Hash Machine hashers config _ [] final final (Follows.refl final)
      outcome.room (by omega) outcome.bundled
  rw [height'] at finished'
  cases Except.ok.inj (finished.symm.trans finished')
  have fits' : mcyclePeriod * (1#64 <<< log2Count.toNat) ≠ 0 := check_ok.mp fits
  refine ⟨fits', reason ▸ outcome.ran, phase' ▸ outcome.mcyclePhase, ?_⟩
  intro backTree member
  by_cases fixed : final.atFixedPoint = true
  · rw [fixedTree fixed] at member
    exact absurd member (by simp)
  · rw [(movingTree (by simpa using fixed)).2] at member
    split at member
    · exact absurd member (by simp)
    · rw [Option.mem_some_iff] at member
      subst member
      exact ⟨by omega, outcome.hashFunction.trans function, outcome.room⟩

/-- A run that goes beyond a target reaches it. -/
theorem reaches_of_lt (composes : Composes memory interpret) {target : Word}
    (running : Running memory machine) (ahead : readMcycle memory machine ≤ target)
    (order : target ≤ mcycleEnd)
    (beyond : target < readMcycle memory (interpret machine mcycleEnd).2) :
    (interpret machine target).1 = .reachedTargetMcycle ∧
      readMcycle memory (interpret machine target).2 = target ∧
      Running memory (interpret machine target).2 ∧
      interpret (interpret machine target).2 mcycleEnd = interpret machine mcycleEnd := by
  by_cases before : readMcycle memory machine < target
  · have reason : (interpret machine target).1 = .reachedTargetMcycle := by
      by_contra other
      have bounded := BitVec.le_def.mp (composes.forward _ _ running before).2
      rw [composes.stops _ _ _ running before order other] at beyond
      have := BitVec.lt_def.mp beyond
      omega
    obtain ⟨arrived, running'⟩ := composes.reached _ _ running before reason
    exact ⟨reason, arrived, running', (composes.continues _ _ _ running before order reason).symm⟩
  · rw [composes.past _ _ running (BitVec.not_lt.mp before)]
    exact ⟨rfl, BitVec.le_antisymm ahead (BitVec.not_lt.mp before), running, rfl⟩

/-- Consecutive calls go through a target that the whole run passes. -/
theorem collectCalls_through (composes : Composes memory interpret) {target : Word}
    {targets : List Word} {parts : McycleRootHashes Hash} {final : Machine}
    (admissible : Admissible config memory machine mcycleEnd mcyclePeriod mcyclePhase log2Count
      previous) (running : Running memory machine)
    (ahead : readMcycle memory machine ≤ target) (order : target ≤ mcycleEnd)
    (beyond : target < readMcycle memory (interpret machine mcycleEnd).2)
    (called : collectCalls hashers config memory interpret mcycleEnd mcyclePeriod log2Count
      (target :: targets) machine mcyclePhase previous = .ok (parts, final)) :
    ∃ (first : McycleRootHashes Hash) (reached : Machine) (rest : McycleRootHashes Hash),
      collectCalls hashers config memory interpret mcycleEnd mcyclePeriod log2Count targets reached
        first.mcyclePhase first.backTree = .ok (rest, final) ∧
      parts.mcyclePhase = rest.mcyclePhase ∧
      Admissible config memory reached mcycleEnd mcyclePeriod first.mcyclePhase log2Count
        first.backTree ∧
      Running memory reached ∧ readMcycle memory reached = target ∧
      interpret reached mcycleEnd = interpret machine mcycleEnd ∧
      first.mcyclePhase.toNat = phaseAfter mcyclePeriod.toNat mcyclePhase.toNat
        (target.toNat - (readMcycle memory machine).toNat) := by
  rw [collectCalls] at called
  obtain ⟨⟨first, reached⟩, collected, called⟩ := bind_ok.mp called
  obtain ⟨_, ran, phase, backTree⟩ :=
    collect_outcome composes { admissible with ahead := ahead } running collected
  obtain ⟨reason, arrived, running', same⟩ := reaches_of_lt composes running ahead order beyond
  rw [ran] at reason arrived running' same
  change first.breakReason = .reachedTargetMcycle at reason
  change (if first.breakReason = .reachedTargetMcycle ∨ first.breakReason = .halted ∨
    first.breakReason = .yieldedManually then _ else _) = _ at called
  rw [if_pos (.inl reason)] at called
  obtain ⟨⟨rest, final'⟩, called, done⟩ := bind_ok.mp called
  cases done
  refine ⟨first, reached, rest, called, rfl, ?_, running', arrived, same, arrived ▸ phase⟩
  have positive := BitVec.lt_def.mp admissible.mcyclePhase
  exact { admissible with
    ahead := arrived ▸ order
    mcyclePhase := BitVec.lt_def.mpr (phase ▸ phaseAfter_lt (by omega))
    backTree := backTree
    uarchReset := by
      by_cases before : readMcycle memory machine < target
      · have kept := composes.uarchCycle _ _ running before
        rw [ran] at kept
        exact kept.trans admissible.uarchReset
      · rw [composes.past _ _ running (BitVec.not_lt.mp before)] at ran
        have stays : machine = reached := congrArg Prod.snd ran
        rw [← stays]
        exact admissible.uarchReset }

/-- A sum that wraps around loses `2^64`. -/
theorem phaseAfter_wrap {period phase cycles : Nat} (inside : phase < period)
    (short : cycles < period) (bound : period < 2 ^ 64) (wraps : 2 ^ 64 ≤ cycles + phase) :
    phaseAfter period phase cycles = cycles + phase - 2 ^ 64 := by
  rw [phaseAfter, Nat.mod_eq_of_lt short, Nat.mod_eq_sub_mod wraps,
    Nat.mod_eq_of_lt (a := cycles + phase - 2 ^ 64) (by omega), Nat.mod_eq_of_lt (by omega)]

/-- The phase that consecutive calls compute on their way to a final cycle. -/
def phaseAlong (period final : Nat) : Nat → Nat → List Word → Nat
  | phase, start, [] => phaseAfter period phase (final - start)
  | phase, start, target :: targets =>
      phaseAlong period final (phaseAfter period phase (target.toNat - start)) target.toNat targets

theorem collectCalls_phase (composes : Composes memory interpret) {targets : List Word}
    {parts : McycleRootHashes Hash} {final : Machine} {last : Nat}
    (admissible : Admissible config memory machine mcycleEnd mcyclePeriod mcyclePhase log2Count
      previous) (running : Running memory machine)
    (consecutive : Consecutive mcycleEnd (readMcycle memory machine) targets)
    (stops : (readMcycle memory (interpret machine mcycleEnd).2).toNat = last)
    (passed : ∀ target ∈ targets, target.toNat < last)
    (called : collectCalls hashers config memory interpret mcycleEnd mcyclePeriod log2Count targets
      machine mcyclePhase previous = .ok (parts, final)) :
    parts.mcyclePhase.toNat = phaseAlong mcyclePeriod.toNat last mcyclePhase.toNat
      (readMcycle memory machine).toNat targets := by
  induction targets generalizing machine mcyclePhase previous parts with
  | nil =>
      obtain ⟨_, ran, counted, _⟩ := collect_outcome composes admissible running called
      rw [ran] at stops
      rw [counted, phaseAlong, ← stops]
  | cons target targets ih =>
      have beyond : target < readMcycle memory (interpret machine mcycleEnd).2 := by
        rw [BitVec.lt_def, stops]
        exact passed target List.mem_cons_self
      obtain ⟨first, reached, rest, called', phase, admissible', running', arrived, same, counted⟩ :=
        collectCalls_through composes admissible running consecutive.1 consecutive.2.le beyond called
      have onwards := ih admissible' running' (arrived ▸ consecutive.2) (same ▸ stops)
        (fun other member => passed other (List.mem_cons_of_mem _ member)) called'
      rw [phase, onwards, phaseAlong, counted, arrived]

/-- A cycle after the start. -/
def cycleAt (start : Word) (cycles : Nat) : Word := BitVec.ofNat 64 (start.toNat + cycles)

theorem toNat_cycleAt {start : Word} {cycles : Nat} (fits : start.toNat + cycles < 2 ^ 64) :
    (cycleAt start cycles).toNat = start.toNat + cycles := by
  rw [cycleAt, BitVec.toNat_ofNat, Nat.mod_eq_of_lt fits]

/-- When the phase wraps around inside the range, some split has another phase than the whole. -/
theorem exists_split_of_wrap {period phase last : Nat} {start mcycleEnd : Word}
    (inside : phase < period) (bound : period < 2 ^ 64) (large : 2 ^ 63 < period)
    (limit : last ≤ mcycleEnd.toNat) (wraps : 2 ^ 64 ≤ last - start.toNat + phase) :
    ∃ targets : List Word, Consecutive mcycleEnd start targets ∧
      (∀ target ∈ targets, target.toNat < last) ∧
      phaseAlong period last phase start.toNat targets ≠
        phaseAfter period phase (last - start.toNat) := by
  have endBound := mcycleEnd.isLt
  rcases Nat.lt_or_ge (last - start.toNat) period with short | long
  · -- The whole wraps around, and its two parts at the period boundary do not.
    have place := @toNat_cycleAt start (period - phase) (by omega)
    refine ⟨[cycleAt start (period - phase)], ⟨?_, ?_⟩, ?_, ?_⟩
    · rw [BitVec.le_def]
      omega
    · rw [Consecutive, BitVec.le_def]
      omega
    · intro target member
      rw [List.mem_singleton] at member
      subst member
      omega
    · rw [phaseAlong, phaseAlong, place, Nat.add_sub_cancel_left,
        phaseAfter_eq (.inr (by omega)) inside, Nat.add_sub_cancel' inside.le, Nat.mod_self,
        phaseAfter_eq (.inr (by omega)) (by omega), phaseAfter_wrap inside short bound wraps,
        Nat.mod_eq_of_lt (by omega)]
      omega
  · -- The whole does not wrap around, and a part that starts at the last cycle of a period does.
    have place := @toNat_cycleAt start (period - 1 - phase) (by omega)
    have whole : phaseAfter period phase (last - start.toNat) =
        (last - start.toNat - period + phase) % period := by
      rw [phaseAfter, Nat.mod_eq_sub_mod long,
        Nat.mod_eq_of_lt (a := last - start.toNat - period) (by omega),
        Nat.mod_eq_of_lt (a := last - start.toNat - period + phase) (by omega)]
    have lastCycle : phaseAfter period phase (period - 1 - phase) = period - 1 := by
      rw [phaseAfter_eq (.inr (by omega)) inside, Nat.mod_eq_of_lt (by omega)]
      omega
    rcases Nat.lt_or_ge (last - start.toNat - (period - 1 - phase)) period with near | far
    · refine ⟨[cycleAt start (period - 1 - phase)], ⟨?_, ?_⟩, ?_, ?_⟩
      · rw [BitVec.le_def]
        omega
      · rw [Consecutive, BitVec.le_def]
        omega
      · intro target member
        rw [List.mem_singleton] at member
        subst member
        omega
      · rw [phaseAlong, phaseAlong, place, Nat.add_sub_cancel_left, lastCycle, whole,
          phaseAfter_wrap (by omega) (by omega) bound (by omega), Nat.mod_eq_of_lt (by omega)]
        omega
    · have place' := @toNat_cycleAt start (2 ^ 64 - phase) (by omega)
      refine ⟨[cycleAt start (period - 1 - phase), cycleAt start (2 ^ 64 - phase)],
        ⟨?_, ?_, ?_⟩, ?_, ?_⟩
      · rw [BitVec.le_def]
        omega
      · rw [BitVec.le_def]
        omega
      · rw [Consecutive, BitVec.le_def]
        omega
      · intro target member
        rw [List.mem_cons, List.mem_singleton] at member
        rcases member with rfl | rfl <;> omega
      · have around : phaseAfter period (period - 1) (start.toNat + (2 ^ 64 - phase) -
            (start.toNat + (period - 1 - phase))) = 0 := by
          rw [phaseAfter_wrap (by omega) (by omega) bound (by omega)]
          omega
        rw [phaseAlong, phaseAlong, phaseAlong, place, place', Nat.add_sub_cancel_left, lastCycle,
          around, whole, phaseAfter_eq (.inr (by omega)) (by omega), Nat.zero_add,
          Nat.mod_eq_of_lt (a := last - (start.toNat + (2 ^ 64 - phase))) (by omega)]
        rcases Nat.lt_or_ge (last - start.toNat - period + phase) period with inside' | outside
        · rw [Nat.mod_eq_of_lt inside']
          omega
        · rw [Nat.mod_eq_sub_mod outside, Nat.mod_eq_of_lt (by omega)]
          omega

/-- Equal phases for every split mean that no phase wraps around. -/
theorem countsExactly_of_samePhase (composes : Composes memory interpret)
    (admissible : Admissible config memory machine mcycleEnd mcyclePeriod mcyclePhase log2Count
      previous) (running : Running memory machine)
    {whole : McycleRootHashes Hash} {final : Machine}
    (collected : collectMcycleRootHashes hashers config memory interpret machine mcycleEnd
      mcyclePeriod mcyclePhase log2Count previous = .ok (whole, final))
    (same : ∀ targets, Consecutive mcycleEnd (readMcycle memory machine) targets →
      ∃ parts, collectCalls hashers config memory interpret mcycleEnd mcyclePeriod log2Count targets
        machine mcyclePhase previous = .ok (parts, final) ∧
        parts.mcyclePhase = whole.mcyclePhase) :
    CountsExactly memory interpret machine mcycleEnd mcyclePeriod mcyclePhase := by
  by_contra wraps
  rw [CountsExactly, not_or, not_le, not_lt] at wraps
  obtain ⟨large, wraps⟩ := wraps
  obtain ⟨_, ran, counted, _⟩ := collect_outcome composes admissible running collected
  have before : readMcycle memory machine < mcycleEnd := by
    by_contra behind
    rw [composes.past _ _ running (BitVec.not_lt.mp behind), Nat.sub_self] at wraps
    have := mcyclePhase.isLt
    omega
  obtain ⟨targets, consecutive, passed, differs⟩ := exists_split_of_wrap
    (BitVec.lt_def.mp admissible.mcyclePhase) mcyclePeriod.isLt large
    (BitVec.le_def.mp (composes.forward _ _ running before).2) wraps
  obtain ⟨parts, called, phase⟩ := same targets consecutive
  have along := collectCalls_phase composes admissible running consecutive rfl passed called
  rw [phase, counted] at along
  apply differs
  rw [← along, ran]

end Calls

section Compositional

variable [Inhabited Hash]

/-- What a caller sees of a back tree. -/
def observeBackTree (backTree : BackMerkleTree Hash) : Nat × HashFunctionType × Nat × List Hash :=
  (backTree.log2MaxLeaves, backTree.hashFunction, backTree.leafCount, backTree.getContext)

/-- The collection returns, and all consecutive calls over its range end in the same state, with the
same hashes one after the other, the same phase and the same back tree. -/
def Compositional (hashers : HashFunctionType → Hasher Hash) (config : CollectConfig)
    (memory : Machine → Memory) (interpret : Machine → Word → InterpreterBreakReason × Machine)
    (machine : Machine) (mcycleEnd mcyclePeriod mcyclePhase : Word) (log2Count : Int)
    (previous : Option (BackMerkleTree Hash)) : Prop :=
  ∃ whole final,
    collectMcycleRootHashes hashers config memory interpret machine mcycleEnd mcyclePeriod
      mcyclePhase log2Count previous = .ok (whole, final) ∧
    ∀ targets, Consecutive mcycleEnd (readMcycle memory machine) targets →
      ∃ parts, collectCalls hashers config memory interpret mcycleEnd mcyclePeriod log2Count targets
        machine mcyclePhase previous = .ok (parts, final) ∧
        parts.hashes = whole.hashes ∧ parts.mcyclePhase = whole.mcyclePhase ∧
        parts.breakReason = whole.breakReason ∧
        parts.backTree.map observeBackTree = whole.backTree.map observeBackTree

omit [Inhabited Hash] in
theorem observe_of_same {first second : Option (BackMerkleTree Hash)}
    (same : Option.Rel BackMerkleTree.Same first second) :
    first.map observeBackTree = second.map observeBackTree := by
  cases same with
  | none => rfl
  | some same =>
      rw [Option.map_some, Option.map_some, observeBackTree, observeBackTree, same.log2MaxLeaves,
        same.hashFunction, same.leafCount, same.getContext]

theorem compositional_of_stopped {breakReason : InterpreterBreakReason}
    (admissible : Admissible config memory machine mcycleEnd mcyclePeriod mcyclePhase log2Count
      previous)
    (stopped : readIflagsH memory machine ≠ 0 ∧ breakReason = .halted ∨
      readIflagsH memory machine = 0 ∧ readIflagsY memory machine ≠ 0 ∧
        breakReason = .yieldedManually) :
    Compositional hashers config memory interpret machine mcycleEnd mcyclePeriod mcyclePhase
      log2Count previous := by
  have whole := @collectCalls_stopped Hash Machine _ hashers config memory interpret machine mcycleEnd
    mcyclePeriod mcyclePhase log2Count previous breakReason [] admissible admissible.ahead stopped
  refine ⟨_, _, whole, fun targets consecutive => ?_⟩
  exact ⟨_, collectCalls_stopped admissible consecutive stopped, rfl, rfl, rfl, rfl⟩

theorem compositional_of_countsExactly (composes : Composes memory interpret)
    (admissible : Admissible config memory machine mcycleEnd mcyclePeriod mcyclePhase log2Count
      previous) (running : Running memory machine) (fits : BundleFits mcyclePeriod log2Count)
    (counts : CountsExactly memory interpret machine mcycleEnd mcyclePeriod mcyclePhase) :
    Compositional hashers config memory interpret machine mcycleEnd mcyclePeriod mcyclePhase
      log2Count previous := by
  obtain ⟨final, advances, collected⟩ := @collect_advances Hash Machine hashers config memory
    interpret _ machine mcycleEnd mcyclePeriod mcyclePhase log2Count previous composes admissible
    running fits counts
  obtain ⟨whole, _, finished, _⟩ := advances.finish composes admissible running (Follows.refl final)
  refine ⟨whole, final.machine, collected.trans finished, fun targets consecutive => ?_⟩
  obtain ⟨parts, whole', called, finished', agrees⟩ :=
    collectCalls_agree composes fits admissible running counts consecutive advances
  cases Except.ok.inj (finished.symm.trans finished')
  exact ⟨parts, called, agrees.hashes, agrees.mcyclePhase, agrees.breakReason,
    observe_of_same agrees.backTree⟩

/-- A collection is the concatenation of the collections over the parts of its range exactly when
the machine does not run at all, or the reserved space has a divisor and no phase wraps around. -/
theorem collectMcycleRootHashes_compositional_iff (composes : Composes memory interpret)
    (admissible : Admissible config memory machine mcycleEnd mcyclePeriod mcyclePhase log2Count
      previous) :
    Compositional hashers config memory interpret machine mcycleEnd mcyclePeriod mcyclePhase
      log2Count previous ↔
    readIflagsH memory machine ≠ 0 ∨ readIflagsY memory machine ≠ 0 ∨
      BundleFits mcyclePeriod log2Count ∧
        CountsExactly memory interpret machine mcycleEnd mcyclePeriod mcyclePhase := by
  by_cases halted : readIflagsH memory machine = 0
  · by_cases yielded : readIflagsY memory machine = 0
    · have running : Running memory machine := ⟨halted, yielded⟩
      constructor
      · rintro ⟨whole, final, collected, splits⟩
        refine .inr (.inr ⟨(collect_outcome composes admissible running collected).1, ?_⟩)
        apply countsExactly_of_samePhase composes admissible running collected
        intro targets consecutive
        obtain ⟨parts, called, _, phase, _⟩ := splits targets consecutive
        exact ⟨parts, called, phase⟩
      · rintro (other | other | ⟨fits, counts⟩)
        · exact absurd halted other
        · exact absurd yielded other
        · exact compositional_of_countsExactly composes admissible running fits counts
    · exact ⟨fun _ => .inr (.inl yielded),
        fun _ => compositional_of_stopped admissible (.inr ⟨halted, yielded, rfl⟩)⟩
  · exact ⟨fun _ => .inl halted,
      fun _ => compositional_of_stopped admissible (.inl ⟨halted, rfl⟩)⟩

end Compositional

section Spinning

/-- A program that jumps to itself: only the cycle counter changes. -/
def spin (memory : Memory) (target : Word) : InterpreterBreakReason × Memory :=
  if readIflagsH id memory ≠ 0 then (.halted, memory)
  else if readIflagsY id memory ≠ 0 then (.yieldedManually, memory)
  else if readMcycle id memory < target then
    (.reachedTargetMcycle, memory.storeWord StepLog.mcycleAddress target)
  else (.reachedTargetMcycle, memory)

theorem readMcycle_storeWord (memory : Memory) (value : Word) :
    readMcycle id (memory.storeWord StepLog.mcycleAddress value) = value :=
  memory.loadWord_storeWord _ _ (by decide)

theorem running_storeWord {memory : Memory} (running : Running id memory) (value : Word) :
    Running id (memory.storeWord StepLog.mcycleAddress value) :=
  ⟨(memory.loadWord_storeWord_of_disjoint _ _ _ (by decide) (by decide) (by decide)).trans running.1,
    (memory.loadWord_storeWord_of_disjoint _ _ _ (by decide) (by decide) (by decide)).trans running.2⟩

theorem spin_ahead {memory : Memory} {target : Word} (running : Running id memory)
    (ahead : readMcycle id memory < target) :
    spin memory target = (.reachedTargetMcycle, memory.storeWord StepLog.mcycleAddress target) := by
  rw [spin, if_neg (not_not_intro running.1), if_neg (not_not_intro running.2), if_pos ahead]

theorem spin_past {memory : Memory} {target : Word} (running : Running id memory)
    (arrived : target ≤ readMcycle id memory) : spin memory target = (.reachedTargetMcycle, memory) := by
  rw [spin, if_neg (not_not_intro running.1), if_neg (not_not_intro running.2),
    if_neg (BitVec.not_lt.mpr arrived)]

theorem spin_composes : Composes id spin where
  past _ _ running arrived := spin_past running arrived
  forward memory target running ahead := by
    rw [spin_ahead running ahead, readMcycle_storeWord]
    exact ⟨BitVec.le_of_lt ahead, BitVec.le_refl _⟩
  reached memory target running ahead _ := by
    rw [spin_ahead running ahead]
    exact ⟨readMcycle_storeWord _ _, running_storeWord running _⟩
  halted memory target running ahead halted := by
    rw [spin_ahead running ahead] at halted
    exact absurd halted (by simp)
  yielded memory target running ahead yielded := by
    rw [spin_ahead running ahead] at yielded
    exact absurd yielded (by simp)
  uarchCycle memory target running ahead := by
    rw [spin_ahead running ahead]
    exact memory.loadWord_storeWord_of_disjoint _ _ _ (by decide) (by decide) (by decide)
  continues memory target later running ahead order _ := by
    rw [spin_ahead running ahead, spin_ahead running (word_lt_of_lt_of_le ahead order)]
    have running' := running_storeWord running target
    by_cases same : target = later
    · rw [same, spin_past (same ▸ running')]
      rw [readMcycle_storeWord]
      exact BitVec.le_refl _
    · have further : target.toNat ≠ later.toNat := fun equal => same (BitVec.eq_of_toNat_eq equal)
      have before : readMcycle id (memory.storeWord StepLog.mcycleAddress target) < later := by
        rw [readMcycle_storeWord, BitVec.lt_def]
        have := BitVec.le_def.mp order
        omega
      rw [spin_ahead running' before, Memory.storeWord_storeWord]
  stops memory target later running ahead _ other := by
    rw [spin_ahead running ahead] at other
    exact absurd rfl other

/-- The configuration of a reproducible machine. -/
def plainConfig : CollectConfig := ⟨.keccak256, false, false⟩

theorem readWord_zeroMemory (address : Word) : zeroMemory.loadWord address = 0 := by
  have blank : zeroMemory.load address 8 = List.replicate 8 0 := by
    simp [Memory.load, zeroMemory]
  rw [Memory.loadWord, blank]
  decide

theorem admissible_zeroMemory {mcycleEnd mcyclePeriod mcyclePhase : Word}
    (phase : mcyclePhase < mcyclePeriod) :
    Admissible plainConfig id zeroMemory mcycleEnd mcyclePeriod mcyclePhase 0
      (none : Option (BackMerkleTree Digest)) where
  ahead := by
    rw [readMcycle, id, readWord_zeroMemory]
    exact BitVec.le_def.mpr (Nat.zero_le _)
  mcyclePhase := phase
  nonnegative := le_rfl
  small := by decide
  backTree _ member := absurd member (by simp)
  reproducible := rfl
  hardYield := rfl
  uarchReset := readWord_zeroMemory _

theorem running_zeroMemory : Running id zeroMemory :=
  ⟨readWord_zeroMemory _, readWord_zeroMemory _⟩

/-- Two cycles from the last but one cycle of the longest period: the call for both cycles counts to
`2^64` and gives the phase 0 and a hash, and the call for the second cycle gives the phase 1. -/
theorem longest_period_not_compositional :
    Composes id spin ∧
    Admissible plainConfig id zeroMemory 2 (BitVec.allOnes 64) (BitVec.allOnes 64 - 1) 0
      (none : Option (BackMerkleTree Digest)) ∧
    ¬Compositional (fun _ => symbolicHasher) plainConfig id spin zeroMemory 2 (BitVec.allOnes 64)
      (BitVec.allOnes 64 - 1) 0 none := by
  have admissible := @admissible_zeroMemory 2 (BitVec.allOnes 64) (BitVec.allOnes 64 - 1) (by decide)
  refine ⟨spin_composes, admissible, ?_⟩
  rintro ⟨whole, final, collected, splits⟩
  have counts := countsExactly_of_samePhase spin_composes admissible running_zeroMemory collected
    (fun targets consecutive => by
      obtain ⟨parts, called, _, phase, _⟩ := splits targets consecutive
      exact ⟨parts, called, phase⟩)
  have start : readMcycle id zeroMemory = 0 := readWord_zeroMemory _
  rw [CountsExactly, spin_ahead running_zeroMemory (by rw [start]; decide), readMcycle_storeWord,
    start] at counts
  exact absurd counts (by decide)

/-- Two cycles with a period of one cycle. -/
theorem spinning_compositional :
    Compositional (fun _ => symbolicHasher) plainConfig id spin zeroMemory 2 1 0 0 none := by
  have admissible := @admissible_zeroMemory 2 1 0 (by decide)
  apply (collectMcycleRootHashes_compositional_iff spin_composes admissible).mpr
  refine .inr (.inr ⟨?_, .inl (by decide)⟩)
  rw [BundleFits]
  decide

end Spinning

end MachineEmulator.Collect
