/-
This file proves when consecutive collections give the same as one collection over the whole range.
-/

import MachineEmulator.Proof.Collect.McycleComposition

namespace MachineEmulator.Collect

open StepLog (HashFunctionType)

variable {Hash Machine : Type}
variable {hashers : HashFunctionType → Hasher Hash} {config : CollectConfig}
variable {memory : Machine → Memory}
variable {interpret : Machine → Word → InterpreterBreakReason × Machine}

section Loop

variable {mcyclePeriod mcycleEnd mcycleStart mcyclePhase target : Word}
variable {progress final : Progress Hash Machine}

/-- A run to a later target does not stop at an earlier cycle. -/
theorem mcycle_mono (composes : Composes memory interpret) {machine : Machine}
    (running : Running memory machine) (ahead : readMcycle memory machine < target)
    (order : target ≤ mcycleEnd) :
    readMcycle memory (interpret machine target).2 ≤
      readMcycle memory (interpret machine mcycleEnd).2 := by
  by_cases reached : (interpret machine target).1 = .reachedTargetMcycle
  · obtain ⟨_, running'⟩ := composes.reached _ _ running ahead reached
    rw [composes.continues _ _ _ running ahead order reached]
    by_cases before : readMcycle memory (interpret machine target).2 < mcycleEnd
    · exact (composes.forward _ _ running' before).1
    · rw [composes.past _ _ running' (BitVec.not_lt.mp before)]
      exact BitVec.le_refl _
  · rw [composes.stops _ _ _ running ahead order reached]
    exact BitVec.le_refl _

/-- Two ways to count the cycles of the current period. -/
theorem phase_add {period phase start here there : Nat} (first : start ≤ here)
    (second : here ≤ there) :
    ((phase + (here - start)) % period + (there - here)) % period =
      (phase + (there - start)) % period := by
  rw [Nat.mod_add_mod]
  congr 1
  omega

/-- The target after a round is the target that the next round would take for itself. -/
theorem saturatingAdd_nextTarget {next : Progress Hash Machine}
    (live : Live memory mcyclePeriod progress) (live' : Live memory mcyclePeriod next)
    (before : readMcycle memory progress.machine < mcycleEnd)
    (arrived : readMcycle memory next.machine = nextTarget memory mcyclePeriod mcycleEnd progress)
    (counted : next.mcyclePhase.toNat = (progress.mcyclePhase.toNat +
      ((readMcycle memory next.machine).toNat - (readMcycle memory progress.machine).toNat)) %
        mcyclePeriod.toNat) :
    saturatingAdd (nextTarget memory mcyclePeriod mcycleEnd progress) mcyclePeriod mcycleEnd =
      nextTarget memory mcyclePeriod mcycleEnd next := by
  have within := (lt_nextTarget memory live before).2
  have target := toNat_nextTarget memory live (BitVec.le_of_lt before)
  have phase := BitVec.lt_def.mp live.mcyclePhase
  apply BitVec.eq_of_toNat_eq
  rw [toNat_saturatingAdd within, toNat_nextTarget memory live' (arrived ▸ within), arrived]
  have phase' := BitVec.lt_def.mp live'.mcyclePhase
  rcases Nat.lt_or_ge ((readMcycle memory progress.machine).toNat +
      (mcyclePeriod.toNat - progress.mcyclePhase.toNat)) mcycleEnd.toNat with boundary | capped
  · have whole : progress.mcyclePhase.toNat + ((readMcycle memory next.machine).toNat -
        (readMcycle memory progress.machine).toNat) = mcyclePeriod.toNat := by
      rw [arrived]
      omega
    rw [whole, Nat.mod_self] at counted
    omega
  · omega

/-- The progress of a call at the head of its loop, where the phase does not wrap around. -/
structure Counted (memory : Machine → Memory)
    (interpret : Machine → Word → InterpreterBreakReason × Machine)
    (mcycleStart mcycleEnd mcyclePeriod mcyclePhase : Word) (progress : Progress Hash Machine) :
    Prop where
  phase : mcyclePhase < mcyclePeriod
  since : mcycleStart ≤ readMcycle memory progress.machine
  ahead : readMcycle memory progress.machine ≤ mcycleEnd
  counted : progress.mcyclePhase.toNat = (mcyclePhase.toNat +
    ((readMcycle memory progress.machine).toNat - mcycleStart.toNat)) % mcyclePeriod.toNat
  fits : mcyclePeriod.toNat ≤ 2 ^ 63 ∨
    (readMcycle memory (interpret progress.machine mcycleEnd).2).toNat - mcycleStart.toNat +
      mcyclePhase.toNat < 2 ^ 64

/-- Without a wrap-around a round of the code is a round that counts from where it is. -/
theorem Counted.collectPeriod (composes : Composes memory interpret)
    (counts : Counted memory interpret mcycleStart mcycleEnd mcyclePeriod mcyclePhase progress)
    (live : Live memory mcyclePeriod progress)
    (before : readMcycle memory progress.machine < mcycleEnd) :
    Collect.collectPeriod hashers config memory interpret mcycleStart mcyclePeriod mcyclePhase
        (nextTarget memory mcyclePeriod mcycleEnd progress) progress =
      round hashers config memory interpret mcyclePeriod mcycleEnd progress := by
  obtain ⟨towards, within⟩ := lt_nextTarget memory live before
  obtain ⟨next, newPhase, rounded, settled, facts, counted'⟩ :=
    round_settled hashers config composes live before
  obtain ⟨onwards, _⟩ := composes.forward _ _ live.running towards
  have bounded := mcycle_mono composes live.running towards within
  rw [← facts.machine] at onwards bounded
  have same : ((readMcycle memory next.machine - mcycleStart) % mcyclePeriod + mcyclePhase) %
      mcyclePeriod = newPhase := by
    apply BitVec.eq_of_toNat_eq
    have since := BitVec.le_def.mp counts.since
    have onwards' := BitVec.le_def.mp onwards
    have bounded' := BitVec.le_def.mp bounded
    have fits := counts.fits
    rw [toNat_newPhase _ _ (BitVec.le_trans counts.since onwards),
      phaseAfter_eq (by omega) (BitVec.lt_def.mp counts.phase), counted', counts.counted,
      phase_add since onwards']
  rw [collectPeriod_eq, ← facts.machine, same, settled, rounded]

/-- The next head of the loop counts on from the one before. -/
theorem Counted.next (composes : Composes memory interpret) {next : Progress Hash Machine}
    (counts : Counted memory interpret mcycleStart mcycleEnd mcyclePeriod mcyclePhase progress)
    (live : Live memory mcyclePeriod progress)
    (before : readMcycle memory progress.machine < mcycleEnd)
    (rounded : round hashers config memory interpret mcyclePeriod mcycleEnd progress = .ok next)
    (moving : next.atFixedPoint = false) (reached : next.breakReason = .reachedTargetMcycle) :
    Counted memory interpret mcycleStart mcycleEnd mcyclePeriod mcyclePhase next ∧
      saturatingAdd (nextTarget memory mcyclePeriod mcycleEnd progress) mcyclePeriod mcycleEnd =
        nextTarget memory mcyclePeriod mcycleEnd next := by
  obtain ⟨towards, within⟩ := lt_nextTarget memory live before
  obtain ⟨_, newPhase, rounded', settled, facts, counted'⟩ :=
    round_settled hashers config composes live before
  cases rounded.symm.trans rounded'
  obtain ⟨live', arrived, reason, machine⟩ :=
    live_next hashers config composes live before rounded moving reached
  obtain ⟨onwards, _⟩ := composes.forward _ _ live.running towards
  rw [← facts.machine] at onwards
  have counted'' := facts.mcyclePhase ▸ counted'
  refine ⟨⟨counts.phase, BitVec.le_trans counts.since onwards, arrived ▸ within, ?_, ?_⟩,
    saturatingAdd_nextTarget live live' before arrived counted''⟩
  · rw [counted'', counts.counted,
      phase_add (BitVec.le_def.mp counts.since) (BitVec.le_def.mp onwards)]
  · rw [machine, ← composes.continues _ _ _ live.running towards within reason]
    exact counts.fits

/-- Without a wrap-around the loop of the code is the loop that counts from where it is. -/
theorem collectPeriods_advances (composes : Composes memory interpret) {rounds : Nat}
    (live : Live memory mcyclePeriod progress)
    (counts : Counted memory interpret mcycleStart mcycleEnd mcyclePeriod mcyclePhase progress)
    (enough : mcycleEnd.toNat - (readMcycle memory progress.machine).toNat < rounds) :
    ∃ final,
      collectPeriods hashers config memory interpret mcycleStart mcycleEnd mcyclePeriod mcyclePhase
        rounds (nextTarget memory mcyclePeriod mcycleEnd progress) progress = .ok final ∧
      Advances hashers config memory interpret mcyclePeriod mcycleEnd progress final := by
  induction rounds generalizing progress with
  | zero => omega
  | succ rounds ih =>
      rw [collectPeriods]
      by_cases before : readMcycle memory progress.machine < mcycleEnd
      · obtain ⟨towards, within⟩ := lt_nextTarget memory live before
        obtain ⟨next, newPhase, rounded, settled, facts, counted'⟩ :=
          round_settled hashers config composes live before
        rw [if_pos towards, counts.collectPeriod composes live before, rounded]
        change ∃ final, (if (next.atFixedPoint ||
          decide (next.breakReason ≠ .reachedTargetMcycle)) = true then _ else _) = _ ∧ _
        by_cases stopped : (next.atFixedPoint ||
            decide (next.breakReason ≠ .reachedTargetMcycle)) = true
        · rw [if_pos stopped]
          refine ⟨next, rfl, .stop before rounded ?_⟩
          simpa using stopped
        · rw [if_neg stopped]
          simp only [Bool.or_eq_true, decide_eq_true_eq, not_or, Bool.not_eq_true, not_not] at stopped
          obtain ⟨live', arrived, reason, machine⟩ :=
            live_next hashers config composes live before rounded stopped.1 stopped.2
          obtain ⟨counts', target⟩ :=
            counts.next composes live before rounded stopped.1 stopped.2
          have before' := BitVec.lt_def.mp before
          have towards' := BitVec.lt_def.mp towards
          rw [target]
          obtain ⟨final, looped, rest⟩ := ih live' counts' (by rw [arrived]; omega)
          exact ⟨final, looped, .step before rounded stopped.1 stopped.2 rest⟩
      · have arrived : mcycleEnd ≤ readMcycle memory progress.machine := BitVec.not_lt.mp before
        have target : ¬readMcycle memory progress.machine <
            nextTarget memory mcyclePeriod mcycleEnd progress := by
          rw [BitVec.lt_def, toNat_nextTarget memory live counts.ahead]
          have arrived' := BitVec.le_def.mp arrived
          omega
        rw [if_neg target]
        exact ⟨progress, rfl, .done arrived⟩

/-- What the loop keeps of the back tree. -/
theorem Advances.backTree (composes : Composes memory interpret)
    (advances : Advances hashers config memory interpret mcyclePeriod mcycleEnd progress final)
    (live : Live memory mcyclePeriod progress) :
    HasRoom final.backTree ∧
      final.backTree.log2MaxLeaves = progress.backTree.log2MaxLeaves ∧
      final.backTree.hashFunction = progress.backTree.hashFunction ∧
      (final.atFixedPoint = true → final.backTree.log2MaxLeaves = 0 →
        final.backTree.leafCount = 0) := by
  induction advances with
  | done arrived =>
      refine ⟨live.room, rfl, rfl, fun fixed => ?_⟩
      exact absurd (live.moving.symm.trans fixed) (by simp)
  | stop ahead rounded stopped =>
      obtain ⟨_, _, rounded', _, facts, _⟩ := round_settled hashers config composes live ahead
      cases rounded.symm.trans rounded'
      exact ⟨facts.room, facts.log2MaxLeaves, facts.hashFunction, facts.bundled⟩
  | step ahead rounded moving reached rest ih =>
      obtain ⟨_, _, rounded', _, facts, _⟩ := round_settled hashers config composes live ahead
      cases rounded.symm.trans rounded'
      obtain ⟨live', _⟩ := live_next hashers config composes live ahead rounded moving reached
      obtain ⟨room, height, function, bundled⟩ := ih live'
      exact ⟨room, height.trans facts.log2MaxLeaves, function.trans facts.hashFunction, bundled⟩

/-- The loop ends at the head of another loop, or at a stop of the machine that its flag reports. -/
theorem Advances.ends (composes : Composes memory interpret)
    (advances : Advances hashers config memory interpret mcyclePeriod mcycleEnd progress final)
    (live : Live memory mcyclePeriod progress)
    (ahead : readMcycle memory progress.machine ≤ mcycleEnd) :
    (final.atFixedPoint = true ∨ final.breakReason ≠ .reachedTargetMcycle →
      final.atFixedPoint = reachesFixedPoint memory (final.breakReason, final.machine)) ∧
    (¬(final.atFixedPoint = true ∨ final.breakReason ≠ .reachedTargetMcycle) →
      Live memory mcyclePeriod final ∧ readMcycle memory final.machine = mcycleEnd) := by
  induction advances with
  | done arrived =>
      refine ⟨?_, fun _ => ⟨live, BitVec.le_antisymm ahead arrived⟩⟩
      rintro (fixed | interrupted)
      · exact absurd (live.moving.symm.trans fixed) (by simp)
      · exact absurd live.reached interrupted
  | stop before rounded stopped =>
      obtain ⟨_, _, rounded', _, facts, _⟩ := round_settled hashers config composes live before
      cases rounded.symm.trans rounded'
      refine ⟨fun _ => ?_, fun goes => absurd stopped goes⟩
      rw [facts.breakReason, facts.machine, facts.atFixedPoint]
  | step before rounded moving reached rest ih =>
      obtain ⟨live', arrived, _⟩ := live_next hashers config composes live before rounded moving reached
      exact ih live' (arrived ▸ (lt_nextTarget memory live before).2)

/-- The phase after the loop counts the cycles since a period boundary. -/
theorem Advances.phase (composes : Composes memory interpret)
    (advances : Advances hashers config memory interpret mcyclePeriod mcycleEnd progress final)
    (live : Live memory mcyclePeriod progress) :
    readMcycle memory progress.machine ≤ readMcycle memory final.machine ∧
    final.mcyclePhase.toNat = (progress.mcyclePhase.toNat +
      ((readMcycle memory final.machine).toNat - (readMcycle memory progress.machine).toNat)) %
        mcyclePeriod.toNat := by
  induction advances with
  | done arrived =>
      refine ⟨BitVec.le_refl _, ?_⟩
      rw [Nat.sub_self, Nat.add_zero, Nat.mod_eq_of_lt (BitVec.lt_def.mp live.mcyclePhase)]
  | stop ahead rounded stopped =>
      obtain ⟨_, _, rounded', _, facts, counted⟩ := round_settled hashers config composes live ahead
      cases rounded.symm.trans rounded'
      refine ⟨?_, facts.mcyclePhase ▸ counted⟩
      rw [facts.machine]
      exact (composes.forward _ _ live.running (lt_nextTarget memory live ahead).1).1
  | step ahead rounded moving reached rest ih =>
      obtain ⟨_, _, rounded', _, facts, counted⟩ := round_settled hashers config composes live ahead
      cases rounded.symm.trans rounded'
      obtain ⟨live', arrived, _⟩ := live_next hashers config composes live ahead rounded moving reached
      obtain ⟨onwards, counted'⟩ := ih live'
      have forward := BitVec.le_of_lt (arrived ▸ (lt_nextTarget memory live ahead).1)
      refine ⟨BitVec.le_trans forward onwards, ?_⟩
      rw [counted', facts.mcyclePhase, counted,
        phase_add (BitVec.le_def.mp forward) (BitVec.le_def.mp onwards)]

end Loop

section Finish

variable [Inhabited Hash]

/-- Two results with the same hashes, phase and subtrees. -/
structure Agrees (first second : McycleRootHashes Hash) : Prop where
  hashes : first.hashes = second.hashes
  mcyclePhase : first.mcyclePhase = second.mcyclePhase
  breakReason : first.breakReason = second.breakReason
  backTree : Option.Rel BackMerkleTree.Same first.backTree second.backTree

omit [Inhabited Hash] in
theorem length_makePadHashes (leafHash : Hash) (log2MaxLeaves : Nat)
    (hashFunction : HashFunctionType) :
    (BackMerkleTree.makePadHashes hashers leafHash log2MaxLeaves hashFunction).length =
      log2MaxLeaves + 1 := by
  rw [BackMerkleTree.makePadHashes, List.length_iterate]

theorem padFixedPoint_empty {log2Count : Nat} {progress : Progress Hash Machine}
    (empty : progress.backTree.empty = true) :
    padFixedPoint hashers config log2Count progress =
      .ok (progress.hashes ++ [(BackMerkleTree.makePadHashes hashers progress.rootHash log2Count
        config.hashFunction)[log2Count]?.getD default], progress.backTree) := by
  rw [padFixedPoint, if_pos empty]
  rfl

theorem padFixedPoint_partial {log2Count : Nat} {progress : Progress Hash Machine}
    {padded : BackMerkleTree Hash} {root : Hash} (filled : ¬progress.backTree.empty = true)
    (room : HasRoom progress.backTree)
    (padding : progress.backTree.padBack hashers (BackMerkleTree.makePadHashes hashers
      progress.rootHash log2Count config.hashFunction) progress.backTree.getRemainingLeafCount =
        .ok padded)
    (rooted : padded.getRootHash = .ok root) :
    padFixedPoint hashers config log2Count progress =
      .ok (progress.hashes ++ ([root] ++ [(BackMerkleTree.makePadHashes hashers progress.rootHash
        log2Count config.hashFunction)[log2Count]?.getD default]), padded.clear) := by
  have open_ : ¬progress.backTree.full = true := by
    intro full
    exact absurd (of_decide_eq_true full) (not_le_of_gt room)
  rw [padFixedPoint, if_neg filled]
  apply bind_ok.mpr
  refine ⟨(), check_pos open_, ?_⟩
  apply bind_ok.mpr
  refine ⟨padded, padding, ?_⟩
  apply bind_ok.mpr
  refine ⟨root, rooted, ?_⟩
  rw [List.append_assoc]
  rfl

/-- At a fixed point a later call and the call for both add the same bundles. -/
theorem padFixedPoint_follows {before : List Hash} {later whole : Progress Hash Machine}
    (follows : Follows before later whole) (room : HasRoom later.backTree)
    (small : later.backTree.log2MaxLeaves < 64) (fixed : later.atFixedPoint = true) :
    ∃ bundles laterTree wholeTree,
      padFixedPoint hashers config later.backTree.log2MaxLeaves later =
        .ok (later.hashes ++ bundles, laterTree) ∧
      padFixedPoint hashers config later.backTree.log2MaxLeaves whole =
        .ok (whole.hashes ++ bundles, wholeTree) ∧
      laterTree.empty = true ∧ wholeTree.empty = true := by
  have sameHash := follows.rootHash fixed
  have same := follows.backTree
  by_cases empty : later.backTree.empty = true
  · have empty' : whole.backTree.empty = true := same.empty ▸ empty
    refine ⟨_, later.backTree, whole.backTree, padFixedPoint_empty empty, ?_, empty, empty'⟩
    rw [sameHash]
    exact padFixedPoint_empty empty'
  · have room' : HasRoom whole.backTree := by
      rw [HasRoom, BackMerkleTree.getMaxLeaves, ← same.leafCount, ← same.log2MaxLeaves]
      exact room
    obtain ⟨laterTree, wholeTree, padding, padding', same', filled, height⟩ :=
      same.padBack hashers (BackMerkleTree.makePadHashes hashers later.rootHash
        later.backTree.log2MaxLeaves config.hashFunction) small room
        (length_makePadHashes _ _ _)
    obtain ⟨root, rooted, rooted'⟩ := same_root same' filled
    refine ⟨_, laterTree.clear, wholeTree.clear, padFixedPoint_partial empty room padding rooted,
      ?_, rfl, rfl⟩
    rw [sameHash] at padding' ⊢
    exact padFixedPoint_partial (same.empty ▸ empty) room' padding' rooted'

theorem finishCollection_eq {log2Count : Nat} {progress : Progress Hash Machine}
    {hashes : List Hash} {backTree : BackMerkleTree Hash}
    (padded : (if (progress.atFixedPoint && decide (0 < log2Count)) = true then
      padFixedPoint hashers config log2Count progress
      else .ok (progress.hashes, progress.backTree)) = .ok (hashes, backTree)) :
    finishCollection hashers config log2Count progress =
      .ok (⟨hashes, progress.mcyclePhase, progress.breakReason,
        if backTree.empty = true then none else some backTree⟩, progress.machine) := by
  rw [finishCollection]
  split at padded
  · rename_i fixed
    rw [if_pos fixed, padded]
    rfl
  · rename_i moving
    cases padded
    rw [if_neg moving]
    rfl

/-- The end of a later call and of the call for both. -/
theorem finishCollection_follows {before : List Hash} {later whole : Progress Hash Machine}
    (follows : Follows before later whole) (room : HasRoom later.backTree)
    (small : later.backTree.log2MaxLeaves < 64)
    (bundled : later.atFixedPoint = true → later.backTree.log2MaxLeaves = 0 →
      later.backTree.leafCount = 0) :
    ∃ laterResult wholeResult,
      finishCollection hashers config later.backTree.log2MaxLeaves later =
        .ok (laterResult, later.machine) ∧
      finishCollection hashers config later.backTree.log2MaxLeaves whole =
        .ok (wholeResult, whole.machine) ∧
      Agrees { laterResult with hashes := before ++ laterResult.hashes } wholeResult ∧
      laterResult.mcyclePhase = later.mcyclePhase ∧
      laterResult.breakReason = later.breakReason ∧
      (later.atFixedPoint = true → laterResult.backTree = none) ∧
      (later.atFixedPoint = false → laterResult.hashes = later.hashes ∧
        laterResult.backTree = if later.backTree.empty = true then none
          else some later.backTree) := by
  by_cases padded : (later.atFixedPoint && decide (0 < later.backTree.log2MaxLeaves)) = true
  · have fixed : later.atFixedPoint = true := (Bool.and_eq_true _ _ ▸ padded).1
    obtain ⟨bundles, laterTree, wholeTree, padding, padding', empty, empty'⟩ :=
      @padFixedPoint_follows Hash Machine hashers config _ before later whole follows room small fixed
    refine ⟨_, _, finishCollection_eq ((if_pos padded).trans padding),
      finishCollection_eq ((if_pos (follows.atFixedPoint ▸ padded)).trans padding'), ?_, rfl, rfl,
      ?_, ?_⟩
    · refine ⟨?_, follows.mcyclePhase, follows.breakReason, ?_⟩
      · simp only [follows.hashes, List.append_assoc]
      · simp only [empty, empty', if_true]
        exact .none
    · intro _
      simp only [empty, if_true]
    · intro moving
      exact absurd (moving.symm.trans fixed) (by simp)
  · refine ⟨_, _, finishCollection_eq (if_neg padded),
      finishCollection_eq (if_neg (follows.atFixedPoint ▸ padded)), ?_, rfl, rfl, ?_, ?_⟩
    · refine ⟨follows.hashes.symm, follows.mcyclePhase, follows.breakReason, ?_⟩
      by_cases empty : later.backTree.empty = true
      · simp only [empty, follows.backTree.empty ▸ empty, if_true]
        exact .none
      · simp only [empty, follows.backTree.empty ▸ empty, Bool.false_eq_true, if_false]
        exact .some follows.backTree
    · intro fixed
      have single : later.backTree.log2MaxLeaves = 0 := by simpa [fixed] using padded
      have empty : later.backTree.empty = true := decide_eq_true (bundled fixed single)
      simp only [empty, if_true]
    · intro _
      exact ⟨rfl, rfl⟩

end Finish

section Calls

variable [Inhabited Hash]

/-- The arguments that pass the checks of a collection, with a back tree that is not full. -/
structure Admissible (config : CollectConfig) (memory : Machine → Memory) (machine : Machine)
    (mcycleEnd mcyclePeriod mcyclePhase : Word) (log2Count : Int)
    (previous : Option (BackMerkleTree Hash)) : Prop where
  ahead : readMcycle memory machine ≤ mcycleEnd
  mcyclePhase : mcyclePhase < mcyclePeriod
  nonnegative : 0 ≤ log2Count
  small : log2Count < 64
  backTree : ∀ backTree ∈ previous, (backTree.log2MaxLeaves : Int) = log2Count ∧
    backTree.hashFunction = config.hashFunction ∧ HasRoom backTree
  reproducible : config.unreproducible = false
  hardYield : config.softYield = false
  uarchReset : readUarchCycle memory machine = 0

variable {machine : Machine} {mcycleEnd mcyclePeriod mcyclePhase : Word} {log2Count : Int}
variable {previous : Option (BackMerkleTree Hash)}

/-- The first tree of a call: a tree of an earlier call, or one without leaves. -/
def firstTree (config : CollectConfig) (log2Count : Int) (previous : Option (BackMerkleTree Hash)) :
    BackMerkleTree Hash :=
  previous.getD ⟨log2Count.toNat, config.hashFunction, 0, fun _ => default⟩

/-- The progress of a call at its first round. -/
def firstProgress (config : CollectConfig) (machine : Machine) (mcyclePhase : Word)
    (log2Count : Int) (previous : Option (BackMerkleTree Hash)) : Progress Hash Machine :=
  ⟨machine, [], mcyclePhase, .reachedTargetMcycle, firstTree config log2Count previous, false,
    default⟩

theorem initialBackTree_eq
    (admissible : Admissible config memory machine mcycleEnd mcyclePeriod mcyclePhase log2Count
      previous) :
    initialBackTree config log2Count previous = .ok (firstTree config log2Count previous) := by
  cases previous with
  | some backTree => rfl
  | none =>
      rw [initialBackTree, BackMerkleTree.make, check_pos admissible.nonnegative,
        check_pos admissible.small]
      rfl

theorem firstTree_facts
    (admissible : Admissible config memory machine mcycleEnd mcyclePeriod mcyclePhase log2Count
      previous) :
    HasRoom (firstTree config log2Count previous) ∧
      (firstTree config log2Count previous).log2MaxLeaves = log2Count.toNat ∧
      (firstTree config log2Count previous).hashFunction = config.hashFunction := by
  have nonnegative := admissible.nonnegative
  cases previous with
  | some backTree =>
      obtain ⟨height, function, room⟩ := admissible.backTree backTree rfl
      refine ⟨room, ?_, function⟩
      change backTree.log2MaxLeaves = log2Count.toNat
      omega
  | none =>
      refine ⟨?_, rfl, rfl⟩
      change 0 < 2 ^ log2Count.toNat
      positivity

theorem live_firstProgress
    (admissible : Admissible config memory machine mcycleEnd mcyclePeriod mcyclePhase log2Count
      previous) (running : Running memory machine) :
    Live memory mcyclePeriod (firstProgress config machine mcyclePhase log2Count previous) :=
  ⟨running, admissible.mcyclePhase, (firstTree_facts admissible).1, rfl, rfl⟩

/-- The checks of a collection pass for admissible arguments. -/
theorem collectMcycleRootHashes_eq
    (admissible : Admissible config memory machine mcycleEnd mcyclePeriod mcyclePhase log2Count
      previous) :
    collectMcycleRootHashes hashers config memory interpret machine mcycleEnd mcyclePeriod
        mcyclePhase log2Count previous =
      if readIflagsH memory machine ≠ 0 then .ok (⟨[], mcyclePhase, .halted, none⟩, machine)
      else if readIflagsY memory machine ≠ 0 then
        .ok (⟨[], mcyclePhase, .yieldedManually, none⟩, machine)
      else collectFrom hashers config memory interpret machine mcycleEnd mcyclePeriod mcyclePhase
        log2Count previous := by
  have period : mcyclePeriod ≠ 0 := by
    rintro rfl
    exact absurd (BitVec.lt_def.mp admissible.mcyclePhase) (by simp)
  have compatible : ∀ backTree ∈ previous, (backTree.log2MaxLeaves : Int) = log2Count ∧
      backTree.hashFunction = config.hashFunction := fun backTree member =>
    ⟨(admissible.backTree backTree member).1, (admissible.backTree backTree member).2.1⟩
  rw [collectMcycleRootHashes, check_pos admissible.ahead, check_pos period,
    check_pos admissible.mcyclePhase, check_pos compatible, check_pos admissible.reproducible,
    check_pos admissible.hardYield, check_pos admissible.uarchReset]
  rfl

/-- The phase of no part of the range wraps around: the period is at most `2^63`, or the phase and
the cycles up to where the run stops have a sum below `2^64`. -/
def CountsExactly (memory : Machine → Memory)
    (interpret : Machine → Word → InterpreterBreakReason × Machine) (machine : Machine)
    (mcycleEnd mcyclePeriod mcyclePhase : Word) : Prop :=
  mcyclePeriod.toNat ≤ 2 ^ 63 ∨
    (readMcycle memory (interpret machine mcycleEnd).2).toNat - (readMcycle memory machine).toNat +
      mcyclePhase.toNat < 2 ^ 64

/-- The number of cycles in a bundle is not a multiple of `2^64`. -/
def BundleFits (mcyclePeriod : Word) (log2Count : Int) : Prop :=
  mcyclePeriod * (1#64 <<< log2Count.toNat) ≠ 0

theorem counted_firstProgress
    (admissible : Admissible config memory machine mcycleEnd mcyclePeriod mcyclePhase log2Count
      previous)
    (counts : CountsExactly memory interpret machine mcycleEnd mcyclePeriod mcyclePhase) :
    Counted memory interpret (readMcycle memory machine) mcycleEnd mcyclePeriod mcyclePhase
      (firstProgress config machine mcyclePhase log2Count previous) := by
  refine ⟨admissible.mcyclePhase, BitVec.le_refl _, admissible.ahead, ?_, counts⟩
  change mcyclePhase.toNat = (mcyclePhase.toNat + ((readMcycle memory machine).toNat -
    (readMcycle memory machine).toNat)) % mcyclePeriod.toNat
  rw [Nat.sub_self, Nat.add_zero, Nat.mod_eq_of_lt (BitVec.lt_def.mp admissible.mcyclePhase)]

/-- A call that starts in a running machine goes through the rounds of its loop. -/
theorem collect_advances (composes : Composes memory interpret)
    (admissible : Admissible config memory machine mcycleEnd mcyclePeriod mcyclePhase log2Count
      previous) (running : Running memory machine) (fits : BundleFits mcyclePeriod log2Count)
    (counts : CountsExactly memory interpret machine mcycleEnd mcyclePeriod mcyclePhase) :
    ∃ final,
      Advances hashers config memory interpret mcyclePeriod mcycleEnd
        (firstProgress config machine mcyclePhase log2Count previous) final ∧
      collectMcycleRootHashes hashers config memory interpret machine mcycleEnd mcyclePeriod
        mcyclePhase log2Count previous =
        finishCollection hashers config log2Count.toNat final := by
  have live := live_firstProgress admissible running
  have rounds : mcycleEnd.toNat - (readMcycle memory machine).toNat <
      (mcycleEnd - readMcycle memory machine).toNat + 1 := by
    rw [BitVec.toNat_sub_of_le admissible.ahead]
    omega
  obtain ⟨final, looped, advances⟩ := @collectPeriods_advances Hash Machine hashers config memory
    interpret mcyclePeriod mcycleEnd _ mcyclePhase _ composes _ live
    (counted_firstProgress admissible counts) rounds
  refine ⟨final, advances, ?_⟩
  rw [collectMcycleRootHashes_eq admissible, if_neg (not_not_intro running.1),
    if_neg (not_not_intro running.2), collectFrom, initialBackTree_eq admissible]
  change (check (mcyclePeriod * (1#64 <<< log2Count.toNat) ≠ 0) .undefinedBehavior >>= fun _ =>
    collectPeriods hashers config memory interpret (readMcycle memory machine) mcycleEnd mcyclePeriod
      mcyclePhase ((mcycleEnd - readMcycle memory machine).toNat + 1)
      (nextTarget memory mcyclePeriod mcycleEnd
        (firstProgress config machine mcyclePhase log2Count previous))
      (firstProgress config machine mcyclePhase log2Count previous) >>=
    finishCollection hashers config log2Count.toNat) = _
  rw [looped, check_pos (show mcyclePeriod * (1#64 <<< log2Count.toNat) ≠ 0 from fits)]
  rfl

end Calls

end MachineEmulator.Collect
