/-
This file proves that a collection up to a target and a collection from there give the collection of
the whole range, as long as each round counts from where it starts.
-/

import MachineEmulator.Proof.Collect.McyclePeriods

namespace MachineEmulator.Collect

open StepLog (HashFunctionType)

variable {Hash Machine : Type}
variable (hashers : HashFunctionType → Hasher Hash) (config : CollectConfig)
variable (memory : Machine → Memory)
variable (interpret : Machine → Word → InterpreterBreakReason × Machine)

theorem word_lt_of_lt_of_le {first second third : Word} (left : first < second)
    (right : second ≤ third) : first < third :=
  BitVec.lt_def.mpr (lt_of_lt_of_le (BitVec.lt_def.mp left) (BitVec.le_def.mp right))

section Round

/-- The next period boundary, or the end if that comes first. -/
def nextTarget (mcyclePeriod mcycleEnd : Word) (progress : Progress Hash Machine) : Word :=
  saturatingAdd (readMcycle memory progress.machine) (mcyclePeriod - progress.mcyclePhase) mcycleEnd

/-- A round that counts its cycles from where it starts. -/
def round (mcyclePeriod mcycleEnd : Word) (progress : Progress Hash Machine) :
    Except Failure (Progress Hash Machine) :=
  collectPeriod hashers config memory interpret (readMcycle memory progress.machine) mcyclePeriod
    progress.mcyclePhase (nextTarget memory mcyclePeriod mcycleEnd progress) progress

/-- The progress at the head of the loop. -/
structure Live (mcyclePeriod : Word) (progress : Progress Hash Machine) : Prop where
  running : Running memory progress.machine
  mcyclePhase : progress.mcyclePhase < mcyclePeriod
  room : HasRoom progress.backTree
  moving : progress.atFixedPoint = false
  reached : progress.breakReason = .reachedTargetMcycle

variable {mcyclePeriod mcycleEnd : Word} {progress next : Progress Hash Machine}

theorem toNat_nextTarget (live : Live memory mcyclePeriod progress)
    (ahead : readMcycle memory progress.machine ≤ mcycleEnd) :
    (nextTarget memory mcyclePeriod mcycleEnd progress).toNat =
      min ((readMcycle memory progress.machine).toNat +
        (mcyclePeriod.toNat - progress.mcyclePhase.toNat)) mcycleEnd.toNat := by
  rw [nextTarget, toNat_saturatingAdd ahead, BitVec.toNat_sub_of_le (BitVec.le_of_lt live.mcyclePhase)]

theorem lt_nextTarget (live : Live memory mcyclePeriod progress)
    (ahead : readMcycle memory progress.machine < mcycleEnd) :
    readMcycle memory progress.machine < nextTarget memory mcyclePeriod mcycleEnd progress ∧
      nextTarget memory mcyclePeriod mcycleEnd progress ≤ mcycleEnd := by
  have phase := BitVec.lt_def.mp live.mcyclePhase
  have before := BitVec.lt_def.mp ahead
  rw [BitVec.lt_def, BitVec.le_def, toNat_nextTarget memory live (BitVec.le_of_lt ahead)]
  omega

variable {memory interpret}

/-- A round succeeds, and its phase is the number of cycles since a period boundary. -/
theorem round_settled (composes : Composes memory interpret)
    (live : Live memory mcyclePeriod progress)
    (ahead : readMcycle memory progress.machine < mcycleEnd) :
    ∃ next newPhase, round hashers config memory interpret mcyclePeriod mcycleEnd progress = .ok next ∧
      settle hashers config memory newPhase
        (interpret progress.machine (nextTarget memory mcyclePeriod mcycleEnd progress)) progress =
          .ok next ∧
      Settled memory newPhase
        (interpret progress.machine (nextTarget memory mcyclePeriod mcycleEnd progress))
        progress next ∧
      newPhase.toNat = (progress.mcyclePhase.toNat +
        ((readMcycle memory next.machine).toNat - (readMcycle memory progress.machine).toNat)) %
          mcyclePeriod.toNat := by
  have before := BitVec.lt_def.mp ahead
  have phase := BitVec.lt_def.mp live.mcyclePhase
  have bound := mcyclePeriod.isLt
  obtain ⟨towards, _⟩ := lt_nextTarget memory live ahead
  obtain ⟨from_, upTo⟩ := composes.forward _ _ live.running towards
  have span := BitVec.le_def.mp upTo
  rw [toNat_nextTarget memory live (BitVec.le_of_lt ahead)] at span
  obtain ⟨next, _, settled, _, _, facts⟩ := settle_follows hashers config memory
    (Follows.refl progress) live.room _ (interpret progress.machine (nextTarget memory mcyclePeriod mcycleEnd progress))
  refine ⟨next, _, settled, settled, facts, ?_⟩
  rw [toNat_newPhase _ _ from_, phaseAfter_eq (.inr (by omega)) phase, facts.machine]

/-- A round that reaches its target short of a fixed point leaves the loop at its head. -/
theorem live_next (composes : Composes memory interpret) (live : Live memory mcyclePeriod progress)
    (ahead : readMcycle memory progress.machine < mcycleEnd)
    (rounded : round hashers config memory interpret mcyclePeriod mcycleEnd progress = .ok next)
    (moving : next.atFixedPoint = false) (reached : next.breakReason = .reachedTargetMcycle) :
    Live memory mcyclePeriod next ∧
      readMcycle memory next.machine = nextTarget memory mcyclePeriod mcycleEnd progress ∧
      (interpret progress.machine (nextTarget memory mcyclePeriod mcycleEnd progress)).1 =
        .reachedTargetMcycle ∧
      next.machine =
        (interpret progress.machine (nextTarget memory mcyclePeriod mcycleEnd progress)).2 := by
  obtain ⟨_, newPhase, rounded', _, facts, phase⟩ :=
    round_settled hashers config composes live ahead
  cases rounded.symm.trans rounded'
  obtain ⟨towards, _⟩ := lt_nextTarget memory live ahead
  have reason := facts.breakReason.symm.trans reached
  obtain ⟨arrived, running⟩ := composes.reached _ _ live.running towards reason
  rw [← facts.machine] at arrived running
  refine ⟨⟨running, ?_, facts.room, moving, reached⟩, arrived, reason, facts.machine⟩
  have positive := BitVec.lt_def.mp live.mcyclePhase
  rw [BitVec.lt_def, facts.mcyclePhase, phase]
  exact Nat.mod_lt _ (by omega)

/-- A target that is a fixed point is the last cycle there is. -/
theorem target_of_fixedPoint (composes : Composes memory interpret)
    (live : Live memory mcyclePeriod progress)
    (ahead : readMcycle memory progress.machine < mcycleEnd)
    (rounded : round hashers config memory interpret mcyclePeriod mcycleEnd progress = .ok next)
    (fixed : next.atFixedPoint = true) (reached : next.breakReason = .reachedTargetMcycle) :
    nextTarget memory mcyclePeriod mcycleEnd progress = BitVec.allOnes 64 := by
  obtain ⟨_, newPhase, rounded', _, facts, phase⟩ :=
    round_settled hashers config composes live ahead
  cases rounded.symm.trans rounded'
  obtain ⟨towards, _⟩ := lt_nextTarget memory live ahead
  have reason := facts.breakReason.symm.trans reached
  obtain ⟨arrived, _⟩ := composes.reached _ _ live.running towards reason
  rw [facts.atFixedPoint, reachesFixedPoint, reason, arrived] at fixed
  simpa using fixed

end Round

section Runs

/-- The rounds of the loop up to an end. -/
inductive Advances (mcyclePeriod mcycleEnd : Word) :
    Progress Hash Machine → Progress Hash Machine → Prop where
  | done {progress} (arrived : mcycleEnd ≤ readMcycle memory progress.machine) :
      Advances mcyclePeriod mcycleEnd progress progress
  | stop {progress next} (ahead : readMcycle memory progress.machine < mcycleEnd)
      (rounded : round hashers config memory interpret mcyclePeriod mcycleEnd progress = .ok next)
      (stopped : next.atFixedPoint = true ∨ next.breakReason ≠ .reachedTargetMcycle) :
      Advances mcyclePeriod mcycleEnd progress next
  | step {progress next final} (ahead : readMcycle memory progress.machine < mcycleEnd)
      (rounded : round hashers config memory interpret mcyclePeriod mcycleEnd progress = .ok next)
      (moving : next.atFixedPoint = false) (reached : next.breakReason = .reachedTargetMcycle)
      (rest : Advances mcyclePeriod mcycleEnd next final) :
      Advances mcyclePeriod mcycleEnd progress final

variable {hashers config memory interpret}
variable {mcyclePeriod mcycleEnd : Word} {progress final : Progress Hash Machine}

/-- The loop stops where one run of the interpreter to the end stops. -/
theorem Advances.machine (composes : Composes memory interpret)
    (advances : Advances hashers config memory interpret mcyclePeriod mcycleEnd progress final)
    (live : Live memory mcyclePeriod progress)
    (ahead : readMcycle memory progress.machine ≤ mcycleEnd) :
    interpret progress.machine mcycleEnd = (final.breakReason, final.machine) := by
  induction advances with
  | done arrived => rw [composes.past _ _ live.running arrived, live.reached]
  | @stop progress next before rounded stopped =>
      obtain ⟨_, newPhase, rounded', _, facts, phase⟩ :=
        round_settled hashers config composes live before
      cases rounded.symm.trans rounded'
      obtain ⟨towards, within⟩ := lt_nextTarget memory live before
      by_cases reached : next.breakReason = .reachedTargetMcycle
      · have fixed : next.atFixedPoint = true := stopped.resolve_right (not_not_intro reached)
        have last := target_of_fixedPoint hashers config composes live before rounded fixed reached
        have same : nextTarget memory mcyclePeriod mcycleEnd progress = mcycleEnd :=
          last.trans (BitVec.allOnes_le_iff.mp (last ▸ within)).symm
        rw [← same, facts.breakReason, facts.machine]
      · rw [composes.stops _ _ _ live.running towards within (facts.breakReason ▸ reached),
          facts.breakReason, facts.machine]
  | @step progress next final before rounded moving reached rest ih =>
      obtain ⟨live', arrived, reason, machine⟩ :=
        live_next hashers config composes live before rounded moving reached
      obtain ⟨towards, within⟩ := lt_nextTarget memory live before
      rw [composes.continues _ _ _ live.running towards within reason, ← machine]
      exact ih live' (arrived ▸ within)

theorem round_follows {next : Progress Hash Machine} (live : Live memory mcyclePeriod progress)
    (rounded : round hashers config memory interpret mcyclePeriod mcycleEnd progress = .ok next)
    {before : List Hash} {whole : Progress Hash Machine} (follows : Follows before progress whole) :
    ∃ wholeNext,
      round hashers config memory interpret mcyclePeriod mcycleEnd whole = .ok wholeNext ∧
      Follows before next wholeNext := by
  rw [round, collectPeriod_eq] at rounded
  obtain ⟨next', wholeNext, settled, settled', follows', _⟩ :=
    settle_follows hashers config memory follows live.room _ _
  cases rounded.symm.trans settled
  refine ⟨wholeNext, ?_, follows'⟩
  rw [round, collectPeriod_eq, nextTarget, ← follows.machine, ← follows.mcyclePhase]
  exact settled'

/-- Two loops in step stay in step, up to the hashes that one of them had before. -/
theorem Advances.follows (composes : Composes memory interpret)
    (advances : Advances hashers config memory interpret mcyclePeriod mcycleEnd progress final)
    (live : Live memory mcyclePeriod progress) {before : List Hash}
    {whole : Progress Hash Machine} (follows : Follows before progress whole) :
    ∃ wholeFinal,
      Advances hashers config memory interpret mcyclePeriod mcycleEnd whole wholeFinal ∧
      Follows before final wholeFinal := by
  induction advances generalizing whole with
  | done arrived => exact ⟨whole, .done (follows.machine ▸ arrived), follows⟩
  | @stop progress next ahead rounded stopped =>
      obtain ⟨wholeNext, rounded', follows'⟩ := round_follows live rounded follows
      refine ⟨wholeNext, .stop (follows.machine ▸ ahead) rounded' ?_, follows'⟩
      rw [← follows'.atFixedPoint, ← follows'.breakReason]
      exact stopped
  | @step progress next final ahead rounded moving reached rest ih =>
      obtain ⟨wholeNext, rounded', follows'⟩ := round_follows live rounded follows
      obtain ⟨live', _⟩ := live_next hashers config composes live ahead rounded moving reached
      obtain ⟨wholeFinal, rest', follows''⟩ := ih live' follows'
      exact ⟨wholeFinal, .step (follows.machine ▸ ahead) rounded' (follows'.atFixedPoint ▸ moving)
        (follows'.breakReason ▸ reached) rest', follows''⟩

/-- A loop has one end. -/
theorem Advances.unique {other : Progress Hash Machine}
    (advances : Advances hashers config memory interpret mcyclePeriod mcycleEnd progress final)
    (others : Advances hashers config memory interpret mcyclePeriod mcycleEnd progress other) :
    final = other := by
  induction advances with
  | done arrived =>
      cases others with
      | done => rfl
      | stop ahead => exact absurd ahead (BitVec.not_lt.mpr arrived)
      | step ahead => exact absurd ahead (BitVec.not_lt.mpr arrived)
  | stop ahead rounded stopped =>
      cases others with
      | done arrived => exact absurd ahead (BitVec.not_lt.mpr arrived)
      | stop _ rounded' _ => exact Except.ok.inj (rounded.symm.trans rounded')
      | step _ rounded' moving reached _ =>
          cases rounded.symm.trans rounded'
          simp [moving, reached] at stopped
  | step ahead rounded moving reached rest ih =>
      cases others with
      | done arrived => exact absurd ahead (BitVec.not_lt.mpr arrived)
      | stop _ rounded' stopped =>
          cases rounded.symm.trans rounded'
          simp [moving, reached] at stopped
      | step _ rounded' _ _ rest' =>
          cases rounded.symm.trans rounded'
          exact ih rest'

end Runs

section Composition

variable {hashers config memory interpret}
variable {mcyclePeriod mcycleEnd later : Word} {progress next final : Progress Hash Machine}

theorem nextTarget_mono (live : Live memory mcyclePeriod progress)
    (ahead : readMcycle memory progress.machine ≤ mcycleEnd) (order : mcycleEnd ≤ later) :
    nextTarget memory mcyclePeriod mcycleEnd progress ≤
      nextTarget memory mcyclePeriod later progress := by
  have ahead' := BitVec.le_trans ahead order
  have order' := BitVec.le_def.mp order
  rw [BitVec.le_def, toNat_nextTarget memory live ahead, toNat_nextTarget memory live ahead']
  omega

/-- A round that stops early or at a fixed point does so for every later end too. -/
theorem round_stopped (composes : Composes memory interpret)
    (live : Live memory mcyclePeriod progress)
    (ahead : readMcycle memory progress.machine < mcycleEnd) (order : mcycleEnd ≤ later)
    (rounded : round hashers config memory interpret mcyclePeriod mcycleEnd progress = .ok next)
    (stopped : next.atFixedPoint = true ∨ next.breakReason ≠ .reachedTargetMcycle) :
    round hashers config memory interpret mcyclePeriod later progress = .ok next := by
  have mono := nextTarget_mono live (BitVec.le_of_lt ahead) order
  obtain ⟨towards, _⟩ := lt_nextTarget memory live ahead
  have same : interpret progress.machine (nextTarget memory mcyclePeriod later progress) =
      interpret progress.machine (nextTarget memory mcyclePeriod mcycleEnd progress) := by
    by_cases reached : next.breakReason = .reachedTargetMcycle
    · have fixed : next.atFixedPoint = true := stopped.resolve_right (not_not_intro reached)
      have last := target_of_fixedPoint hashers config composes live ahead rounded fixed reached
      rw [last] at mono
      rw [last, BitVec.allOnes_le_iff.mp mono]
    · obtain ⟨_, _, rounded', _, facts, _⟩ := round_settled hashers config composes live ahead
      cases rounded.symm.trans rounded'
      exact composes.stops _ _ _ live.running towards mono (facts.breakReason ▸ reached)
  rw [round, collectPeriod_eq, same, ← collectPeriod_eq]
  exact rounded

theorem settle_congr {newPhase : Word} {outcome : InterpreterBreakReason × Machine}
    (hashes : progress.hashes = next.hashes) (backTree : progress.backTree = next.backTree)
    (rootHash : progress.rootHash = next.rootHash) :
    settle hashers config memory newPhase outcome progress =
      settle hashers config memory newPhase outcome next := by
  rw [settle, settle, hashes, backTree, rootHash]

/-- A round that an earlier end cuts short goes on as if it had not been cut. -/
theorem round_through (composes : Composes memory interpret)
    (live : Live memory mcyclePeriod progress)
    (ahead : readMcycle memory progress.machine < mcycleEnd) (order : mcycleEnd < later)
    (cut : mcycleEnd < nextTarget memory mcyclePeriod later progress)
    (rounded : round hashers config memory interpret mcyclePeriod mcycleEnd progress = .ok next)
    (moving : next.atFixedPoint = false) (reached : next.breakReason = .reachedTargetMcycle) :
    round hashers config memory interpret mcyclePeriod later progress =
      round hashers config memory interpret mcyclePeriod later next := by
  have before := BitVec.lt_def.mp ahead
  have phase := BitVec.lt_def.mp live.mcyclePhase
  have cut' := BitVec.lt_def.mp cut
  have order' := BitVec.lt_def.mp order
  have ahead' := word_lt_of_lt_of_le ahead (BitVec.le_of_lt order)
  rw [toNat_nextTarget memory live (BitVec.le_of_lt ahead')] at cut'
  have target : nextTarget memory mcyclePeriod mcycleEnd progress = mcycleEnd := by
    apply BitVec.eq_of_toNat_eq
    rw [toNat_nextTarget memory live (BitVec.le_of_lt ahead)]
    omega
  obtain ⟨live', arrived, reason, machine⟩ :=
    live_next hashers config composes live ahead rounded moving reached
  obtain ⟨_, newPhase, rounded', settled, facts, counted⟩ :=
    round_settled hashers config composes live ahead
  cases rounded.symm.trans rounded'
  rw [target] at arrived reason machine settled facts
  -- The cut falls strictly inside the period, so that nothing is collected at it.
  rw [arrived, Nat.mod_eq_of_lt (by omega)] at counted
  have skipped : ¬(newPhase = 0 || reachesFixedPoint memory
      (interpret progress.machine mcycleEnd)) = true := by
    rw [← facts.atFixedPoint, moving, Bool.or_false, decide_eq_true_eq]
    rintro rfl
    change 0 = _ at counted
    omega
  rw [settle_skipped hashers config memory skipped] at settled
  have ahead'' : readMcycle memory next.machine < later := arrived ▸ order
  have sameTarget : nextTarget memory mcyclePeriod later next =
      nextTarget memory mcyclePeriod later progress := by
    apply BitVec.eq_of_toNat_eq
    rw [toNat_nextTarget memory live (BitVec.le_of_lt ahead'),
      toNat_nextTarget memory live' (BitVec.le_of_lt ahead''), arrived, facts.mcyclePhase, counted]
    omega
  have sameRun : interpret progress.machine (nextTarget memory mcyclePeriod later progress) =
      interpret next.machine (nextTarget memory mcyclePeriod later next) := by
    rw [sameTarget, machine]
    exact composes.continues _ _ _ live.running ahead (BitVec.le_of_lt cut) reason
  obtain ⟨wholeNext, wholePhase, wholeRounded, wholeSettled, wholeFacts, wholeCounted⟩ :=
    round_settled hashers config composes live ahead'
  obtain ⟨laterNext, laterPhase, laterRounded, laterSettled, laterFacts, laterCounted⟩ :=
    round_settled hashers config composes live' ahead''
  have sameMachine : laterNext.machine = wholeNext.machine := by
    rw [laterFacts.machine, wholeFacts.machine, sameRun]
  obtain ⟨onwards, _⟩ := composes.forward _ _ live'.running (lt_nextTarget memory live' ahead'').1
  have onwards' := BitVec.le_def.mp onwards
  rw [← laterFacts.machine, arrived] at onwards'
  have samePhase : laterPhase = wholePhase := by
    apply BitVec.eq_of_toNat_eq
    rw [laterCounted, wholeCounted, facts.mcyclePhase, counted, arrived, ← sameMachine]
    congr 1
    omega
  rw [wholeRounded, laterRounded, ← wholeSettled, ← laterSettled, samePhase, sameRun]
  cases settled
  rfl

/-- The rounds to an earlier end and the rounds from there are the rounds to the later end. -/
theorem Advances.compose (composes : Composes memory interpret)
    (advances : Advances hashers config memory interpret mcyclePeriod mcycleEnd progress final)
    (live : Live memory mcyclePeriod progress) (order : mcycleEnd ≤ later) :
    ((final.atFixedPoint = true ∨ final.breakReason ≠ .reachedTargetMcycle) →
      Advances hashers config memory interpret mcyclePeriod later progress final) ∧
    ∀ {last}, Live memory mcyclePeriod final →
      Advances hashers config memory interpret mcyclePeriod later final last →
      Advances hashers config memory interpret mcyclePeriod later progress last := by
  induction advances with
  | done arrived =>
      refine ⟨?_, fun _ rest => rest⟩
      rintro (fixed | interrupted)
      · exact absurd (live.moving.symm.trans fixed) (by simp)
      · exact absurd live.reached interrupted
  | @stop progress next ahead rounded stopped =>
      have ahead' : readMcycle memory progress.machine < later := word_lt_of_lt_of_le ahead order
      refine ⟨fun _ => .stop ahead' (round_stopped composes live ahead order rounded stopped) stopped,
        ?_⟩
      intro last live' _
      simp [live'.moving, live'.reached] at stopped
  | @step progress next final ahead rounded moving reached rest ih =>
      have ahead' : readMcycle memory progress.machine < later := word_lt_of_lt_of_le ahead order
      obtain ⟨live', arrived, _⟩ := live_next hashers config composes live ahead rounded moving reached
      by_cases same : nextTarget memory mcyclePeriod later progress =
          nextTarget memory mcyclePeriod mcycleEnd progress
      · have rounded' : round hashers config memory interpret mcyclePeriod later progress =
            .ok next := by
          rw [round, same]
          exact rounded
        obtain ⟨stopped, running⟩ := ih live'
        exact ⟨fun halt => .step ahead' rounded' moving reached (stopped halt),
          fun live'' more => .step ahead' rounded' moving reached (running live'' more)⟩
      · have mono := BitVec.le_def.mp (nextTarget_mono live (BitVec.le_of_lt ahead) order)
        have differ : (nextTarget memory mcyclePeriod later progress).toNat ≠
            (nextTarget memory mcyclePeriod mcycleEnd progress).toNat :=
          fun equal => same (BitVec.eq_of_toNat_eq equal)
        have before := BitVec.lt_def.mp ahead
        have target := toNat_nextTarget memory live (BitVec.le_of_lt ahead)
        have target' := toNat_nextTarget memory live (BitVec.le_of_lt ahead')
        have cut : mcycleEnd < nextTarget memory mcyclePeriod later progress := by
          rw [BitVec.lt_def]
          omega
        have past : mcycleEnd ≤ readMcycle memory next.machine := by
          rw [arrived, BitVec.le_def]
          omega
        have order' := word_lt_of_lt_of_le cut (lt_nextTarget memory live ahead').2
        have through := round_through composes live ahead order' cut rounded moving reached
        cases Advances.unique rest (.done past)
        refine ⟨?_, fun _ more => ?_⟩
        · rintro (fixed | interrupted)
          · exact absurd (moving.symm.trans fixed) (by simp)
          · exact absurd reached interrupted
        · cases more with
          | done arrived' =>
              have close := BitVec.le_def.mp arrived'
              have open_ := BitVec.lt_def.mp order'
              rw [arrived] at close
              omega
          | stop _ rounded' stopped => exact .stop ahead' (through.trans rounded') stopped
          | step _ rounded' moving' reached' rest' =>
              exact .step ahead' (through.trans rounded') moving' reached' rest'

end Composition

end MachineEmulator.Collect
