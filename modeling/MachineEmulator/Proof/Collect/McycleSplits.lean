/-
This file proves exactly when every split of a collection gives what one collection gives.
-/

import MachineEmulator.Proof.Collect.McycleCalls

namespace MachineEmulator.Collect

open StepLog (HashFunctionType)

variable {Hash Machine : Type} [Inhabited Hash]
variable {hashers : HashFunctionType → Hasher Hash} {config : CollectConfig}
variable {memory : Machine → Memory}
variable {interpret : Machine → Word → InterpreterBreakReason × Machine}
variable {machine : Machine} {mcycleEnd mcyclePeriod mcyclePhase : Word} {log2Count : Int}
variable {previous : Option (BackMerkleTree Hash)}

/-- The targets of consecutive calls that start at one cycle and end at another. -/
def Consecutive (mcycleEnd : Word) : Word → List Word → Prop
  | start, [] => start ≤ mcycleEnd
  | start, target :: targets => start ≤ target ∧ Consecutive mcycleEnd target targets

theorem Consecutive.le {start : Word} {targets : List Word}
    (consecutive : Consecutive mcycleEnd start targets) : start ≤ mcycleEnd := by
  induction targets generalizing start with
  | nil => exact consecutive
  | cons target targets ih => exact BitVec.le_trans consecutive.1 (ih consecutive.2)

theorem Consecutive.weaken {start earlier : Word} {targets : List Word}
    (consecutive : Consecutive mcycleEnd start targets) (before : earlier ≤ start) :
    Consecutive mcycleEnd earlier targets := by
  cases targets with
  | nil => exact BitVec.le_trans before consecutive
  | cons target targets => exact ⟨BitVec.le_trans before consecutive.1, consecutive.2⟩

section Sequences

variable {target : Word} {targets : List Word} {first rest : McycleRootHashes Hash}
variable {reached final : Machine}

/-- The call left the machine at its target or at a fixed point. -/
def Completes (result : McycleRootHashes Hash) : Prop :=
  result.breakReason = .reachedTargetMcycle ∨ result.breakReason = .halted ∨
    result.breakReason = .yieldedManually

theorem collectCalls_cons
    (call : collectMcycleRootHashes hashers config memory interpret machine target mcyclePeriod
      mcyclePhase log2Count previous = .ok (first, reached))
    (completes : Completes first)
    (calls : collectCalls hashers config memory interpret mcycleEnd mcyclePeriod log2Count targets
      reached first.mcyclePhase first.backTree = .ok (rest, final)) :
    collectCalls hashers config memory interpret mcycleEnd mcyclePeriod log2Count
      (target :: targets) machine mcyclePhase previous =
        .ok ({ rest with hashes := first.hashes ++ rest.hashes }, final) := by
  rw [collectCalls]
  apply bind_ok.mpr
  refine ⟨(first, reached), call, ?_⟩
  change (if first.breakReason = .reachedTargetMcycle ∨ first.breakReason = .halted ∨
    first.breakReason = .yieldedManually then _ else _) = _
  rw [Completes] at completes
  rw [if_pos completes]
  apply bind_ok.mpr
  exact ⟨(rest, final), calls, rfl⟩

theorem collectCalls_interrupted
    (call : collectMcycleRootHashes hashers config memory interpret machine target mcyclePeriod
      mcyclePhase log2Count previous = .ok (first, reached))
    (interrupted : ¬Completes first) :
    collectCalls hashers config memory interpret mcycleEnd mcyclePeriod log2Count
      (target :: targets) machine mcyclePhase previous = .ok (first, reached) := by
  rw [collectCalls]
  apply bind_ok.mpr
  refine ⟨(first, reached), call, ?_⟩
  change (if first.breakReason = .reachedTargetMcycle ∨ first.breakReason = .halted ∨
    first.breakReason = .yieldedManually then _ else _) = _
  rw [Completes] at interrupted
  rw [if_neg interrupted]
  rfl

end Sequences

section FixedPoints

/-- A halted or manually yielded machine adds nothing in any number of calls. -/
theorem collectCalls_stopped {breakReason : InterpreterBreakReason} {targets : List Word}
    (admissible : Admissible config memory machine mcycleEnd mcyclePeriod mcyclePhase log2Count
      previous)
    (consecutive : Consecutive mcycleEnd (readMcycle memory machine) targets)
    (stopped : readIflagsH memory machine ≠ 0 ∧ breakReason = .halted ∨
      readIflagsH memory machine = 0 ∧ readIflagsY memory machine ≠ 0 ∧
        breakReason = .yieldedManually) :
    collectCalls hashers config memory interpret mcycleEnd mcyclePeriod log2Count targets machine
      mcyclePhase previous = .ok (⟨[], mcyclePhase, breakReason, none⟩, machine) := by
  have call : ∀ {target previous}, Admissible config memory machine target mcyclePeriod mcyclePhase
      log2Count previous →
      collectMcycleRootHashes hashers config memory interpret machine target mcyclePeriod mcyclePhase
        log2Count previous = .ok (⟨[], mcyclePhase, breakReason, none⟩, machine) := by
    intro target previous admissible
    rw [collectMcycleRootHashes_eq admissible]
    rcases stopped with ⟨halted, rfl⟩ | ⟨running, yielded, rfl⟩
    · rw [if_pos halted]
    · rw [if_neg (not_not_intro running), if_pos yielded]
  induction targets generalizing previous with
  | nil => exact call admissible
  | cons target targets ih =>
      have first := call { admissible with ahead := consecutive.1 }
      have rest := @ih none
        { admissible with backTree := fun backTree member => absurd member (by simp) }
        (consecutive.2.weaken consecutive.1)
      refine collectCalls_cons first ?_ rest
      rcases stopped with ⟨_, rfl⟩ | ⟨_, _, rfl⟩
      · exact .inr (.inl rfl)
      · exact .inr (.inr rfl)

/-- A machine at the last cycle adds nothing in any number of calls. -/
theorem collectCalls_last (composes : Composes memory interpret) {targets : List Word}
    (admissible : Admissible config memory machine mcycleEnd mcyclePeriod mcyclePhase log2Count
      (none : Option (BackMerkleTree Hash)))
    (running : Running memory machine) (fits : BundleFits mcyclePeriod log2Count)
    (last : readMcycle memory machine = BitVec.allOnes 64)
    (consecutive : Consecutive mcycleEnd (readMcycle memory machine) targets) :
    collectCalls hashers config memory interpret mcycleEnd mcyclePeriod log2Count targets machine
      mcyclePhase none = .ok (⟨[], mcyclePhase, .reachedTargetMcycle, none⟩, machine) := by
  have call : ∀ {target}, Admissible config memory machine target mcyclePeriod mcyclePhase
      log2Count (none : Option (BackMerkleTree Hash)) →
      collectMcycleRootHashes hashers config memory interpret machine target mcyclePeriod mcyclePhase
        log2Count none = .ok (⟨[], mcyclePhase, .reachedTargetMcycle, none⟩, machine) := by
    intro target admissible
    have ahead := admissible.ahead
    rw [last, BitVec.allOnes_le_iff] at ahead
    subst ahead
    have past : BitVec.allOnes 64 ≤ readMcycle memory machine := last ▸ BitVec.le_refl _
    have bound := mcyclePhase.isLt
    obtain ⟨final, advances, collected⟩ := @collect_advances Hash Machine hashers config memory
      interpret _ machine _ _ _ _ _ composes admissible running fits
      (.inr (by rw [composes.past _ _ running past, Nat.sub_self, Nat.zero_add]; exact bound))
    cases advances.unique (.done past)
    rw [collected, finishCollection_eq (if_neg (by simp [firstProgress]))]
    rfl
  induction targets with
  | nil => exact call admissible
  | cons target targets ih =>
      have first := call { admissible with ahead := consecutive.1 }
      exact collectCalls_cons first (.inl rfl) (ih (consecutive.2.weaken consecutive.1))

end FixedPoints

section Splits

omit [Inhabited Hash] in
theorem Agrees.refl (result : McycleRootHashes Hash) : Agrees result result := by
  refine ⟨rfl, rfl, rfl, ?_⟩
  cases result.backTree with
  | none => exact .none
  | some backTree => exact .some (BackMerkleTree.Same.refl backTree)

omit [Inhabited Hash] in
theorem rel_same_trans {first second third : Option (BackMerkleTree Hash)}
    (left : Option.Rel BackMerkleTree.Same first second)
    (right : Option.Rel BackMerkleTree.Same second third) :
    Option.Rel BackMerkleTree.Same first third := by
  cases left with
  | none =>
      cases right
      exact .none
  | some same =>
      cases right with
      | some same' => exact .some (same.trans same')

omit [Inhabited Hash] in
theorem Agrees.trans {first second third : McycleRootHashes Hash} (left : Agrees first second)
    (right : Agrees second third) : Agrees first third :=
  ⟨left.hashes.trans right.hashes, left.mcyclePhase.trans right.mcyclePhase,
    left.breakReason.trans right.breakReason, rel_same_trans left.backTree right.backTree⟩

omit [Inhabited Hash] in
theorem Agrees.prepend {first second : McycleRootHashes Hash} (agrees : Agrees first second)
    (before : List Hash) :
    Agrees { first with hashes := before ++ first.hashes }
      { second with hashes := before ++ second.hashes } :=
  ⟨congrArg (before ++ ·) agrees.hashes, agrees.mcyclePhase, agrees.breakReason, agrees.backTree⟩

/-- The end of the loop of a call is a result of the call. -/
theorem Advances.finish (composes : Composes memory interpret) {final : Progress Hash Machine}
    (admissible : Admissible config memory machine mcycleEnd mcyclePeriod mcyclePhase log2Count
      previous) (running : Running memory machine)
    (advances : Advances hashers config memory interpret mcyclePeriod mcycleEnd
      (firstProgress config machine mcyclePhase log2Count previous) final)
    {before : List Hash} {whole : Progress Hash Machine} (follows : Follows before final whole) :
    ∃ laterResult wholeResult,
      finishCollection hashers config log2Count.toNat final = .ok (laterResult, final.machine) ∧
      finishCollection hashers config log2Count.toNat whole = .ok (wholeResult, whole.machine) ∧
      Agrees { laterResult with hashes := before ++ laterResult.hashes } wholeResult ∧
      laterResult.mcyclePhase = final.mcyclePhase ∧
      laterResult.breakReason = final.breakReason ∧
      (final.atFixedPoint = true → laterResult.backTree = none) ∧
      (final.atFixedPoint = false → laterResult.hashes = final.hashes ∧
        laterResult.backTree = if final.backTree.empty = true then none
          else some final.backTree) := by
  obtain ⟨room, height, _, bundled⟩ := advances.backTree composes (live_firstProgress admissible running)
  have height' : final.backTree.log2MaxLeaves = log2Count.toNat :=
    height.trans (firstTree_facts admissible).2.1
  have small : final.backTree.log2MaxLeaves < 64 := by
    have := admissible.small
    omega
  rw [← height']
  exact finishCollection_follows follows room small bundled

omit [Inhabited Hash] in
/-- What one call counts exactly, a shorter one does too. -/
theorem CountsExactly.earlier (composes : Composes memory interpret) {target : Word}
    (running : Running memory machine)
    (counts : CountsExactly memory interpret machine mcycleEnd mcyclePeriod mcyclePhase)
    (order : target ≤ mcycleEnd) :
    CountsExactly memory interpret machine target mcyclePeriod mcyclePhase := by
  have bound := mcyclePhase.isLt
  rcases counts with small | small
  · exact .inl small
  · by_cases ahead : readMcycle memory machine < target
    · have mono := BitVec.le_def.mp (mcycle_mono composes running ahead order)
      exact .inr (by omega)
    · refine .inr ?_
      rw [composes.past _ _ running (BitVec.not_lt.mp ahead), Nat.sub_self, Nat.zero_add]
      exact bound

/-- What one call counts exactly, the calls for its parts do too. -/
theorem CountsExactly.later (composes : Composes memory interpret) {target : Word}
    {mid : Progress Hash Machine}
    (live : Live memory mcyclePeriod (firstProgress config machine mcyclePhase log2Count previous))
    (counts : CountsExactly memory interpret machine mcycleEnd mcyclePeriod mcyclePhase)
    (start : readMcycle memory machine ≤ target) (order : target ≤ mcycleEnd)
    (advances : Advances hashers config memory interpret mcyclePeriod target
      (firstProgress config machine mcyclePhase log2Count previous) mid)
    (live' : Live memory mcyclePeriod mid) :
    CountsExactly memory interpret mid.machine mcycleEnd mcyclePeriod mid.mcyclePhase := by
  have running : Running memory machine := live.running
  have ran : interpret machine target = _ := advances.machine composes live start
  obtain ⟨forward, counted⟩ := advances.phase composes live
  have same : interpret machine mcycleEnd = interpret mid.machine mcycleEnd := by
    by_cases ahead : readMcycle memory machine < target
    · rw [composes.continues _ _ _ running ahead order (by rw [ran]; exact live'.reached), ran]
    · have still := composes.past _ _ running (BitVec.not_lt.mp ahead)
      exact congrArg (interpret · mcycleEnd) (congrArg Prod.snd (still.symm.trans ran))
  have limit : mid.mcyclePhase.toNat ≤ mcyclePhase.toNat +
      ((readMcycle memory mid.machine).toNat - (readMcycle memory machine).toNat) := by
    rw [counted]
    exact Nat.mod_le _ _
  have forward' := BitVec.le_def.mp forward
  change (readMcycle memory machine).toNat ≤ _ at forward'
  rcases counts with small | small
  · exact .inl small
  · rw [same] at small
    by_cases before : readMcycle memory mid.machine < mcycleEnd
    · have onwards := BitVec.le_def.mp (composes.forward _ _ live'.running before).1
      exact .inr (by omega)
    · rw [composes.past _ _ live'.running (BitVec.not_lt.mp before)] at small
      refine .inr ?_
      rw [composes.past _ _ live'.running (BitVec.not_lt.mp before), Nat.sub_self, Nat.zero_add]
      exact mid.mcyclePhase.isLt

/-- The next call finds the microarchitecture reset. -/
theorem uarchReset_next (composes : Composes memory interpret) {target : Word}
    {mid : Progress Hash Machine}
    (admissible : Admissible config memory machine target mcyclePeriod mcyclePhase log2Count
      previous) (running : Running memory machine)
    (advances : Advances hashers config memory interpret mcyclePeriod target
      (firstProgress config machine mcyclePhase log2Count previous) mid) :
    readUarchCycle memory mid.machine = 0 := by
  have ran := advances.machine composes (live_firstProgress admissible running) admissible.ahead
  change interpret machine target = _ at ran
  by_cases ahead : readMcycle memory machine < target
  · have kept := composes.uarchCycle _ _ running ahead
    rw [ran] at kept
    exact kept.trans admissible.uarchReset
  · rw [composes.past _ _ running (BitVec.not_lt.mp ahead)] at ran
    have same : machine = mid.machine := congrArg Prod.snd ran
    rw [← same]
    exact admissible.uarchReset

/-- A call does not go past its target. -/
theorem mcycle_le_target (composes : Composes memory interpret) {target : Word}
    {mid : Progress Hash Machine}
    (admissible : Admissible config memory machine target mcyclePeriod mcyclePhase log2Count
      previous) (running : Running memory machine)
    (advances : Advances hashers config memory interpret mcyclePeriod target
      (firstProgress config machine mcyclePhase log2Count previous) mid) :
    readMcycle memory mid.machine ≤ target := by
  have ran := advances.machine composes (live_firstProgress admissible running) admissible.ahead
  change interpret machine target = _ at ran
  by_cases ahead : readMcycle memory machine < target
  · have bounded := (composes.forward _ _ running ahead).2
    rw [ran] at bounded
    exact bounded
  · rw [composes.past _ _ running (BitVec.not_lt.mp ahead)] at ran
    have same : machine = mid.machine := congrArg Prod.snd ran
    rw [← same]
    exact admissible.ahead

/-- The calls behind a call that ends at a fixed point add nothing. -/
theorem collectCalls_afterFixedPoint (composes : Composes memory interpret)
    (fits : BundleFits mcyclePeriod log2Count) {target : Word} {targets : List Word}
    {mid : Progress Hash Machine}
    (admissible : Admissible config memory machine target mcyclePeriod mcyclePhase log2Count
      previous) (running : Running memory machine)
    (advances : Advances hashers config memory interpret mcyclePeriod target
      (firstProgress config machine mcyclePhase log2Count previous) mid)
    (consecutive : Consecutive mcycleEnd target targets)
    (fixed : mid.atFixedPoint = true)
    (completes : mid.breakReason = .reachedTargetMcycle ∨ mid.breakReason = .halted ∨
      mid.breakReason = .yieldedManually) :
    collectCalls hashers config memory interpret mcycleEnd mcyclePeriod log2Count targets mid.machine
      mid.mcyclePhase none = .ok (⟨[], mid.mcyclePhase, mid.breakReason, none⟩, mid.machine) := by
  have live := live_firstProgress admissible running
  have ran : interpret machine target = _ := advances.machine composes live admissible.ahead
  have bounded := mcycle_le_target composes admissible running advances
  have ahead : readMcycle memory machine < target := by
    by_contra behind
    cases advances.unique (.done (BitVec.not_lt.mp behind))
    exact absurd fixed (by simp [firstProgress])
  have phase : mid.mcyclePhase < mcyclePeriod := by
    rw [BitVec.lt_def, (advances.phase composes live).2]
    exact Nat.mod_lt _ (Nat.zero_lt_of_lt (BitVec.lt_def.mp admissible.mcyclePhase))
  have admissible' : Admissible config memory mid.machine mcycleEnd mcyclePeriod mid.mcyclePhase
      log2Count (none : Option (BackMerkleTree Hash)) :=
    { admissible with
      ahead := BitVec.le_trans bounded consecutive.le
      mcyclePhase := phase
      backTree := fun _ member => absurd member (by simp)
      uarchReset := uarchReset_next composes admissible running advances }
  have consecutive' := consecutive.weaken bounded
  rcases completes with reached | halted | yielded
  · have atLast := (advances.ends composes live admissible.ahead).1 (.inl fixed)
    rw [fixed, reached, reachesFixedPoint] at atLast
    have last : readMcycle memory mid.machine = BitVec.allOnes 64 := by simpa using atLast.symm
    have arrived := composes.reached _ _ running ahead (by rw [ran]; exact reached)
    rw [ran] at arrived
    rw [reached]
    exact collectCalls_last composes admissible' arrived.2 fits last consecutive'
  · have flag := composes.halted _ _ running ahead (by rw [ran]; exact halted)
    rw [ran] at flag
    exact collectCalls_stopped admissible' consecutive' (.inl ⟨flag, halted⟩)
  · have flags := composes.yielded _ _ running ahead (by rw [ran]; exact yielded)
    rw [ran] at flags
    exact collectCalls_stopped admissible' consecutive' (.inr ⟨flags.1, flags.2, yielded⟩)

/-- Consecutive calls agree with the one call whose loop is given. -/
theorem collectCalls_agree (composes : Composes memory interpret)
    (fits : BundleFits mcyclePeriod log2Count) {targets : List Word}
    (admissible : Admissible config memory machine mcycleEnd mcyclePeriod mcyclePhase log2Count
      previous) (running : Running memory machine)
    (counts : CountsExactly memory interpret machine mcycleEnd mcyclePeriod mcyclePhase)
    (consecutive : Consecutive mcycleEnd (readMcycle memory machine) targets)
    {final : Progress Hash Machine}
    (advances : Advances hashers config memory interpret mcyclePeriod mcycleEnd
      (firstProgress config machine mcyclePhase log2Count previous) final) :
    ∃ parts whole,
      collectCalls hashers config memory interpret mcycleEnd mcyclePeriod log2Count targets machine
        mcyclePhase previous = .ok (parts, final.machine) ∧
      finishCollection hashers config log2Count.toNat final = .ok (whole, final.machine) ∧
      Agrees parts whole := by
  induction targets generalizing machine mcyclePhase previous final with
  | nil =>
      obtain ⟨final', advances', collected⟩ := collect_advances composes admissible running fits counts
      cases advances.unique advances'
      obtain ⟨result, _, finished, _⟩ :=
        advances.finish composes admissible running (Follows.refl final)
      exact ⟨result, result, collected.trans finished, finished, Agrees.refl result⟩
  | cons target targets ih =>
      have order : target ≤ mcycleEnd := consecutive.2.le
      have admissible' : Admissible config memory machine target mcyclePeriod mcyclePhase log2Count
          previous := { admissible with ahead := consecutive.1 }
      have counts' := counts.earlier composes running order
      have live := live_firstProgress admissible running
      obtain ⟨mid, advances', collected⟩ :=
        collect_advances composes admissible' running fits counts'
      obtain ⟨first, _, finished, _, _, phase, reason, fixedTree, movingTree⟩ :=
        advances'.finish composes admissible' running (Follows.refl mid)
      rw [finished] at collected
      obtain ⟨stops, goes⟩ := advances'.compose composes live order
      by_cases stopped : mid.atFixedPoint = true ∨ mid.breakReason ≠ .reachedTargetMcycle
      · rw [advances.unique (stops stopped)]
        by_cases completes : Completes first
        · rw [Completes, reason] at completes
          have fixed : mid.atFixedPoint = true := by
            have flag := (advances'.ends composes live admissible'.ahead).1 stopped
            rcases completes with reached | halted | yielded
            · exact stopped.resolve_right (not_not_intro reached)
            · rw [flag, reachesFixedPoint, halted]
              rfl
            · rw [flag, reachesFixedPoint, yielded]
              rfl
          have rest := collectCalls_afterFixedPoint composes fits admissible' running advances'
            consecutive.2 fixed completes
          rw [← phase, ← fixedTree fixed] at rest
          refine ⟨_, first, collectCalls_cons collected (by rw [Completes, reason]; exact completes)
            rest, finished, ?_⟩
          refine ⟨List.append_nil _, rfl, reason.symm, ?_⟩
          rw [fixedTree fixed]
          exact .none
        · exact ⟨first, first, collectCalls_interrupted collected completes, finished,
            Agrees.refl first⟩
      · obtain ⟨live', arrived⟩ := (advances'.ends composes live admissible'.ahead).2 stopped
        obtain ⟨hashes, backTree⟩ := movingTree live'.moving
        obtain ⟨room, height, function, _⟩ := advances'.backTree composes live
        obtain ⟨_, height', function'⟩ := firstTree_facts admissible
        replace height : mid.backTree.log2MaxLeaves = log2Count.toNat := height.trans height'
        replace function : mid.backTree.hashFunction = config.hashFunction :=
          function.trans function'
        have nextAdmissible : Admissible config memory mid.machine mcycleEnd mcyclePeriod
            mid.mcyclePhase log2Count first.backTree :=
          { admissible with
            ahead := arrived ▸ order
            mcyclePhase := live'.mcyclePhase
            backTree := by
              have nonnegative := admissible.nonnegative
              intro tree member
              rw [backTree] at member
              split at member
              · exact absurd member (by simp)
              · rw [Option.mem_some_iff] at member
                subst member
                exact ⟨by omega, function, room⟩
            uarchReset := uarchReset_next composes admissible' running advances' }
        have nextCounts := counts.later composes live admissible'.ahead order advances' live'
        obtain ⟨last, advances'', _⟩ := @collect_advances Hash Machine hashers config memory
          interpret _ mid.machine mcycleEnd mcyclePeriod mid.mcyclePhase log2Count first.backTree
          composes nextAdmissible live'.running fits nextCounts
        have follows : Follows mid.hashes
            (firstProgress config mid.machine mid.mcyclePhase log2Count first.backTree) mid := by
          refine ⟨rfl, (List.append_nil _).symm, rfl, live'.reached.symm, ?_, live'.moving.symm,
            fun fixed => absurd fixed (by simp [firstProgress])⟩
          change (firstTree config log2Count first.backTree).Same mid.backTree
          rw [backTree]
          split
          · rename_i empty
            exact BackMerkleTree.same_of_empty height.symm function.symm rfl (of_decide_eq_true empty)
          · exact BackMerkleTree.Same.refl _
        obtain ⟨whole, advancesWhole, follows'⟩ := advances''.follows composes
          (live_firstProgress nextAdmissible live'.running) follows
        cases advances.unique (goes live' advancesWhole)
        obtain ⟨parts, rest, called, finished', agrees⟩ := ih nextAdmissible live'.running nextCounts
          (arrived ▸ consecutive.2) advances''
        obtain ⟨rest', whole, finished'', wholeFinished, agrees', _⟩ :=
          advances''.finish composes nextAdmissible live'.running follows'
        cases (Except.ok.inj (finished'.symm.trans finished''))
        rw [← phase] at called
        have complete : Completes first := .inl (reason.trans live'.reached)
        refine ⟨_, whole, ?_, wholeFinished, (agrees.prepend first.hashes).trans (hashes ▸ agrees')⟩
        rw [← follows'.machine]
        exact collectCalls_cons collected complete called

end Splits

end MachineEmulator.Collect
