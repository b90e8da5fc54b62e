/-
This file shows when the accepted logs of the microarchitecture step and reset are sound.
-/

import MachineEmulator.Construction.SymbolicHasher
import MachineEmulator.Proof.Uarch.ReplayAccepts
import MachineEmulator.Proof.Uarch.StepCalls

namespace MachineEmulator.Uarch

open Effects

variable {Hash : Type} {platform : Word → Nat → Bool} {hasher : Hasher Hash}
  {pristineRam : List Byte} {memory : Memory} {log : List (Access Hash)}
  {rootHashAfter : Option Hash} {rootHash : Hash}

section Runs

variable [DecidableEq Hash]

theorem replayAccess_simulates (collisionFree : hasher.CollisionFree) :
    Simulates Op.IsStateAccess (replayAccess platform hasher pristineRam)
      (directAccess pristineRam) (Tracks hasher) := by
  intro op context memory answer next state tracks passed
  obtain ⟨log, after, same, ⟨root, _⟩ | ⟨⟨access, member, wrong⟩, _⟩⟩ :=
    replayAccess_state collisionFree state tracks.1 passed
  · exact ⟨after, same, root, log ▸ tracks.2⟩
  · exact absurd (tracks.2 access member) wrong

/-- A replay with at most one write of a whole node stays faithful or ends at a hash of no memory. -/
theorem replay_faithful_or_misplaced (collisionFree : hasher.CollisionFree) {A : Type}
    {code : Action A} (once : code.CallsOnce Op.IsWordAccess) (calls : code.Calls Op.IsStateAccess)
    {context next : ReplayContext Hash} {result : A} (start : Faithful hasher log context)
    (ran : code.run (replayAccess platform hasher pristineRam) context = .ok (result, next)) :
    Faithful hasher log next ∨ Misplaced hasher next.rootHash := by
  refine Program.run_either (Faithful hasher log) (fun context => Misplaced hasher context.rootHash)
    ?_ ?_ ?_ once calls start ran
  · rintro op state answer moved word ⟨rfl, bound, memory, root⟩ passed
    obtain ⟨after, _, root, log, kept⟩ := replayAccess_word collisionFree word root passed
    exact ⟨log, kept bound, after, root⟩
  · intro op state answer moved word misplaced passed
    exact replayAccess_misplaced collisionFree word misplaced passed
  · rintro op state answer moved allowed ⟨rfl, bound, memory, root⟩ passed
    obtain ⟨log, after, _, ⟨root, kept⟩ | ⟨_, misplaced⟩⟩ :=
      replayAccess_state collisionFree allowed root passed
    · exact Or.inl ⟨log, kept bound, after, root⟩
    · exact Or.inr misplaced

theorem verifyWith_ok {A : Type} {code : Action A} {rootHashBefore : Hash}
    (accepted : verifyWith platform hasher pristineRam code rootHashBefore log rootHashAfter =
      .ok rootHash) :
    ∃ result context, code.run (replayAccess platform hasher pristineRam) ⟨log, 0, rootHashBefore⟩ =
        .ok (result, context) ∧ context.nextAccess = context.accesses.length ∧
      context.rootHash = rootHash := by
  simp only [verifyWith, ReplayContext.finish, bind_ok, check_ok] at accepted
  obtain ⟨⟨result, context⟩, ran, obtained, ⟨_, consumed, finished⟩, _, _, done⟩ := accepted
  cases finished
  cases done
  exact ⟨result, context, ran, consumed, rfl⟩

end Runs

section Step

variable [DecidableEq Hash]

/-- The step's verifier returns the root of the stepped memory exactly when the log is bound. -/
theorem verifyStepUarch_iff (collisionFree : hasher.CollisionFree)
    (accepted : verifyStepUarch platform hasher pristineRam (hasher.merkleRoot memory) log
      rootHashAfter = .ok rootHash) :
    (∃ status after, stepMemory pristineRam memory = .ok (status, after) ∧
      rootHash = hasher.merkleRoot after) ↔ ∀ access ∈ log, access.Bound := by
  obtain ⟨status, context, ran, consumed, rfl⟩ := verifyWith_ok accepted
  constructor
  · rintro ⟨_, after, _, root⟩
    rcases replay_faithful_or_misplaced collisionFree uarchStep_callsOnce uarchStep_calls
      (Faithful.start memory log) ran with faithful | misplaced
    · exact faithful.all_bound consumed
    · exact absurd root (misplaced.ne_merkleRoot collisionFree after)
  · intro bound
    obtain ⟨after, stepped, root, _⟩ :=
      (replayAccess_simulates collisionFree).run uarchStep_calls ⟨rfl, bound⟩ ran
    exact ⟨status, after, stepped, root⟩

end Step

section Reset

/-- The reset up to the question whether the state reverts. -/
def resetDecision : Action Bool := do
  resetState
  let iflagsY ← readWord iflagsYAddress
  if iflagsY ≠ 0 then do
    let tohost ← readWord htifTohostAddress
    return isYieldedManualWith tohost htifYieldManualReasonRxRejected
  else return false

theorem uarchResetState_eq :
    uarchResetState = resetDecision >>= fun reverts => if reverts then revertState else pure () := by
  rw [uarchResetState, resetDecision, Program.bind_assoc]
  congr 1
  funext _
  rw [Program.bind_assoc]
  congr 1
  funext iflagsY
  by_cases zero : iflagsY ≠ 0
  · rw [if_pos zero, if_pos zero, Program.bind_assoc]
    rfl
  · rw [if_neg zero, if_neg zero]
    rfl

theorem iflagsYAddress_aligned : iflagsYAddress &&& 7 = 0 := by decide

theorem htifTohostAddress_aligned : htifTohostAddress &&& 7 = 0 := by decide

theorem resetDecision_direct :
    resetDecision.run (directAccess pristineRam) memory =
      .ok (isRejectedManualYield (resetUarch pristineRam memory), resetUarch pristineRam memory) := by
  have resets : resetState.run (directAccess pristineRam) memory =
      .ok ((), resetUarch pristineRam memory) := rfl
  have reads : ∀ after paddr, paddr &&& 7 = 0 →
      (readWord paddr).run (directAccess pristineRam) after = .ok (after.loadWord paddr, after) := by
    intro after paddr aligned
    rw [readWord, perform, Program.run_perform]
    exact bind_ok.mpr ⟨(), check_ok.mpr aligned, rfl⟩
  rw [resetDecision, Program.run_bind, resets]
  simp only [Program.run_bind, reads _ _ iflagsYAddress_aligned, isRejectedManualYield]
  by_cases zero : (resetUarch pristineRam memory).loadWord iflagsYAddress ≠ 0
  · rw [if_pos zero, Program.run_bind, reads _ _ htifTohostAddress_aligned]
    simpa using fun _ => zero
  · rw [if_neg zero]
    simp [not_not.mp zero]

theorem resetMemory_eq :
    resetMemory pristineRam memory = .ok ((), resetUarch pristineRam memory) := by
  rw [resetMemory, uarchResetState_eq, Program.run_bind, resetDecision_direct]
  cases isRejectedManualYield (resetUarch pristineRam memory) with
  | true => rfl
  | false => rfl

theorem resetDecision_calls : resetDecision.Calls Op.IsStateAccess := by
  refine Program.Calls.bind (.perform trivial) fun _ => ?_
  refine Program.Calls.bind (.perform iflagsYAddress_aligned) fun iflagsY => ?_
  split
  · exact Program.Calls.bind (.perform htifTohostAddress_aligned) fun _ => trivial
  · trivial

theorem resetDecision_callsOnce : resetDecision.CallsOnce Op.IsWordAccess := by
  refine Program.CallsOnce.bind (.perform _) fun _ => ?_
  refine Program.Calls.bind (.perform iflagsYAddress_aligned) fun iflagsY => ?_
  split
  · exact Program.Calls.bind (.perform htifTohostAddress_aligned) fun _ => trivial
  · trivial

variable [DecidableEq Hash]

/-- A replayed reset ends at the root it reached or reads the revert root hash below it. -/
theorem uarchResetState_replay {context next : ReplayContext Hash} {result : Unit}
    (ran : uarchResetState.run (replayAccess platform hasher pristineRam) context =
      .ok (result, next)) :
    ∃ reverts middle, resetDecision.run (replayAccess platform hasher pristineRam) context =
        .ok (reverts, middle) ∧
      ((reverts = false ∧ next = middle) ∨
        (reverts = true ∧ ∃ hash moved,
          checkReadRevertRootHashAccess platform hasher middle = .ok (hash, moved) ∧
          next = { moved with rootHash := hash })) := by
  rw [uarchResetState_eq, Program.run_bind] at ran
  cases decided : resetDecision.run (replayAccess platform hasher pristineRam) context with
  | error failure => simp [decided] at ran
  | ok outcome =>
      obtain ⟨reverts, middle⟩ := outcome
      rw [decided] at ran
      refine ⟨reverts, middle, rfl, ?_⟩
      cases reverts with
      | false =>
          cases ran
          exact Or.inl ⟨rfl, rfl⟩
      | true =>
          have reverted : replayAccess platform hasher pristineRam .revertState middle =
              .ok (result, next) := by
            simpa [revertState, perform] using ran
          simp only [replayAccess, bind_ok] at reverted
          obtain ⟨⟨hash, moved⟩, read, done⟩ := reverted
          cases done
          exact Or.inr ⟨rfl, hash, moved, read, rfl⟩

/-- A reset reaches the question of the revert after three accesses. -/
theorem resetDecision_consumes {context middle : ReplayContext Hash}
    (ran : resetDecision.run (replayAccess platform hasher pristineRam) context =
      .ok (true, middle)) :
    middle.nextAccess = context.nextAccess + 3 ∧ middle.accesses = context.accesses := by
  obtain ⟨_, first, resetRan, rest⟩ := (Program.run_bind_ok _).mp ran
  obtain ⟨iflagsY, second, iflagsRan, rest⟩ := (Program.run_bind_ok _).mp rest
  by_cases zero : iflagsY ≠ 0
  · rw [if_pos zero] at rest
    obtain ⟨tohost, third, tohostRan, rest⟩ := (Program.run_bind_ok _).mp rest
    rw [resetState, perform, Program.run_perform] at resetRan
    rw [readWord, perform, Program.run_perform] at iflagsRan tohostRan
    simp only [replayAccess, bind_ok] at resetRan
    obtain ⟨moved, written, done⟩ := resetRan
    cases done
    obtain ⟨_, _, _, _, _, _, _, _, rfl⟩ := checkWriteAccess_ok written
    obtain ⟨_, _, _, _, _, _, _, _, _, _, rfl⟩ := checkReadWordAccess_ok iflagsRan
    obtain ⟨_, _, _, _, _, _, _, _, _, _, rfl⟩ := checkReadWordAccess_ok tohostRan
    simp only [Program.run_pure, Except.ok.injEq, Prod.mk.injEq] at rest
    obtain ⟨_, rfl⟩ := rest
    exact ⟨rfl, rfl⟩
  · rw [if_neg zero] at rest
    cases rest

/-- The hash that the reset's verifier returns, against the memory that the code resets. -/
theorem verifyResetUarch_sound (collisionFree : hasher.CollisionFree)
    (accepted : verifyResetUarch platform hasher pristineRam (hasher.merkleRoot memory) log
      rootHashAfter = .ok rootHash) :
    ∃ after, resetMemory pristineRam memory = .ok ((), after) ∧
      ((∀ access ∈ log, access.Bound) → rootHash = canonicalRootHash hasher after) ∧
      (isRejectedManualYield after = false → log.length ≤ 3 →
        rootHash = canonicalRootHash hasher after → ∀ access ∈ log, access.Bound) := by
  obtain ⟨_, context, ran, consumed, rfl⟩ := verifyWith_ok accepted
  obtain ⟨reverts, middle, decided, outcome⟩ := uarchResetState_replay ran
  refine ⟨resetUarch pristineRam memory, resetMemory_eq, ?_, ?_⟩
  · intro bound
    obtain ⟨after, directly, root, _⟩ :=
      (replayAccess_simulates collisionFree).run resetDecision_calls ⟨rfl, bound⟩ decided
    rw [resetDecision_direct] at directly
    cases directly
    rcases outcome with ⟨kept, rfl⟩ | ⟨reverted, hash, moved, read, rfl⟩
    · rw [canonicalRootHash, kept]
      exact root
    · obtain ⟨_, siblings, data, _, _, size, reached, rfl, rfl⟩ :=
        checkReadRevertRootHashAccess_ok read
      rw [root] at reached
      obtain ⟨_, rfl⟩ := siblingRoot_word collisionFree size reached
      rw [canonicalRootHash, reverted]
      rfl
  · intro accepts short root
    rcases outcome with ⟨_, rfl⟩ | ⟨rfl, hash, moved, read, rfl⟩
    · rcases replay_faithful_or_misplaced collisionFree resetDecision_callsOnce resetDecision_calls
        (Faithful.start memory log) decided with faithful | misplaced
      · exact faithful.all_bound consumed
      · rw [canonicalRootHash, accepts] at root
        exact absurd root (misplaced.ne_merkleRoot collisionFree _)
    · obtain ⟨count, same⟩ := resetDecision_consumes decided
      obtain ⟨_, _, _, _, _, _, _, _, rfl⟩ := checkReadRevertRootHashAccess_ok read
      change middle.nextAccess + 1 = middle.accesses.length at consumed
      rw [same, count] at consumed
      simp only at consumed
      omega

end Reset

section Verification

variable [DecidableEq Hash]

/-- An accepted log of a step gives the root of the stepped memory exactly when each of its writes
without old data carries the siblings of a node of the 2^64-byte tree. For a reset this condition
is enough, and it is needed when the state is not reverted. -/
theorem verifyUarch_sound (collisionFree : hasher.CollisionFree) :
    (verifyStepUarch platform hasher pristineRam (hasher.merkleRoot memory) log rootHashAfter =
        .ok rootHash →
      ((∃ status after, stepMemory pristineRam memory = .ok (status, after) ∧
        rootHash = hasher.merkleRoot after) ↔ ∀ access ∈ log, access.Bound)) ∧
    (verifyResetUarch platform hasher pristineRam (hasher.merkleRoot memory) log rootHashAfter =
        .ok rootHash →
      ∃ after, resetMemory pristineRam memory = .ok ((), after) ∧
        ((∀ access ∈ log, access.Bound) → rootHash = canonicalRootHash hasher after) ∧
        (isRejectedManualYield after = false → log.length ≤ 3 →
          rootHash = canonicalRootHash hasher after → ∀ access ∈ log, access.Bound)) :=
  ⟨verifyStepUarch_iff collisionFree, verifyResetUarch_sound collisionFree⟩

theorem verifyWith_accepts {A : Type} {code : Action A} {rootHashBefore : Hash} {result : A}
    {context : ReplayContext Hash}
    (ran : code.run (replayAccess platform hasher pristineRam) ⟨log, 0, rootHashBefore⟩ =
      .ok (result, context)) (consumed : context.nextAccess = context.accesses.length) :
    verifyWith platform hasher pristineRam code rootHashBefore log none = .ok context.rootHash := by
  simp only [verifyWith, ReplayContext.finish, bind_ok, check_ok]
  exact ⟨(result, context), ran, context.rootHash, ⟨(), consumed, rfl⟩, (), by simp, rfl⟩

end Verification

section Instances

/-- A memory whose cycle counter is at its end. -/
def overflowMemory : Memory :=
  zeroMemory.storeWord ShadowUarchStateWhat.cycle.address uarchCycleMax

/-- The log of a step that finds the cycle counter at its end. -/
def overflowLog : List (Access Digest) :=
  [wordReadAccess symbolicHasher overflowMemory ShadowUarchStateWhat.cycle.address]

theorem overflowLog_accepted :
    verifyStepUarch noBits symbolicHasher [] (symbolicHasher.merkleRoot overflowMemory) overflowLog
      none = .ok (symbolicHasher.merkleRoot overflowMemory) := by
  let start : ReplayContext Digest := ⟨overflowLog, 0, symbolicHasher.merkleRoot overflowMemory⟩
  have full : overflowMemory.loadWord ShadowUarchStateWhat.cycle.address = uarchCycleMax := by
    decide
  have reads : readCycle.run (replayAccess noBits symbolicHasher []) start =
      .ok (uarchCycleMax, start.advance) := by
    rw [readCycle, perform, Program.run_perform, ← full]
    exact checkReadWordAccess_honest (toNat_address .cycle) rfl rfl
  have ran : uarchStep.run (replayAccess noBits symbolicHasher []) start =
      .ok (.cycleOverflow, start.advance) :=
    (Program.run_bind_ok _).mpr ⟨uarchCycleMax, start.advance, reads, rfl⟩
  exact verifyWith_accepts ran rfl

/-- The honest log of a reset of the zero memory. -/
def resetLog : List (Access Digest) :=
  [nodeWriteAccess symbolicHasher zeroMemory uarchStateStartAddress 17
      (getUarchPristineStateHash symbolicHasher []),
    wordReadAccess symbolicHasher (resetUarch [] zeroMemory) iflagsYAddress]

/-- A log of a reset whose write carries no sibling: its old node is the whole memory. -/
def forgedResetLog : List (Access Digest) :=
  [{ type := .write
     address := uarchStateStartAddress
     log2Size := 22
     read := none
     readHash := symbolicHasher.merkleRoot zeroMemory
     written := none
     writtenHash := some (getUarchPristineStateHash symbolicHasher [])
     siblingHashes := some [] },
   { type := .read
     address := iflagsYAddress
     log2Size := 3
     read := some ((resetUarch [] zeroMemory).load (BitVec.ofNat 64 (32 * (2 ^ 17 + 24))) 32)
     readHash := symbolicHasher.wordHash (resetUarch [] zeroMemory) (2 ^ 17 + 24)
     written := none
     writtenHash := none
     siblingHashes := some (Merkle.siblingsOf symbolicHasher.concatHash
       (symbolicHasher.wordHash (resetUarch [] zeroMemory)) 0 (2 ^ 17 + 24) 17) }]

/-- A reset whose flags are clear ends after its second access. -/
theorem verifyResetUarch_accepts {rootHashBefore : Digest} {log : List (Access Digest)}
    {middle : ReplayContext Digest}
    (writes : checkWriteAccess noBits symbolicHasher uarchStateStartAddress uarchStateLog2Size
      (getUarchPristineStateHash symbolicHasher []) ⟨log, 0, rootHashBefore⟩ = .ok middle)
    (reads : checkReadWordAccess noBits symbolicHasher iflagsYAddress middle =
      .ok (0, middle.advance))
    (consumed : middle.advance.nextAccess = middle.advance.accesses.length) :
    verifyResetUarch noBits symbolicHasher [] rootHashBefore log none = .ok middle.rootHash := by
  have resets : resetState.run (replayAccess noBits symbolicHasher []) ⟨log, 0, rootHashBefore⟩ =
      .ok ((), middle) := by
    rw [resetState, perform, Program.run_perform]
    exact bind_ok.mpr ⟨middle, writes, rfl⟩
  have flags : (readWord iflagsYAddress).run (replayAccess noBits symbolicHasher []) middle =
      .ok (0, middle.advance) := by
    rw [readWord, perform, Program.run_perform]
    exact reads
  have ran : uarchResetState.run (replayAccess noBits symbolicHasher []) ⟨log, 0, rootHashBefore⟩ =
      .ok ((), middle.advance) :=
    (Program.run_bind_ok _).mpr ⟨(), middle, resets,
      (Program.run_bind_ok _).mpr ⟨0, middle.advance, flags, rfl⟩⟩
  have accepted := verifyWith_accepts ran consumed
  exact accepted

theorem resetLog_accepted :
    verifyResetUarch noBits symbolicHasher [] (symbolicHasher.merkleRoot zeroMemory) resetLog none =
      .ok (symbolicHasher.merkleRoot (resetUarch [] zeroMemory)) := by
  have reached := siblingRoot_siblingsOf symbolicHasher zeroMemory uarchStateStartAddress noBits 17
    (by omega)
  have root := siblingRoot_replaces symbolicHasher_collisionFree 17 (resetUarch [] zeroMemory)
    (by simp)
    (by
      intro position inside away
      rw [uarchStateIndex] at away
      exact wordHash_resetUarch_outside inside (by omega))
    reached
  rw [← getUarchPristineStateHash_eq] at root
  have writes : checkWriteAccess noBits symbolicHasher uarchStateStartAddress (17 + 5)
      (getUarchPristineStateHash symbolicHasher [])
      ⟨resetLog, 0, symbolicHasher.merkleRoot zeroMemory⟩ = _ :=
    checkWriteAccess_accepts rfl rfl rfl rfl rfl rfl rfl rfl reached
  rw [root] at writes
  have clear : (resetUarch [] zeroMemory).loadWord iflagsYAddress = 0 := by decide
  have reads : checkReadWordAccess noBits symbolicHasher iflagsYAddress
      ⟨resetLog, 1, symbolicHasher.merkleRoot (resetUarch [] zeroMemory)⟩ = _ :=
    checkReadWordAccess_honest (toNat_aligned iflagsYAddress_aligned) rfl rfl
  rw [clear] at reads
  exact verifyResetUarch_accepts writes reads rfl

theorem forgedResetLog_accepted :
    verifyResetUarch noBits symbolicHasher [] (symbolicHasher.merkleRoot zeroMemory) forgedResetLog
      none = .ok (getUarchPristineStateHash symbolicHasher []) := by
  have writes : checkWriteAccess noBits symbolicHasher uarchStateStartAddress (17 + 5)
      (getUarchPristineStateHash symbolicHasher [])
      ⟨forgedResetLog, 0, symbolicHasher.merkleRoot zeroMemory⟩ = _ :=
    checkWriteAccess_accepts rfl rfl rfl rfl rfl rfl rfl rfl rfl
  have follows : Merkle.Follows (addressBit noBits
      (iflagsYAddress &&& ~~~ BitVec.ofNat 64 (hashTreeWordSize - 1))) 5 (2 ^ 17 + 24) 17 := by
    unfold Merkle.Follows
    decide
  have climbed := Merkle.climb_siblingsOf symbolicHasher.concatHash
    (symbolicHasher.wordHash (resetUarch [] zeroMemory)) 5 0 (2 ^ 17 + 24) 17 follows
  have reads : checkReadWordAccess noBits symbolicHasher iflagsYAddress
      ⟨forgedResetLog, 1, getUarchPristineStateHash symbolicHasher []⟩ = _ :=
    checkReadWordAccess_accepts rfl rfl rfl rfl rfl (Memory.length_load _ _ _) rfl rfl rfl rfl
      (by decide) climbed
  have clear : wordOfBytes ((((resetUarch [] zeroMemory).load
      (BitVec.ofNat 64 (32 * (2 ^ 17 + 24))) 32).drop (wordOffset iflagsYAddress)).take 8) = 0 := by
    decide
  rw [clear] at reads
  exact verifyResetUarch_accepts writes reads rfl

/-- The verifier accepts a log after which no memory is left behind the returned hash. -/
theorem verifyResetUarch_forged :
    verifyResetUarch noBits symbolicHasher [] (symbolicHasher.merkleRoot zeroMemory) forgedResetLog
        none = .ok (getUarchPristineStateHash symbolicHasher []) ∧
      ∀ after, resetMemory [] zeroMemory = .ok ((), after) →
        getUarchPristineStateHash symbolicHasher [] ≠ canonicalRootHash symbolicHasher after := by
  refine ⟨forgedResetLog_accepted, ?_⟩
  intro after reset
  rw [resetMemory_eq] at reset
  cases reset
  have accepts : isRejectedManualYield (resetUarch [] zeroMemory) = false := by decide
  have misplaced : Misplaced symbolicHasher (getUarchPristineStateHash symbolicHasher []) :=
    ⟨17, by decide, Merkle.nodeHash_leafAt (symbolicHasher.isLeaf_wordHash _) 17 1⟩
  rw [canonicalRootHash, accepts]
  exact misplaced.ne_merkleRoot symbolicHasher_collisionFree _

/-- The honest logs of a step and of a reset are accepted. -/
theorem verifyUarch_sound_honest :
    (verifyStepUarch noBits symbolicHasher [] (symbolicHasher.merkleRoot overflowMemory) overflowLog
        none = .ok (symbolicHasher.merkleRoot overflowMemory) ∧
      ((∃ status after, stepMemory [] overflowMemory = .ok (status, after) ∧
        symbolicHasher.merkleRoot overflowMemory = symbolicHasher.merkleRoot after) ↔
          ∀ access ∈ overflowLog, access.Bound)) ∧
    (verifyResetUarch noBits symbolicHasher [] (symbolicHasher.merkleRoot zeroMemory) resetLog none =
        .ok (symbolicHasher.merkleRoot (resetUarch [] zeroMemory)) ∧
      ∃ after, resetMemory [] zeroMemory = .ok ((), after) ∧
        ((∀ access ∈ resetLog, access.Bound) →
          symbolicHasher.merkleRoot (resetUarch [] zeroMemory) =
            canonicalRootHash symbolicHasher after) ∧
        (isRejectedManualYield after = false → resetLog.length ≤ 3 →
          symbolicHasher.merkleRoot (resetUarch [] zeroMemory) =
            canonicalRootHash symbolicHasher after → ∀ access ∈ resetLog, access.Bound)) :=
  ⟨⟨overflowLog_accepted,
      (verifyUarch_sound symbolicHasher_collisionFree).1 overflowLog_accepted⟩,
    resetLog_accepted, (verifyUarch_sound symbolicHasher_collisionFree).2 resetLog_accepted⟩

end Instances

end MachineEmulator.Uarch
