/-
This file proves when a cut proof is the direct proof of its node in the same tree, and that the walk of
a proof gives the root of the tree in which its node is replaced.
-/

import MachineEmulator.Construction.HashTree.ProofSlice
import MachineEmulator.Construction.SymbolicHasher
import MachineEmulator.Library.PartialTree

namespace MachineEmulator

open Merkle

variable {Hash : Type} {hasher : Hasher Hash}

section Direct

variable (hasher) (tree : PartialTree Hash)

/-- The proof of the node of a size at an address under a node of another size, in a tree of a size. -/
def directProof (log2TreeSize : Nat) (address : Word) (log2RootSize log2TargetSize : Nat) :
    Option (HashTreeProof Hash) := do
  let root ← tree.descend address.getLsbD log2RootSize (log2TreeSize - log2RootSize)
  let target ← root.descend address.getLsbD log2TargetSize (log2RootSize - log2TargetSize)
  let siblingHashes ← root.siblings hasher.concatHash address.getLsbD log2TargetSize
    (log2RootSize - log2TargetSize)
  return {
    log2TargetSize
    log2RootSize
    targetAddress := BitVec.ofNat 64 (address.toNat / 2 ^ log2TargetSize * 2 ^ log2TargetSize)
    targetHash := target.hash hasher.concatHash
    rootHash := root.hash hasher.concatHash
    siblingHashes }

/-- A proof belongs to a tree when it is the proof of a node of the tree, with any address inside of the
node. -/
def HashTreeProof.ProvedIn (proof : HashTreeProof Hash) : Prop :=
  ∃ direct, directProof hasher tree proof.log2RootSize proof.targetAddress proof.log2RootSize
    proof.log2TargetSize = some direct ∧ proof = { direct with targetAddress := proof.targetAddress }

variable {hasher tree} {proof : HashTreeProof Hash}

/-- The node and the siblings of a proof are those of its tree. -/
theorem HashTreeProof.provedIn_iff : proof.ProvedIn hasher tree ↔ ∃ target,
    tree.descend proof.targetAddress.getLsbD proof.log2TargetSize
      (proof.log2RootSize - proof.log2TargetSize) = some target ∧
    tree.siblings hasher.concatHash proof.targetAddress.getLsbD proof.log2TargetSize
      (proof.log2RootSize - proof.log2TargetSize) = some proof.siblingHashes ∧
    target.hash hasher.concatHash = proof.targetHash ∧
    tree.hash hasher.concatHash = proof.rootHash := by
  rw [ProvedIn, directProof, Nat.sub_self]
  constructor
  · intro ⟨direct, found, same⟩
    obtain ⟨root, here, found⟩ := Option.bind_eq_some_iff.mp found
    cases here
    obtain ⟨target, descends, found⟩ := Option.bind_eq_some_iff.mp found
    obtain ⟨siblings, present, found⟩ := Option.bind_eq_some_iff.mp found
    cases found
    rw [same] at descends present ⊢
    exact ⟨target, descends, present, rfl, rfl⟩
  · intro ⟨target, descends, present, targetHash, rootHash⟩
    refine ⟨_, Option.bind_eq_some_iff.mpr ⟨tree, rfl, Option.bind_eq_some_iff.mpr ⟨target, descends,
      Option.bind_eq_some_iff.mpr ⟨proof.siblingHashes, present, rfl⟩⟩⟩, ?_⟩
    rw [targetHash, rootHash]

end Direct

/-- A walk reads one turn for each sibling. -/
theorem climb_congr {combine : Hash → Hash → Hash} {first second : Nat → Bool} {siblings : List Hash}
    {level : Nat} {hash : Hash}
    (same : ∀ step < siblings.length, first (level + step) = second (level + step)) :
    climb combine first level siblings hash = climb combine second level siblings hash := by
  induction siblings generalizing level hash with
  | nil => rfl
  | cons sibling rest ih =>
      have here : first level = second level := same 0 (Nat.succ_pos _)
      rw [climb, climb, here, ih]
      intro step inside
      rw [Nat.add_assoc, Nat.add_comm 1]
      exact same (step + 1) (Nat.succ_lt_succ inside)

namespace SizedProof

variable {proof : SizedProof Hash}

section Loops

theorem getBit_ok {log2Size : Nat} {bit : Bool} : proof.getBit log2Size = .ok bit ↔
    log2Size < 64 ∧ proof.targetAddress.getLsbD log2Size = bit := by
  simp [getBit, bind_ok, check_ok, pure, Except.pure]

theorem getSiblingHash_eq {log2Size : Nat} (above : proof.log2TargetSize ≤ log2Size)
    (inside : log2Size < proof.log2RootSize) : ∃ sibling,
    proof.siblingHashes[log2Size - proof.log2TargetSize]? = some sibling ∧
    proof.getSiblingHash log2Size = .ok sibling := by
  have bound : log2Size - proof.log2TargetSize < proof.siblingHashes.length := by
    rw [proof.siblings]
    omega
  refine ⟨_, List.getElem?_eq_getElem bound, ?_⟩
  rw [getSiblingHash, log2SizeToIndex, check_pos ⟨above, bound⟩]
  exact congrArg Except.ok (by simp [List.getD_eq_getElem?_getD, bound])

theorem setSiblingHash_eq {log2Size : Nat} {hash : Hash} (above : proof.log2TargetSize ≤ log2Size)
    (inside : log2Size - proof.log2TargetSize < proof.siblingHashes.length) :
    proof.setSiblingHash hash log2Size = .ok { proof with
      siblingHashes := proof.siblingHashes.set (log2Size - proof.log2TargetSize) hash
      siblings := by rw [List.length_set, proof.siblings] } := by
  rw [setSiblingHash, log2SizeToIndex, check_pos ⟨above, inside⟩]
  rfl

/-- The loop walks along a part of the siblings. -/
theorem bubbleLoop_eq {count log2Size : Nat} (hash : Hash) (above : proof.log2TargetSize ≤ log2Size)
    (inside : log2Size + count ≤ proof.log2RootSize) (shifts : count = 0 ∨ log2Size + count ≤ 64) :
    proof.bubbleLoop hasher count log2Size hash =
      .ok (climb hasher.concatHash proof.targetAddress.getLsbD log2Size
        ((proof.siblingHashes.drop (log2Size - proof.log2TargetSize)).take count) hash) := by
  induction count generalizing log2Size hash with
  | zero => rfl
  | succ count ih =>
      obtain ⟨sibling, found, get⟩ := getSiblingHash_eq above (by omega)
      have next : log2Size + 1 - proof.log2TargetSize = log2Size - proof.log2TargetSize + 1 := by omega
      have rest := ih (concatSibling hasher (proof.targetAddress.getLsbD log2Size) sibling hash)
        (Nat.le_succ_of_le above) (by omega) (by omega)
      rw [next] at rest
      obtain ⟨bound, rfl⟩ := List.getElem?_eq_some_iff.mp found
      rw [bubbleLoop, getBit_ok.mpr ⟨by omega, rfl⟩, get, List.drop_eq_getElem_cons bound,
        List.take_succ_cons, climb]
      exact rest

theorem bubbleLoop_shifts {count log2Size : Nat} {hash result : Hash}
    (ran : proof.bubbleLoop hasher count log2Size hash = .ok result) :
    count = 0 ∨ log2Size + count ≤ 64 := by
  induction count generalizing log2Size hash with
  | zero => exact Or.inl rfl
  | succ count ih =>
      obtain ⟨bit, read, ran⟩ := bind_ok.mp ran
      obtain ⟨sibling, _, ran⟩ := bind_ok.mp ran
      have small := (getBit_ok.mp read).1
      have later := ih ran
      omega

theorem set_take {A : Type} {items : List A} {index : Nat} {item : A} (bound : index < items.length) :
    (items.set index item).take (index + 1) = items.take index ++ [item] := by
  simp [List.take_add_one, List.getElem?_set_self bound, List.take_set_of_le le_rfl]

/-- What the second loop leaves: the root hash, and the siblings in their places. -/
theorem sliceLoop_eq {count log2Size : Nat} (hash : Hash) (sliced : SizedProof Hash)
    (above : proof.log2TargetSize ≤ sliced.log2TargetSize) (start : sliced.log2TargetSize ≤ log2Size)
    (ends : log2Size + count = sliced.log2RootSize)
    (inside : sliced.log2RootSize ≤ proof.log2RootSize) (shifts : count = 0 ∨ log2Size + count ≤ 64) :
    ∃ last, proof.sliceLoop hasher count log2Size hash sliced =
      .ok (climb hasher.concatHash proof.targetAddress.getLsbD log2Size
        ((proof.siblingHashes.drop (log2Size - proof.log2TargetSize)).take count) hash, last) ∧
      last.log2TargetSize = sliced.log2TargetSize ∧ last.log2RootSize = sliced.log2RootSize ∧
      last.targetHash = sliced.targetHash ∧
      last.siblingHashes = sliced.siblingHashes.take (log2Size - sliced.log2TargetSize) ++
        (proof.siblingHashes.drop (log2Size - proof.log2TargetSize)).take count := by
  induction count generalizing log2Size hash sliced with
  | zero =>
      refine ⟨sliced, rfl, rfl, rfl, rfl, ?_⟩
      have whole : sliced.siblingHashes.length ≤ log2Size - sliced.log2TargetSize := by
        rw [sliced.siblings]
        omega
      rw [List.take_zero, List.append_nil, List.take_of_length_le whole]
  | succ count ih =>
      obtain ⟨sibling, found, get⟩ := getSiblingHash_eq (above.trans start) (by omega)
      have place : log2Size - sliced.log2TargetSize < sliced.siblingHashes.length := by
        rw [sliced.siblings]
        omega
      obtain ⟨bound, rfl⟩ := List.getElem?_eq_some_iff.mp found
      have next : log2Size + 1 - proof.log2TargetSize = log2Size - proof.log2TargetSize + 1 := by omega
      have after : log2Size + 1 - sliced.log2TargetSize = log2Size - sliced.log2TargetSize + 1 := by
        omega
      obtain ⟨last, loop, target, root, hash', siblings⟩ := ih
        (concatSibling hasher (proof.targetAddress.getLsbD log2Size)
          proof.siblingHashes[log2Size - proof.log2TargetSize] hash)
        { sliced with
          siblingHashes := sliced.siblingHashes.set (log2Size - sliced.log2TargetSize)
            proof.siblingHashes[log2Size - proof.log2TargetSize]
          siblings := by rw [List.length_set, sliced.siblings] }
        above (Nat.le_succ_of_le start) (by simp only; omega) inside (by omega)
      rw [next] at loop siblings
      refine ⟨last, ?_, target, root, hash', ?_⟩
      · rw [sliceLoop, getBit_ok.mpr ⟨by omega, rfl⟩, get, List.drop_eq_getElem_cons bound,
          List.take_succ_cons, climb]
        show (sliced.setSiblingHash _ _ >>= _) = _
        rw [setSiblingHash_eq start place]
        exact loop
      · rw [siblings, after, set_take place, List.append_assoc, List.drop_eq_getElem_cons bound,
          List.take_succ_cons]
        rfl

end Loops

section Walks

theorem verify_iff [DecidableEq Hash] :
    proof.verify hasher = .ok true ↔ proof.bubbleUp hasher proof.targetHash = .ok proof.rootHash := by
  simp [verify, bind_ok, pure, Except.pure]

theorem bubbleUp_eq (shifts : proof.log2RootSize - proof.log2TargetSize = 0 ∨ proof.log2RootSize ≤ 64)
    (hash : Hash) : proof.bubbleUp hasher hash = .ok (climb hasher.concatHash
      proof.targetAddress.getLsbD proof.log2TargetSize proof.siblingHashes hash) := by
  have ordered := proof.ordered
  rw [bubbleUp, bubbleLoop_eq hash le_rfl (by omega) (by omega), Nat.sub_self, List.drop_zero,
    ← proof.siblings, List.take_length]

theorem bubbleUp_shifts {hash result : Hash} (ran : proof.bubbleUp hasher hash = .ok result) :
    proof.log2RootSize - proof.log2TargetSize = 0 ∨ proof.log2RootSize ≤ 64 := by
  have ordered := proof.ordered
  have shifts := bubbleLoop_shifts ran
  omega

/-- The walk of the class is the walk of a proof on every platform. -/
theorem bubbleUp_refines (platform : Word → Nat → Bool) {hash result : Hash}
    (ran : proof.bubbleUp hasher hash = .ok result) :
    proof.toHashTreeProof.bubbleUp platform hasher hash = result := by
  have shifts := bubbleUp_shifts ran
  rw [bubbleUp_eq shifts] at ran
  cases ran
  apply climb_congr
  intro step inside
  rw [proof.siblings] at inside
  rw [addressBit, if_pos (by omega)]

/-- A proof that verifies belongs to the tree that its own siblings make known. -/
theorem exists_provedIn (walks : proof.bubbleUp hasher proof.targetHash = .ok proof.rootHash) :
    ∃ tree, proof.ProvedIn hasher tree := by
  rw [bubbleUp_eq (bubbleUp_shifts walks)] at walks
  have descends := PartialTree.descend_above proof.targetAddress.getLsbD proof.log2TargetSize
    (.known proof.targetHash) proof.siblingHashes
  have present := PartialTree.siblings_above hasher.concatHash proof.targetAddress.getLsbD
    proof.log2TargetSize (.known proof.targetHash) proof.siblingHashes
  have root := PartialTree.climb_siblings descends present
  rw [proof.siblings] at descends present
  exact ⟨_, HashTreeProof.provedIn_iff.mpr ⟨_, descends, present, rfl,
    root.symm.trans (Except.ok.inj walks)⟩⟩

/-- The walk from a replaced node ends at the root of the tree with this node replaced. -/
theorem bubbleUp_replace {tree : PartialTree Hash} (proved : proof.ProvedIn hasher tree)
    (shifts : proof.log2RootSize - proof.log2TargetSize = 0 ∨ proof.log2RootSize ≤ 64)
    (change : PartialTree Hash) : ∃ changed,
    PartialTree.replace proof.targetAddress.getLsbD proof.log2TargetSize change
      (proof.log2RootSize - proof.log2TargetSize) tree = some changed ∧
    proof.bubbleUp hasher (change.hash hasher.concatHash) =
      .ok (changed.hash hasher.concatHash) := by
  obtain ⟨target, _, present, _, _⟩ := HashTreeProof.provedIn_iff.mp proved
  obtain ⟨changed, replaced, climbs⟩ := PartialTree.climb_replace present change
  exact ⟨changed, replaced, by rw [bubbleUp_eq shifts, climbs]⟩

end Walks

section Slice

theorem getLsbD_align (address : Word) {log2Size bit : Nat} (above : log2Size ≤ bit) :
    (address >>> log2Size <<< log2Size).getLsbD bit = address.getLsbD bit := by
  rw [BitVec.getLsbD_shiftLeft, BitVec.getLsbD_ushiftRight]
  by_cases inside : bit < 64
  · simp [inside, Nat.not_lt.mpr above, Nat.add_sub_cancel' above]
  · simp [inside, BitVec.getLsbD_of_ge _ _ (Nat.not_lt.mp inside)]

theorem align_eq (address : Word) (log2Size : Nat) :
    address >>> log2Size <<< log2Size =
      BitVec.ofNat 64 (address.toNat / 2 ^ log2Size * 2 ^ log2Size) := by
  apply BitVec.eq_of_toNat_eq
  rw [BitVec.toNat_shiftLeft, BitVec.toNat_ushiftRight, BitVec.toNat_ofNat, Nat.shiftRight_eq_div_pow,
    Nat.shiftLeft_eq]

variable [DecidableEq Hash] {tree : PartialTree Hash} {newRoot newTarget : Nat}

/-- A cut below the width of an address gives the direct proof. -/
theorem slice_eq (proved : proof.ProvedIn hasher tree) (positive : 0 < newRoot)
    (ordered : newTarget ≤ newRoot) (inside : newRoot ≤ proof.log2RootSize)
    (larger : proof.log2TargetSize ≤ newTarget) (small : newTarget < 64)
    (shifts : proof.log2RootSize - proof.log2TargetSize = 0 ∨ proof.log2RootSize ≤ 64) :
    ∃ sliced, proof.slice hasher newRoot newTarget = .ok sliced ∧
      sliced.verify hasher = .ok true ∧
      directProof hasher tree proof.log2RootSize proof.targetAddress newRoot newTarget =
        some sliced.toHashTreeProof := by
  obtain ⟨target, descends, present, targetHash, _⟩ := HashTreeProof.provedIn_iff.mp proved
  have count : proof.log2RootSize - proof.log2TargetSize =
      newTarget - proof.log2TargetSize + (newRoot - newTarget + (proof.log2RootSize - newRoot)) := by
    omega
  have toTarget : proof.log2TargetSize + (newTarget - proof.log2TargetSize) = newTarget := by omega
  have toRoot : newTarget + (newRoot - newTarget) = newRoot := by omega
  rw [count] at descends present
  -- The new target is a node on the way from the tree to the old target, below the new root.
  obtain ⟨middle, found, below, others⟩ := PartialTree.siblings_split present
  rw [PartialTree.descend_add, found, Option.bind_some] at descends
  rw [toTarget] at found others
  obtain ⟨top, reached, between, _⟩ := PartialTree.siblings_split others
  rw [PartialTree.descend_add, reached, Option.bind_some] at found
  rw [toRoot] at reached
  have middleHash := PartialTree.climb_siblings descends below
  have topHash := PartialTree.climb_siblings found between
  rw [targetHash] at middleHash
  obtain ⟨blank, made, blankTarget, blankRoot⟩ : ∃ blank : SizedProof Hash,
      make (hasher.ofBytes (List.replicate 32 0)) newRoot newTarget = .ok blank ∧
      blank.log2TargetSize = newTarget ∧ blank.log2RootSize = newRoot := by
    rw [make, dif_neg (by omega), dif_neg (by omega), dif_neg (by omega)]
    exact ⟨_, rfl, rfl, rfl⟩
  have bubbles : proof.bubbleLoop hasher (newTarget - proof.log2TargetSize) proof.log2TargetSize _ = _ :=
    bubbleLoop_eq proof.targetHash le_rfl (by omega) (by omega)
  rw [Nat.sub_self, List.drop_zero, middleHash] at bubbles
  obtain ⟨last, loop, lastTarget, lastRoot, lastHash, lastSiblings⟩ := sliceLoop_eq
    (middle.hash hasher.concatHash) (blank.setTargetHash (middle.hash hasher.concatHash))
    (larger.trans_eq blankTarget.symm) blankTarget.le (toRoot.trans blankRoot.symm)
    (blankRoot.trans_le inside) (by omega)
  have target' : last.log2TargetSize = newTarget := lastTarget.trans blankTarget
  have root' : last.log2RootSize = newRoot := lastRoot.trans blankRoot
  have siblings : last.siblingHashes = (proof.siblingHashes.drop (newTarget - proof.log2TargetSize)).take
      (newRoot - newTarget) := by
    rw [lastSiblings]
    show blank.siblingHashes.take (newTarget - blank.log2TargetSize) ++ _ = _
    rw [blankTarget, Nat.sub_self, List.take_zero, List.nil_append]
  rw [topHash] at loop
  let sliced := (last.setRootHash (top.hash hasher.concatHash)).setTargetAddress
    (proof.targetAddress >>> newTarget <<< newTarget)
  have verified : sliced.verify hasher = .ok true := by
    have walk : sliced.bubbleUp hasher last.targetHash = .ok _ := bubbleUp_eq (by
      show last.log2RootSize - last.log2TargetSize = 0 ∨ last.log2RootSize ≤ 64
      omega) last.targetHash
    refine verify_iff.mpr (walk.trans (congrArg Except.ok ?_))
    show climb _ (BitVec.getLsbD (proof.targetAddress >>> newTarget <<< newTarget))
      last.log2TargetSize last.siblingHashes last.targetHash = top.hash hasher.concatHash
    rw [lastHash, target', siblings]
    refine (climb_congr fun step _ => ?_).trans topHash
    exact getLsbD_align _ (Nat.le_add_right _ _)
  refine ⟨sliced, ?_, verified, ?_⟩
  · rw [slice, check_pos (by omega), check_pos (by omega), check_pos (by omega),
      check_pos (by omega), check_pos (by omega), made]
    show (proof.bubbleLoop hasher (newTarget - proof.log2TargetSize) _ _ >>= _) = _
    rw [bubbles]
    show (proof.sliceLoop hasher (newRoot - newTarget) newTarget _ _ >>= _) = _
    rw [loop]
    show (proof.alignAddress newTarget >>= _) = _
    rw [alignAddress, check_pos small]
    show (sliced.verify hasher >>= _) = _
    rw [verified]
    rfl
  · rw [directProof, reached]
    show (top.descend _ _ _ >>= _) = _
    rw [found]
    show (top.siblings _ _ _ _ >>= _) = _
    rw [between, ← align_eq]
    show some (HashTreeProof.mk newTarget newRoot _ _ _ _) =
      some (HashTreeProof.mk last.log2TargetSize last.log2RootSize _ last.targetHash _
        last.siblingHashes)
    rw [target', root', siblings, lastHash]
    rfl

/-- A cut at the width of an address or above has no result. -/
theorem slice_small {newLog2RootSize newLog2TargetSize : Int} {sliced : SizedProof Hash}
    (cut : proof.slice hasher newLog2RootSize newLog2TargetSize = .ok sliced) :
    newLog2TargetSize < 64 := by
  obtain ⟨_, _, cut⟩ := bind_ok.mp cut
  obtain ⟨_, _, cut⟩ := bind_ok.mp cut
  obtain ⟨_, _, cut⟩ := bind_ok.mp cut
  obtain ⟨_, _, cut⟩ := bind_ok.mp cut
  obtain ⟨_, _, cut⟩ := bind_ok.mp cut
  obtain ⟨_, _, cut⟩ := bind_ok.mp cut
  obtain ⟨_, _, cut⟩ := bind_ok.mp cut
  obtain ⟨_, _, cut⟩ := bind_ok.mp cut
  obtain ⟨_, aligns, cut⟩ := bind_ok.mp cut
  obtain ⟨_, checked, _⟩ := bind_ok.mp aligns
  have small := check_ok.mp checked
  omega

/-- Cuts and walks of a proof are those of every tree that it belongs to, and there is one. -/
structure FollowsTree (hasher : Hasher Hash) (proof : SizedProof Hash)
    (newLog2RootSize newLog2TargetSize : Int) : Prop where
  belongs : ∃ tree, proof.ProvedIn hasher tree
  cut : ∀ tree, proof.ProvedIn hasher tree → ∃ sliced,
    proof.slice hasher newLog2RootSize newLog2TargetSize = .ok sliced ∧
    sliced.verify hasher = .ok true ∧
    directProof hasher tree proof.log2RootSize proof.targetAddress newLog2RootSize.toNat
      newLog2TargetSize.toNat = some sliced.toHashTreeProof
  replaced : ∀ tree, proof.ProvedIn hasher tree → ∀ change : PartialTree Hash, ∃ changed,
    PartialTree.replace proof.targetAddress.getLsbD proof.log2TargetSize change
      (proof.log2RootSize - proof.log2TargetSize) tree = some changed ∧
    proof.bubbleUp hasher (change.hash hasher.concatHash) = .ok (changed.hash hasher.concatHash)
  verifies : proof.bubbleUp hasher proof.targetHash = .ok proof.rootHash

/-- For every verified proof and every pair of sizes that the checks let pass, the cut proof is the
direct proof of its node in the same tree if and only if the size of the new target is below 64. -/
theorem slice_followsTree_iff (hasher : Hasher Hash) (proof : SizedProof Hash)
    (verified : proof.verify hasher = .ok true) (newLog2RootSize newLog2TargetSize : Int)
    (positive : 0 < newLog2RootSize) (ordered : newLog2TargetSize ≤ newLog2RootSize)
    (inside : newLog2RootSize ≤ proof.log2RootSize) (larger : proof.log2TargetSize ≤ newLog2TargetSize) :
    FollowsTree hasher proof newLog2RootSize newLog2TargetSize ↔ newLog2TargetSize < 64 := by
  have walks := verify_iff.mp verified
  have belongs := exists_provedIn walks
  have shifts := bubbleUp_shifts walks
  constructor
  · intro follows
    obtain ⟨tree, proved⟩ := belongs
    obtain ⟨sliced, cut, _⟩ := follows.cut tree proved
    exact slice_small cut
  · intro small
    refine ⟨belongs, fun tree proved => ?_, fun tree proved => bubbleUp_replace proved shifts, walks⟩
    lift newLog2RootSize to Nat using by omega
    lift newLog2TargetSize to Nat using by omega
    exact slice_eq proved (by omega) (by omega) (by omega) (by omega) (by omega) shifts

/-- The proof of the upper half of the address space. -/
def upperHalf : SizedProof Digest where
  log2TargetSize := 63
  log2RootSize := 64
  targetAddress := 2 ^ 63
  targetHash := .word [1]
  rootHash := .pair (.word [0]) (.word [1])
  siblingHashes := [.word [0]]
  positive := by decide
  ordered := by decide
  siblings := rfl

theorem upperHalf_verify : upperHalf.verify symbolicHasher = .ok true := by
  decide +kernel

/-- The proof of the upper half is cut to itself. -/
theorem slice_followsTree_upperHalf : upperHalf.verify symbolicHasher = .ok true ∧
    FollowsTree symbolicHasher upperHalf 64 63 :=
  ⟨upperHalf_verify, (slice_followsTree_iff symbolicHasher upperHalf upperHalf_verify 64 63
    (by decide) (by decide) (by decide) (by decide)).mpr (by decide)⟩

/-- The proof of the upper half verifies, and its cut to the proof of the root has no meaning. -/
theorem slice_root_undefined : upperHalf.verify symbolicHasher = .ok true ∧
    upperHalf.slice symbolicHasher 64 64 = .error .undefinedBehavior :=
  ⟨upperHalf_verify, rfl⟩

end Slice

end SizedProof

end MachineEmulator
