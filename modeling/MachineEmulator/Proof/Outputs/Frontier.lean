/-
This file shows that the accumulator of the outputs, the proofs of an epoch and the frontier behind
a proof are those of one tree over all leaves.
-/

import MachineEmulator.Construction.Outputs.HashTree
import MachineEmulator.Construction.SymbolicHasher
import MachineEmulator.Library.Frontier

namespace MachineEmulator.Outputs

open Merkle

variable {Hash : Type} (hasher : Hasher Hash)

section Specification

/-- The leaves and the zeros behind them. -/
def paddedLeaf (leaves : List Hash) (index : Nat) : Hash :=
  leaves[index]?.getD (pristineLeaf hasher)

/-- The reference root over `2 ^ log2MaxLeaves` leaves. -/
def outputsRoot (log2MaxLeaves : Nat) (leaves : List Hash) : Hash :=
  nodeHash hasher.concatHash (paddedLeaf hasher leaves) log2MaxLeaves 0

/-- The frontier after one push for each leaf. -/
def pushAll (frontier : Frontier Hash) (leaves : List Hash) : Frontier Hash :=
  leaves.foldl (frontierPushBack hasher) frontier

end Specification

section Push

theorem frontierPushBack_eq (frontier : Frontier Hash) (right : Hash) :
    frontierPushBack hasher frontier right = carryInto hasher.concatHash frontier right := by
  induction frontier generalizing right with
  | nil => rfl
  | cons entry rest ih =>
      cases entry with
      | none => rfl
      | some left => rw [frontierPushBack, carryInto, ih]

theorem getRootHashFrom_eq (frontier : Frontier Hash) (root pristine : Hash) :
    getRootHashFrom hasher frontier root pristine =
      foldRoot hasher.concatHash frontier root pristine := by
  induction frontier generalizing root pristine with
  | nil => rfl
  | cons entry rest ih => cases entry <;> rw [getRootHashFrom, foldRoot, ih]

/-- A leaf that is there does not depend on the leaves behind it. -/
theorem paddedLeaf_append {leaves : List Hash} (more : List Hash) {index : Nat}
    (inside : index < leaves.length) :
    paddedLeaf hasher (leaves ++ more) index = paddedLeaf hasher leaves index := by
  rw [paddedLeaf, List.getElem?_append_left inside, paddedLeaf]

theorem paddedLeaf_behind {leaves : List Hash} {index : Nat} (behind : leaves.length ≤ index) :
    paddedLeaf hasher leaves index = pristineLeaf hasher := by
  rw [paddedLeaf, List.getElem?_eq_none behind]
  rfl

theorem pushAll_append (frontier : Frontier Hash) (first second : List Hash) :
    pushAll hasher frontier (first ++ second) =
      pushAll hasher (pushAll hasher frontier first) second :=
  List.foldl_append

/-- The pushes give the entries over all leaves, with one more level in a full tree. -/
theorem pushAll_genesis (log2MaxLeaves : Nat) (leaves : List Hash)
    (fits : leaves.length ≤ 2 ^ log2MaxLeaves) :
    pushAll hasher (frontierGenesis log2MaxLeaves) leaves =
      entries hasher.concatHash (paddedLeaf hasher leaves)
        (if leaves.length < 2 ^ log2MaxLeaves then log2MaxLeaves else log2MaxLeaves + 1) 0
        leaves.length := by
  induction leaves using List.reverseRecOn with
  | nil =>
      rw [if_pos (by simp), List.length_nil, entries_zero]
      rfl
  | append_singleton leaves leaf ih =>
      rw [List.length_append, List.length_singleton] at fits ⊢
      have room : leaves.length < 2 ^ log2MaxLeaves := by omega
      have last : nodeHash hasher.concatHash (paddedLeaf hasher (leaves ++ [leaf])) 0
          leaves.length = leaf := by
        simp [paddedLeaf]
      have same : entries hasher.concatHash (paddedLeaf hasher leaves) log2MaxLeaves 0
          leaves.length =
          entries hasher.concatHash (paddedLeaf hasher (leaves ++ [leaf])) log2MaxLeaves 0
            leaves.length := by
        apply entries_congr
        intro position inside
        exact (paddedLeaf_append hasher [leaf] (by simpa using inside)).symm
      rw [pushAll_append, ih (by omega), if_pos room, same]
      show frontierPushBack hasher _ leaf = _
      rw [frontierPushBack_eq]
      refine (congrArg _ last.symm).trans ?_
      exact carryInto_entries hasher.concatHash _ log2MaxLeaves 0 leaves.length room

/-- A frontier that is not full gives the root of its leaves. -/
theorem frontierGetRootHash_room (log2MaxLeaves : Nat) (leaves : List Hash)
    (room : leaves.length < 2 ^ log2MaxLeaves) :
    frontierGetRootHash hasher (pushAll hasher (frontierGenesis log2MaxLeaves) leaves) =
      outputsRoot hasher log2MaxLeaves leaves := by
  have behind : ∀ position, leaves.length ≤ position →
      paddedLeaf hasher leaves position = pristineLeaf hasher :=
    fun position behind => paddedLeaf_behind hasher behind
  have folded := foldRoot_entries hasher.concatHash (paddedLeaf hasher leaves) behind
    log2MaxLeaves 0 leaves.length (by simp)
  rw [nodeHash_zero, behind _ le_rfl, Nat.div_eq_of_lt room, Nat.zero_add] at folded
  rw [frontierGetRootHash, getRootHashFrom_eq, pushAll_genesis hasher log2MaxLeaves leaves room.le,
    if_pos room]
  exact folded

/-- A full frontier gives the hash of the root and of one more pristine tree. -/
theorem frontierGetRootHash_full (log2MaxLeaves : Nat) (leaves : List Hash)
    (full : leaves.length = 2 ^ log2MaxLeaves) :
    frontierGetRootHash hasher (pushAll hasher (frontierGenesis log2MaxLeaves) leaves) =
      hasher.concatHash (outputsRoot hasher log2MaxLeaves leaves)
        (fillHash hasher.concatHash (pristineLeaf hasher) log2MaxLeaves) := by
  have behind : ∀ position, leaves.length ≤ position →
      paddedLeaf hasher leaves position = pristineLeaf hasher :=
    fun position behind => paddedLeaf_behind hasher behind
  have folded := foldRoot_entries hasher.concatHash (paddedLeaf hasher leaves) behind
    (log2MaxLeaves + 1) 0 leaves.length (by simp)
  have top : leaves.length / 2 ^ (log2MaxLeaves + 1) = 0 := by
    apply Nat.div_eq_of_lt
    rw [full, pow_succ]
    have positive : 0 < 2 ^ log2MaxLeaves := by positivity
    omega
  rw [nodeHash_zero, behind _ le_rfl, top, Nat.zero_add, nodeHash_succ,
    nodeHash_fill hasher.concatHash _ behind log2MaxLeaves (2 * 0 + 1) (by rw [full]; simp)]
    at folded
  rw [frontierGetRootHash, getRootHashFrom_eq, pushAll_genesis hasher log2MaxLeaves leaves full.le,
    if_neg (by omega)]
  exact folded

end Push

section Count

theorem or_shift {acc offset : Nat} (small : acc < 2 ^ offset) :
    acc ||| 1 <<< offset = acc + 2 ^ offset := by
  have joined := Nat.two_pow_add_eq_or_of_lt small 1
  rw [Nat.shiftLeft_eq, one_mul, Nat.or_comm, Nat.add_comm]
  rw [mul_one] at joined
  exact joined.symm

theorem leafCount_entries (combine : Hash → Hash → Hash) (leaf : Nat → Hash)
    (height level count offset acc : Nat) (room : count < 2 ^ height) (small : acc < 2 ^ offset) :
    ((entries combine leaf height level count).zipIdx offset).foldl
      (fun leafCount entry => if entry.1.isSome then leafCount ||| 1 <<< entry.2 else leafCount)
      acc = acc + count * 2 ^ offset := by
  induction height generalizing level count offset acc with
  | zero =>
      have zero : count = 0 := by simpa using room
      simp [entries, zero]
  | succ height ih =>
      rw [pow_succ] at room
      have half : count / 2 < 2 ^ height := by omega
      have double : count / 2 * 2 ^ (offset + 1) = 2 * (count / 2) * 2 ^ offset := by
        rw [pow_succ]
        ring
      rw [entries, List.zipIdx_cons, List.foldl_cons]
      by_cases odd : count % 2 = 1
      · have whole : count = 2 * (count / 2) + 1 := by omega
        simp only [if_pos odd, Option.isSome_some, if_true]
        rw [ih _ _ _ _ half (by rw [or_shift small, pow_succ]; omega), or_shift small, double]
        conv_rhs => rw [whole]
        ring
      · have whole : count = 2 * (count / 2) := by omega
        simp only [if_neg odd, Option.isSome_none, Bool.false_eq_true, if_false]
        rw [ih _ _ _ _ half (by rw [pow_succ]; omega), double]
        conv_rhs => rw [whole]

end Count

section Levels

variable (leaf : Nat → Hash) (start count : Nat)

/-- The active nodes of a level: those over the new leaves. -/
def activeNodes (level : Nat) : List Hash :=
  (List.range' (start / 2 ^ level)
    ((start + count - 1) / 2 ^ level + 1 - start / 2 ^ level)).map
      (nodeHash hasher.concatHash leaf level)

/-- The variables before a level. -/
def levelState (level : Nat) : ProofState Hash where
  siblings := (List.range count).map fun index =>
    (siblingsOf hasher.concatHash leaf 0 (start + index) level).map some
  active := activeNodes hasher leaf start count level
  base := start / 2 ^ level
  pristine := fillHash hasher.concatHash (pristineLeaf hasher) level

/-- The frontier entry of a level over the first leaves. -/
def entryAt (level : Nat) : Option Hash :=
  if start / 2 ^ level % 2 = 1 then
    some (nodeHash hasher.concatHash leaf level (start / 2 ^ level - 1))
  else none

variable {leaf start count} (nonempty : 0 < count)
  (behind : ∀ position, start + count ≤ position → leaf position = pristineLeaf hasher)

include nonempty in
theorem activeNodes_last (level : Nat) :
    start / 2 ^ level ≤ (start + count - 1) / 2 ^ level :=
  Nat.div_le_div_right (by omega)

include nonempty behind in
/-- A node from the frontier, from the active nodes or from the pristine ones is the node of the
tree. -/
theorem frontierNode_eq (level index : Nat)
    (lower : start / 2 ^ level ≤ index ∨
      index + 1 = start / 2 ^ level ∧ start / 2 ^ level % 2 = 1) :
    frontierNode (entryAt hasher leaf start level) (start / 2 ^ level)
      (activeNodes hasher leaf start count level)
      (fillHash hasher.concatHash (pristineLeaf hasher) level) index =
      some (nodeHash hasher.concatHash leaf level index) := by
  have last : start / 2 ^ level ≤ (start + count - 1) / 2 ^ level :=
    activeNodes_last nonempty level
  have length : (activeNodes hasher leaf start count level).length =
      (start + count - 1) / 2 ^ level + 1 - start / 2 ^ level := by
    simp [activeNodes]
  unfold frontierNode
  split
  next before =>
    obtain inside | ⟨beside, odd⟩ := lower
    · omega
    · rw [entryAt, if_pos odd, ← beside, Nat.add_sub_cancel]
  next inside =>
    split
    next above =>
      rw [length] at above
      rw [nodeHash_fill hasher.concatHash leaf behind level index]
      have quotient : (start + count - 1) / 2 ^ level < index := by omega
      have reached := (Nat.div_lt_iff_lt_mul (by positivity)).mp quotient
      omega
    next within =>
      rw [length] at within
      rw [activeNodes, List.getElem?_map, List.getElem?_range' (by omega)]
      simp only [Option.map_some, one_mul]
      congr 2
      omega

/-- A loop that fails nowhere gives the list of its results. -/
theorem mapM_ok {A B : Type} {action : A → Except LuaError B} {result : A → B} (inputs : List A)
    (ok : ∀ input ∈ inputs, action input = .ok (result input)) :
    inputs.mapM action = .ok (inputs.map result) := by
  induction inputs with
  | nil => rfl
  | cons input rest ih =>
      rw [List.mapM_cons, ok input List.mem_cons_self,
        ih fun other member => ok other (List.mem_cons_of_mem _ member)]
      rfl

include nonempty behind in
/-- One level of the loop. -/
theorem proofLevel_eq (level : Nat) :
    proofLevel hasher start (levelState hasher leaf start count level)
      (entryAt hasher leaf start level, level) =
      .ok (levelState hasher leaf start count (level + 1)) := by
  have node := frontierNode_eq hasher nonempty behind level
  have last : start / 2 ^ level ≤ (start + count - 1) / 2 ^ level :=
    activeNodes_last nonempty level
  have length : (activeNodes hasher leaf start count level).length =
      (start + count - 1) / 2 ^ level + 1 - start / 2 ^ level := by
    simp [activeNodes]
  have halfBase : start / 2 ^ level / 2 = start / 2 ^ (level + 1) := by
    rw [Nat.div_div_eq_div_mul, pow_succ]
  have halfLast : (start + count - 1) / 2 ^ level / 2 = (start + count - 1) / 2 ^ (level + 1) := by
    rw [Nat.div_div_eq_div_mul, pow_succ]
  have lastNode : start / 2 ^ level + ((start + count - 1) / 2 ^ level + 1 - start / 2 ^ level) - 1
      = (start + count - 1) / 2 ^ level := by
    rw [Nat.add_sub_cancel' (last.trans (Nat.le_succ _)), Nat.succ_sub_one]
  have parents : (List.range' (start / 2 ^ (level + 1))
        ((start + count - 1) / 2 ^ (level + 1) + 1 - start / 2 ^ (level + 1))).mapM
      (fun parent => keccak256 hasher
        (frontierNode (entryAt hasher leaf start level) (start / 2 ^ level)
          (activeNodes hasher leaf start count level)
          (fillHash hasher.concatHash (pristineLeaf hasher) level) (2 * parent))
        (frontierNode (entryAt hasher leaf start level) (start / 2 ^ level)
          (activeNodes hasher leaf start count level)
          (fillHash hasher.concatHash (pristineLeaf hasher) level) (2 * parent + 1))) =
      .ok (activeNodes hasher leaf start count (level + 1)) := by
    apply mapM_ok
    intro parent member
    have inside := (List.mem_range'_1.mp member).1
    rw [← halfBase] at inside
    rw [node (2 * parent) (by omega), node (2 * parent + 1) (by omega)]
    rfl
  have siblings : ((List.range count).map fun index =>
        (siblingsOf hasher.concatHash leaf 0 (start + index) level).map some).mapIdx
      (fun index siblings => siblings ++
        [frontierNode (entryAt hasher leaf start level) (start / 2 ^ level)
          (activeNodes hasher leaf start count level)
          (fillHash hasher.concatHash (pristineLeaf hasher) level)
          (((start + index) >>> level) ^^^ 1)]) =
      (List.range count).map fun index =>
        (siblingsOf hasher.concatHash leaf 0 (start + index) (level + 1)).map some := by
    apply List.ext_getElem
    · simp
    · intro index inside _
      have within : index < count := by simpa using inside
      have lower : start / 2 ^ level ≤ (start + index) / 2 ^ level :=
        Nat.div_le_div_right (by omega)
      simp only [List.getElem_mapIdx, List.getElem_map, List.getElem_range, siblingsOf_snoc,
        List.map_append, List.map_cons, List.map_nil, Nat.shiftRight_eq_div_pow, zero_add]
      rw [node]
      rw [sibling_eq]
      split <;> omega
  unfold proofLevel levelState
  simp only [length, lastNode, Nat.shiftRight_one, halfBase, halfLast]
  rw [parents, siblings]
  rfl

include nonempty behind in
/-- The loop over the levels of a frontier. -/
theorem proofLevels_eq (height level : Nat) :
    ((entries hasher.concatHash leaf height level (start / 2 ^ level)).zipIdx level).foldlM
      (proofLevel hasher start) (levelState hasher leaf start count level) =
      .ok (levelState hasher leaf start count (level + height)) := by
  induction height generalizing level with
  | zero => rfl
  | succ height ih =>
      have step := proofLevel_eq hasher nonempty behind level
      rw [entryAt] at step
      rw [entries, List.zipIdx_cons, List.foldlM_cons, step]
      have half : start / 2 ^ level / 2 = start / 2 ^ (level + 1) := by
        rw [Nat.div_div_eq_div_mul, pow_succ]
      rw [half, show level + (height + 1) = level + 1 + height by omega]
      exact ih (level + 1)

end Levels

section Verification

/-- Steps that each take the sibling of their level climb along the siblings. -/
theorem foldlM_climb {turn : Nat → Bool} {siblings : List Hash}
    {step : Hash → Nat → Except LuaError Hash}
    (steps : ∀ hash level sibling, siblings[level]? = some sibling →
      step hash level = .ok (if turn level then hasher.concatHash sibling hash
        else hasher.concatHash hash sibling)) :
    ∀ (rest : List Hash) (first : Nat) (hash : Hash), siblings.drop first = rest →
      (List.range' first rest.length).foldlM step hash =
        .ok (climb hasher.concatHash turn first rest hash) := by
  intro rest
  induction rest with
  | nil => intro first hash _; rfl
  | cons sibling rest ih =>
      intro first hash suffix
      have here : siblings[first]? = some sibling := by
        rw [← List.head?_drop, suffix]
        rfl
      have later : siblings.drop (first + 1) = rest := by
        rw [← List.drop_drop, suffix]
        rfl
      rw [List.length_cons, List.range'_succ, List.foldlM_cons, steps hash first sibling here, climb]
      exact ih (first + 1) _ later

/-- A walk with all siblings there. -/
theorem rollHashUpTree_eq (proof : Proof Hash) (siblings : List Hash)
    (whole : proof.siblingHashes = siblings.map some)
    (leaf : proof.log2TargetSize = 0) (height : proof.log2RootSize = siblings.length)
    (targetHash : Hash) :
    rollHashUpTree hasher proof targetHash =
      .ok (climb hasher.concatHash (fun level => proof.targetAddress.testBit level) 0 siblings
        targetHash) := by
  rw [rollHashUpTree, height, leaf, List.range_eq_range']
  apply foldlM_climb hasher _ siblings 0 targetHash rfl
  intro hash level sibling here
  rw [whole, List.getElem?_map, here, Nat.zero_add]
  exact (apply_ite Except.ok _ _ _).symm

/-- The turns of a proof follow the index of its leaf. -/
theorem follows_testBit (index count : Nat) :
    Follows (fun level => index.testBit level) 0 index count := by
  intro step _
  show index.testBit (0 + step) = _
  rw [Nat.zero_add, Nat.testBit_eq_decide_div_mod_eq]

/-- The proof of a leaf against the root of all leaves. -/
def outputProof (log2MaxLeaves : Nat) (leaves : List Hash) (index : Nat) : Proof Hash where
  targetAddress := index
  log2TargetSize := 0
  log2RootSize := log2MaxLeaves
  targetHash := paddedLeaf hasher leaves index
  rootHash := some (outputsRoot hasher log2MaxLeaves leaves)
  siblingHashes :=
    (siblingsOf hasher.concatHash (paddedLeaf hasher leaves) 0 index log2MaxLeaves).map some

theorem verifySlice_outputProof [DecidableEq Hash] {log2MaxLeaves : Nat} {leaves : List Hash}
    {index : Nat} (inside : index < 2 ^ log2MaxLeaves) :
    verifySlice hasher (outputProof hasher log2MaxLeaves leaves index) = .ok () := by
  have walk := rollHashUpTree_eq hasher (outputProof hasher log2MaxLeaves leaves index)
    (siblingsOf hasher.concatHash (paddedLeaf hasher leaves) 0 index log2MaxLeaves) rfl rfl
    (by simp [outputProof]) (paddedLeaf hasher leaves index)
  have top := climb_siblingsOf hasher.concatHash (paddedLeaf hasher leaves) 0 0 index log2MaxLeaves
    (follows_testBit index log2MaxLeaves)
  rw [Nat.zero_add, Nat.div_eq_of_lt inside] at top
  have reached : rollHashUpTree hasher (outputProof hasher log2MaxLeaves leaves index)
      (outputProof hasher log2MaxLeaves leaves index).targetHash =
      .ok (outputsRoot hasher log2MaxLeaves leaves) := walk.trans (congrArg _ top)
  rw [verifySlice, reached]
  exact if_pos rfl

/-- The proofs of an epoch are those of its leaves in the tree of all leaves. -/
theorem frontierNextProofs_eq (log2MaxLeaves : Nat) (before epoch : List Hash)
    (fits : (before ++ epoch).length ≤ 2 ^ log2MaxLeaves) :
    frontierNextProofs hasher (pushAll hasher (frontierGenesis log2MaxLeaves) before) epoch =
      .ok ((List.range epoch.length).map fun index =>
        outputProof hasher log2MaxLeaves (before ++ epoch) (before.length + index)) := by
  rw [List.length_append] at fits
  by_cases empty : epoch.length = 0
  · rw [frontierNextProofs, if_pos empty, empty]
    rfl
  have nonempty : 0 < epoch.length := Nat.pos_of_ne_zero empty
  have room : before.length < 2 ^ log2MaxLeaves := by omega
  have behind : ∀ position, before.length + epoch.length ≤ position →
      paddedLeaf hasher (before ++ epoch) position = pristineLeaf hasher := by
    intro position later
    exact paddedLeaf_behind hasher (by simpa using later)
  have frontier : pushAll hasher (frontierGenesis log2MaxLeaves) before =
      entries hasher.concatHash (paddedLeaf hasher (before ++ epoch)) log2MaxLeaves 0
        before.length := by
    rw [pushAll_genesis hasher log2MaxLeaves before room.le, if_pos room]
    apply entries_congr
    intro position inside
    exact (paddedLeaf_append hasher epoch (by simpa using inside)).symm
  have leafCount : frontierLeafCount (entries hasher.concatHash
      (paddedLeaf hasher (before ++ epoch)) log2MaxLeaves 0 before.length) = before.length := by
    have counted := leafCount_entries hasher.concatHash (paddedLeaf hasher (before ++ epoch))
      log2MaxLeaves 0 before.length 0 0 room (by simp)
    simpa [frontierLeafCount] using counted
  have first : (⟨epoch.map fun _ => [], epoch, before.length, pristineLeaf hasher⟩ :
      ProofState Hash) =
      levelState hasher (paddedLeaf hasher (before ++ epoch)) before.length epoch.length 0 := by
    have active : activeNodes hasher (paddedLeaf hasher (before ++ epoch)) before.length
        epoch.length 0 = epoch := by
      apply List.ext_getElem
      · simp [activeNodes]
        omega
      · intro index inside within
        simp [activeNodes, paddedLeaf, within]
    rw [levelState, active]
    congr 1
    · simp [siblingsOf, List.map_const']
    · simp
  have levels := proofLevels_eq hasher nonempty behind log2MaxLeaves 0
  rw [pow_zero, Nat.div_one, Nat.zero_add] at levels
  have root : (levelState hasher (paddedLeaf hasher (before ++ epoch)) before.length epoch.length
      log2MaxLeaves).active[0]? = some (outputsRoot hasher log2MaxLeaves (before ++ epoch)) := by
    have low : before.length / 2 ^ log2MaxLeaves = 0 := Nat.div_eq_of_lt room
    have high : (before.length + epoch.length - 1) / 2 ^ log2MaxLeaves = 0 :=
      Nat.div_eq_of_lt (by omega)
    rw [levelState, activeNodes, low, high]
    rfl
  rw [frontierNextProofs, if_neg empty, frontier, leafCount]
  dsimp only
  rw [first, levels]
  show Except.ok _ = Except.ok _
  congr 1
  apply List.ext_getElem
  · simp [levelState]
  · intro index inside within
    have within : index < epoch.length := by simpa using within
    simp only [List.getElem_mapIdx, List.getElem_zip, List.getElem_map, List.getElem_range,
      outputProof, length_entries, levelState]
    congr 1
    simp [paddedLeaf, within]

end Verification

section Resumption

/-- The loop stops at the lowest bit. -/
theorem lowestCompleteLevel_spec (leafCount fuel bit : Nat)
    (found : ∃ set, bit ≤ set ∧ set < bit + fuel ∧ leafCount.testBit set = true) :
    leafCount.testBit (lowestCompleteLevel leafCount fuel bit) = true ∧
    ∀ lower, bit ≤ lower → lower < lowestCompleteLevel leafCount fuel bit →
      leafCount.testBit lower = false := by
  induction fuel generalizing bit with
  | zero =>
      obtain ⟨set, lower, upper, -⟩ := found
      omega
  | succ fuel ih =>
      rw [lowestCompleteLevel]
      by_cases here : leafCount.testBit bit = true
      · rw [if_pos here]
        refine ⟨here, ?_⟩
        intro lower first second
        omega
      · rw [if_neg here]
        obtain ⟨set, lower, upper, isSet⟩ := found
        have later : bit + 1 ≤ set := by
          apply Nat.lt_of_le_of_ne lower
          rintro rfl
          exact here isSet
        obtain ⟨top, below⟩ := ih (bit + 1) ⟨set, later, by omega, isSet⟩
        refine ⟨top, ?_⟩
        intro other first second
        by_cases same : other = bit
        · subst same
          simpa using here
        · exact below other (by omega) second

/-- The lowest bit of a number divides it, and the number before it ends in ones. -/
theorem lowest_divides {number lowest : Nat}
    (below : ∀ lower < lowest, number.testBit lower = false) : number % 2 ^ lowest = 0 := by
  apply Nat.eq_of_testBit_eq
  intro bit
  rw [Nat.testBit_mod_two_pow, Nat.zero_testBit]
  by_cases inside : bit < lowest
  · simp [below bit inside]
  · simp [inside]

theorem pred_div_of_dvd {number divisor : Nat} (positive : 0 < number) (whole : divisor ∣ number) :
    (number - 1) / divisor = number / divisor - 1 := by
  obtain ⟨quotient, rfl⟩ := whole
  have first : 0 < divisor := Nat.pos_of_mul_pos_right positive
  have second : 0 < quotient := Nat.pos_of_mul_pos_left positive
  rw [Nat.mul_div_cancel_left _ first]
  obtain ⟨before, rfl⟩ : ∃ before, quotient = before + 1 := ⟨quotient - 1, by omega⟩
  rw [Nat.mul_add, Nat.mul_one, Nat.add_sub_assoc first, Nat.mul_add_div first,
    Nat.div_eq_of_lt (by omega)]
  omega

/-- Above the lowest bit a number and the one before it have the same quotients. -/
theorem pred_div_above {number lowest level : Nat} (set : number.testBit lowest = true)
    (above : lowest < level) : (number - 1) / 2 ^ level = number / 2 ^ level := by
  have rest : number % 2 ^ level ≠ 0 := by
    intro zero
    have bit := Nat.testBit_mod_two_pow number level lowest
    rw [zero, Nat.zero_testBit, set] at bit
    simp [above] at bit
  have split := Nat.div_add_mod number (2 ^ level)
  have positive : 0 < 2 ^ level := by positivity
  have small := Nat.mod_lt number positive
  conv_lhs => rw [← split]
  rw [Nat.add_sub_assoc (Nat.one_le_iff_ne_zero.mpr rest), Nat.mul_add_div positive,
    Nat.div_eq_of_lt (lt_of_le_of_lt (Nat.sub_le _ _) small), Nat.add_zero]

variable {log2MaxLeaves : Nat} {leaves : List Hash}

/-- Below the lowest bit the last leaf is a right child, and the walk rebuilds a complete subtree. -/
theorem rebuild_eq (lowest : Nat) (positive : 0 < leaves.length)
    (inside : lowest ≤ log2MaxLeaves)
    (below : ∀ lower < lowest, leaves.length.testBit lower = false) :
    (List.range lowest).foldlM
      (fun hash level => keccak256 hasher
        (((outputProof hasher log2MaxLeaves leaves (leaves.length - 1)).siblingHashes)[level]?).join
        (some hash))
      (paddedLeaf hasher leaves (leaves.length - 1)) =
      .ok (nodeHash hasher.concatHash (paddedLeaf hasher leaves) lowest
        ((leaves.length - 1) / 2 ^ lowest)) := by
  induction lowest with
  | zero => simp [pure, Except.pure]
  | succ lowest ih =>
      have divides (level : Nat) (low : level ≤ lowest + 1) : 2 ^ level ∣ leaves.length :=
        Nat.dvd_of_mod_eq_zero (lowest_divides fun lower before => below lower (by omega))
      have odd : (leaves.length - 1) / 2 ^ lowest % 2 = 1 := by
        rw [pred_div_of_dvd positive (divides lowest (by omega))]
        obtain ⟨quotient, same⟩ := divides (lowest + 1) le_rfl
        have quotientPositive : 0 < quotient := by
          apply Nat.pos_of_ne_zero
          rintro rfl
          omega
        rw [same, pow_succ, mul_assoc, Nat.mul_div_cancel_left _ (by positivity)]
        omega
      have sibling : (((outputProof hasher log2MaxLeaves leaves
          (leaves.length - 1)).siblingHashes)[lowest]?).join =
          some (nodeHash hasher.concatHash (paddedLeaf hasher leaves) lowest
            ((leaves.length - 1) / 2 ^ lowest - 1)) := by
        rw [outputProof, List.getElem?_map, getElem?_siblingsOf _ _ _ _ _ _ (by omega), sibling_eq,
          if_pos odd, Nat.zero_add]
        rfl
      rw [List.range_succ, List.foldlM_append,
        ih (by omega) fun lower before => below lower (by omega)]
      simp only [List.foldlM_cons, List.foldlM_nil, bind, Except.bind, sibling, keccak256, pure,
        Except.pure]
      rw [pow_succ, ← Nat.div_div_eq_div_mul, nodeHash_parent, if_pos odd]

/-- The frontier behind the last proof is the frontier after all pushes. -/
theorem frontierOfProof_eq (high : log2MaxLeaves ≤ 63) (positive : 0 < leaves.length)
    (fits : leaves.length ≤ 2 ^ log2MaxLeaves) :
    frontierOfProof hasher (outputProof hasher log2MaxLeaves leaves (leaves.length - 1)) =
      .ok (pushAll hasher (frontierGenesis log2MaxLeaves) leaves) := by
  have count : leaves.length - 1 + 1 = leaves.length := by omega
  have range : leaves.length < 2 ^ 64 := by
    have power := Nat.pow_le_pow_right (show 0 < 2 by decide) high
    omega
  obtain ⟨set, below⟩ := lowestCompleteLevel_spec leaves.length 64 0 (by
    by_contra none
    simp only [not_exists, not_and] at none
    have zero : leaves.length = 0 := by
      apply Nat.eq_of_testBit_eq
      intro bit
      rw [Nat.zero_testBit]
      by_cases inside : bit < 64
      · simpa using none bit (Nat.zero_le _) (by omega)
      · exact Nat.testBit_lt_two_pow (range.trans_le (Nat.pow_le_pow_right (by decide) (by omega)))
    omega)
  generalize located : lowestCompleteLevel leaves.length 64 0 = lowest at set below
  have lower : ∀ level < lowest, leaves.length.testBit level = false :=
    fun level before => below level (Nat.zero_le _) before
  have reached : 2 ^ lowest ≤ leaves.length := Nat.ge_two_pow_of_testBit set
  have inside : lowest ≤ log2MaxLeaves :=
    (Nat.pow_le_pow_iff_right (by decide)).mp (reached.trans fits)
  have last : (leaves.length - 1) / 2 ^ lowest = leaves.length / 2 ^ lowest - 1 :=
    pred_div_of_dvd positive (Nat.dvd_of_mod_eq_zero (lowest_divides lower))
  have rebuilt := rebuild_eq hasher lowest positive inside lower
  rw [last] at rebuilt
  have entry (level : Nat) (within : level < log2MaxLeaves) :
      (if lowest < level ∧ leaves.length.testBit level = true then
        (((outputProof hasher log2MaxLeaves leaves
          (leaves.length - 1)).siblingHashes)[level]?).join
      else none) =
      if lowest = level then none else
        if leaves.length / 2 ^ level % 2 = 1 then
          some (nodeHash hasher.concatHash (paddedLeaf hasher leaves) level
            (leaves.length / 2 ^ level - 1))
        else none := by
    have bit : leaves.length.testBit level = decide (leaves.length / 2 ^ level % 2 = 1) :=
      Nat.testBit_eq_decide_div_mod_eq
    rcases Nat.lt_trichotomy level lowest with before | same | after
    · have clear := lower level before
      rw [bit, decide_eq_false_iff_not] at clear
      rw [if_neg (by omega), if_neg (by omega), if_neg clear]
    · rw [if_neg (by omega), if_pos same.symm]
    · rw [if_neg (show ¬lowest = level by omega), bit]
      by_cases odd : leaves.length / 2 ^ level % 2 = 1
      · rw [if_pos ⟨after, by simpa using odd⟩, if_pos odd, outputProof, List.getElem?_map,
          getElem?_siblingsOf _ _ _ _ _ _ within, pred_div_above set after, sibling_eq, if_pos odd,
          Nat.zero_add]
        rfl
      · rw [if_neg (by simp [odd]), if_neg odd]
  have lowestOdd : leaves.length / 2 ^ lowest % 2 = 1 := by
    rw [Nat.testBit_eq_decide_div_mod_eq] at set
    simpa using set
  rw [pushAll_genesis hasher log2MaxLeaves leaves fits, frontierOfProof]
  show (Except.bind _ _) = _
  have address : (outputProof hasher log2MaxLeaves leaves (leaves.length - 1)).targetAddress + 1 =
      leaves.length := count
  have height : (outputProof hasher log2MaxLeaves leaves (leaves.length - 1)).log2RootSize =
      log2MaxLeaves := rfl
  simp only [address, height, located]
  have target : (outputProof hasher log2MaxLeaves leaves (leaves.length - 1)).targetHash =
      paddedLeaf hasher leaves (leaves.length - 1) := rfl
  rw [target, rebuilt]
  show Except.ok _ = Except.ok _
  congr 1
  by_cases room : leaves.length < 2 ^ log2MaxLeaves
  · have under : lowest < log2MaxLeaves :=
      (Nat.pow_lt_pow_iff_right (by decide)).mp (reached.trans_lt room)
    rw [if_pos room, assign, if_pos (by simpa using under)]
    apply List.ext_getElem?
    intro level
    by_cases within : level < log2MaxLeaves
    · rw [getElem?_entries _ _ _ _ _ _ within, List.getElem?_set]
      by_cases same : lowest = level
      · subst same
        rw [if_pos rfl, if_pos (by simpa using within), if_pos lowestOdd,
          Nat.zero_add]
      · rw [if_neg same, List.getElem?_map, List.getElem?_range within, Option.map_some,
          entry level within, if_neg same, Nat.zero_add]
    · rw [List.getElem?_eq_none (by simp [outputProof]; omega),
        List.getElem?_eq_none (by simp; omega)]
  · have full : leaves.length = 2 ^ log2MaxLeaves := by omega
    have top : lowest = log2MaxLeaves := by
      apply le_antisymm inside
      by_contra below
      have divides : 2 ^ (lowest + 1) ∣ leaves.length := by
        rw [full]
        exact Nat.pow_dvd_pow 2 (by omega)
      obtain ⟨quotient, same⟩ := divides
      rw [same, pow_succ, mul_assoc, Nat.mul_div_cancel_left _ (by positivity)] at lowestOdd
      omega
    rw [if_neg room, assign, if_neg (by simp [outputProof, top]),
      if_pos (by simp [outputProof, top])]
    apply List.ext_getElem?
    intro level
    by_cases within : level < log2MaxLeaves
    · rw [getElem?_entries _ _ _ _ _ _ (by omega),
        List.getElem?_append_left (by simpa [outputProof] using within), List.getElem?_map,
        List.getElem?_range within, Option.map_some, entry level within, if_neg (by omega),
        Nat.zero_add]
    · by_cases same : level = log2MaxLeaves
      · subst same
        rw [getElem?_entries _ _ _ _ _ _ (by omega),
          List.getElem?_append_right (by simp [outputProof]), if_pos (by rw [← top]; exact lowestOdd),
          Nat.zero_add]
        simp [outputProof, top]
      · rw [List.getElem?_eq_none (by simp [outputProof]; omega),
          List.getElem?_eq_none (by simp; omega)]

end Resumption

section Accumulator

variable [DecidableEq Hash]

/-- The proofs of an epoch after some leaves verify against the root of all leaves so far, and the
last of them gives the frontier that all pushes give. -/
def EpochAgrees (log2MaxLeaves : Nat) (leaves epoch : List Hash) : Prop :=
  ∃ proofs, frontierNextProofs hasher
      (pushAll hasher (frontierGenesis log2MaxLeaves) leaves) epoch = .ok proofs ∧
    proofs.length = epoch.length ∧
    (∀ index proof, proofs[index]? = some proof →
      verifySlice hasher proof = .ok () ∧ proof.targetAddress = leaves.length + index ∧
      epoch[index]? = some proof.targetHash ∧
      proof.rootHash = some (outputsRoot hasher log2MaxLeaves (leaves ++ epoch))) ∧
    ∀ last, proofs.getLast? = some last →
      frontierOfProof hasher last =
        .ok (pushAll hasher (frontierGenesis log2MaxLeaves) (leaves ++ epoch))

/-- The root after all epochs is the reference root, and every epoch agrees. -/
def OutputsAgree (log2MaxLeaves : Nat) (epochs : List (List Hash)) : Prop :=
  frontierGetRootHash hasher (pushAll hasher (frontierGenesis log2MaxLeaves) epochs.flatten) =
    outputsRoot hasher log2MaxLeaves epochs.flatten ∧
  ∀ before epoch after, epochs = before ++ epoch :: after →
    EpochAgrees hasher log2MaxLeaves before.flatten epoch

/-- An epoch agrees up to the full tree. -/
theorem epochAgrees {log2MaxLeaves : Nat} (high : log2MaxLeaves ≤ 63) (leaves epoch : List Hash)
    (fits : (leaves ++ epoch).length ≤ 2 ^ log2MaxLeaves) :
    EpochAgrees hasher log2MaxLeaves leaves epoch := by
  refine ⟨_, frontierNextProofs_eq hasher log2MaxLeaves leaves epoch fits, by simp, ?_, ?_⟩
  · intro index proof found
    rw [List.length_append] at fits
    rw [List.getElem?_map, Option.map_eq_some_iff] at found
    obtain ⟨position, located, rfl⟩ := found
    obtain ⟨inside, same⟩ := List.getElem?_eq_some_iff.mp located
    rw [List.getElem_range] at same
    subst same
    rw [List.length_range] at inside
    refine ⟨verifySlice_outputProof hasher (by omega), rfl, ?_, rfl⟩
    rw [List.getElem?_eq_getElem inside]
    simp [outputProof, paddedLeaf, inside]
  · intro last found
    by_cases empty : epoch.length = 0
    · simp [empty] at found
    · have whole : (leaves ++ epoch).length - 1 = leaves.length + (epoch.length - 1) := by
        rw [List.length_append]
        omega
      have same : outputProof hasher log2MaxLeaves (leaves ++ epoch)
          ((leaves ++ epoch).length - 1) = last := by
        rw [List.getLast?_eq_getElem?, List.length_map, List.length_range, List.getElem?_map,
          List.getElem?_range (by omega)] at found
        rw [whole]
        exact Option.some.inj found
      rw [← same]
      exact frontierOfProof_eq hasher high (by rw [List.length_append]; omega) fits

end Accumulator

end MachineEmulator.Outputs
