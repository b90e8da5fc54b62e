/-
This file gives the part of a hash tree that some of its leaves and the hashes beside them
determine, and what such a part says about the whole tree.
-/

import MachineEmulator.Library.MerkleTree

namespace Merkle

variable {Hash : Type}

/-- A sketch of a tree stops at given hashes and at the leaves that are left open. -/
inductive Sketch (Hash : Type) : Nat → Type where
  | sibling {level : Nat} (hash : Hash) : Sketch Hash level
  | leaf : Sketch Hash 0
  | node {level : Nat} (left right : Sketch Hash level) : Sketch Hash (level + 1)

namespace Sketch

/-- Values for the open leaves give the hash of the sketch. -/
def hash (combine : Hash → Hash → Hash) (values : Nat → Hash) :
    {level : Nat} → Sketch Hash level → Nat → Hash
  | _, sibling hash, _ => hash
  | _, leaf, index => values index
  | _, node left right, index =>
      combine (left.hash combine values (2 * index)) (right.hash combine values (2 * index + 1))

/-- The numbers of the open leaves, from left to right. -/
def leaves : {level : Nat} → Sketch Hash level → Nat → List Nat
  | _, sibling _, _ => []
  | _, leaf, index => [index]
  | _, node left right, index => left.leaves (2 * index) ++ right.leaves (2 * index + 1)

/-- The open leaves lie below the sketch. -/
theorem leaves_bounds {level : Nat} (sketch : Sketch Hash level) {index position : Nat}
    (member : position ∈ sketch.leaves index) :
    index * 2 ^ level ≤ position ∧ position < (index + 1) * 2 ^ level := by
  induction sketch generalizing index with
  | sibling hash => cases member
  | leaf =>
      have same : position = index := List.mem_singleton.mp member
      simp [same]
  | node left right leftBounds rightBounds =>
      rw [pow_succ]
      rcases List.mem_append.mp member with below | below
      · have bounds := leftBounds below
        constructor <;> nlinarith
      · have bounds := rightBounds below
        constructor <;> nlinarith

/-- The open leaves come in order. -/
theorem leaves_increasing {level : Nat} (sketch : Sketch Hash level) (index : Nat) :
    (sketch.leaves index).Pairwise (· < ·) := by
  induction sketch generalizing index with
  | sibling hash => exact List.Pairwise.nil
  | leaf => exact List.pairwise_singleton _ _
  | node left right leftOrder rightOrder =>
      apply List.pairwise_append.mpr
      constructor
      · exact leftOrder _
      constructor
      · exact rightOrder _
      · intro first before second after
        have leftBounds := left.leaves_bounds before
        have rightBounds := right.leaves_bounds after
        omega

variable {combine : Hash → Hash → Hash} {values leaf : Nat → Hash}

/-- Open leaves whose sketch has the hash of a tree's node are leaves of the tree. -/
theorem reaches (binding : Binding combine) {level : Nat} (sketch : Sketch Hash level)
    {index position : Nat}
    (reached : sketch.hash combine values index = nodeHash combine leaf level index)
    (member : position ∈ sketch.leaves index) : values position = leaf position := by
  induction sketch generalizing index with
  | sibling hash => cases member
  | leaf =>
      have same : position = index := List.mem_singleton.mp member
      rw [same]
      exact reached
  | node left right leftReaches rightReaches =>
      obtain ⟨first, second⟩ := binding _ _ _ _ reached
      rcases List.mem_append.mp member with below | below
      · exact leftReaches first below
      · exact rightReaches second below

/-- Every closed node of the sketch has the hash of the tree's node. -/
def Agrees (combine : Hash → Hash → Hash) (leaf : Nat → Hash) :
    {level : Nat} → Sketch Hash level → Nat → Prop
  | level, sibling hash, index => hash = nodeHash combine leaf level index
  | _, .leaf, _ => True
  | _, node left right, index =>
      left.Agrees combine leaf (2 * index) ∧ right.Agrees combine leaf (2 * index + 1)

/-- A sketch with the hash of a tree's node agrees with the tree. -/
theorem agrees_of_reaches (binding : Binding combine) {level : Nat} (sketch : Sketch Hash level)
    {index : Nat}
    (reached : sketch.hash combine values index = nodeHash combine leaf level index) :
    sketch.Agrees combine leaf index := by
  induction sketch generalizing index with
  | sibling hash => exact reached
  | leaf => trivial
  | node left right leftAgrees rightAgrees =>
      obtain ⟨first, second⟩ := binding _ _ _ _ reached
      exact ⟨leftAgrees first, rightAgrees second⟩

/-- Other values for the open leaves give the hash of the tree with these leaves replaced. -/
theorem Agrees.replaces {level : Nat} {sketch : Sketch Hash level} {index : Nat}
    {values' changed : Nat → Hash} (agrees : sketch.Agrees combine leaf index)
    (inside : ∀ position ∈ sketch.leaves index, changed position = values' position)
    (outside : ∀ position ∉ sketch.leaves index, index * 2 ^ level ≤ position →
      position < (index + 1) * 2 ^ level → changed position = leaf position) :
    sketch.hash combine values' index = nodeHash combine changed level index := by
  induction sketch generalizing index with
  | sibling hash =>
      apply Eq.trans agrees
      apply nodeHash_congr
      intro position lower upper
      exact (outside position List.not_mem_nil lower upper).symm
  | leaf => exact (inside index (List.mem_singleton.mpr rfl)).symm
  | node left right leftReplaces rightReplaces =>
      rw [hash, nodeHash_succ]
      congr 1
      · apply leftReplaces agrees.1
        · intro position member
          exact inside position (List.mem_append_left _ member)
        · intro position away lower upper
          have apart : position ∉ right.leaves (2 * index + 1) := by
            intro member
            have bounds := right.leaves_bounds member
            omega
          apply outside position (by simp [leaves, away, apart]) <;> rw [pow_succ] <;> nlinarith
      · apply rightReplaces agrees.2
        · intro position member
          exact inside position (List.mem_append_right _ member)
        · intro position away lower upper
          have apart : position ∉ left.leaves (2 * index) := by
            intro member
            have bounds := left.leaves_bounds member
            omega
          apply outside position (by simp [leaves, away, apart]) <;> rw [pow_succ] <;> nlinarith

end Sketch

section Plan

/-- The next hash in a list closes a sketch. -/
def takeSibling {level : Nat} (positions : List Nat) :
    List Hash → Option (Sketch Hash level × List Nat × List Hash)
  | [] => none
  | hash :: rest => some (.sibling hash, positions, rest)

/-- The walk of a tree that opens the leaves with the given numbers and closes every node that
holds none of them. -/
def plan : (level : Nat) → Nat → List Nat → List Hash →
    Option (Sketch Hash level × List Nat × List Hash)
  | _, _, [], siblings => takeSibling [] siblings
  | 0, index, first :: rest, siblings =>
      if first = index then some (.leaf, rest, siblings) else takeSibling (first :: rest) siblings
  | level + 1, index, first :: rest, siblings =>
      if (index + 1) * 2 ^ (level + 1) ≤ first then takeSibling (first :: rest) siblings
      else do
        let (left, positions, others) ← plan level (2 * index) (first :: rest) siblings
        let (right, positions, others) ← plan level (2 * index + 1) positions others
        return (.node left right, positions, others)

variable {siblings others : List Hash} {positions remaining : List Nat}

theorem takeSibling_eq {level : Nat} {sketch : Sketch Hash level}
    (planned : takeSibling positions siblings = some (sketch, remaining, others)) (index : Nat) :
    positions = sketch.leaves index ++ remaining := by
  cases siblings with
  | nil => cases planned
  | cons hash rest =>
      cases planned
      rfl

/-- A walk opens the numbers that it consumes. -/
theorem plan_leaves {level index : Nat} {sketch : Sketch Hash level}
    (planned : plan level index positions siblings = some (sketch, remaining, others)) :
    positions = sketch.leaves index ++ remaining := by
  induction level generalizing index positions siblings remaining others with
  | zero =>
      cases positions with
      | nil => exact takeSibling_eq planned index
      | cons first rest =>
          rw [plan] at planned
          split at planned
          · next same =>
              cases planned
              rw [same]
              rfl
          · exact takeSibling_eq planned index
  | succ level ih =>
      cases positions with
      | nil => exact takeSibling_eq planned index
      | cons first rest =>
          rw [plan] at planned
          split at planned
          · exact takeSibling_eq planned index
          · obtain ⟨⟨left, middle, between⟩, leftPlanned, planned⟩ :=
              Option.bind_eq_some_iff.mp planned
            obtain ⟨⟨right, last, after⟩, rightPlanned, planned⟩ :=
              Option.bind_eq_some_iff.mp planned
            cases planned
            rw [ih leftPlanned, ih rightPlanned, Sketch.leaves, List.append_assoc]

end Plan

section Gather

variable (combine : Hash → Hash → Hash) (leaf : Nat → Hash)

/-- The hashes that close a sketch of a tree with the given leaves open, in the order of the walk,
and the numbers that lie behind the tree. -/
def gather : Nat → Nat → List Nat → List Hash × List Nat
  | level, index, [] => ([nodeHash combine leaf level index], [])
  | 0, index, first :: rest =>
      if index + 1 ≤ first then ([nodeHash combine leaf 0 index], first :: rest) else ([], rest)
  | level + 1, index, first :: rest =>
      if (index + 1) * 2 ^ (level + 1) ≤ first then
        ([nodeHash combine leaf (level + 1) index], first :: rest)
      else
        let left := gather level (2 * index) (first :: rest)
        let right := gather level (2 * index + 1) left.2
        (left.1 ++ right.1, right.2)

/-- What gathered hashes let a walk do. -/
structure Gathers (level index : Nat) (positions : List Nat) (rest : List Hash)
    (gathered : List Hash × List Nat) (sketch : Sketch Hash level) : Prop where
  planned : plan level index positions (gathered.1 ++ rest) = some (sketch, gathered.2, rest)
  agrees : sketch.Agrees combine leaf index
  beyond : ∀ position ∈ gathered.2, (index + 1) * 2 ^ level ≤ position
  suffix : gathered.2 <:+ positions

variable {combine leaf}

/-- A walk that closes the whole tree takes its hash. -/
theorem gathers_closed {level index : Nat} {positions : List Nat} {rest : List Hash}
    (closes : plan level index positions (nodeHash combine leaf level index :: rest) =
      takeSibling positions (nodeHash combine leaf level index :: rest))
    (beyond : ∀ position ∈ positions, (index + 1) * 2 ^ level ≤ position) :
    Gathers combine leaf level index positions rest ([nodeHash combine leaf level index], positions)
      (.sibling (nodeHash combine leaf level index)) where
  planned := closes
  agrees := rfl
  beyond := beyond
  suffix := List.suffix_refl _

theorem all_beyond {first bound : Nat} {others : List Nat}
    (increasing : (first :: others).Pairwise (· < ·)) (away : bound ≤ first) :
    ∀ position ∈ first :: others, bound ≤ position := by
  intro position member
  rcases List.mem_cons.mp member with rfl | behind
  · exact away
  · exact away.trans ((List.pairwise_cons.mp increasing).1 position behind).le

/-- The gathered hashes and the numbers of the open leaves plan a sketch of the tree. -/
theorem exists_gathers {level index : Nat} {positions : List Nat}
    (increasing : positions.Pairwise (· < ·))
    (above : ∀ position ∈ positions, index * 2 ^ level ≤ position) (rest : List Hash) :
    ∃ sketch, Gathers combine leaf level index positions rest
      (gather combine leaf level index positions) sketch := by
  induction level generalizing index positions rest with
  | zero =>
      cases positions with
      | nil =>
          exact ⟨_, gathers_closed rfl fun _ member => absurd member List.not_mem_nil⟩
      | cons first others =>
          have lower := above first List.mem_cons_self
          have later := (List.pairwise_cons.mp increasing).1
          rw [pow_zero, mul_one] at lower
          rw [gather]
          split
          · next away =>
              refine ⟨_, gathers_closed ?_ ?_⟩
              · rw [plan, if_neg (by omega)]
              · rw [pow_zero, mul_one]
                exact all_beyond increasing away
          · next here =>
              have same : first = index := by omega
              refine ⟨.leaf, ?_, trivial, ?_, List.suffix_cons _ _⟩
              · rw [plan, if_pos same]
                rfl
              · intro position member
                have behind := later position member
                rw [pow_zero, mul_one]
                omega
  | succ level ih =>
      cases positions with
      | nil =>
          exact ⟨_, gathers_closed rfl fun _ member => absurd member List.not_mem_nil⟩
      | cons first others =>
          rw [gather]
          split
          · next away =>
              refine ⟨_, gathers_closed ?_ (all_beyond increasing away)⟩
              rw [plan, if_pos away]
          · next within =>
              have start : 2 * index * 2 ^ level = index * 2 ^ (level + 1) := by ring
              have middle : (2 * index + 1 + 1) * 2 ^ level = (index + 1) * 2 ^ (level + 1) := by
                ring
              have leftAbove : ∀ position ∈ first :: others, 2 * index * 2 ^ level ≤ position := by
                rw [start]
                exact above
              obtain ⟨_, bounds⟩ := ih increasing leftAbove []
              have rightIncreasing := increasing.sublist bounds.suffix.sublist
              obtain ⟨right, rightGathers⟩ := ih rightIncreasing bounds.beyond rest
              obtain ⟨left, leftGathers⟩ := ih increasing leftAbove
                ((gather combine leaf level (2 * index + 1)
                  (gather combine leaf level (2 * index) (first :: others)).2).1 ++ rest)
              refine ⟨.node left right, ?_, ?_, ?_, ?_⟩
              · rw [plan, if_neg within, List.append_assoc, leftGathers.planned]
                show Option.bind (plan level (2 * index + 1) _ _) _ = _
                rw [rightGathers.planned]
                rfl
              · exact ⟨leftGathers.agrees, rightGathers.agrees⟩
              · intro position member
                rw [← middle]
                exact rightGathers.beyond position member
              · exact rightGathers.suffix.trans leftGathers.suffix

end Gather

end Merkle
