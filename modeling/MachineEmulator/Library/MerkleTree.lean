/-
This file gives binary hash trees over numbered leaves and the walk from a node to one of
its ancestors. The walk sees only the sibling hashes that a prover supplies.
-/

import Mathlib.Tactic

namespace Merkle

section Tree

variable {Hash : Type}

/-- The node at a level combines the two nodes below it. -/
def nodeHash (combine : Hash → Hash → Hash) (leaf : Nat → Hash) : Nat → Nat → Hash
  | 0, index => leaf index
  | level + 1, index =>
      combine (nodeHash combine leaf level (2 * index)) (nodeHash combine leaf level (2 * index + 1))

/-- The walk combines a hash with one sibling at each level; the turn says on which side it stands. -/
def climb (combine : Hash → Hash → Hash) (turn : Nat → Bool) : Nat → List Hash → Hash → Hash
  | _, [], hash => hash
  | level, sibling :: rest, hash =>
      climb combine turn (level + 1) rest
        (if turn level then combine sibling hash else combine hash sibling)

/-- The turns follow a node when each one reads the parity of the ancestor's index. -/
def Follows (turn : Nat → Bool) (level index count : Nat) : Prop :=
  ∀ step < count, turn (level + step) = decide (index / 2 ^ step % 2 = 1)

variable (combine : Hash → Hash → Hash) (leaf : Nat → Hash)

@[simp] theorem nodeHash_zero (index : Nat) : nodeHash combine leaf 0 index = leaf index := rfl

theorem nodeHash_succ (level index : Nat) :
    nodeHash combine leaf (level + 1) index =
      combine (nodeHash combine leaf level (2 * index)) (nodeHash combine leaf level (2 * index + 1)) :=
  rfl

/-- A node reads only the leaves of its own block. -/
theorem nodeHash_congr {first second : Nat → Hash} (level index : Nat)
    (same : ∀ position, index * 2 ^ level ≤ position → position < (index + 1) * 2 ^ level →
      first position = second position) :
    nodeHash combine first level index = nodeHash combine second level index := by
  induction level generalizing index with
  | zero => exact same index (by simp) (by simp)
  | succ level ih =>
      rw [nodeHash_succ, nodeHash_succ]
      congr 1
      · refine ih (2 * index) fun position lower upper => same position ?_ ?_
        · rw [pow_succ]
          nlinarith
        · rw [pow_succ]
          nlinarith
      · refine ih (2 * index + 1) fun position lower upper => same position ?_ ?_
        · rw [pow_succ]
          nlinarith
        · rw [pow_succ]
          nlinarith

/-- A tree whose leaves are nodes of a second tree is a part of the second tree. -/
theorem nodeHash_nested (below level index : Nat) :
    nodeHash combine (nodeHash combine leaf below) level index =
      nodeHash combine leaf (below + level) index := by
  induction level generalizing index with
  | zero => rfl
  | succ level ih =>
      rw [nodeHash_succ, ih, ih]
      rfl

theorem Follows.head {turn : Nat → Bool} {level index count : Nat}
    (follows : Follows turn level index (count + 1)) : turn level = decide (index % 2 = 1) := by
  simpa using follows 0 (Nat.succ_pos count)

theorem Follows.tail {turn : Nat → Bool} {level index count : Nat}
    (follows : Follows turn level index (count + 1)) :
    Follows turn (level + 1) (index / 2) count := by
  intro step inside
  have next := follows (step + 1) (Nat.succ_lt_succ inside)
  rw [pow_succ', ← Nat.div_div_eq_div_mul] at next
  rw [← next]
  congr 1
  omega

/-- A node is combined with its sibling on the side that its parity gives. -/
theorem nodeHash_parent (level index : Nat) :
    nodeHash combine leaf (level + 1) (index / 2) =
      if index % 2 = 1 then
        combine (nodeHash combine leaf level (index - 1)) (nodeHash combine leaf level index)
      else
        combine (nodeHash combine leaf level index) (nodeHash combine leaf level (index + 1)) := by
  rw [nodeHash_succ]
  split
  · next odd =>
      have left : 2 * (index / 2) = index - 1 := by omega
      have right : 2 * (index / 2) + 1 = index := by omega
      rw [right, left]
  · next even =>
      have left : 2 * (index / 2) = index := by omega
      rw [left]

/-- The siblings of a node and of its ancestors, from the node up. -/
def siblingsOf (combine : Hash → Hash → Hash) (leaf : Nat → Hash) : Nat → Nat → Nat → List Hash
  | _, _, 0 => []
  | level, index, count + 1 =>
      nodeHash combine leaf level (if index % 2 = 1 then index - 1 else index + 1) ::
        siblingsOf combine leaf (level + 1) (index / 2) count

@[simp] theorem length_siblingsOf (level index count : Nat) :
    (siblingsOf combine leaf level index count).length = count := by
  induction count generalizing level index with
  | zero => rfl
  | succ count ih => simp [siblingsOf, ih]

/-- The siblings of a node do not read the leaves of the node. -/
theorem siblingsOf_congr {first second : Nat → Hash} (level index count : Nat)
    (same : ∀ position, position < (index / 2 ^ count + 1) * 2 ^ (level + count) →
      position < index * 2 ^ level ∨ (index + 1) * 2 ^ level ≤ position →
      first position = second position) :
    siblingsOf combine first level index count = siblingsOf combine second level index count := by
  induction count generalizing level index with
  | zero => rfl
  | succ count ih =>
      have above : index / 2 ^ (count + 1) = index / 2 / 2 ^ count := by
        rw [pow_succ', Nat.div_div_eq_div_mul]
      have exponent : level + (count + 1) = level + 1 + count := by omega
      rw [above, exponent] at same
      have wide : (index / 2 + 1) * 2 ^ (level + 1) ≤
          (index / 2 / 2 ^ count + 1) * 2 ^ (level + 1 + count) := by
        have below : index / 2 < (index / 2 / 2 ^ count + 1) * 2 ^ count :=
          Nat.lt_mul_of_div_lt (Nat.lt_succ_self _) (by positivity)
        calc (index / 2 + 1) * 2 ^ (level + 1)
            ≤ (index / 2 / 2 ^ count + 1) * 2 ^ count * 2 ^ (level + 1) :=
              Nat.mul_le_mul_right _ below
          _ = (index / 2 / 2 ^ count + 1) * 2 ^ (level + 1 + count) := by
              rw [mul_assoc, ← pow_add, Nat.add_comm count]
      have double : ∀ number, number * 2 ^ (level + 1) = 2 * number * 2 ^ level := by
        intro number
        rw [pow_succ]
        ring
      rw [siblingsOf, siblingsOf]
      congr 1
      · apply nodeHash_congr
        intro position lower upper
        have positive : 0 < 2 ^ level := by positivity
        rw [double] at wide
        apply same position
        · refine lt_of_lt_of_le (lt_of_lt_of_le upper ?_) wide
          apply Nat.mul_le_mul_right
          split <;> omega
        · by_cases odd : index % 2 = 1
          · rw [if_pos odd] at upper
            left
            exact lt_of_lt_of_le upper (Nat.mul_le_mul_right _ (by omega))
          · rw [if_neg odd] at lower
            right
            exact lower
      · apply ih
        intro position inside outside
        apply same position inside
        rw [double, double] at outside
        rcases outside with before | behind
        · left
          exact lt_of_lt_of_le before (Nat.mul_le_mul_right _ (by omega))
        · right
          exact le_trans (Nat.mul_le_mul_right _ (by omega)) behind

/-- A walk along the siblings of a node reaches its ancestor. -/
theorem climb_siblingsOf {turn : Nat → Bool} (start level index count : Nat)
    (follows : Follows turn start index count) :
    climb combine turn start (siblingsOf combine leaf level index count)
      (nodeHash combine leaf level index) =
      nodeHash combine leaf (level + count) (index / 2 ^ count) := by
  induction count generalizing start level index with
  | zero => simp [siblingsOf, climb]
  | succ count ih =>
      have parent : (if turn start then
            combine (nodeHash combine leaf level (if index % 2 = 1 then index - 1 else index + 1))
              (nodeHash combine leaf level index)
          else
            combine (nodeHash combine leaf level index)
              (nodeHash combine leaf level (if index % 2 = 1 then index - 1 else index + 1))) =
          nodeHash combine leaf (level + 1) (index / 2) := by
        rw [nodeHash_parent, follows.head]
        by_cases odd : index % 2 = 1
        · simp only [odd, decide_true, if_true]
        · simp only [odd, decide_false, if_false, Bool.false_eq_true]
      rw [siblingsOf, climb, parent, ih (start + 1) (level + 1) (index / 2) follows.tail, pow_succ',
        ← Nat.div_div_eq_div_mul]
      congr 1
      omega

end Tree

section Binding

variable {Hash : Type} {combine : Hash → Hash → Hash}

/-- No two pairs of hashes combine to the same hash. -/
def Binding (combine : Hash → Hash → Hash) : Prop :=
  ∀ left right left' right', combine left right = combine left' right' →
    left = left' ∧ right = right'

variable {leaf : Nat → Hash} {turn : Nat → Bool}

/-- A walk that reaches a node of the tree starts at the node below it that its turns name. -/
theorem climb_reaches (binding : Binding combine) (siblings : List Hash) (start level index : Nat)
    (hash : Hash) (follows : Follows turn start index siblings.length)
    (reached : climb combine turn start siblings hash =
      nodeHash combine leaf (level + siblings.length) (index / 2 ^ siblings.length)) :
    hash = nodeHash combine leaf level index := by
  induction siblings generalizing start level index hash with
  | nil => simpa [climb] using reached
  | cons sibling rest ih =>
      have above := ih (start + 1) (level + 1) (index / 2) _ follows.tail (by
        rw [climb] at reached
        rw [reached, List.length_cons, pow_succ', ← Nat.div_div_eq_div_mul]
        congr 1
        omega)
      rw [nodeHash_parent, follows.head] at above
      by_cases odd : index % 2 = 1
      · simp only [odd, decide_true, if_true] at above
        exact (binding _ _ _ _ above).2
      · simp only [odd, decide_false, if_false, Bool.false_eq_true] at above
        exact (binding _ _ _ _ above).1

/-- The same walk from the node of a changed tree reaches the changed ancestor. -/
theorem climb_replaces (binding : Binding combine) (changed : Nat → Hash) (siblings : List Hash)
    (start level index : Nat) (hash : Hash) (follows : Follows turn start index siblings.length)
    (outside : ∀ position, (position < index * 2 ^ level ∨ (index + 1) * 2 ^ level ≤ position) →
      position < (index / 2 ^ siblings.length + 1) * 2 ^ (level + siblings.length) →
      changed position = leaf position)
    (reached : climb combine turn start siblings hash =
      nodeHash combine leaf (level + siblings.length) (index / 2 ^ siblings.length)) :
    climb combine turn start siblings (nodeHash combine changed level index) =
      nodeHash combine changed (level + siblings.length) (index / 2 ^ siblings.length) := by
  induction siblings generalizing start level index hash with
  | nil => simp [climb]
  | cons sibling rest ih =>
      have goal : level + (sibling :: rest).length = level + 1 + rest.length := by
        rw [List.length_cons]
        omega
      have divided : index / 2 ^ (sibling :: rest).length = index / 2 / 2 ^ rest.length := by
        rw [List.length_cons, pow_succ', ← Nat.div_div_eq_div_mul]
      rw [goal, divided] at reached outside
      rw [climb] at reached
      have above := climb_reaches binding rest (start + 1) (level + 1) (index / 2) _
        follows.tail reached
      have block : 0 < 2 ^ level := by positivity
      have lower : index / 2 * 2 ≤ index := Nat.div_mul_le_self index 2
      have upper : index + 1 ≤ (index / 2 + 1) * 2 := by omega
      have wider : ∀ position,
          (position < index / 2 * 2 ^ (level + 1) ∨ (index / 2 + 1) * 2 ^ (level + 1) ≤ position) →
          position < (index / 2 / 2 ^ rest.length + 1) * 2 ^ (level + 1 + rest.length) →
          changed position = leaf position := by
        intro position away bounded
        refine outside position ?_ bounded
        rcases away with before | after
        · left
          rw [pow_succ] at before
          nlinarith
        · right
          rw [pow_succ] at after
          nlinarith
      have parentEnd : (index / 2 + 1) * 2 ^ (level + 1) ≤
          (index / 2 / 2 ^ rest.length + 1) * 2 ^ (level + 1 + rest.length) := by
        have quotient : index / 2 + 1 ≤ (index / 2 / 2 ^ rest.length + 1) * 2 ^ rest.length := by
          have split := Nat.div_add_mod (index / 2) (2 ^ rest.length)
          have small : index / 2 % 2 ^ rest.length < 2 ^ rest.length :=
            Nat.mod_lt _ (by positivity)
          nlinarith
        calc (index / 2 + 1) * 2 ^ (level + 1)
            ≤ (index / 2 / 2 ^ rest.length + 1) * 2 ^ rest.length * 2 ^ (level + 1) := by gcongr
          _ = (index / 2 / 2 ^ rest.length + 1) * 2 ^ (level + 1 + rest.length) := by
            rw [pow_add]
            ring
      have childEnd : (index / 2 + 1) * 2 ^ (level + 1) = (index / 2 * 2 + 2) * 2 ^ level := by
        rw [pow_succ]
        ring
      rw [goal, divided, ← ih (start + 1) (level + 1) (index / 2) _ follows.tail wider reached,
        climb]
      congr 1
      rw [nodeHash_parent, follows.head] at above
      rw [nodeHash_parent, follows.head]
      by_cases odd : index % 2 = 1
      · simp only [odd, decide_true, if_true] at above ⊢
        rw [(binding _ _ _ _ above).1]
        congr 1
        refine nodeHash_congr combine level (index - 1) fun position _ last => ?_
        rw [Nat.sub_add_cancel (by omega)] at last
        refine (outside position (Or.inl last) ?_).symm
        nlinarith
      · simp only [odd, decide_false, if_false, Bool.false_eq_true] at above ⊢
        rw [(binding _ _ _ _ above).2]
        congr 1
        refine nodeHash_congr combine level (index + 1) fun position first last => ?_
        refine (outside position (Or.inr first) ?_).symm
        have even : index / 2 * 2 = index := by omega
        rw [childEnd, even] at parentEnd
        exact lt_of_lt_of_le last parentEnd

end Binding

section Depth

variable {Hash : Type} {combine : Hash → Hash → Hash} {isLeaf : Hash → Prop}

/-- Leaf hashes and combined hashes are apart. -/
def Separated (combine : Hash → Hash → Hash) (isLeaf : Hash → Prop) : Prop :=
  ∀ left right, ¬ isLeaf (combine left right)

/-- A hash hides a leaf at a depth when some path of that many combinations ends in a leaf. -/
inductive LeafAt (combine : Hash → Hash → Hash) (isLeaf : Hash → Prop) : Nat → Hash → Prop
  | here {hash : Hash} (found : isLeaf hash) : LeafAt combine isLeaf 0 hash
  | left {depth : Nat} {left : Hash} (right : Hash) (found : LeafAt combine isLeaf depth left) :
      LeafAt combine isLeaf (depth + 1) (combine left right)
  | right {depth : Nat} (left : Hash) {right : Hash} (found : LeafAt combine isLeaf depth right) :
      LeafAt combine isLeaf (depth + 1) (combine left right)

theorem LeafAt.of_leaf (separated : Separated combine isLeaf) {depth : Nat} {hash : Hash}
    (top : isLeaf hash) (found : LeafAt combine isLeaf depth hash) : depth = 0 := by
  cases found with
  | here _ => rfl
  | left right _ => exact absurd top (separated _ right)
  | right left _ => exact absurd top (separated left _)

theorem LeafAt.of_combine (binding : Binding combine) (separated : Separated combine isLeaf)
    {depth : Nat} {left right : Hash} (found : LeafAt combine isLeaf depth (combine left right)) :
    ∃ below, depth = below + 1 ∧
      (LeafAt combine isLeaf below left ∨ LeafAt combine isLeaf below right) := by
  generalize combined : combine left right = hash at found
  cases found with
  | here found => exact absurd (combined ▸ found) (separated left right)
  | left _ found => exact ⟨_, rfl, Or.inl ((binding _ _ _ _ combined).1 ▸ found)⟩
  | right _ found => exact ⟨_, rfl, Or.inr ((binding _ _ _ _ combined).2 ▸ found)⟩

/-- Each level of a walk puts the leaf one deeper. -/
theorem LeafAt.climb (turn : Nat → Bool) (level : Nat) (siblings : List Hash) {depth : Nat}
    {hash : Hash} (found : LeafAt combine isLeaf depth hash) :
    LeafAt combine isLeaf (depth + siblings.length)
      (Merkle.climb combine turn level siblings hash) := by
  induction siblings generalizing level depth hash with
  | nil => exact found
  | cons sibling rest ih =>
      have deeper : LeafAt combine isLeaf (depth + 1)
          (if turn level then combine sibling hash else combine hash sibling) := by
        split
        · exact .right sibling found
        · exact .left sibling found
      have above := ih (level + 1) deeper
      rwa [Nat.add_assoc, Nat.add_comm 1] at above

/-- Every path of a tree ends in its leaves. -/
theorem nodeHash_leafAt {leaf : Nat → Hash} (leaves : ∀ index, isLeaf (leaf index))
    (level index : Nat) : LeafAt combine isLeaf level (nodeHash combine leaf level index) := by
  induction level generalizing index with
  | zero => exact .here (leaves index)
  | succ level ih => exact .left _ (ih (2 * index))

/-- A tree hides no leaf above or below its last level. -/
theorem nodeHash_depth (binding : Binding combine) (separated : Separated combine isLeaf)
    {leaf : Nat → Hash} (leaves : ∀ index, isLeaf (leaf index)) {level index depth : Nat}
    (found : LeafAt combine isLeaf depth (nodeHash combine leaf level index)) : depth = level := by
  induction level generalizing index depth with
  | zero => exact found.of_leaf separated (leaves index)
  | succ level ih =>
      obtain ⟨below, rfl, left | right⟩ := LeafAt.of_combine binding separated found
      · rw [ih left]
      · rw [ih right]

/-- A walk from one leaf to a node of a tree has as many siblings as the node has levels. -/
theorem climb_length (binding : Binding combine) (separated : Separated combine isLeaf)
    {leaf : Nat → Hash} (leaves : ∀ index, isLeaf (leaf index)) {turn : Nat → Bool}
    {siblings : List Hash} {start level index depth : Nat} {hash : Hash}
    (found : LeafAt combine isLeaf depth hash)
    (reached : climb combine turn start siblings hash = nodeHash combine leaf level index) :
    depth + siblings.length = level := by
  have deep := LeafAt.climb turn start siblings found
  rw [reached] at deep
  exact nodeHash_depth binding separated leaves deep

/-- Replacing one leaf by another at the end of a walk moves no leaf to another depth. -/
theorem LeafAt.replace (binding : Binding combine) (separated : Separated combine isLeaf)
    {turn : Nat → Bool} (siblings : List Hash) {level depth : Nat} {hash other : Hash}
    (top : isLeaf hash) (top' : isLeaf other)
    (found : LeafAt combine isLeaf depth (Merkle.climb combine turn level siblings hash)) :
    LeafAt combine isLeaf depth (Merkle.climb combine turn level siblings other) := by
  have base : ∀ depth, LeafAt combine isLeaf depth hash → LeafAt combine isLeaf depth other := by
    intro depth found
    rw [found.of_leaf separated top]
    exact .here top'
  clear top top'
  induction siblings generalizing level hash other depth with
  | nil => exact base depth found
  | cons sibling rest ih =>
      rw [Merkle.climb] at found ⊢
      refine ih found fun depth found => ?_
      by_cases right : turn level = true
      · simp only [right, if_true] at found ⊢
        obtain ⟨below, rfl, side | side⟩ := LeafAt.of_combine binding separated found
        · exact .left _ side
        · exact .right _ (base below side)
      · simp only [right, if_false, Bool.false_eq_true] at found ⊢
        obtain ⟨below, rfl, side | side⟩ := LeafAt.of_combine binding separated found
        · exact .left _ (base below side)
        · exact .right _ side

end Depth

section Paths

variable {Hash : Type} {combine : Hash → Hash → Hash} {isLeaf : Hash → Prop} {turn : Nat → Bool}

/-- The turns from the top down to the start of a walk. -/
def walkPath (turn : Nat → Bool) (level : Nat) : Nat → List Bool
  | 0 => []
  | count + 1 => turn (level + count) :: walkPath turn level count

/-- The path from a hash down ends in a leaf. -/
def LeafAlong (combine : Hash → Hash → Hash) (isLeaf : Hash → Prop) : List Bool → Hash → Prop
  | [], hash => isLeaf hash
  | right :: path, hash => ∃ first second, hash = combine first second ∧
      LeafAlong combine isLeaf path (if right then second else first)

@[simp] theorem length_walkPath (level count : Nat) : (walkPath turn level count).length = count := by
  induction count with
  | zero => rfl
  | succ count ih => simp [walkPath, ih]

theorem walkPath_succ (level count : Nat) :
    walkPath turn level (count + 1) = walkPath turn (level + 1) count ++ [turn level] := by
  induction count with
  | zero => rfl
  | succ count ih =>
      rw [walkPath, ih, walkPath, List.cons_append]
      congr 2
      omega

theorem getElem?_walkPath {level count position : Nat} (inside : position < count) :
    (walkPath turn level count)[position]? = some (turn (level + (count - 1 - position))) := by
  induction count generalizing position with
  | zero => omega
  | succ count ih =>
      cases position with
      | zero => simp [walkPath]
      | succ position =>
          rw [walkPath, List.getElem?_cons_succ, ih (by omega)]
          congr 3
          omega

theorem climb_append (siblings : List Hash) (sibling hash : Hash) (level : Nat) :
    climb combine turn level (siblings ++ [sibling]) hash =
      if turn (level + siblings.length) then
        combine sibling (climb combine turn level siblings hash)
      else combine (climb combine turn level siblings hash) sibling := by
  induction siblings generalizing level hash with
  | nil => rfl
  | cons first rest ih =>
      rw [List.cons_append, climb, ih, climb, List.length_cons]
      congr 3
      omega

/-- A leaf at the end of a walk lies along the walk's path. -/
theorem leafAlong_climb (siblings : List Hash) (level : Nat) {hash : Hash} (leaf : isLeaf hash) :
    LeafAlong combine isLeaf (walkPath turn level siblings.length)
      (climb combine turn level siblings hash) := by
  induction siblings using List.reverseRecOn with
  | nil => exact leaf
  | append_singleton rest sibling ih =>
      rw [List.length_append, List.length_singleton, walkPath, climb_append]
      by_cases right : turn (level + rest.length) = true
      · rw [right, if_pos rfl]
        exact ⟨_, _, rfl, ih⟩
      · rw [Bool.not_eq_true] at right
        rw [right]
        exact ⟨_, _, rfl, ih⟩

theorem LeafAlong.leafAt {path : List Bool} {hash : Hash}
    (along : LeafAlong combine isLeaf path hash) : LeafAt combine isLeaf path.length hash := by
  induction path generalizing hash with
  | nil => exact .here along
  | cons right path ih =>
      obtain ⟨first, second, rfl, below⟩ := along
      cases right with
      | true => exact .right _ (ih below)
      | false => exact .left _ (ih below)

/-- A change at the end of a walk keeps the leaves along the paths that do not pass its start. -/
theorem LeafAlong.climb_other (binding : Binding combine) (separated : Separated combine isLeaf)
    (siblings : List Hash) {level : Nat} {path : List Bool} {hash other : Hash}
    (away : ¬ walkPath turn level siblings.length <+: path)
    (along : LeafAlong combine isLeaf path (climb combine turn level siblings hash)) :
    LeafAlong combine isLeaf path (climb combine turn level siblings other) := by
  induction siblings using List.reverseRecOn generalizing path with
  | nil => exact absurd List.nil_prefix away
  | append_singleton rest sibling ih =>
      rw [List.length_append, List.length_singleton, walkPath] at away
      rw [climb_append] at along ⊢
      cases path with
      | nil =>
          by_cases right : turn (level + rest.length) = true
          · rw [if_pos right] at along
            exact absurd along (separated _ _)
          · rw [if_neg right] at along
            exact absurd along (separated _ _)
      | cons here path =>
          obtain ⟨first, second, same, below⟩ := along
          have deeper : here = turn (level + rest.length) →
              ¬ walkPath turn level rest.length <+: path := by
            intro agrees prefixed
            exact away (List.cons_prefix_cons.mpr ⟨agrees.symm, prefixed⟩)
          by_cases right : turn (level + rest.length) = true
          · rw [if_pos right] at same ⊢
            obtain ⟨rfl, rfl⟩ := binding _ _ _ _ same
            refine ⟨_, _, rfl, ?_⟩
            cases here with
            | true => exact ih (deeper right.symm) below
            | false => exact below
          · rw [if_neg right] at same ⊢
            obtain ⟨rfl, rfl⟩ := binding _ _ _ _ same
            refine ⟨_, _, rfl, ?_⟩
            cases here with
            | true => exact below
            | false => exact ih (deeper (Bool.not_eq_true _ ▸ right).symm) below

/-- A walk to a node of a tree has at most as many siblings as the node has levels. -/
theorem climb_length_le (binding : Binding combine) (separated : Separated combine isLeaf)
    {leaf : Nat → Hash} (leaves : ∀ index, isLeaf (leaf index)) (siblings : List Hash)
    {start level index : Nat} {hash : Hash}
    (reached : climb combine turn start siblings hash = nodeHash combine leaf level index) :
    siblings.length ≤ level := by
  induction siblings using List.reverseRecOn generalizing level index with
  | nil => exact Nat.zero_le level
  | append_singleton rest sibling ih =>
      rw [climb_append] at reached
      cases level with
      | zero =>
          rw [nodeHash_zero] at reached
          split at reached
          · exact absurd (reached ▸ leaves index) (separated _ _)
          · exact absurd (reached ▸ leaves index) (separated _ _)
      | succ level =>
          rw [nodeHash_succ] at reached
          rw [List.length_append, List.length_singleton]
          split at reached
          · exact Nat.succ_le_succ (ih (binding _ _ _ _ reached).2)
          · exact Nat.succ_le_succ (ih (binding _ _ _ _ reached).1)

end Paths

end Merkle
