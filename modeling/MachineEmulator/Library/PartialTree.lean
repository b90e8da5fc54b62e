/-
This file gives hash trees of which only some nodes are known, with the nodes on the way down to a
node, the siblings along this way, and the tree in which the node is replaced.
-/

import MachineEmulator.Library.MerkleTree

namespace Merkle

/-- A tree of which the parts behind some hashes are not known. -/
inductive PartialTree (Hash : Type) where
  | known (hash : Hash)
  | node (left right : PartialTree Hash)

namespace PartialTree

section Walks

variable {Hash : Type} (combine : Hash → Hash → Hash) (turn : Nat → Bool)

def hash : PartialTree Hash → Hash
  | known hash => hash
  | node left right => combine left.hash right.hash

/-- The node that lies a number of levels below the root of the tree, at a level. -/
def descend (level : Nat) : Nat → PartialTree Hash → Option (PartialTree Hash)
  | 0, tree => some tree
  | _ + 1, known _ => none
  | count + 1, node left right => descend level count (if turn (level + count) then right else left)

/-- The siblings of this node and of its ancestors, from the node up. -/
def siblings (level : Nat) : Nat → PartialTree Hash → Option (List Hash)
  | 0, _ => some []
  | _ + 1, known _ => none
  | count + 1, node left right =>
      (siblings level count (if turn (level + count) then right else left)).map
        (· ++ [(if turn (level + count) then left else right).hash combine])

/-- The tree in which this node is replaced. -/
def replace (level : Nat) (change : PartialTree Hash) :
    Nat → PartialTree Hash → Option (PartialTree Hash)
  | 0, _ => some change
  | _ + 1, known _ => none
  | count + 1, node left right =>
      (replace level change count (if turn (level + count) then right else left)).map fun below =>
        if turn (level + count) then node left below else node below right

/-- The tree that is known from the siblings above a node. -/
def above : Nat → List Hash → PartialTree Hash → PartialTree Hash
  | _, [], tree => tree
  | level, sibling :: rest, tree =>
      above (level + 1) rest (if turn level then node (known sibling) tree else node tree (known sibling))

end Walks

variable {Hash : Type} {combine : Hash → Hash → Hash} {turn : Nat → Bool} {level count : Nat}
  {tree : PartialTree Hash}

section Walking

theorem descend_add (more : Nat) : descend turn level (count + more) tree =
    (descend turn (level + count) more tree).bind (descend turn level count) := by
  induction more generalizing tree with
  | zero => rfl
  | succ more ih =>
      cases tree with
      | known hash => rfl
      | node left right =>
          rw [← Nat.add_assoc, descend, ih, descend, Nat.add_assoc]

theorem siblings_add (more : Nat) : siblings combine turn level (count + more) tree =
    (descend turn (level + count) more tree).bind fun sub =>
      (siblings combine turn level count sub).bind fun below =>
        (siblings combine turn (level + count) more tree).map (below ++ ·) := by
  induction more generalizing tree with
  | zero => simp [siblings, descend]
  | succ more ih =>
      cases tree with
      | known hash => rfl
      | node left right =>
          rw [← Nat.add_assoc, siblings, ih, descend, siblings, Nat.add_assoc, Option.map_bind]
          congr 1
          funext sub
          rw [Function.comp_apply, Option.map_bind]
          congr 1
          funext below
          simp [Function.comp_def]

theorem length_siblings {listed : List Hash}
    (present : siblings combine turn level count tree = some listed) : listed.length = count := by
  induction count generalizing tree listed with
  | zero =>
      cases present
      rfl
  | succ count ih =>
      cases tree with
      | known hash => cases present
      | node left right =>
          obtain ⟨below, lower, rfl⟩ := Option.map_eq_some_iff.mp present
          simp [ih lower]

/-- The siblings below a node on the way, and those of this node and of its ancestors. -/
theorem siblings_split {more : Nat} {listed : List Hash}
    (present : siblings combine turn level (count + more) tree = some listed) :
    ∃ sub, descend turn (level + count) more tree = some sub ∧
      siblings combine turn level count sub = some (listed.take count) ∧
      siblings combine turn (level + count) more tree = some (listed.drop count) := by
  rw [siblings_add] at present
  obtain ⟨sub, found, present⟩ := Option.bind_eq_some_iff.mp present
  obtain ⟨below, lower, present⟩ := Option.bind_eq_some_iff.mp present
  obtain ⟨upper, higher, rfl⟩ := Option.map_eq_some_iff.mp present
  have length := length_siblings lower
  refine ⟨sub, found, ?_, ?_⟩
  · rw [List.take_left' length, lower]
  · rw [List.drop_left' length, higher]

/-- The walk along the siblings goes from a node that replaces the old one to the root of the tree
with the node replaced. -/
theorem climb_replace {listed : List Hash}
    (present : siblings combine turn level count tree = some listed) (change : PartialTree Hash) :
    ∃ changed, replace turn level change count tree = some changed ∧
      climb combine turn level listed (change.hash combine) = changed.hash combine := by
  induction count generalizing tree listed with
  | zero =>
      cases present
      exact ⟨change, rfl, rfl⟩
  | succ count ih =>
      cases tree with
      | known hash => cases present
      | node left right =>
          obtain ⟨below, lower, rfl⟩ := Option.map_eq_some_iff.mp present
          obtain ⟨changed, replaced, climbs⟩ := ih lower
          rw [replace, replaced, climb_append, climbs, length_siblings lower]
          cases turn (level + count) with
          | false => exact ⟨node changed right, rfl, rfl⟩
          | true => exact ⟨node left changed, rfl, rfl⟩

theorem replace_same {target : PartialTree Hash} (found : descend turn level count tree = some target) :
    replace turn level target count tree = some tree := by
  induction count generalizing tree with
  | zero =>
      cases found
      rfl
  | succ count ih =>
      cases tree with
      | known hash => cases found
      | node left right =>
          rw [replace, ih found]
          cases turn (level + count) <;> rfl

/-- The walk along the siblings of a node goes from the node to the root. -/
theorem climb_siblings {target : PartialTree Hash} {listed : List Hash}
    (found : descend turn level count tree = some target)
    (present : siblings combine turn level count tree = some listed) :
    climb combine turn level listed (target.hash combine) = tree.hash combine := by
  obtain ⟨changed, replaced, climbs⟩ := climb_replace present target
  cases (replace_same found).symm.trans replaced
  exact climbs

end Walking

section Above

theorem descend_above (turn : Nat → Bool) (level : Nat) (tree : PartialTree Hash) (listed : List Hash) :
    descend turn level listed.length (above turn level listed tree) = some tree := by
  induction listed generalizing level tree with
  | nil => rfl
  | cons sibling rest ih =>
      rw [above, List.length_cons, Nat.add_comm, descend_add, ih]
      show descend turn level 1 _ = _
      cases side : turn level <;> simp [descend, side]

theorem siblings_above (combine : Hash → Hash → Hash) (turn : Nat → Bool) (level : Nat)
    (tree : PartialTree Hash) (listed : List Hash) :
    siblings combine turn level listed.length (above turn level listed tree) = some listed := by
  induction listed generalizing level tree with
  | nil => rfl
  | cons sibling rest ih =>
      rw [above, List.length_cons, Nat.add_comm, siblings_add, ih, descend_above]
      show (siblings combine turn level 1 _).bind _ = _
      cases side : turn level <;> simp [siblings, side, hash]

end Above

end PartialTree

end Merkle
