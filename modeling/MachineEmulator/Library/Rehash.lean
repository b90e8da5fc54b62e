/-
This file gives the repair of hash trees in place: a work list of nodes is recomputed, and each
change is carried to the parent of the node.
-/

import MachineEmulator.Library.MerkleTree

namespace Rehash

section Repair

variable {Node Hash : Type} [DecidableEq Node]

/-- How a tree recomputes its nodes. A change of one node reaches only its parent. -/
structure Links (Node Hash : Type) [DecidableEq Node] where
  recompute : (Node → Hash) → Node → Hash
  parent : Node → Option Node
  inner : Node → Prop
  reaches : ∀ hashes node value other, inner other → parent node ≠ some other →
    recompute (Function.update hashes node value) other = recompute hashes other

variable (links : Links Node Hash)

/-- An inner node holds what it would be recomputed to. -/
def Links.Settled (hashes : Node → Hash) (node : Node) : Prop :=
  hashes node = links.recompute hashes node

def Links.rehash (hashes : Node → Hash) (node : Node) : Node → Hash :=
  Function.update hashes node (links.recompute hashes node)

/-- The second node is the first or one of its ancestors. -/
inductive Links.Above (links : Links Node Hash) : Node → Node → Prop
  | here (node : Node) : Links.Above links node node
  | up {node above top : Node} (next : links.parent node = some above)
      (rest : Links.Above links above top) : Links.Above links node top

/-- Every inner node that is not settled is on the way up from a node of the work list. -/
def Links.Pending (hashes : Node → Hash) (work : Node → Prop) : Prop :=
  ∀ node, links.inner node → ¬links.Settled hashes node → ∃ start, work start ∧ links.Above start node

variable {links} {hashes : Node → Hash} {work : Node → Prop}

theorem Links.Pending.settled (pending : links.Pending hashes work) (done : ∀ node, ¬work node)
    {node : Node} (inner : links.inner node) : links.Settled hashes node := by
  by_contra broken
  obtain ⟨start, working, _⟩ := pending node inner broken
  exact done start working

theorem Links.Pending.mono {later : Node → Prop} (pending : links.Pending hashes work)
    (weaker : ∀ node, work node → later node) : links.Pending hashes later := by
  intro node inner broken
  obtain ⟨start, working, above⟩ := pending node inner broken
  exact ⟨start, weaker start working, above⟩

/-- A new hash of a node has to be carried to its parent, and a leaf needs no more than that. -/
theorem Links.Pending.write {later : Node → Prop} (pending : links.Pending hashes work)
    (node : Node) (value : Hash) (leaf : ¬links.inner node)
    (kept : ∀ other, work other → later other)
    (carried : ∀ above, links.parent node = some above → later above) :
    links.Pending (Function.update hashes node value) later := by
  intro other inner broken
  have apart : other ≠ node := by
    rintro rfl
    exact leaf inner
  by_cases next : links.parent node = some other
  · exact ⟨other, carried other next, .here other⟩
  · rw [Links.Settled, links.reaches hashes node value other inner next,
      Function.update_of_ne apart] at broken
    obtain ⟨start, working, above⟩ := pending other inner broken
    exact ⟨start, kept start working, above⟩

/-- A recomputed node leaves the work list, and its parent enters it. -/
theorem Links.Pending.rehash {later : Node → Prop} (pending : links.Pending hashes work)
    (node : Node) (irreflexive : links.parent node ≠ some node)
    (kept : ∀ other, work other → other = node ∨ later other)
    (carried : ∀ above, links.parent node = some above → later above) :
    links.Pending (links.rehash hashes node) later := by
  intro other inner broken
  by_cases next : links.parent node = some other
  · exact ⟨other, carried other next, .here other⟩
  rw [Links.Settled, Links.rehash, links.reaches hashes node _ other inner next] at broken
  by_cases same : other = node
  · subst same
    exact absurd (Function.update_self _ _ _) broken
  rw [Function.update_of_ne same] at broken
  obtain ⟨start, working, above⟩ := pending other inner broken
  rcases kept start working with rfl | working
  · cases above with
    | here => exact absurd rfl same
    | up first rest => exact ⟨_, carried _ first, rest⟩
  · exact ⟨start, working, above⟩

/-- A list of nodes whose parents come later in the list is settled in one pass. -/
theorem Links.Pending.rehash_list {nodes : List Node}
    (pending : links.Pending hashes fun node => node ∈ nodes)
    (irreflexive : ∀ node, links.parent node ≠ some node)
    (ordered : ∀ first node later, nodes = first ++ node :: later →
      ∀ above, links.parent node = some above → above ∈ later) :
    links.Pending (nodes.foldl links.rehash hashes) fun _ => False := by
  induction nodes generalizing hashes with
  | nil => exact pending.mono fun node member => absurd member List.not_mem_nil
  | cons node nodes ih =>
      apply ih
      · apply pending.rehash node (irreflexive node)
        · intro other member
          exact List.mem_cons.mp member
        · exact ordered [] node nodes rfl
      · intro first other later split
        exact ordered (node :: first) other later (by rw [split]; rfl)

end Repair

section Level

variable {Node Hash : Type} [DecidableEq Node] {links : Links Node Hash}

/-- A node is recomputed to the same hash when no child of it has changed. -/
theorem Links.recompute_congr {hashes result : Node → Hash} {work : List Node} {other : Node}
    (inner : links.inner other) (kept : ∀ node, node ∉ work → result node = hashes node)
    (apart : ∀ node ∈ work, links.parent node ≠ some other) :
    links.recompute result other = links.recompute hashes other := by
  have whole : result = work.foldl (fun current node =>
      Function.update current node (result node)) hashes := by
    have general : ∀ (done : List Node) (start : Node → Hash),
        done.foldl (fun current node => Function.update current node (result node)) start =
          fun node => if node ∈ done then result node else start node := by
      intro done start
      induction done generalizing start with
      | nil => simp
      | cons first done ih =>
          rw [List.foldl_cons, ih]
          funext node
          by_cases same : node = first
          · simp [same]
          · simp [same]
    rw [general]
    funext node
    split
    · rfl
    · rename_i outside
      exact kept node outside
  rw [whole]
  clear whole kept
  induction work generalizing hashes with
  | nil => rfl
  | cons first work ih =>
      rw [List.foldl_cons, ih fun node member => apart node (List.mem_cons_of_mem _ member)]
      exact links.reaches hashes first _ other inner (apart first List.mem_cons_self)

/-- All nodes of a work list are recomputed at once, and their parents are the next work list. -/
theorem Links.Pending.level {hashes result : Node → Hash} {work next : List Node}
    (pending : links.Pending hashes fun node => node ∈ work)
    (computed : ∀ node ∈ work, result node = links.recompute hashes node)
    (kept : ∀ node, node ∉ work → result node = hashes node)
    (carried : ∀ node ∈ work, ∀ above, links.parent node = some above → above ∈ next) :
    links.Pending result fun node => node ∈ next := by
  intro other inner broken
  by_cases child : ∃ node ∈ work, links.parent node = some other
  · obtain ⟨node, member, parent⟩ := child
    exact ⟨other, carried node member other parent, .here other⟩
  push Not at child
  have same := Links.recompute_congr inner kept child
  rw [Links.Settled, same] at broken
  by_cases member : other ∈ work
  · exact absurd (computed other member) broken
  rw [kept other member] at broken
  obtain ⟨start, working, above⟩ := pending other inner broken
  cases above with
  | here => exact absurd working member
  | up first rest => exact ⟨_, carried start working _ first, rest⟩

end Level

section Indexed

variable {Index Node Hash : Type} [DecidableEq Index] [DecidableEq Node]

/-- A family of trees beside each other. -/
def Links.indexed (Index : Type) [DecidableEq Index] (links : Links Node Hash) :
    Links (Index × Node) Hash where
  recompute hashes node := links.recompute (fun below => hashes (node.1, below)) node.2
  parent node := (links.parent node.2).map fun above => (node.1, above)
  inner node := links.inner node.2
  reaches := by
    rintro hashes ⟨index, node⟩ value ⟨index', other⟩ inner next
    by_cases same : index' = index
    · subst same
      have slice : (fun below => Function.update hashes (index', node) value (index', below)) =
          Function.update (fun below => hashes (index', below)) node value := by
        funext below
        by_cases here : below = node
        · rw [here, Function.update_self, Function.update_self]
        · rw [Function.update_of_ne here, Function.update_of_ne (by simp [here])]
      show links.recompute _ other = _
      rw [slice]
      apply links.reaches _ node value other inner
      intro parent
      apply next
      rw [parent]
      rfl
    · have slice : (fun below => Function.update hashes (index, node) value (index', below)) =
          fun below => hashes (index', below) := by
        funext below
        rw [Function.update_of_ne (by simp [same])]
      show links.recompute _ other = _
      rw [slice]

theorem Links.indexed_settled {links : Links Node Hash} {hashes : Index × Node → Hash}
    {index : Index} {node : Node} :
    (links.indexed Index).Settled hashes (index, node) ↔
      links.Settled (fun below => hashes (index, below)) node :=
  Iff.rfl

end Indexed

section Heap

variable {Hash : Type} (combine : Hash → Hash → Hash)

/-- A complete tree in an array: the children of a node stand at twice its position. -/
def heap (bound : Nat) : Links Nat Hash where
  recompute hashes position := combine (hashes (2 * position)) (hashes (2 * position + 1))
  parent position := if position ≤ 1 then none else some (position / 2)
  inner position := 1 ≤ position ∧ position < bound
  reaches := by
    intro hashes node value other inner next
    have left : 2 * other ≠ node := by
      rintro rfl
      apply next
      rw [if_neg (by omega)]
      congr 1
      omega
    have right : 2 * other + 1 ≠ node := by
      rintro rfl
      apply next
      rw [if_neg (by omega)]
      congr 1
      omega
    rw [Function.update_of_ne left, Function.update_of_ne right]

variable {combine} {bound : Nat}

theorem heap_parent {position above : Nat} :
    (heap combine bound).parent position = some above ↔ 2 ≤ position ∧ above = position / 2 := by
  simp only [heap]
  split
  · constructor
    · exact nofun
    · rintro ⟨large, _⟩
      omega
  · constructor
    · rintro ⟨rfl⟩
      exact ⟨by omega, rfl⟩
    · rintro ⟨_, rfl⟩
      rfl

theorem heap_irreflexive (position : Nat) :
    (heap combine bound).parent position ≠ some position := by
  rw [ne_eq, heap_parent]
  rintro ⟨large, same⟩
  omega

/-- The nodes of a settled heap are the nodes of the tree over its leaves. -/
theorem heap_nodeHash {hashes leaf : Nat → Hash} {height : Nat}
    (settled : ∀ position, 1 ≤ position → position < 2 ^ height →
      (heap combine (2 ^ height)).Settled hashes position)
    (leaves : ∀ index < 2 ^ height, hashes (2 ^ height + index) = leaf index) (level depth : Nat)
    (whole : level + depth = height) {index : Nat} (inside : index < 2 ^ depth) :
    hashes (2 ^ depth + index) = Merkle.nodeHash combine leaf level index := by
  induction level generalizing depth index with
  | zero =>
      rw [Nat.zero_add] at whole
      rw [whole] at inside ⊢
      exact leaves index inside
  | succ level ih =>
      have positive : 0 < 2 ^ depth := by positivity
      have double : 2 ^ (depth + 1) = 2 * 2 ^ depth := pow_succ' 2 depth
      have below : 2 ^ depth + index < 2 ^ height := by
        calc 2 ^ depth + index < 2 ^ (depth + 1) := by omega
          _ ≤ 2 ^ height := Nat.pow_le_pow_right (by decide) (by omega)
      have node : hashes (2 ^ depth + index) = _ := settled (2 ^ depth + index) (by omega) below
      have left : 2 * (2 ^ depth + index) = 2 ^ (depth + 1) + 2 * index := by omega
      have right : 2 * (2 ^ depth + index) + 1 = 2 ^ (depth + 1) + (2 * index + 1) := by omega
      rw [node, Merkle.nodeHash_succ, ← ih (depth + 1) (by omega) (by omega),
        ← ih (depth + 1) (by omega) (by omega)]
      show combine (hashes _) (hashes _) = _
      rw [right, left]

end Heap

end Rehash
