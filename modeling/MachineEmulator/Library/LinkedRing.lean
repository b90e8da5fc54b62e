/-
This file gives rings of linked nodes: a list whose last node links back to a root. Nodes are put in
and taken out by changes of the links of their neighbours alone.
-/

import Mathlib.Tactic

/-- The links go from each node to its neighbours. The root is not a node. -/
structure LinkedRing (Node : Type) where
  next : Option Node → Option Node
  prev : Option Node → Option Node
  size : Nat

namespace LinkedRing

section Representation

variable {Node : Type} (ring : LinkedRing Node)

def empty : LinkedRing Node where
  next _ := none
  prev _ := none
  size := 0

def front : Option Node := ring.next none

def back : Option Node := ring.prev none

/-- Two neighbours point at each other. -/
def Joined (first second : Option Node) : Prop :=
  ring.next first = second ∧ ring.prev second = first

/-- The ring goes from the root over the nodes of a list and back to the root. -/
structure Represents (nodes : List Node) : Prop where
  chain : List.IsChain ring.Joined (none :: (nodes.map some ++ [none]))
  nodup : nodes.Nodup
  size : ring.size = nodes.length

variable {ring} {nodes : List Node}

theorem empty_represents : (empty : LinkedRing Node).Represents [] where
  chain := List.isChain_cons_cons.mpr ⟨⟨rfl, rfl⟩, List.isChain_singleton none⟩
  nodup := List.nodup_nil
  size := rfl

/-- The part of a ring up to a place ends in a node or in the root. -/
theorem exists_last (nodes : List Node) :
    ∃ sources last, none :: nodes.map some = sources ++ [last] := by
  cases nodes using List.reverseRecOn with
  | nil => exact ⟨[], none, rfl⟩
  | append_singleton nodes node => exact ⟨none :: nodes.map some, some node, by simp⟩

/-- The part of a ring from a place starts with a node or with the root. -/
theorem exists_first (nodes : List Node) :
    ∃ first targets, nodes.map some ++ [none] = first :: targets := by
  cases nodes with
  | nil => exact ⟨none, [], rfl⟩
  | cons node nodes => exact ⟨some node, nodes.map some ++ [none], rfl⟩

theorem Represents.front (represents : ring.Represents nodes) : ring.front = nodes.head? := by
  have chain := represents.chain
  cases nodes with
  | nil => exact (List.isChain_cons_cons.mp chain).1.1
  | cons node nodes => exact (List.isChain_cons_cons.mp chain).1.1

theorem Represents.back (represents : ring.Represents nodes) : ring.back = nodes.getLast? := by
  have chain := represents.chain
  cases nodes using List.reverseRecOn with
  | nil => exact (List.isChain_cons_cons.mp chain).1.2
  | append_singleton nodes node =>
      rw [List.map_append, List.append_assoc, ← List.cons_append] at chain
      rw [List.getLast?_append_of_ne_nil _ (List.cons_ne_nil node []), List.getLast?_singleton]
      exact (List.isChain_append_cons_cons.mp chain).2.1.2

theorem walk_chain {start : Option Node} (chain : List.IsChain ring.Joined
    (start :: (nodes.map some ++ [none]))) {steps : Nat} (inside : steps ≤ nodes.length) :
    ring.next^[steps + 1] start = nodes[steps]? ∧
      ring.prev (ring.next^[steps + 1] start) = ring.next^[steps] start := by
  induction nodes generalizing start steps with
  | nil =>
      obtain rfl := Nat.le_zero.mp inside
      obtain ⟨next, prev⟩ := (List.isChain_cons_cons.mp chain).1
      constructor
      · exact next
      · show ring.prev (ring.next start) = start
        rw [next, prev]
  | cons node nodes ih =>
      obtain ⟨⟨next, prev⟩, rest⟩ := List.isChain_cons_cons.mp chain
      cases steps with
      | zero =>
          constructor
          · exact next
          · show ring.prev (ring.next start) = start
            rw [next, prev]
      | succ steps =>
          rw [Function.iterate_succ_apply _ (steps + 1), Function.iterate_succ_apply _ steps start,
            next, List.getElem?_cons_succ]
          exact ih rest (Nat.le_of_succ_le_succ inside)

/-- The links go once around: over all nodes, each of them once, and back to the root. -/
theorem Represents.walk (represents : ring.Represents nodes) {steps : Nat}
    (inside : steps ≤ nodes.length) :
    ring.next^[steps + 1] none = nodes[steps]? ∧
      ring.prev (ring.next^[steps + 1] none) = ring.next^[steps] none :=
  walk_chain represents.chain inside

/-- A ring whose links of the root and of the nodes are the same represents the same list. -/
theorem Represents.congr {other : LinkedRing Node} (represents : ring.Represents nodes)
    (size : other.size = ring.size)
    (links : ∀ place, place = none ∨ (∃ node ∈ nodes, place = some node) →
      other.next place = ring.next place ∧ other.prev place = ring.prev place) :
    other.Represents nodes where
  chain := by
    have known (place : Option Node) (member : place ∈ none :: (nodes.map some ++ [none])) :
        place = none ∨ ∃ node ∈ nodes, place = some node := by
      cases place with
      | none => exact Or.inl rfl
      | some node => exact Or.inr ⟨node, by simpa using member, rfl⟩
    apply represents.chain.imp_of_mem_imp
    rintro first second inside inside' ⟨next, prev⟩
    constructor
    · rw [(links first (known first inside)).1, next]
    · rw [(links second (known second inside')).2, prev]
  nodup := represents.nodup
  size := size.trans represents.size

end Representation

section Operations

variable {Node : Type} [DecidableEq Node] (ring : LinkedRing Node)

/-- Two nodes become neighbours. -/
def link (first second : Option Node) : LinkedRing Node :=
  { ring with
    next := Function.update ring.next first second
    prev := Function.update ring.prev second first }

/-- A node is put between a place and the place before it. -/
def linkBefore (place : Option Node) (node : Node) : LinkedRing Node :=
  (ring.link (ring.prev place) (some node)).link (some node) place

/-- The neighbours of a node become neighbours of each other. -/
def unlink (node : Node) : LinkedRing Node :=
  ring.link (ring.prev (some node)) (ring.next (some node))

def pushFront (node : Node) : LinkedRing Node :=
  { ring.linkBefore ring.front node with size := ring.size + 1 }

def popBack : LinkedRing Node :=
  match ring.back with
  | none => ring
  | some node => { ring.unlink node with size := ring.size - 1 }

def moveToFront (node : Node) : LinkedRing Node :=
  if ring.front = some node then ring
  else
    let without := ring.unlink node
    without.linkBefore without.front node

variable {ring} {nodes : List Node}

theorem joined_link (first second : Option Node) : (ring.link first second).Joined first second :=
  ⟨Function.update_self _ _ _, Function.update_self _ _ _⟩

/-- A new link leaves a chain whose links start and end elsewhere. -/
theorem chain_link {first second : Option Node} {places : List (Option Node)}
    (chain : List.IsChain ring.Joined places) (source : first ∉ places.dropLast)
    (target : second ∉ places.tail) : List.IsChain (ring.link first second).Joined places := by
  induction places with
  | nil => exact List.isChain_nil
  | cons place places ih =>
      cases places with
      | nil => exact List.isChain_singleton place
      | cons other places =>
          obtain ⟨joined, rest⟩ := List.isChain_cons_cons.mp chain
          rw [List.dropLast_cons_cons, List.mem_cons, not_or] at source
          rw [List.tail_cons, List.mem_cons, not_or] at target
          apply List.isChain_cons_cons.mpr
          constructor
          · constructor
            · show Function.update ring.next first second place = other
              rw [Function.update_of_ne (Ne.symm source.1), joined.1]
            · show Function.update ring.prev second first other = place
              rw [Function.update_of_ne (Ne.symm target.1), joined.2]
          · exact ih rest source.2 target.2

omit [DecidableEq Node] in
theorem nodup_places (nodup : nodes.Nodup) : (nodes.map some ++ [none]).Nodup := by
  apply List.Nodup.append
  · exact nodup.map (Option.some_injective Node)
  · exact List.nodup_singleton none
  · simp

/-- A node that is put before the first node of a chain becomes the first node. -/
theorem chain_linkBefore {node : Node}
    (chain : List.IsChain ring.Joined (none :: (nodes.map some ++ [none]))) (nodup : nodes.Nodup)
    (fresh : node ∉ nodes) :
    List.IsChain (ring.linkBefore ring.front node).Joined
      (none :: ((node :: nodes).map some ++ [none])) := by
  obtain ⟨first, targets, parts⟩ := exists_first nodes
  have outside : some node ∉ nodes.map some ++ [none] := by simpa using fresh
  have distinct := nodup_places nodup
  rw [List.map_cons, List.cons_append, parts]
  rw [parts] at chain outside distinct
  obtain ⟨⟨front, back⟩, rest⟩ := List.isChain_cons_cons.mp chain
  have place : ring.front = first := front
  rw [linkBefore, place, back]
  have entered : (ring.link none (some node)).Joined none (some node) := joined_link _ _
  have kept : List.IsChain (ring.link none (some node)).Joined (first :: targets) := by
    apply chain_link rest
    · rw [← parts, List.dropLast_concat]
      simp
    · exact fun member => outside (List.mem_cons_of_mem _ member)
  have apart : first ≠ some node := fun same => outside (same ▸ List.mem_cons_self)
  apply List.isChain_cons_cons.mpr
  constructor
  · constructor
    · show Function.update (ring.link none (some node)).next (some node) first none = some node
      rw [Function.update_of_ne (Option.some_ne_none node).symm, entered.1]
    · show Function.update (ring.link none (some node)).prev first (some node) (some node) = none
      rw [Function.update_of_ne apart.symm, entered.2]
  · apply List.isChain_cons_cons.mpr
    constructor
    · exact joined_link (some node) first
    · apply chain_link kept
      · exact fun member => outside (List.mem_of_mem_dropLast member)
      · exact (List.nodup_cons.mp distinct).1

/-- The ring closes behind a node that is taken out. -/
theorem chain_unlink {first second : List Node} {node : Node}
    (chain : List.IsChain ring.Joined (none :: ((first ++ node :: second).map some ++ [none])))
    (nodup : (first ++ node :: second).Nodup) :
    List.IsChain (ring.unlink node).Joined (none :: ((first ++ second).map some ++ [none])) := by
  obtain ⟨sources, last, before⟩ := exists_last first
  obtain ⟨next, targets, after⟩ := exists_first second
  have whole : none :: ((first ++ node :: second).map some ++ [none]) =
      sources ++ last :: some node :: next :: targets := by
    rw [List.map_append, List.map_cons, List.append_assoc, List.cons_append, after,
      ← List.cons_append, before, List.append_assoc, List.singleton_append]
  have closed : none :: ((first ++ second).map some ++ [none]) =
      sources ++ last :: next :: targets := by
    rw [List.map_append, List.append_assoc, after, ← List.cons_append, before, List.append_assoc,
      List.singleton_append]
  rw [whole] at chain
  obtain ⟨left, ⟨_, previous⟩, right⟩ := List.isChain_append_cons_cons.mp chain
  obtain ⟨⟨following, _⟩, rest⟩ := List.isChain_cons_cons.mp right
  obtain ⟨distinct, others, disjoint⟩ := List.nodup_append.mp nodup
  have apart : ∀ place, place ∈ first.map some → place ∉ second.map some := by
    intro place member member'
    obtain ⟨one, inside, rfl⟩ := List.mem_map.mp member
    obtain ⟨other, inside', same⟩ := List.mem_map.mp member'
    exact disjoint one inside other (List.mem_cons_of_mem _ inside') (Option.some.inj same).symm
  have starts : last ∉ sources := by
    have places : (sources ++ [last]).Nodup := by
      rw [← before, List.nodup_cons]
      exact ⟨by simp, distinct.map (Option.some_injective Node)⟩
    intro member
    exact (List.nodup_append.mp places).2.2 last member last List.mem_cons_self rfl
  have ends : (next :: targets).Nodup := after ▸ nodup_places (List.nodup_cons.mp others).2
  have firstPlaces : ∀ place, place ∈ sources ++ [last] → place ∉ second.map some := by
    intro place member
    rw [← before] at member
    rcases List.mem_cons.mp member with rfl | inside
    · simp
    · exact apart place inside
  have secondPlaces : ∀ place, place ∈ next :: targets → place ∉ first.map some := by
    intro place member inside
    rw [← after] at member
    rcases List.mem_append.mp member with member | root
    · exact apart place inside member
    · rw [List.mem_singleton.mp root] at inside
      simp at inside
  rw [closed, unlink, previous, following]
  apply List.isChain_append_cons_cons.mpr
  constructor
  · apply chain_link left
    · rw [List.dropLast_concat]
      exact starts
    · rw [← before]
      exact secondPlaces next List.mem_cons_self
  · constructor
    · exact joined_link last next
    · apply chain_link rest
      · rw [← after, List.dropLast_concat]
        exact firstPlaces last (by simp)
      · exact (List.nodup_cons.mp ends).1

theorem Represents.pushFront (represents : ring.Represents nodes) {node : Node}
    (fresh : node ∉ nodes) : (ring.pushFront node).Represents (node :: nodes) where
  chain := chain_linkBefore represents.chain represents.nodup fresh
  nodup := List.nodup_cons.mpr ⟨fresh, represents.nodup⟩
  size := by
    show ring.size + 1 = _
    rw [represents.size, List.length_cons]

theorem Represents.popBack {node : Node} (represents : ring.Represents (nodes ++ [node])) :
    ring.popBack.Represents nodes := by
  have back := represents.back
  rw [List.getLast?_append_of_ne_nil _ (List.cons_ne_nil node []), List.getLast?_singleton] at back
  have chain := chain_unlink represents.chain represents.nodup
  rw [List.append_nil] at chain
  rw [LinkedRing.popBack, back]
  constructor
  · exact chain
  · exact (List.nodup_append.mp represents.nodup).1
  · show ring.size - 1 = _
    rw [represents.size, List.length_append, List.length_singleton, Nat.add_sub_cancel]

theorem Represents.moveToFront (represents : ring.Represents nodes) {node : Node}
    (member : node ∈ nodes) : (ring.moveToFront node).Represents (node :: nodes.erase node) := by
  have front := represents.front
  obtain ⟨first, second, rfl⟩ := List.append_of_mem member
  have distinct := represents.nodup
  have outside : node ∉ first ++ second := (List.nodup_cons.mp (List.nodup_middle.mp distinct)).1
  have before : node ∉ first := fun inside => outside (List.mem_append_left _ inside)
  have erased : (first ++ node :: second).erase node = first ++ second := by
    rw [List.erase_append_right _ before, List.erase_cons_head]
  rw [LinkedRing.moveToFront, erased]
  split
  next first_eq =>
    rw [front] at first_eq
    cases first with
    | nil => exact represents
    | cons other first =>
        rw [List.cons_append, List.head?_cons, Option.some_inj] at first_eq
        exact absurd (first_eq ▸ List.mem_cons_self) before
  next =>
    have nodup : (first ++ second).Nodup := (List.nodup_cons.mp (List.nodup_middle.mp distinct)).2
    constructor
    · exact chain_linkBefore (chain_unlink represents.chain distinct) nodup outside
    · exact List.nodup_cons.mpr ⟨outside, nodup⟩
    · show ring.size = _
      rw [represents.size, List.length_append, List.length_cons, List.length_cons,
        List.length_append, Nat.add_assoc]

end Operations

end LinkedRing
