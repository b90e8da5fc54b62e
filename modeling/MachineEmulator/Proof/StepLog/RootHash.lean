/-
This file shows which part of the hash tree the verifier of a step log rebuilds.
-/

import MachineEmulator.Construction.StepLog.Replay
import MachineEmulator.Library.MerkleSketch

namespace MachineEmulator.StepLog

variable {Hash : Type} {hasher : Hasher Hash}

/-- The number of a logged page. -/
def PageType.number (page : PageType Hash) : Nat := page.index.toNat

def numbers (pages : List (PageType Hash)) : List Nat := pages.map PageType.number

section Walk

variable {unvisited after : Unvisited Hash} {page : PageType Hash} {rest : List (PageType Hash)}

theorem computeRootHashImpl_nil (level pageIndex : Nat) (empty : unvisited.pages = []) :
    computeRootHashImpl hasher level pageIndex unvisited = nextSibling unvisited := by
  rw [computeRootHashImpl, empty]

theorem computeRootHashImpl_leaf (index : Nat) (found : unvisited.pages = page :: rest) :
    computeRootHashImpl hasher 0 (index * 2 ^ 0) unvisited =
      if page.number = index then .ok (page.hash, { unvisited with pages := rest })
      else nextSibling unvisited := by
  rw [computeRootHashImpl, found, pow_zero, mul_one]
  unfold PageType.number
  by_cases beyond : index + 1 ≤ page.index.toNat
  · have away : ¬ page.index.toNat = index := by omega
    simp only [beyond, away, if_true, if_false]
  · simp only [beyond, if_false]

theorem computeRootHashImpl_node (level index : Nat) (found : unvisited.pages = page :: rest) :
    computeRootHashImpl hasher (level + 1) (index * 2 ^ (level + 1)) unvisited =
      if (index + 1) * 2 ^ (level + 1) ≤ page.number then nextSibling unvisited
      else do
        let (left, middle) ← computeRootHashImpl hasher level (2 * index * 2 ^ level) unvisited
        let (right, last) ← computeRootHashImpl hasher level ((2 * index + 1) * 2 ^ level) middle
        return (hasher.concatHash left right, last) := by
  have total : 2 * index * 2 ^ level + 2 ^ (level + 1) = (index + 1) * 2 ^ (level + 1) := by ring
  have first : index * 2 ^ (level + 1) = 2 * index * 2 ^ level := by ring
  have half : 2 ^ (level + 1) / 2 = 2 ^ level := by
    rw [pow_succ]
    omega
  have second : 2 * index * 2 ^ level + 2 ^ level = (2 * index + 1) * 2 ^ level := by ring
  rw [computeRootHashImpl, found]
  simp only [total, half, first, second]
  rfl

/-- A plan accounts for the hash of a walk and for what the walk leaves unvisited. -/
def Accounts (hasher : Hasher Hash) (values : Nat → Hash) (level index : Nat)
    (unvisited after : Unvisited Hash) (hash : Hash)
    (planned : Option (Merkle.Sketch Hash level × List Nat × List Hash)) : Prop :=
  ∃ sketch : Merkle.Sketch Hash level,
    planned = some (sketch, numbers after.pages, after.siblings) ∧
    sketch.hash hasher.concatHash values index = hash ∧
    ∀ page ∈ after.pages, page ∈ unvisited.pages

theorem nextSibling_accounts (values : Nat → Hash) (level index : Nat) {hash : Hash}
    (taken : nextSibling unvisited = .ok (hash, after)) :
    Accounts hasher values level index unvisited after hash
      (Merkle.takeSibling (numbers unvisited.pages) unvisited.siblings) := by
  unfold nextSibling at taken
  split at taken
  · cases taken
  · next found =>
      cases taken
      rw [found]
      exact ⟨.sibling _, rfl, rfl, fun _ member => member⟩

theorem nextSibling_of_plan {values : Nat → Hash} {level : Nat} {sketch : Merkle.Sketch Hash level}
    {pages : List (PageType Hash)} {remaining : List Nat} {others : List Hash}
    (found : unvisited.pages = pages)
    (planned : Merkle.takeSibling (numbers pages) unvisited.siblings =
      some (sketch, remaining, others)) (index : Nat) :
    ∃ left, nextSibling unvisited =
        .ok (sketch.hash hasher.concatHash values index, ⟨left, others⟩) ∧
      numbers left = remaining ∧ ∀ page ∈ left, page ∈ pages := by
  unfold nextSibling
  cases siblings : unvisited.siblings with
  | nil =>
      rw [siblings] at planned
      cases planned
  | cons hash rest =>
      rw [siblings] at planned
      cases planned
      exact ⟨unvisited.pages, rfl, by rw [found], fun page member => by rw [← found]; exact member⟩

/-- The walk of the verifier is the walk that the page numbers and the sibling hashes plan. -/
theorem computeRootHashImpl_accounts {values : Nat → Hash} {level index : Nat} {hash : Hash}
    (named : ∀ page ∈ unvisited.pages, values page.number = page.hash)
    (computed : computeRootHashImpl hasher level (index * 2 ^ level) unvisited = .ok (hash, after)) :
    Accounts hasher values level index unvisited after hash
      (Merkle.plan level index (numbers unvisited.pages) unvisited.siblings) := by
  induction level generalizing index unvisited after hash with
  | zero =>
      cases found : unvisited.pages with
      | nil =>
          rw [computeRootHashImpl_nil _ _ found] at computed
          have accounts := @nextSibling_accounts Hash hasher _ _ values 0 index _ computed
          rw [found] at accounts
          exact accounts
      | cons page rest =>
          rw [computeRootHashImpl_leaf index found] at computed
          rw [numbers, List.map_cons, Merkle.plan]
          split at computed
          · next here =>
              cases computed
              rw [if_pos here]
              refine ⟨.leaf, rfl, ?_, ?_⟩
              · rw [Merkle.Sketch.hash, ← here]
                apply named page
                rw [found]
                exact List.mem_cons_self
              · intro other member
                rw [found]
                exact List.mem_cons_of_mem _ member
          · next away =>
              have accounts := @nextSibling_accounts Hash hasher _ _ values 0 index _ computed
              rw [if_neg away]
              rw [found] at accounts
              exact accounts
  | succ level ih =>
      cases found : unvisited.pages with
      | nil =>
          rw [computeRootHashImpl_nil _ _ found] at computed
          have accounts := @nextSibling_accounts Hash hasher _ _ values (level + 1) index _ computed
          rw [found] at accounts
          exact accounts
      | cons page rest =>
          rw [computeRootHashImpl_node level index found] at computed
          rw [numbers, List.map_cons, Merkle.plan, ← List.map_cons, ← found, ← numbers]
          split at computed
          · next beyond =>
              rw [if_pos beyond]
              exact nextSibling_accounts values (level + 1) index computed
          · next within =>
              rw [if_neg within]
              obtain ⟨⟨left, middle⟩, leftComputed, computed⟩ := bind_ok.mp computed
              obtain ⟨⟨right, last⟩, rightComputed, computed⟩ := bind_ok.mp computed
              cases computed
              obtain ⟨leftSketch, leftPlanned, leftHash, leftKept⟩ := ih named leftComputed
              obtain ⟨rightSketch, rightPlanned, rightHash, rightKept⟩ :=
                ih (fun page member => named page (leftKept page member)) rightComputed
              refine ⟨.node leftSketch rightSketch, ?_, ?_, ?_⟩
              · rw [leftPlanned]
                show Option.bind (Merkle.plan level (2 * index + 1) _ _) _ = _
                rw [rightPlanned]
                rfl
              · rw [Merkle.Sketch.hash, leftHash, rightHash]
              · intro page member
                exact leftKept page (rightKept page member)

/-- A planned walk of the verifier succeeds with the hash of its sketch. -/
theorem computeRootHashImpl_of_plan {values : Nat → Hash} {level index : Nat}
    {sketch : Merkle.Sketch Hash level} {remaining : List Nat} {others : List Hash}
    (named : ∀ page ∈ unvisited.pages, values page.number = page.hash)
    (planned : Merkle.plan level index (numbers unvisited.pages) unvisited.siblings =
      some (sketch, remaining, others)) :
    ∃ pages, computeRootHashImpl hasher level (index * 2 ^ level) unvisited =
        .ok (sketch.hash hasher.concatHash values index, ⟨pages, others⟩) ∧
      numbers pages = remaining ∧ ∀ page ∈ pages, page ∈ unvisited.pages := by
  induction level generalizing index unvisited remaining others with
  | zero =>
      cases found : unvisited.pages with
      | nil =>
          rw [found] at planned
          rw [computeRootHashImpl_nil _ _ found]
          exact nextSibling_of_plan found planned index
      | cons page rest =>
          rw [computeRootHashImpl_leaf index found]
          rw [found, numbers, List.map_cons, Merkle.plan] at planned
          split at planned
          · next here =>
              cases planned
              refine ⟨rest, ?_, rfl, fun other member => List.mem_cons_of_mem _ member⟩
              rw [if_pos here, Merkle.Sketch.hash, ← here, named page (by rw [found]; exact List.mem_cons_self)]
          · next away =>
              rw [if_neg away]
              exact nextSibling_of_plan found planned index
  | succ level ih =>
      cases found : unvisited.pages with
      | nil =>
          rw [found] at planned
          rw [computeRootHashImpl_nil _ _ found]
          exact nextSibling_of_plan found planned index
      | cons page rest =>
          rw [computeRootHashImpl_node level index found]
          rw [found, numbers, List.map_cons, Merkle.plan] at planned
          split at planned
          · next beyond =>
              rw [if_pos beyond]
              exact nextSibling_of_plan found planned index
          · next within =>
              rw [← List.map_cons, ← found] at planned
              obtain ⟨⟨left, middle, between⟩, leftPlanned, planned⟩ :=
                Option.bind_eq_some_iff.mp planned
              obtain ⟨⟨right, last, behind⟩, rightPlanned, planned⟩ :=
                Option.bind_eq_some_iff.mp planned
              cases planned
              obtain ⟨leftPages, leftComputed, rfl, leftKept⟩ := ih named leftPlanned
              obtain ⟨rightPages, rightComputed, rightNumbers, rightKept⟩ :=
                @ih ⟨leftPages, between⟩ (2 * index + 1) right _ _
                  (fun page member => named page (leftKept page member)) rightPlanned
              refine ⟨rightPages, ?_, rightNumbers, fun other member => ?_⟩
              · rw [if_neg within]
                exact bind_ok.mpr ⟨_, leftComputed, bind_ok.mpr ⟨_, rightComputed, rfl⟩⟩
              · rw [← found]
                exact leftKept other (rightKept other member)

end Walk

section Pages

/-- The pages of a log come in increasing order and are whole. -/
structure Ordered (pages : List (PageType Hash)) : Prop where
  increasing : (numbers pages).Pairwise (· < ·)
  whole : ∀ page ∈ pages, page.data.length = arPageSize

/-- The page with a number. -/
def pageWith (pages : List (PageType Hash)) (number : Nat) : Option (PageType Hash) :=
  pages.find? fun page => page.number = number

theorem pageWith_of_mem {pages : List (PageType Hash)} {page : PageType Hash}
    (increasing : (numbers pages).Pairwise (· < ·)) (member : page ∈ pages) :
    pageWith pages page.number = some page := by
  induction pages with
  | nil => cases member
  | cons first rest ih =>
      rw [numbers, List.map_cons, List.pairwise_cons] at increasing
      rw [pageWith, List.find?_cons]
      rcases List.mem_cons.mp member with same | later
      · simp [same]
      · have below := increasing.1 page.number (List.mem_map_of_mem later)
        have other : first.number ≠ page.number := by omega
        simp only [other, decide_false]
        exact ih increasing.2 later

theorem pageWith_mem {pages : List (PageType Hash)} {page : PageType Hash} {number : Nat}
    (found : pageWith pages number = some page) : page ∈ pages ∧ page.number = number :=
  ⟨List.mem_of_find?_eq_some found, by simpa using List.find?_some found⟩

theorem pageWith_eq_none {pages : List (PageType Hash)} {number : Nat}
    (absent : number ∉ numbers pages) : pageWith pages number = none := by
  apply List.find?_eq_none.mpr
  intro page member
  simp only [decide_eq_true_eq]
  intro same
  exact absent (same ▸ List.mem_map_of_mem member)

/-- The hashes of the pages, and another hash where there is none. -/
def hashWith (pages : List (PageType Hash)) (other : Hash) (number : Nat) : Hash :=
  match pageWith pages number with
  | some page => page.hash
  | none => other

theorem hashWith_of_mem {pages : List (PageType Hash)} {other : Hash}
    (increasing : (numbers pages).Pairwise (· < ·)) :
    ∀ page ∈ pages, hashWith pages other page.number = page.hash := by
  intro page member
  rw [hashWith, pageWith_of_mem increasing member]

/-- The same page with the hash of its data. -/
def Hashed (hasher : Hasher Hash) (page hashed : PageType Hash) : Prop :=
  hashed.index = page.index ∧ hashed.data = page.data ∧
    hasher.getMerkleTreeHash page.data = some hashed.hash

theorem mapM_hashPage {pages hashed : List (PageType Hash)}
    (done : pages.mapM (hashPage hasher) = .ok hashed) :
    List.Forall₂ (Hashed hasher) pages hashed := by
  induction pages generalizing hashed with
  | nil =>
      cases done
      exact .nil
  | cons page rest ih =>
      rw [List.mapM_cons] at done
      obtain ⟨first, firstDone, done⟩ := bind_ok.mp done
      obtain ⟨others, restDone, done⟩ := bind_ok.mp done
      cases done
      have hashes : Hashed hasher page first := by
        unfold hashPage at firstDone
        split at firstDone
        · next found =>
            cases firstDone
            exact ⟨rfl, rfl, found⟩
        · cases firstDone
      exact .cons hashes (ih restDone)

/-- What the index and the data of a page determine stays as it is. -/
theorem map_hashed {A : Type} {field : PageType Hash → A}
    (kept : ∀ page hashed, Hashed hasher page hashed → field hashed = field page)
    {pages hashed : List (PageType Hash)} (done : List.Forall₂ (Hashed hasher) pages hashed) :
    hashed.map field = pages.map field := by
  induction done with
  | nil => rfl
  | cons hashes _ ih => rw [List.map_cons, List.map_cons, kept _ _ hashes, ih]

theorem numbers_hashed {pages hashed : List (PageType Hash)}
    (done : List.Forall₂ (Hashed hasher) pages hashed) : numbers hashed = numbers pages :=
  map_hashed (fun _ _ hashes => congrArg BitVec.toNat hashes.1) done

end Pages

section RootHash

variable {hashers : HashFunctionType → Hasher Hash}

/-- The root hash of a log is the hash of the sketch that the log plans, with the hashes of the
pages at the open leaves. -/
theorem computeRootHash_sketch {context after : Context Hash} {rootHash : Hash}
    (increasing : (numbers context.pages).Pairwise (· < ·))
    (computed : computeRootHash hashers context = .ok (rootHash, after)) :
    ∃ sketch : Merkle.Sketch Hash 52,
      Merkle.plan 52 0 (numbers context.pages) context.siblingHashes = some (sketch, [], []) ∧
      ∃ values : Nat → Hash,
        sketch.hash (hashers context.hashFunction).concatHash values 0 = rootHash ∧
        List.Forall₂ (Hashed (hashers context.hashFunction)) context.pages after.pages ∧
        (∀ page ∈ after.pages, values page.number = page.hash) ∧
        after = { context with pages := after.pages } := by
  obtain ⟨hashed, hashedDone, computed⟩ := bind_ok.mp computed
  obtain ⟨⟨hash, unvisited⟩, walked, computed⟩ := bind_ok.mp computed
  obtain ⟨_, noPages, computed⟩ := bind_ok.mp computed
  obtain ⟨_, noSiblings, computed⟩ := bind_ok.mp computed
  cases computed
  have pairs := mapM_hashPage hashedDone
  have same := numbers_hashed pairs
  have named : ∀ page ∈ hashed, hashWith hashed rootHash page.number = page.hash :=
    hashWith_of_mem (same ▸ increasing)
  have start : (0 : Nat) = 0 * 2 ^ 52 := rfl
  rw [start] at walked
  obtain ⟨sketch, planned, reached, _⟩ := computeRootHashImpl_accounts named walked
  have pagesEmpty : unvisited.pages = [] := List.isEmpty_iff.mp (check_ok.mp noPages)
  have siblingsEmpty : unvisited.siblings = [] := List.isEmpty_iff.mp (check_ok.mp noSiblings)
  rw [pagesEmpty, siblingsEmpty, same] at planned
  exact ⟨sketch, planned, hashWith hashed rootHash, reached, pairs, named, rfl⟩

/-- The data of a whole number of tree words has a hash. -/
theorem exists_getMerkleTreeHash {level : Nat} {data : List Byte}
    (size : data.length = 32 * 2 ^ level) :
    ∃ hash, hasher.getMerkleTreeHash data = some hash := by
  have hashed := hasher.getMerkleTreeHash_eq level data size
    (fun position => hasher.hash ((data.drop (32 * position)).take 32)) 0
  exact ⟨_, hashed fun position _ => by rw [Nat.zero_mul, Nat.zero_add]⟩

theorem exists_mapM_hashPage {pages : List (PageType Hash)}
    (whole : ∀ page ∈ pages, page.data.length = arPageSize) :
    ∃ hashed, pages.mapM (hashPage hasher) = .ok hashed := by
  induction pages with
  | nil => exact ⟨[], rfl⟩
  | cons page rest ih =>
      obtain ⟨others, restDone⟩ := ih fun other member => whole other (List.mem_cons_of_mem _ member)
      obtain ⟨hash, hashed⟩ := @exists_getMerkleTreeHash Hash hasher 7 page.data
        (whole page List.mem_cons_self)
      have firstDone : hashPage hasher page = .ok { page with hash := hash } := by
        rw [hashPage, hashed]
      rw [List.mapM_cons]
      exact ⟨_, bind_ok.mpr ⟨_, firstDone, bind_ok.mpr ⟨_, restDone, rfl⟩⟩⟩

/-- A log that plans a sketch of the whole tree has a root hash. -/
theorem computeRootHash_of_plan {context : Context Hash} (ordered : Ordered context.pages)
    {sketch : Merkle.Sketch Hash 52}
    (planned : Merkle.plan 52 0 (numbers context.pages) context.siblingHashes =
      some (sketch, [], [])) :
    ∃ rootHash after, computeRootHash hashers context = .ok (rootHash, after) := by
  obtain ⟨hashed, done⟩ := @exists_mapM_hashPage Hash (hashers context.hashFunction) _ ordered.whole
  have same := numbers_hashed (mapM_hashPage done)
  let values := hashWith hashed ((hashers context.hashFunction).hash [])
  have named : ∀ page ∈ hashed, values page.number = page.hash :=
    hashWith_of_mem (same ▸ ordered.increasing)
  rw [← same] at planned
  obtain ⟨pages, walked, empty, _⟩ := @computeRootHashImpl_of_plan Hash
    (hashers context.hashFunction) ⟨hashed, context.siblingHashes⟩ values 52 0 _ _ _ named planned
  have none : pages = [] := List.map_eq_nil_iff.mp empty
  subst none
  refine ⟨sketch.hash (hashers context.hashFunction).concatHash values 0,
    { context with pages := hashed },
    bind_ok.mpr ⟨hashed, done, bind_ok.mpr ⟨_, walked, ?_⟩⟩⟩
  exact bind_ok.mpr ⟨(), check_pos rfl, bind_ok.mpr ⟨(), check_pos rfl, rfl⟩⟩

end RootHash

end MachineEmulator.StepLog
