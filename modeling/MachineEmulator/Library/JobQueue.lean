/-
This file gives queues of jobs that each compute one cell of a memory. The jobs run in groups, and
the lanes of a group read the memory before any of them writes.
-/

import Mathlib.Tactic

namespace JobQueue

section Jobs

variable {Address Value : Type}

/-- A job computes the value of its target from a memory. -/
structure Job (Address Value : Type) where
  target : Address
  value : (Address → Value) → Value

/-- The jobs do not read the targets of each other, and jobs with one target agree. -/
structure Independent (jobs : List (Job Address Value)) : Prop where
  reads : ∀ job ∈ jobs, ∀ first second : Address → Value,
    (∀ address, (∀ other ∈ jobs, other.target ≠ address) → first address = second address) →
      job.value first = job.value second
  agree : ∀ job ∈ jobs, ∀ other ∈ jobs, job.target = other.target → job.value = other.value

/-- Every target holds the value of its job, and the rest of the memory is unchanged. -/
structure Done (jobs : List (Job Address Value)) (memory result : Address → Value) : Prop where
  computed : ∀ job ∈ jobs, result job.target = job.value memory
  kept : ∀ address, (∀ job ∈ jobs, job.target ≠ address) → result address = memory address

theorem Independent.subset {jobs fewer : List (Job Address Value)} (independent : Independent jobs)
    (inside : ∀ job ∈ fewer, job ∈ jobs) : Independent fewer where
  reads job member first second same := by
    apply independent.reads job (inside job member)
    intro address outside
    exact same address fun other fewer => outside other (inside other fewer)
  agree job member other second := independent.agree job (inside job member) other (inside other second)

theorem Done.nil (memory : Address → Value) : Done [] memory memory :=
  ⟨fun _ member => absurd member List.not_mem_nil, fun _ _ => rfl⟩

/-- Only one memory has all the jobs done. -/
theorem Done.unique {jobs : List (Job Address Value)} {memory first second : Address → Value}
    (left : Done jobs memory first) (right : Done jobs memory second) : first = second := by
  funext address
  by_cases inside : ∃ job ∈ jobs, job.target = address
  · obtain ⟨job, member, rfl⟩ := inside
    rw [left.computed job member, right.computed job member]
  · push Not at inside
    rw [left.kept address inside, right.kept address inside]

/-- Jobs that are done one part after the other are done. -/
theorem Done.append {first second : List (Job Address Value)}
    {memory middle result : Address → Value} (independent : Independent (first ++ second))
    (left : Done first memory middle) (right : Done second middle result) :
    Done (first ++ second) memory result := by
  have same : ∀ job ∈ first ++ second, job.value middle = job.value memory := by
    intro job member
    apply independent.reads job member
    intro address outside
    exact left.kept address fun other inside => outside other (List.mem_append_left _ inside)
  constructor
  · intro job member
    by_cases later : ∃ other ∈ second, other.target = job.target
    · obtain ⟨other, inside, target⟩ := later
      rw [← target, right.computed other inside,
        independent.agree other (List.mem_append_right _ inside) job member target]
      exact same job member
    · push Not at later
      rcases List.mem_append.mp member with inside | inside
      · rw [right.kept _ later, left.computed job inside]
      · exact absurd rfl (later job inside)
  · intro address outside
    rw [right.kept address fun job inside => outside job (List.mem_append_right _ inside),
      left.kept address fun job inside => outside job (List.mem_append_left _ inside)]

theorem Done.perm {first second : List (Job Address Value)} {memory result : Address → Value}
    (same : ∀ job, job ∈ first ↔ job ∈ second) (done : Done first memory result) :
    Done second memory result where
  computed job member := done.computed job ((same job).mpr member)
  kept address outside := done.kept address fun job member => outside job ((same job).mp member)

end Jobs

section Queue

variable {Address Value : Type} [DecidableEq Address]

/-- All jobs of a group read the memory from before the group. -/
def runGroup (memory : Address → Value) (jobs : List (Job Address Value)) : Address → Value :=
  jobs.foldl (fun current job => Function.update current job.target (job.value memory)) memory

/-- A queue runs from its end, in groups whose sizes depend on how many jobs are left. -/
def runFrom (lanes : Nat → Nat) : Nat → List (Job Address Value) → (Address → Value) →
    (Address → Value)
  | 0, _, memory => memory
  | rounds + 1, queue, memory =>
      if queue = [] then memory
      else
        runFrom lanes rounds (queue.take (queue.length - lanes queue.length))
          (runGroup memory (queue.drop (queue.length - lanes queue.length)))

def runAll (lanes : Nat → Nat) (queue : List (Job Address Value)) (memory : Address → Value) :
    Address → Value :=
  runFrom lanes queue.length queue memory

/-- A new job waits in the queue, and a queue that is long enough runs. -/
def enqueue (lanes : Nat → Nat) (optimal : Nat) (job : Job Address Value)
    (state : (Address → Value) × List (Job Address Value)) :
    (Address → Value) × List (Job Address Value) :=
  let queue := state.2 ++ [job]
  if optimal ≤ queue.length then (runAll lanes queue state.1, []) else (state.1, queue)

theorem runGroup_done {jobs : List (Job Address Value)} (independent : Independent jobs)
    (memory : Address → Value) : Done jobs memory (runGroup memory jobs) := by
  induction jobs using List.reverseRecOn with
  | nil => exact Done.nil memory
  | append_singleton jobs job ih =>
      have before := ih (independent.subset fun other member => List.mem_append_left _ member)
      have result : runGroup memory (jobs ++ [job]) =
          Function.update (runGroup memory jobs) job.target (job.value memory) := by
        rw [runGroup, List.foldl_append]
        rfl
      rw [result]
      constructor
      · intro other member
        by_cases same : other.target = job.target
        · rw [same, Function.update_self, independent.agree other member job (by simp) same]
        · rw [Function.update_of_ne same]
          rcases List.mem_append.mp member with inside | last
          · exact before.computed other inside
          · exact absurd (congrArg Job.target (List.mem_singleton.mp last)) same
      · intro address outside
        rw [Function.update_of_ne (outside job (by simp)).symm]
        exact before.kept address fun other inside => outside other (List.mem_append_left _ inside)

variable {lanes : Nat → Nat} (positive : ∀ count, 0 < count → 0 < lanes count)

include positive

/-- However the groups are formed, all jobs are done. -/
theorem runFrom_done {rounds : Nat} {queue : List (Job Address Value)}
    (independent : Independent queue) (enough : queue.length ≤ rounds) (memory : Address → Value) :
    Done queue memory (runFrom lanes rounds queue memory) := by
  induction rounds generalizing queue memory with
  | zero =>
      obtain rfl := List.length_eq_zero_iff.mp (Nat.le_zero.mp enough)
      exact Done.nil memory
  | succ rounds ih =>
      rw [runFrom]
      split
      · rename_i empty
        rw [empty]
        exact Done.nil memory
      · rename_i filled
        have group := positive queue.length (List.length_pos_iff.mpr filled)
        have filled' := List.length_pos_iff.mpr filled
        generalize cut : queue.length - lanes queue.length = count
        have parts : ∀ job, job ∈ queue.drop count ++ queue.take count ↔ job ∈ queue := by
          intro job
          rw [List.mem_append, or_comm, ← List.mem_append, List.take_append_drop]
        have together : Independent (queue.drop count ++ queue.take count) :=
          independent.subset fun job member => (parts job).mp member
        have last : Independent (queue.drop count) :=
          independent.subset fun job member => List.mem_of_mem_drop member
        have first : Independent (queue.take count) :=
          independent.subset fun job member => List.mem_of_mem_take member
        have shorter : (queue.take count).length ≤ rounds := by
          rw [List.length_take]
          omega
        have later := runGroup_done last memory
        have earlier := ih first shorter (runGroup memory (queue.drop count))
        exact (Done.append together later earlier).perm parts

theorem runAll_done {queue : List (Job Address Value)} (independent : Independent queue)
    (memory : Address → Value) : Done queue memory (runAll lanes queue memory) :=
  runFrom_done positive independent le_rfl memory

omit positive in
/-- A queue holds no other jobs than those that were put in. -/
theorem mem_enqueue {optimal : Nat} {memory : Address → Value} {queue : List (Job Address Value)}
    {job other : Job Address Value}
    (member : other ∈ (enqueue lanes optimal job (memory, queue)).2) : other ∈ queue ++ [job] := by
  rw [enqueue] at member
  split at member
  · exact absurd member List.not_mem_nil
  · exact member

/-- Whether the queue has run or not, the jobs that are left lead to the same memory. -/
theorem enqueue_done (optimal : Nat) {memory result : Address → Value}
    {queue more : List (Job Address Value)} {job : Job Address Value}
    (independent : Independent (queue ++ [job] ++ more))
    (done : Done (queue ++ [job] ++ more) memory result) :
    Done ((enqueue lanes optimal job (memory, queue)).2 ++ more)
      (enqueue lanes optimal job (memory, queue)).1 result := by
  rw [enqueue]
  split
  · have first : Independent (queue ++ [job]) :=
      independent.subset fun other member => List.mem_append_left _ member
    have second : Independent more :=
      independent.subset fun other member => List.mem_append_right _ member
    have left := runAll_done positive first memory
    have right := runAll_done positive second (runAll lanes (queue ++ [job]) memory)
    rw [done.unique (Done.append independent left right)]
    exact right
  · exact done

/-- Jobs that are queued and then run are done. -/
theorem enqueueAll_done (optimal : Nat) {jobs queue : List (Job Address Value)}
    {memory result : Address → Value} (independent : Independent (queue ++ jobs))
    (done : Done (queue ++ jobs) memory result) :
    let queued :=
      jobs.foldl (fun current job => enqueue lanes optimal job current) (memory, queue)
    runAll lanes queued.2 queued.1 = result := by
  induction jobs generalizing memory queue with
  | nil =>
      rw [List.append_nil] at independent done
      exact (runAll_done positive independent memory).unique done
  | cons job jobs ih =>
      have whole : queue ++ job :: jobs = queue ++ [job] ++ jobs := by simp
      rw [whole] at independent done
      apply ih
      · apply independent.subset
        intro other member
        rcases List.mem_append.mp member with before | after
        · exact List.mem_append_left _ (mem_enqueue before)
        · exact List.mem_append_right _ after
      · exact enqueue_done positive optimal independent done

end Queue

end JobQueue
