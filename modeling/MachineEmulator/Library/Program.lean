/-
This file gives the programs that call an interface and the rules that compare two
implementations of the interface.
-/

import Mathlib.Tactic

namespace Effects

/-- A program returns, fails, or calls one operation and continues with its answer. -/
inductive Program (Op : Type) (Answer : Op → Type) (Failure Result : Type) where
  | pure (result : Result)
  | throw (failure : Failure)
  | call (op : Op) (next : Answer op → Program Op Answer Failure Result)

namespace Program

variable {Op : Type} {Answer : Op → Type} {Failure A B C : Type}

def bind : Program Op Answer Failure A → (A → Program Op Answer Failure B) →
    Program Op Answer Failure B
  | .pure result, next => next result
  | .throw failure, _ => .throw failure
  | .call op rest, next => .call op fun answer => (rest answer).bind next

instance : Monad (Program Op Answer Failure) where
  pure := .pure
  bind := bind

/-- One operation is the program that returns its answer. -/
def perform (op : Op) : Program Op Answer Failure (Answer op) := .call op .pure

@[simp] theorem bind_pure_left (result : A) (next : A → Program Op Answer Failure B) :
    (Pure.pure result >>= next : Program Op Answer Failure B) = next result := rfl

@[simp] theorem bind_throw (failure : Failure) (next : A → Program Op Answer Failure B) :
    ((.throw failure : Program Op Answer Failure A) >>= next) = .throw failure := rfl

@[simp] theorem bind_call (op : Op) (rest : Answer op → Program Op Answer Failure A)
    (next : A → Program Op Answer Failure B) :
    (Program.call op rest >>= next) = .call op fun answer => rest answer >>= next := rfl

theorem bind_assoc (program : Program Op Answer Failure A) (first : A → Program Op Answer Failure B)
    (second : B → Program Op Answer Failure C) :
    (program >>= first >>= second) = program >>= fun result => first result >>= second := by
  induction program with
  | pure result => rfl
  | throw failure => rfl
  | call op rest ih =>
      rw [bind_call, bind_call, bind_call]
      congr 1
      funext answer
      exact ih answer

end Program

/-- An implementation answers each operation and moves its own state, or fails. -/
def Handler (Op : Type) (Answer : Op → Type) (Failure State : Type) :=
  (op : Op) → State → Except Failure (Answer op × State)

section Run

variable {Op : Type} {Answer : Op → Type} {Failure State A B : Type}

/-- Running a program threads the state through its calls and stops at the first failure. -/
def Program.run (handler : Handler Op Answer Failure State) :
    Program Op Answer Failure A → State → Except Failure (A × State)
  | .pure result, state => .ok (result, state)
  | .throw failure, _ => .error failure
  | .call op next, state =>
      match handler op state with
      | .ok (answer, moved) => (next answer).run handler moved
      | .error failure => .error failure

variable (handler : Handler Op Answer Failure State)

@[simp] theorem Program.run_pure (result : A) (state : State) :
    (Pure.pure result : Program Op Answer Failure A).run handler state = .ok (result, state) := rfl

@[simp] theorem Program.run_throw (failure : Failure) (state : State) :
    (Program.throw failure : Program Op Answer Failure A).run handler state = .error failure := rfl

theorem Program.run_call (op : Op) (next : Answer op → Program Op Answer Failure A)
    (state : State) :
    (Program.call op next).run handler state =
      match handler op state with
      | .ok (answer, moved) => (next answer).run handler moved
      | .error failure => .error failure := by
  rw [Program.run]

@[simp] theorem Program.run_perform (op : Op) (state : State) :
    (Program.perform op : Program Op Answer Failure (Answer op)).run handler state =
      handler op state := by
  simp only [perform, run_call]
  cases handler op state with
  | ok answered => rfl
  | error failure => rfl

theorem Program.run_bind (program : Program Op Answer Failure A)
    (next : A → Program Op Answer Failure B) (state : State) :
    (program >>= next).run handler state =
      match program.run handler state with
      | .ok (result, moved) => (next result).run handler moved
      | .error failure => .error failure := by
  induction program generalizing state with
  | pure result => rfl
  | throw failure => rfl
  | call op rest ih =>
      rw [bind_call, run_call, run_call]
      cases handler op state with
      | ok answered => exact ih answered.1 answered.2
      | error failure => rfl

/-- A sequence succeeds when its first part does and the rest does from where it stopped. -/
theorem Program.run_bind_ok {program : Program Op Answer Failure A}
    {next : A → Program Op Answer Failure B} {state final : State} {result : B} :
    (program >>= next).run handler state = .ok (result, final) ↔
      ∃ answer middle, program.run handler state = .ok (answer, middle) ∧
        (next answer).run handler middle = .ok (result, final) := by
  rw [run_bind]
  cases program.run handler state with
  | ok outcome =>
      obtain ⟨answer, middle⟩ := outcome
      simp
  | error failure => simp

end Run

section Calls

variable {Op : Type} {Answer : Op → Type} {Failure A B : Type}

/-- Every call that some answers can lead to is a permitted one. -/
def Program.Calls (permitted : Op → Prop) : Program Op Answer Failure A → Prop
  | .pure _ => True
  | .throw _ => True
  | .call op next => permitted op ∧ ∀ answer, (next answer).Calls permitted

/-- At most one call on each path is not a permitted one. -/
def Program.CallsOnce (permitted : Op → Prop) : Program Op Answer Failure A → Prop
  | .pure _ => True
  | .throw _ => True
  | .call op next =>
      (permitted op ∧ ∀ answer, (next answer).CallsOnce permitted) ∨
        ∀ answer, (next answer).Calls permitted

variable {permitted : Op → Prop}

theorem Program.Calls.pure (result : A) :
    (Pure.pure result : Program Op Answer Failure A).Calls permitted := trivial

theorem Program.Calls.throw (failure : Failure) :
    (Program.throw failure : Program Op Answer Failure A).Calls permitted := trivial

theorem Program.Calls.perform {op : Op} (allowed : permitted op) :
    (Program.perform op : Program Op Answer Failure (Answer op)).Calls permitted :=
  ⟨allowed, fun _ => trivial⟩

theorem Program.Calls.bind {program : Program Op Answer Failure A}
    {next : A → Program Op Answer Failure B} (first : program.Calls permitted)
    (rest : ∀ result, (next result).Calls permitted) : (program >>= next).Calls permitted := by
  induction program with
  | pure result => exact rest result
  | throw failure => trivial
  | call op continuation ih => exact ⟨first.1, fun answer => ih answer (first.2 answer)⟩

theorem Program.Calls.mono {program : Program Op Answer Failure A} {wider : Op → Prop}
    (calls : program.Calls permitted) (weaker : ∀ op, permitted op → wider op) :
    program.Calls wider := by
  induction program with
  | pure result => trivial
  | throw failure => trivial
  | call op next ih => exact ⟨weaker op calls.1, fun answer => ih answer (calls.2 answer)⟩

/-- Nothing restricts the calls of a program that may make all of them. -/
theorem Program.Calls.any (program : Program Op Answer Failure A) :
    program.Calls fun _ => True := by
  induction program with
  | pure result => trivial
  | throw failure => trivial
  | call op next ih => exact ⟨trivial, ih⟩

theorem Program.Calls.once {program : Program Op Answer Failure A}
    (calls : program.Calls permitted) : program.CallsOnce permitted := by
  induction program with
  | pure result => trivial
  | throw failure => trivial
  | call op next ih => exact Or.inl ⟨calls.1, fun answer => ih answer (calls.2 answer)⟩

theorem Program.CallsOnce.perform (op : Op) :
    (Program.perform op : Program Op Answer Failure (Answer op)).CallsOnce permitted :=
  Or.inr fun _ => trivial

/-- The exceptional call may stand in the second part. -/
theorem Program.Calls.bindOnce {program : Program Op Answer Failure A}
    {next : A → Program Op Answer Failure B} (first : program.Calls permitted)
    (rest : ∀ result, (next result).CallsOnce permitted) :
    (program >>= next).CallsOnce permitted := by
  induction program with
  | pure result => exact rest result
  | throw failure => trivial
  | call op continuation ih => exact Or.inl ⟨first.1, fun answer => ih answer (first.2 answer)⟩

/-- The exceptional call may stand in the first part. -/
theorem Program.CallsOnce.bind {program : Program Op Answer Failure A}
    {next : A → Program Op Answer Failure B} (first : program.CallsOnce permitted)
    (rest : ∀ result, (next result).Calls permitted) : (program >>= next).CallsOnce permitted := by
  induction program with
  | pure result => exact (rest result).once
  | throw failure => trivial
  | call op continuation ih =>
      rcases first with ⟨allowed, later⟩ | later
      · exact Or.inl ⟨allowed, fun answer => ih answer (later answer)⟩
      · exact Or.inr fun answer => (later answer).bind rest

end Calls

section Simulation

variable {Op : Type} {Answer : Op → Type} {Failure Left Right A : Type}

/-- Each successful permitted call on the left is matched by a right call with the same answer. -/
def Simulates (permitted : Op → Prop) (left : Handler Op Answer Failure Left)
    (right : Handler Op Answer Failure Right) (related : Left → Right → Prop) : Prop :=
  ∀ op leftState rightState answer leftNext, permitted op → related leftState rightState →
    left op leftState = .ok (answer, leftNext) →
    ∃ rightNext, right op rightState = .ok (answer, rightNext) ∧ related leftNext rightNext

/-- A simulation of the calls is a simulation of every program. -/
theorem Simulates.run {permitted : Op → Prop} {left : Handler Op Answer Failure Left}
    {right : Handler Op Answer Failure Right} {related : Left → Right → Prop}
    (simulates : Simulates permitted left right related) {program : Program Op Answer Failure A}
    (calls : program.Calls permitted) {leftState leftNext : Left} {rightState : Right} {result : A}
    (start : related leftState rightState)
    (ran : program.run left leftState = .ok (result, leftNext)) :
    ∃ rightNext, program.run right rightState = .ok (result, rightNext) ∧
      related leftNext rightNext := by
  induction program generalizing leftState rightState with
  | pure value =>
      cases ran
      exact ⟨rightState, rfl, start⟩
  | throw failure => cases ran
  | call op next ih =>
      rw [Program.run_call] at ran
      cases called : left op leftState with
      | error failure => simp [called] at ran
      | ok answered =>
          obtain ⟨answer, middle⟩ := answered
          rw [called] at ran
          obtain ⟨rightMiddle, answered, moved⟩ :=
            simulates op leftState rightState answer middle calls.1 start called
          obtain ⟨rightNext, finished, reached⟩ := ih answer (calls.2 answer) moved ran
          refine ⟨rightNext, ?_, reached⟩
          rw [Program.run_call, answered]
          exact finished

/-- A property of the state that each permitted call keeps holds after every run. -/
theorem Program.run_invariant {permitted : Op → Prop} {handler : Handler Op Answer Failure Left}
    (invariant : Left → Prop)
    (kept : ∀ op state answer next, permitted op → invariant state →
      handler op state = .ok (answer, next) → invariant next)
    {program : Program Op Answer Failure A} (calls : program.Calls permitted)
    {state next : Left} {result : A} (start : invariant state)
    (ran : program.run handler state = .ok (result, next)) : invariant next := by
  induction program generalizing state with
  | pure value =>
      cases ran
      exact start
  | throw failure => cases ran
  | call op rest ih =>
      rw [Program.run_call] at ran
      cases called : handler op state with
      | error failure => simp [called] at ran
      | ok answered =>
          rw [called] at ran
          exact ih answered.1 (calls.2 answered.1)
            (kept op state answered.1 answered.2 calls.1 start called) ran

/-- A run with one exceptional call keeps a property or falls into another one that later calls keep. -/
theorem Program.run_either {permitted exceptional : Op → Prop}
    {handler : Handler Op Answer Failure Left} (before after : Left → Prop)
    (kept : ∀ op state answer next, permitted op → before state →
      handler op state = .ok (answer, next) → before next)
    (kept' : ∀ op state answer next, permitted op → after state →
      handler op state = .ok (answer, next) → after next)
    (falls : ∀ op state answer next, exceptional op → before state →
      handler op state = .ok (answer, next) → before next ∨ after next)
    {program : Program Op Answer Failure A} (once : program.CallsOnce permitted)
    (calls : program.Calls exceptional) {state next : Left} {result : A} (start : before state)
    (ran : program.run handler state = .ok (result, next)) : before next ∨ after next := by
  induction program generalizing state with
  | pure value =>
      cases ran
      exact Or.inl start
  | throw failure => cases ran
  | call op rest ih =>
      rw [Program.run_call] at ran
      cases called : handler op state with
      | error failure => simp [called] at ran
      | ok answered =>
          rw [called] at ran
          rcases once with ⟨allowed, later⟩ | later
          · exact ih answered.1 (later answered.1) (calls.2 answered.1)
              (kept op state answered.1 answered.2 allowed start called) ran
          · rcases falls op state answered.1 answered.2 calls.1 start called with fine | fallen
            · exact Or.inl (Program.run_invariant before kept (later answered.1) fine ran)
            · exact Or.inr (Program.run_invariant after kept' (later answered.1) fallen ran)

end Simulation

section Recording

variable {Op : Type} {Answer : Op → Type} {Failure State Entry Context A : Type}

/-- Each permitted call appends to a log the entries with which a replay gives the same answer. The
relation says that a context stands before a state with the rest of a log to come. -/
def Records (permitted : Op → Prop) (direct : Handler Op Answer Failure State)
    (record : Handler Op Answer Failure (State × List Entry))
    (replay : Handler Op Answer Failure Context)
    (stands : State → List Entry → Context → Prop) : Prop :=
  ∀ op state answer next, permitted op → direct op state = .ok (answer, next) →
    ∃ entries, (∀ log, record op (state, log) = .ok (answer, next, log ++ entries)) ∧
      ∀ rest context, stands state (entries ++ rest) context →
        ∃ moved, replay op context = .ok (answer, moved) ∧ stands next rest moved

/-- The log of a whole program leads a replay through the program. -/
theorem Records.run {permitted : Op → Prop} {direct : Handler Op Answer Failure State}
    {record : Handler Op Answer Failure (State × List Entry)}
    {replay : Handler Op Answer Failure Context} {stands : State → List Entry → Context → Prop}
    (records : Records permitted direct record replay stands)
    {program : Program Op Answer Failure A} (calls : program.Calls permitted) {state next : State}
    {result : A} (ran : program.run direct state = .ok (result, next)) :
    ∃ entries, (∀ log, program.run record (state, log) = .ok (result, next, log ++ entries)) ∧
      ∀ rest context, stands state (entries ++ rest) context →
        ∃ moved, program.run replay context = .ok (result, moved) ∧ stands next rest moved := by
  induction program generalizing state with
  | pure value =>
      cases ran
      refine ⟨[], fun log => ?_, fun rest context there => ⟨context, rfl, there⟩⟩
      rw [List.append_nil]
      rfl
  | throw failure => cases ran
  | call op tail ih =>
      rw [Program.run_call] at ran
      cases called : direct op state with
      | error failure => simp [called] at ran
      | ok answered =>
          obtain ⟨answer, middle⟩ := answered
          rw [called] at ran
          obtain ⟨first, recorded, replayed⟩ := records op state answer middle calls.1 called
          obtain ⟨second, recordedTail, replayedTail⟩ := ih answer (calls.2 answer) ran
          refine ⟨first ++ second, fun log => ?_, fun rest context there => ?_⟩
          · rw [Program.run_call, recorded log, ← List.append_assoc]
            exact recordedTail (log ++ first)
          · rw [List.append_assoc] at there
            obtain ⟨moved, answers, stands⟩ := replayed (second ++ rest) context there
            obtain ⟨finish, finishes, standsLast⟩ := replayedTail rest moved stands
            refine ⟨finish, ?_, standsLast⟩
            rw [Program.run_call, answers]
            exact finishes

end Recording

end Effects
