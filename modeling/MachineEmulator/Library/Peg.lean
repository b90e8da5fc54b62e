/-
This file gives parsing expressions with captures, and rules for what they read and what they leave.
-/

import Mathlib.Tactic

/-- An expression matches the front of a text or fails. A match has its value and the rest. -/
def Peg (S A : Type) : Type := List S → Option (A × List S)

namespace Peg

variable {S A B : Type}

instance : Monad (Peg S) where
  pure value := fun text => some (value, text)
  bind first next := fun text =>
    match first text with
    | some (value, rest) => next value rest
    | none => none

def fail : Peg S A := fun _ => none

/-- The second expression is tried where the first one fails. -/
def choice (first second : Peg S A) : Peg S A := fun text =>
  match first text with
  | some answer => some answer
  | none => second text

/-- One expression is tried after the other. -/
def choices (expressions : List (Peg S A)) : Peg S A := expressions.foldr choice fail

def optional (expression : Peg S A) : Peg S (Option A) := fun text =>
  match expression text with
  | some (value, rest) => some (some value, rest)
  | none => some (none, text)

/-- The expression is repeated as long as it matches, at most so many times. -/
def repeated (expression : Peg S A) : Nat → Peg S (List A)
  | 0 => fun text => some ([], text)
  | fuel + 1 => fun text =>
      match expression text with
      | some (value, rest) =>
          match repeated expression fuel rest with
          | some (values, last) => some (value :: values, last)
          | none => none
      | none => some ([], text)

/-- A match of something takes at least one symbol, so there are no more than the text has. -/
def many (expression : Peg S A) : Peg S (List A) := fun text =>
  repeated expression text.length text

/-- All symbols of a class in front. -/
def span (test : S → Bool) : Peg S (List S) := fun text =>
  some (text.takeWhile test, text.dropWhile test)

def item (test : S → Bool) : Peg S S
  | [] => none
  | symbol :: rest => if test symbol then some (symbol, rest) else none

/-- No symbol of a class stands in front. -/
def notAhead (test : S → Bool) : Peg S Unit := fun text =>
  if text.head?.any test then none else some ((), text)

def literal [DecidableEq S] (word : List S) : Peg S Unit := fun text =>
  if word <+: text then some ((), text.drop word.length) else none

def finish : Peg S Unit := fun text => if text.isEmpty then some ((), []) else none

def ensure (condition : Prop) [Decidable condition] : Peg S Unit := fun text =>
  if condition then some ((), text) else none

/-- The text that an expression matches. -/
def capture (expression : Peg S A) : Peg S (List S) := fun text =>
  match expression text with
  | some (_, rest) => some (text.take (text.length - rest.length), rest)
  | none => none

section Reading

variable {expression : Peg S A} {next : A → Peg S B} {text rest : List S} {value : A}

theorem bind_some (found : expression text = some (value, rest)) :
    (expression >>= next) text = next value rest := by
  change (match expression text with | some (value, rest) => next value rest | none => none) = _
  rw [found]

theorem bind_none (missed : expression text = none) : (expression >>= next) text = none := by
  change (match expression text with | some (value, rest) => next value rest | none => none) = _
  rw [missed]

/-- A sequence matches where its parts do. -/
theorem bind_eq_some {result : B} (found : (expression >>= next) text = some (result, rest)) :
    ∃ value middle,
      expression text = some (value, middle) ∧ next value middle = some (result, rest) := by
  cases matched : expression text with
  | none => simp [bind_none matched] at found
  | some answer =>
      obtain ⟨value, middle⟩ := answer
      rw [bind_some matched] at found
      exact ⟨value, middle, rfl, found⟩

theorem pure_apply (value : A) (text : List S) : (pure value : Peg S A) text = some (value, text) :=
  rfl

theorem choice_some {second : Peg S A} {answer : A × List S}
    (found : expression text = some answer) :
    choice expression second text = some answer := by
  rw [choice, found]

theorem choice_none {second : Peg S A} (missed : expression text = none) :
    choice expression second text = second text := by
  rw [choice, missed]

theorem optional_some (found : expression text = some (value, rest)) :
    optional expression text = some (some value, rest) := by
  rw [optional, found]

theorem optional_none (missed : expression text = none) :
    optional expression text = some (none, text) := by
  rw [optional, missed]

theorem choices_none {expressions : List (Peg S A)}
    (all : ∀ expression ∈ expressions, expression text = none) :
    choices expressions text = none := by
  induction expressions with
  | nil => rfl
  | cons expression rest ih =>
      rw [choices, List.foldr_cons, choice_none (all expression List.mem_cons_self)]
      exact ih fun other member => all other (List.mem_cons_of_mem _ member)

theorem choices_first {others : List (Peg S A)} (missed : ∀ other ∈ others, other text = none) :
    choices (expression :: others) text = expression text := by
  rw [choices, List.foldr_cons]
  cases found : expression text with
  | none =>
      rw [choice_none found]
      exact choices_none missed
  | some answer => exact choice_some found

theorem choices_next {others : List (Peg S A)} (missed : expression text = none) :
    choices (expression :: others) text = choices others text := by
  rw [choices, List.foldr_cons, choice_none missed, choices]

theorem choices_found {others : List (Peg S A)} {answer : A × List S}
    (found : expression text = some answer) :
    choices (expression :: others) text = some answer := by
  rw [choices, List.foldr_cons, choice_some found]

theorem choices_missed {before after : List (Peg S A)}
    (missed : ∀ other ∈ before, other text = none) :
    choices (before ++ after) text = choices after text := by
  induction before with
  | nil => rfl
  | cons other before ih =>
      rw [List.cons_append, choices_next (missed other List.mem_cons_self)]
      exact ih fun another member => missed another (List.mem_cons_of_mem _ member)

theorem repeated_none (missed : expression text = none) (fuel : Nat) :
    repeated expression fuel text = some ([], text) := by
  cases fuel with
  | zero => rfl
  | succ fuel => simp only [repeated, missed]

theorem repeated_some {values : List A} {last : List S} {fuel : Nat}
    (found : expression text = some (value, rest))
    (more : repeated expression fuel rest = some (values, last)) :
    repeated expression (fuel + 1) text = some (value :: values, last) := by
  simp only [repeated, found, more]

theorem literal_append [DecidableEq S] (word rest : List S) :
    literal word (word ++ rest) = some ((), rest) := by
  rw [literal, if_pos (List.prefix_append _ _), List.drop_left]

theorem literal_none [DecidableEq S] {word : List S} (other : ¬ word <+: text) :
    literal word text = none := if_neg other

/-- A text that starts otherwise does not match. -/
theorem literal_cons_none [DecidableEq S] {first : S} {word : List S}
    (other : text.head? ≠ some first) : literal (first :: word) text = none := by
  apply literal_none
  rintro ⟨rest, rfl⟩
  exact other rfl

theorem span_append {test : S → Bool} {piece : List S} (all : ∀ symbol ∈ piece, test symbol = true)
    (stops : rest.head?.any test = false) : span test (piece ++ rest) = some (piece, rest) := by
  have none : rest.takeWhile test = [] ∧ rest.dropWhile test = rest := by
    cases rest with
    | nil => simp
    | cons symbol rest =>
        have differs : test symbol = false := by simpa using stops
        simp [differs]
  rw [span, List.takeWhile_append_of_pos all, List.dropWhile_append_of_pos all, none.1, none.2,
    List.append_nil]

theorem notAhead_some {test : S → Bool} (stops : text.head?.any test = false) :
    notAhead test text = some ((), text) := by simp [notAhead, stops]

theorem notAhead_none {test : S → Bool} (ahead : text.head?.any test = true) :
    notAhead test text = none := by simp [notAhead, ahead]

theorem notAhead_eq_some {test : S → Bool} {found : Unit}
    (matched : notAhead test text = some (found, rest)) :
    text.head?.any test = false ∧ rest = text := by
  unfold notAhead at matched
  split at matched
  · simp at matched
  · rename_i stops
    rw [Option.some.injEq, Prod.mk.injEq] at matched
    exact ⟨Bool.eq_false_of_not_eq_true stops, matched.2.symm⟩

theorem finish_eq_some {found : Unit} (matched : finish text = some (found, rest)) :
    text = [] ∧ rest = [] := by
  unfold finish at matched
  split at matched
  · rename_i empty
    rw [Option.some.injEq, Prod.mk.injEq] at matched
    exact ⟨List.isEmpty_iff.mp empty, matched.2.symm⟩
  · simp at matched

theorem ensure_some {condition : Prop} [Decidable condition] (holds : condition) (text : List S) :
    ensure condition text = some ((), text) := if_pos holds

theorem capture_some {piece : List S} (found : expression (piece ++ rest) = some (value, rest)) :
    capture expression (piece ++ rest) = some (piece, rest) := by
  have size : (piece ++ rest).length - rest.length = piece.length := by simp
  rw [capture, found]
  simp only [size, List.take_left]

end Reading

section Consuming

/-- What an expression takes from the front of a text, for each of its values. -/
def Consumes (expression : Peg S A) (takes : A → List S → Prop) : Prop :=
  ∀ text value rest, expression text = some (value, rest) →
    ∃ piece, takes value piece ∧ text = piece ++ rest

variable {expression second : Peg S A} {next : A → Peg S B} {takes : A → List S → Prop}

theorem Consumes.mono {more : A → List S → Prop} (consumes : Consumes expression takes)
    (imp : ∀ value piece, takes value piece → more value piece) : Consumes expression more := by
  intro text value rest found
  obtain ⟨piece, taken, split⟩ := consumes text value rest found
  exact ⟨piece, imp value piece taken, split⟩

theorem consumes_pure (value : A) :
    Consumes (pure value : Peg S A) fun other piece => other = value ∧ piece = [] := by
  intro text other rest found
  rw [pure_apply, Option.some.injEq, Prod.mk.injEq] at found
  exact ⟨[], ⟨found.1.symm, rfl⟩, found.2⟩

theorem Consumes.bind {others : A → B → List S → Prop} (first : Consumes expression takes)
    (following : ∀ value, Consumes (next value) (others value)) :
    Consumes (expression >>= next) fun result piece =>
      ∃ value front back, takes value front ∧ others value result back ∧ piece = front ++ back := by
  intro text result rest found
  obtain ⟨value, middle, matched, followed⟩ := bind_eq_some found
  obtain ⟨front, taken, rfl⟩ := first text value middle matched
  obtain ⟨back, takenNext, rfl⟩ := following value middle result rest followed
  exact ⟨front ++ back, ⟨value, front, back, taken, takenNext, rfl⟩, (List.append_assoc _ _ _).symm⟩

/-- One piece comes behind the other, whatever their values are. -/
theorem Consumes.seq {front back : List S → Prop} (first : Consumes expression fun _ => front)
    (following : ∀ value, Consumes (next value) fun _ => back) :
    Consumes (expression >>= next) fun _ piece => ∃ a b, front a ∧ back b ∧ piece = a ++ b := by
  apply (first.bind following).mono
  rintro result piece ⟨-, a, b, takenFront, takenBack, split⟩
  exact ⟨a, b, takenFront, takenBack, split⟩

theorem Consumes.choice (first : Consumes expression takes) (last : Consumes second takes) :
    Consumes (choice expression second) takes := by
  intro text value rest found
  unfold Peg.choice at found
  split at found
  · rename_i answer matched
    exact first text value rest (matched.trans found)
  · exact last text value rest found

theorem Consumes.choices {expressions : List (Peg S A)}
    (all : ∀ expression ∈ expressions, Consumes expression takes) :
    Consumes (choices expressions) takes := by
  induction expressions with
  | nil =>
      intro text value rest found
      simp [Peg.choices, fail] at found
  | cons expression rest ih =>
      rw [Peg.choices, List.foldr_cons]
      apply (all expression List.mem_cons_self).choice
      exact ih fun other member => all other (List.mem_cons_of_mem _ member)

theorem Consumes.optional (consumes : Consumes expression takes) :
    Consumes (optional expression) fun found piece =>
      match found with
      | some value => takes value piece
      | none => piece = [] := by
  intro text found rest answered
  unfold Peg.optional at answered
  split at answered
  · rename_i value last matched
    rw [Option.some.injEq, Prod.mk.injEq] at answered
    obtain ⟨rfl, rfl⟩ := answered
    exact consumes text value last matched
  · rw [Option.some.injEq, Prod.mk.injEq] at answered
    obtain ⟨rfl, rfl⟩ := answered
    exact ⟨[], rfl, rfl⟩

theorem consumes_literal [DecidableEq S] (word : List S) :
    Consumes (literal word) fun _ piece => piece = word := by
  intro text value rest found
  unfold literal at found
  split at found
  · rename_i front
    obtain ⟨last, rfl⟩ := front
    rw [List.drop_left, Option.some.injEq, Prod.mk.injEq] at found
    exact ⟨word, rfl, by rw [found.2]⟩
  · simp at found

theorem consumes_span (test : S → Bool) :
    Consumes (span test) fun value piece =>
      value = piece ∧ ∀ symbol ∈ piece, test symbol = true := by
  intro text value rest found
  rw [span, Option.some.injEq, Prod.mk.injEq] at found
  have all : ∀ symbol ∈ text.takeWhile test, test symbol = true :=
    List.all_eq_true.mp List.all_takeWhile
  refine ⟨text.takeWhile test, ⟨found.1.symm, all⟩, ?_⟩
  rw [← found.2, List.takeWhile_append_dropWhile]

theorem consumes_item (test : S → Bool) :
    Consumes (item test) fun value piece => piece = [value] ∧ test value = true := by
  intro text value rest found
  cases text with
  | nil => simp [item] at found
  | cons symbol text =>
      rw [item] at found
      split at found
      · rename_i passes
        rw [Option.some.injEq, Prod.mk.injEq] at found
        exact ⟨[symbol], ⟨by rw [found.1], found.1 ▸ passes⟩, by rw [found.2]; rfl⟩
      · simp at found

theorem consumes_notAhead (test : S → Bool) :
    Consumes (notAhead test) fun _ piece => piece = [] := by
  intro text value rest found
  exact ⟨[], rfl, (notAhead_eq_some found).2.symm⟩

theorem consumes_ensure (condition : Prop) [Decidable condition] :
    Consumes (ensure condition : Peg S Unit) fun _ piece => condition ∧ piece = [] := by
  intro text value rest found
  unfold ensure at found
  split at found
  · rename_i holds
    rw [Option.some.injEq, Prod.mk.injEq] at found
    exact ⟨[], ⟨holds, rfl⟩, found.2⟩
  · simp at found

theorem Consumes.capture (consumes : Consumes expression takes) :
    Consumes (capture expression) fun piece whole =>
      piece = whole ∧ ∃ value, takes value whole := by
  intro text piece rest found
  unfold Peg.capture at found
  split at found
  · rename_i value last matched
    rw [Option.some.injEq, Prod.mk.injEq] at found
    obtain ⟨whole, taken, rfl⟩ := consumes text value last matched
    obtain ⟨rfl, rfl⟩ := found
    exact ⟨whole, ⟨by simp, value, taken⟩, rfl⟩
  · simp at found

/-- The pieces of a repetition, one after the other. -/
inductive Pieces (takes : A → List S → Prop) : List A → List S → Prop where
  | nil : Pieces takes [] []
  | cons {value : A} {values : List A} {piece pieces : List S} (first : takes value piece)
      (rest : Pieces takes values pieces) : Pieces takes (value :: values) (piece ++ pieces)

theorem Consumes.many (consumes : Consumes expression takes) :
    Consumes (many expression) (Pieces takes) := by
  have bounded (fuel : Nat) : Consumes (repeated expression fuel) (Pieces takes) := by
    induction fuel with
    | zero =>
        intro text values rest found
        rw [repeated, Option.some.injEq, Prod.mk.injEq] at found
        obtain ⟨rfl, rfl⟩ := found
        exact ⟨[], .nil, rfl⟩
    | succ fuel ih =>
        intro text values rest found
        simp only [repeated] at found
        split at found
        · rename_i value middle matched
          split at found
          · rename_i others last more
            rw [Option.some.injEq, Prod.mk.injEq] at found
            obtain ⟨rfl, rfl⟩ := found
            obtain ⟨piece, taken, rfl⟩ := consumes text value middle matched
            obtain ⟨pieces, takenMore, rfl⟩ := ih middle others last more
            exact ⟨piece ++ pieces, .cons taken takenMore, (List.append_assoc _ _ _).symm⟩
          · simp at found
        · rw [Option.some.injEq, Prod.mk.injEq] at found
          obtain ⟨rfl, rfl⟩ := found
          exact ⟨[], .nil, rfl⟩
  exact fun text => bounded text.length text

end Consuming

end Peg
