/-
This file proves that the buffers of a console are first-in first-out queues in every run.
-/

import MachineEmulator.Proof.Console.Functions

namespace MachineEmulator

open Console

namespace Console

/-- The functions that move characters, with what the host and the caller give. -/
inductive Operation where
  | putchars (buf : Span)
  | flushOutput (answer : OutputAnswer)
  | readOutput (dataIsNull : Bool) (maxLength : Word)
  | writeInput (data : Option (Word → Byte)) (length : Word)
  | refillInput (answer : InputAnswer)
  | getchars (length : Nat) (fits : length < 2 ^ 63)

/-- The characters that enter and leave the console in an operation, and the number it returns. -/
structure Effect where
  put : List Byte := []
  delivered : List Byte := []
  supplied : List Byte := []
  returned : List Byte := []
  count : Option Nat := none

/-- The characters that a call gives its caller, if it does not throw. -/
def answered : Except Failure (Nat × List Byte) → Option Nat × List Byte
  | .ok (count, bytes) => (some count, bytes)
  | .error _ => (none, [])

end Console

namespace MachineConsole

/-- One operation. The characters of a closed input do not come from the buffer. -/
def step (console : MachineConsole) : Operation → Except Failure (Effect × MachineConsole)
  | .putchars buf => do
      let (_, later) ← console.putchars buf
      return ({ put := buf.bytes }, later)
  | .flushOutput answer => do
      let outcome ← console.flushOutput answer
      return ({ delivered := console.takenOutput answer }, outcome.console)
  | .readOutput dataIsNull maxLength => do
      let outcome ← console.readOutput dataIsNull maxLength
      let (count, bytes) := answered outcome.result
      return ({ delivered := bytes, count := count }, outcome.console)
  | .writeInput data length => do
      let outcome ← console.writeInput data length
      let (count, bytes) := answered outcome.result
      return ({ supplied := bytes, count := count }, outcome.console)
  | .refillInput answer => do
      let outcome ← console.refillInput answer
      return ({ supplied := console.suppliedInput answer }, outcome.console)
  | .getchars length _ => do
      let (chars, _, later) ← console.getchars length
      return ({ returned := if console.inputClosed then [] else chars }, later)

/-- A list of operations, one after the other. -/
def run : MachineConsole → List Operation → Except Failure (List Effect × MachineConsole)
  | console, [] => return ([], console)
  | console, operation :: operations => do
      let (effect, next) ← console.step operation
      let (effects, later) ← next.run operations
      return (effect :: effects, later)

/-- A property of the console, the operation and the effect at each step of a run. -/
def EachStep (holds : MachineConsole → Operation → Effect → Prop) :
    MachineConsole → List Operation → Prop
  | _, [] => True
  | console, operation :: operations =>
      ∃ effect later, console.step operation = .ok (effect, later) ∧
        holds console operation effect ∧ EachStep holds later operations

/-- An operation loses no output: new characters fit, there is a destination and it is open. -/
def LosesNothing (console : MachineConsole) : Operation → Prop
  | .putchars buf => console.outputDestination ≠ .toNull ∧
      buf.bytes.length ≤ console.output.buffer.length - console.output.content.length
  | .flushOutput answer => ¬console.OutputClosed answer
  | _ => True

/-- The numbers that are returned. A null pointer or a length of zero only asks for the number of
bytes that are there or the room for more. -/
def Counts (console : MachineConsole) (operation : Operation) (effect : Effect) : Prop :=
  match operation with
  | .readOutput dataIsNull maxLength =>
      if console.outputDestination ≠ .toBuffer then effect = {}
      else if dataIsNull ∨ maxLength = 0 then effect = { count := some console.output.content.length }
      else maxLength.toNat < 2 ^ 63 → effect =
        { delivered := console.output.content.take maxLength.toNat
          count := some (min maxLength.toNat console.output.content.length) }
  | .writeInput data length =>
      if console.inputSource ≠ .fromBuffer then effect = {}
      else
        let space := console.input.buffer.length - console.input.content.length
        match data with
        | none => effect = { count := some space }
        | some bytes =>
            if length = 0 then effect = { count := some space }
            else effect =
              { supplied := (List.range (min length.toNat space)).map fun index =>
                  bytes (BitVec.ofNat 64 index)
                count := some (min length.toNat space) }
  | .getchars length _ =>
      effect = { returned := if console.inputClosed then [] else console.input.content.take length }
  | _ => True

/-- What one operation does to the queues. -/
structure Moves (console : MachineConsole) (effect : Effect) (later : MachineConsole) : Prop where
  sound : later.Sound
  outputLength : later.output.buffer.length = console.output.buffer.length
  inputLength : later.input.buffer.length = console.input.buffer.length
  destination : later.outputDestination = console.outputDestination
  input : effect.returned ++ later.input.content = console.input.content ++ effect.supplied
  output : (effect.delivered ++ later.output.content).Sublist (console.output.content ++ effect.put)

variable {console : MachineConsole}

theorem readableOutput_of_small {dataIsNull : Bool} {maxLength : Word}
    (buffered : console.outputDestination = .toBuffer) (given : ¬(dataIsNull ∨ maxLength = 0))
    (small : maxLength.toNat < 2 ^ 63) :
    console.readableOutput dataIsNull maxLength = console.output.content.take maxLength.toNat := by
  have signed : maxLength.toInt = maxLength.toNat := BitVec.toInt_eq_toNat_of_lt (by omega)
  rw [readableOutput, if_neg, signed]
  · rfl
  · rintro (null | other)
    · exact given (Or.inl null)
    · exact other buffered

section Steps

theorem step_putchars (sound : console.Sound) (buf : Span) : ∃ effect later,
    console.step (.putchars buf) = .ok (effect, later) ∧ console.Moves effect later ∧
    (console.LosesNothing (.putchars buf) →
      effect.delivered ++ later.output.content = console.output.content ++ effect.put) := by
  obtain ⟨flush, output, done, later, length, content⟩ := putchars_ok sound buf
  refine ⟨{ put := buf.bytes }, { console with output := output }, ?_, ?_, ?_⟩
  · rw [step, done]
    rfl
  · refine ⟨⟨later, sound.input⟩, length, rfl, rfl, (List.append_nil _).symm, ?_⟩
    show (output.content).Sublist (console.output.content ++ buf.bytes)
    rw [content]
    split
    · exact List.sublist_append_left _ _
    · exact (List.drop_sublist _ _).append (List.take_sublist _ _)
  · rintro ⟨shown, fits⟩
    have within := sound.output.content_le
    have none : console.output.content.length + buf.bytes.length -
        console.output.buffer.length = 0 := by omega
    show output.content = console.output.content ++ buf.bytes
    rw [content, if_neg shown, none, List.drop_zero, List.take_of_length_le (by omega)]

theorem step_flushOutput (sound : console.Sound) (answer : OutputAnswer) : ∃ effect later,
    console.step (.flushOutput answer) = .ok (effect, later) ∧ console.Moves effect later ∧
    (console.LosesNothing (.flushOutput answer) →
      effect.delivered ++ later.output.content = console.output.content ++ effect.put) := by
  obtain ⟨output, done, later, length, content⟩ := flushOutput_ok sound answer
  have taken := takenOutput_append console answer
  refine ⟨{ delivered := console.takenOutput answer }, { console with output := output }, ?_, ?_, ?_⟩
  · rw [step, done]
    rfl
  · refine ⟨⟨later, sound.input⟩, length, rfl, rfl, (List.append_nil _).symm, ?_⟩
    show (console.takenOutput answer ++ output.content).Sublist (console.output.content ++ [])
    rw [content, keptOutput, List.append_nil]
    split
    · rw [List.append_nil]
      exact (List.prefix_iff_eq_append.mpr taken).sublist
    · rw [taken]
  · intro opened
    show console.takenOutput answer ++ output.content = console.output.content ++ []
    rw [content, keptOutput, if_neg opened, taken, List.append_nil]

theorem step_readOutput (sound : console.Sound) (dataIsNull : Bool) (maxLength : Word) :
    ∃ effect later, console.step (.readOutput dataIsNull maxLength) = .ok (effect, later) ∧
    console.Moves effect later ∧ console.Counts (.readOutput dataIsNull maxLength) effect ∧
    effect.delivered ++ later.output.content = console.output.content ++ effect.put := by
  obtain ⟨output, done, later, length, content⟩ := readOutput_ok sound dataIsNull maxLength
  have given : (answered (console.readResult dataIsNull maxLength)).2 =
      console.readableOutput dataIsNull maxLength := by
    rw [readResult]
    split
    next other => rw [readableOutput, if_pos (Or.inr other)]; rfl
    next buffered =>
      split
      next query =>
        rcases query with null | zero
        · simp [readableOutput, null, answered]
        · simp [readableOutput, zero, answered]
      next => rfl
  have split : (answered (console.readResult dataIsNull maxLength)).2 ++ output.content =
      console.output.content ++ [] := by
    rw [given, content, List.append_nil]
  refine ⟨{ delivered := (answered (console.readResult dataIsNull maxLength)).2
            count := (answered (console.readResult dataIsNull maxLength)).1 },
    { console with output := output }, ?_, ?_, ?_, split⟩
  · rw [step, done]
    rfl
  · exact ⟨⟨later, sound.input⟩, length, rfl, rfl, (List.append_nil _).symm, split ▸ List.Sublist.refl _⟩
  · simp only [Counts]
    split
    next other =>
      rw [readResult, if_pos other]
      rfl
    next buffered =>
      split
      next query =>
        rw [readResult, if_neg buffered, if_pos query]
        rfl
      next asked =>
        intro small
        rw [readResult, if_neg buffered, if_neg asked,
          readableOutput_of_small (not_not.mp buffered) asked small]
        simp [answered]

theorem step_writeInput (sound : console.Sound) (data : Option (Word → Byte)) (length : Word) :
    ∃ effect later, console.step (.writeInput data length) = .ok (effect, later) ∧
    console.Moves effect later ∧ console.Counts (.writeInput data length) effect ∧
    effect.delivered ++ later.output.content = console.output.content ++ effect.put := by
  obtain ⟨input, done, later, same, content⟩ := writeInput_ok sound data length
  have taken : (answered (console.writeResult data length)).2 = console.acceptedInput data length := by
    rw [writeResult]
    split
    next other =>
      cases data with
      | none => rfl
      | some data => rw [acceptedInput, if_pos other]; rfl
    next =>
      split
      next query =>
        cases data with
        | none => rfl
        | some data =>
            have zero : length = 0 := by simpa using query
            rw [acceptedInput, zero]
            simp [answered]
      next => rfl
  refine ⟨{ supplied := (answered (console.writeResult data length)).2
            count := (answered (console.writeResult data length)).1 },
    { console with input := input }, ?_, ?_, ?_, (List.append_nil _).symm⟩
  · rw [step, done]
    rfl
  · refine ⟨⟨sound.output, later⟩, rfl, same, rfl, ?_, ?_⟩
    · rw [taken]
      exact content
    · show (console.output.content).Sublist (console.output.content ++ [])
      rw [List.append_nil]
  · simp only [Counts]
    split
    next other =>
      rw [writeResult, if_pos other]
      rfl
    next buffered =>
      rw [writeResult, if_neg buffered]
      cases data with
      | none => rfl
      | some data =>
          by_cases zero : length = 0
          · rw [if_pos (Or.inr zero)]
            simp only [if_pos zero]
            rfl
          · have asked : ¬((some data).isNone ∨ length = 0) := by
              rintro (null | again)
              · simp at null
              · exact zero again
            rw [if_neg asked, acceptedInput, if_neg buffered]
            simp only [if_neg zero, answered, List.length_map, List.length_range]

theorem step_refillInput (sound : console.Sound) (answer : InputAnswer) : ∃ effect later,
    console.step (.refillInput answer) = .ok (effect, later) ∧ console.Moves effect later ∧
    effect.delivered ++ later.output.content = console.output.content ++ effect.put := by
  obtain ⟨input, closed, done, later, length, content⟩ := refillInput_ok sound answer
  refine ⟨{ supplied := console.suppliedInput answer },
    { console with input := input, inputClosed := closed }, ?_, ?_, (List.append_nil _).symm⟩
  · rw [step, done]
    rfl
  · refine ⟨⟨sound.output, later⟩, rfl, length, rfl, content, ?_⟩
    show (console.output.content).Sublist (console.output.content ++ [])
    rw [List.append_nil]

theorem step_getchars (sound : console.Sound) {length : Nat} (fits : length < 2 ^ 63) :
    ∃ effect later, console.step (.getchars length fits) = .ok (effect, later) ∧
    console.Moves effect later ∧ console.Counts (.getchars length fits) effect ∧
    effect.delivered ++ later.output.content = console.output.content ++ effect.put := by
  obtain ⟨chars, refill, input, done, later, same, content, given⟩ := getchars_ok sound fits
  have returned : (if console.inputClosed then [] else chars) = console.nextChars length := by
    rw [given]
    by_cases closed : console.inputClosed
    · rw [if_pos closed, nextChars, if_pos closed]
    · rw [if_neg closed, if_neg closed]
  refine ⟨{ returned := if console.inputClosed then [] else chars },
    { console with input := input }, ?_, ?_, ?_, (List.append_nil _).symm⟩
  · rw [step, done]
    rfl
  · refine ⟨⟨sound.output, later⟩, rfl, same, rfl, ?_, ?_⟩
    · rw [returned, List.append_nil]
      exact content
    · show (console.output.content).Sublist (console.output.content ++ [])
      rw [List.append_nil]
  · rw [returned]
    rfl

/-- Every operation moves characters through the queues in order. -/
theorem step_ok (sound : console.Sound) (operation : Operation) : ∃ effect later,
    console.step operation = .ok (effect, later) ∧ console.Moves effect later ∧
    console.Counts operation effect ∧ (console.LosesNothing operation →
      effect.delivered ++ later.output.content = console.output.content ++ effect.put) := by
  cases operation with
  | putchars buf =>
      obtain ⟨effect, later, done, moves, kept⟩ := step_putchars sound buf
      exact ⟨effect, later, done, moves, trivial, kept⟩
  | flushOutput answer =>
      obtain ⟨effect, later, done, moves, kept⟩ := step_flushOutput sound answer
      exact ⟨effect, later, done, moves, trivial, kept⟩
  | readOutput dataIsNull maxLength =>
      obtain ⟨effect, later, done, moves, counts, kept⟩ := step_readOutput sound dataIsNull maxLength
      exact ⟨effect, later, done, moves, counts, fun _ => kept⟩
  | writeInput data length =>
      obtain ⟨effect, later, done, moves, counts, kept⟩ := step_writeInput sound data length
      exact ⟨effect, later, done, moves, counts, fun _ => kept⟩
  | refillInput answer =>
      obtain ⟨effect, later, done, moves, kept⟩ := step_refillInput sound answer
      exact ⟨effect, later, done, moves, trivial, fun _ => kept⟩
  | getchars length fits =>
      obtain ⟨effect, later, done, moves, counts, kept⟩ := step_getchars sound fits
      exact ⟨effect, later, done, moves, counts, fun _ => kept⟩

/-- Only `putchars` puts characters. -/
theorem put_of_step {operation : Operation} {effect : Effect} {later : MachineConsole}
    (quiet : ∀ buf, operation ≠ .putchars buf) (ran : console.step operation = .ok (effect, later)) :
    effect.put = [] := by
  cases operation with
  | putchars buf => exact absurd rfl (quiet buf)
  | flushOutput answer | readOutput dataIsNull maxLength | writeInput data length
  | refillInput answer | getchars length fits =>
      obtain ⟨outcome, _, rest⟩ := bind_ok.mp ran
      cases rest
      rfl

end Steps

section Runs

/-- What a run does to the queues. -/
structure Queues (console : MachineConsole) (effects : List Effect) (later : MachineConsole) :
    Prop where
  sound : later.Sound
  outputLength : later.output.buffer.length = console.output.buffer.length
  inputLength : later.input.buffer.length = console.input.buffer.length
  input : effects.flatMap Effect.returned ++ later.input.content =
    console.input.content ++ effects.flatMap Effect.supplied
  output : (effects.flatMap Effect.delivered ++ later.output.content).Sublist
    (console.output.content ++ effects.flatMap Effect.put)

/-- In every run the input comes out once and in order, the output comes out in order and whole unless
an operation loses some, and the numbers that are returned are right. -/
theorem run_queues (sound : console.Sound) (operations : List Operation) : ∃ effects later,
    console.run operations = .ok (effects, later) ∧ console.Queues effects later ∧
    console.EachStep Counts operations ∧
    (console.EachStep (fun state operation _ => state.LosesNothing operation) operations →
      effects.flatMap Effect.delivered ++ later.output.content =
        console.output.content ++ effects.flatMap Effect.put) := by
  induction operations generalizing console with
  | nil =>
      refine ⟨[], console, rfl, ⟨sound, rfl, rfl, ?_, ?_⟩, trivial, fun _ => ?_⟩
      · exact (List.append_nil _).symm
      · rw [List.flatMap_nil, List.flatMap_nil, List.append_nil, List.nil_append]
      · exact (List.append_nil _).symm
  | cons operation operations ih =>
      obtain ⟨effect, next, done, moves, counts, kept⟩ := step_ok sound operation
      obtain ⟨effects, later, rest, queues, all, keeps⟩ := ih moves.sound
      refine ⟨effect :: effects, later, ?_, ?_, ⟨effect, next, done, counts, all⟩, ?_⟩
      · rw [run, done]
        show (next.run operations >>= _) = _
        rw [rest]
        rfl
      · refine ⟨queues.sound, queues.outputLength.trans moves.outputLength,
          queues.inputLength.trans moves.inputLength, ?_, ?_⟩
        · rw [List.flatMap_cons, List.flatMap_cons, List.append_assoc, queues.input,
            ← List.append_assoc, moves.input, List.append_assoc]
        · have first := moves.output.append_right (effects.flatMap Effect.put)
          have second := queues.output.append_left effect.delivered
          rw [List.flatMap_cons, List.flatMap_cons, List.append_assoc]
          rw [List.append_assoc] at first
          rw [List.append_assoc] at first
          exact second.trans first
      · rintro ⟨effect', next', done', lossless, others⟩
        cases done.symm.trans done'
        rw [List.flatMap_cons, List.flatMap_cons, List.append_assoc, keeps others,
          ← List.append_assoc, kept lossless, List.append_assoc]

/-- A console with the characters `abc` in its output buffer. -/
def bufferedConsole : MachineConsole :=
  { initial with
    outputDestination := .toBuffer
    output := ⟨[97, 98, 99, 0], 0, 3⟩
    input := ⟨[0, 0], 0, 0⟩ }

theorem bufferedConsole_sound : bufferedConsole.Sound := by
  constructor <;> exact ⟨by decide, by decide, by decide, by decide⟩

/-- A length of zero is answered with the number of characters that are there, an output that was
closed at the other end loses what it has, and no destination loses a character that fits. -/
theorem not_queues :
    (∃ effect later, bufferedConsole.step (.readOutput false 0) = .ok (effect, later) ∧
      effect.count ≠ some (min 0 bufferedConsole.output.content.length)) ∧
    (∃ effect later, ({ bufferedConsole with outputDestination := .toFd }.step
      (.flushOutput { accepted := none, errno := epipe })) = .ok (effect, later) ∧
      effect.delivered ++ later.output.content ≠ bufferedConsole.output.content ++ effect.put) ∧
    (∃ effect later, ({ bufferedConsole with outputDestination := .toNull }.step
      (.putchars ⟨[100], by decide⟩)) = .ok (effect, later) ∧
      1 ≤ bufferedConsole.output.availableSpace ∧
      effect.delivered ++ later.output.content ≠ bufferedConsole.output.content ++ effect.put) :=
  ⟨⟨{ count := some 3 }, bufferedConsole, rfl, by decide⟩,
    ⟨{}, { bufferedConsole with outputDestination := .toFd, output := ⟨[97, 98, 99, 0], 0, 0⟩ }, rfl,
      by decide⟩,
    ⟨{ put := [100] }, { bufferedConsole with outputDestination := .toNull }, rfl, by decide,
      by decide⟩⟩

/-- A character is put behind those that wait, and all are read. -/
theorem run_queues_buffered : ∃ effects later,
    bufferedConsole.run [.putchars ⟨[100], by decide⟩, .readOutput false 4] = .ok (effects, later) ∧
    bufferedConsole.Queues effects later ∧
    bufferedConsole.EachStep Counts [.putchars ⟨[100], by decide⟩, .readOutput false 4] ∧
    (bufferedConsole.EachStep (fun state operation _ => state.LosesNothing operation)
      [.putchars ⟨[100], by decide⟩, .readOutput false 4] →
      effects.flatMap Effect.delivered ++ later.output.content =
        bufferedConsole.output.content ++ effects.flatMap Effect.put) :=
  run_queues bufferedConsole_sound _

end Runs

end MachineConsole

end MachineEmulator
