/-
This file proves when a change of the configuration of a console is atomic: when a call that throws
leaves the console as it was.
-/

import MachineEmulator.Proof.Console.Functions

namespace MachineEmulator

open Console

namespace Console

/-- The checks of `validate_config`. -/
structure ConsoleRuntimeConfig.Valid (config : ConsoleRuntimeConfig) : Prop where
  outputFilename : config.outputFilename = "" ∨ config.outputDestination = .toFile
  inputFilename : config.inputFilename = "" ∨ config.inputSource = .fromFile
  outputFd : config.outputFd = -1 ∨ config.outputDestination = .toFd
  inputFd : config.inputFd = -1 ∨ config.inputSource = .fromFd
  outputBufferSize : config.outputBufferSize ≠ 0
  inputBufferSize : config.inputBufferSize ≠ 0

theorem validateConfig_ok {config : ConsoleRuntimeConfig} :
    validateConfig config = .ok () ↔ config.Valid := by
  simp only [validateConfig, bind_ok, check_ok, not_and_or, not_not]
  constructor
  · rintro ⟨_, name, _, name', _, fd, _, fd', _, size, size'⟩
    exact ⟨name, name', fd, fd', size, size'⟩
  · rintro ⟨name, name', fd, fd', size, size'⟩
    exact ⟨(), name, (), name', (), fd, (), fd', (), size, size'⟩

instance (config : ConsoleRuntimeConfig) : Decidable config.Valid :=
  decidable_of_iff (validateConfig config = .ok ()) validateConfig_ok

theorem validateConfig_error {config : ConsoleRuntimeConfig} (invalid : ¬config.Valid) :
    ∃ failure, validateConfig config = .error failure := by
  cases checked : validateConfig config with
  | error failure => exact ⟨failure, rfl⟩
  | ok => exact absurd (validateConfig_ok.mp checked) invalid

theorem dupFd_ok {fd newFd : Int} {answer : Option Int} :
    dupFd fd answer = .ok newFd ↔ 0 ≤ fd ∧ answer = some newFd := by
  rw [dupFd.eq_def, bind_ok]
  simp only [check_ok]
  cases answer <;> simp [pure, Except.pure]

end Console

namespace MachineConsole

/-- The settings of the output are the same. The bytes of the buffer count, not where they stand. -/
structure SameOutput (console later : MachineConsole) : Prop where
  destination : later.outputDestination = console.outputDestination
  flushMode : later.outputFlushMode = console.outputFlushMode
  fd : later.outputFd = console.outputFd
  file : later.outputFile = console.outputFile
  filename : later.outputFilename = console.outputFilename
  length : later.output.buffer.length = console.output.buffer.length
  content : later.output.content = console.output.content

structure SameInput (console later : MachineConsole) : Prop where
  source : later.inputSource = console.inputSource
  fd : later.inputFd = console.inputFd
  file : later.inputFile = console.inputFile
  filename : later.inputFilename = console.inputFilename
  ttyOpened : later.inputTtyOpened = console.inputTtyOpened
  length : later.input.buffer.length = console.input.buffer.length
  content : later.input.content = console.input.content

/-- All that a change of the configuration can change is the same. -/
structure SameSettings (console later : MachineConsole) : Prop where
  output : console.SameOutput later
  input : console.SameInput later
  ttyCols : later.ttyCols = console.ttyCols
  ttyRows : later.ttyRows = console.ttyRows

/-- The whole configuration is applied. A descriptor is the requested one, when it was in use before,
or the new one that the host gave for it. -/
structure Applied (config : ConsoleRuntimeConfig) (answers : ConfigAnswers)
    (later : MachineConsole) : Prop where
  inputSource : later.inputSource = config.inputSource
  outputDestination : later.outputDestination = config.outputDestination
  inputFilename : later.inputFilename = config.inputFilename
  outputFilename : later.outputFilename = config.outputFilename
  inputFd : later.inputFd = config.inputFd ∨
    config.inputSource = .fromFd ∧ answers.input.fd = some later.inputFd
  outputFd : later.outputFd = config.outputFd ∨
    config.outputDestination = .toFd ∧ answers.output.fd = some later.outputFd
  outputFlushMode : later.outputFlushMode = config.outputFlushMode
  ttyCols : later.ttyCols = config.ttyCols
  ttyRows : later.ttyRows = config.ttyRows
  outputLength : later.output.buffer.length = config.outputBufferSize
  inputLength : later.input.buffer.length = config.inputBufferSize

/-- A call applies the whole configuration, or throws and changes nothing. -/
def Atomic (console : MachineConsole) (config : ConsoleRuntimeConfig) (answers : ConfigAnswers) :
    Prop :=
  ∃ outcome, console.setConfig config answers = .ok outcome ∧
    match outcome.result with
    | .ok () => Applied config answers outcome.console
    | .error _ => console.SameSettings outcome.console

section Conditions

variable (console : MachineConsole) (config : ConsoleRuntimeConfig) (answers : ConfigAnswers)

/-- The buffered output cannot be flushed. -/
def FlushThrows : Prop :=
  console.output.content ≠ [] ∧ console.FlushFails answers.flush ∧ answers.flush.errno ≠ epipe

instance : Decidable (console.FlushThrows answers) := inferInstanceAs (Decidable (_ ∧ _))

/-- A flush leaves the buffered output as it is. -/
def FlushKeeps : Prop :=
  console.takenOutput answers.flush = [] ∧
    (console.OutputClosed answers.flush → console.output.content = [])

/-- The new destination cannot be opened, or its buffer would be smaller. -/
def OutputOpenFails : Prop :=
  config.outputBufferSize < console.output.buffer.length ∨
    config.outputDestination = .toFd ∧ (config.outputFd < 0 ∨ answers.output.fd = none) ∨
    config.outputDestination = .toFile ∧ answers.output.file = none

instance : Decidable (console.OutputOpenFails config answers) := inferInstanceAs (Decidable (_ ∨ _))

def OutputResizeFails : Prop :=
  console.output.buffer.length < config.outputBufferSize ∧
    ¬answers.output.CanResize config.outputBufferSize

instance : Decidable (console.OutputResizeFails config answers) := inferInstanceAs (Decidable (_ ∧ _))

/-- The new source cannot be opened, or its buffer would be smaller. -/
def InputOpenFails : Prop :=
  config.inputBufferSize < console.input.buffer.length ∨
    config.inputSource = .fromStdin ∧ answers.input.tty = false ∨
    config.inputSource = .fromFd ∧ (config.inputFd < 0 ∨ answers.input.fd = none) ∨
    config.inputSource = .fromFile ∧ answers.input.file = none

instance : Decidable (console.InputOpenFails config answers) := inferInstanceAs (Decidable (_ ∨ _))

def InputResizeFails : Prop :=
  console.input.buffer.length < config.inputBufferSize ∧
    ¬answers.input.CanResize config.inputBufferSize

instance : Decidable (console.InputResizeFails config answers) := inferInstanceAs (Decidable (_ ∧ _))

/-- The new source fails when the empty input buffer is filled from it. -/
def RefillThrows : Prop :=
  console.input.content = [] ∧ answers.refill.errno ≠ epipe ∧ (
    (config.inputSource = .fromStdin ∨ config.inputSource = .fromFd) ∧
        answers.refill.ready = true ∧ answers.refill.received = none ∨
      config.inputSource = .fromFile ∧ answers.refill.received.getD [] = [] ∧
        answers.refill.endOfFile = false ∧ answers.refill.error = true)

instance : Decidable (console.RefillThrows config answers) := inferInstanceAs (Decidable (_ ∧ _))

/-- The output is that of a console whose output was closed. -/
def OutputShut : Prop :=
  console.outputDestination = .toNull ∧ console.outputFd = -1 ∧ console.outputFile = none ∧
    console.outputFilename = ""

def InputShut : Prop :=
  console.inputSource = .fromNull ∧ console.inputFd = -1 ∧ console.inputFile = none ∧
    console.inputFilename = "" ∧ console.inputTtyOpened = false

/-- The descriptor of the output after it was opened. -/
def newOutputFd : Int := if config.outputDestination = .toFd then answers.output.fd.getD (-1) else -1

def newOutputFile : Option Nat :=
  if config.outputDestination = .toFile then answers.output.file else none

def newInputFd : Int := if config.inputSource = .fromFd then answers.input.fd.getD (-1) else -1

def newInputFile : Option Nat :=
  if config.inputSource = .fromFile then answers.input.file else none

/-- The output was open as it is requested, with what the host gives anew. -/
def OutputAsRequested : Prop :=
  console.outputDestination = config.outputDestination ∧
    console.outputFlushMode = config.outputFlushMode ∧
    console.outputFd = newOutputFd config answers ∧ console.outputFile = newOutputFile config answers ∧
    console.outputFilename = config.outputFilename

def InputAsRequested : Prop :=
  console.inputSource = config.inputSource ∧ console.inputFd = newInputFd config answers ∧
    console.inputFile = newInputFile config answers ∧
    console.inputFilename = config.inputFilename ∧
    console.inputTtyOpened = decide (config.inputSource = .fromStdin)

/-- The part for the output changes nothing when no step of it fails. -/
def OutputKept : Prop :=
  console.OutputChanged config →
    console.OutputAsRequested config answers ∧ console.FlushKeeps answers ∧
    console.output.buffer.length = config.outputBufferSize

/-- The steps of `set_config` that can throw. -/
inductive Stage where
  | validation
  | flush
  | outputOpening
  | outputResizing
  | inputOpening
  | inputResizing
  | refill
  | none

/-- The first step of `set_config` that throws. -/
def throwingStage : Stage :=
  if ¬config.Valid then .validation
  else if console.OutputChanged config ∧ console.FlushThrows answers then .flush
  else if console.OutputChanged config ∧ console.OutputOpenFails config answers then .outputOpening
  else if console.OutputChanged config ∧ console.OutputResizeFails config answers then
    .outputResizing
  else if console.InputChanged config ∧ console.InputOpenFails config answers then .inputOpening
  else if console.InputChanged config ∧ console.InputResizeFails config answers then .inputResizing
  else if console.InputChanged config ∧ console.RefillThrows config answers then .refill
  else .none

/-- The step that throws has nothing to undo. -/
def NothingToUndo : Stage → Prop
  | .validation | .none => True
  | .flush => console.FlushKeeps answers
  | .outputOpening => console.OutputShut ∧ console.FlushKeeps answers
  | .outputResizing => console.OutputAsRequested config answers ∧ console.FlushKeeps answers
  | .inputOpening => console.OutputKept config answers ∧ console.InputShut
  | .inputResizing => console.OutputKept config answers ∧ console.InputAsRequested config answers
  | .refill => console.OutputKept config answers ∧ console.InputAsRequested config answers ∧
      console.input.buffer.length = config.inputBufferSize

end Conditions

variable {console : MachineConsole} {config : ConsoleRuntimeConfig} {answers : ConfigAnswers}

section Output

/-- The console after its output was opened. -/
def withOutput (console : MachineConsole) (config : ConsoleRuntimeConfig) (answers : ConfigAnswers)
    (output : CharBuffer) : MachineConsole :=
  { console with
    outputDestination := config.outputDestination
    outputFlushMode := config.outputFlushMode
    outputFd := newOutputFd config answers
    outputFile := newOutputFile config answers
    outputFilename := config.outputFilename
    output := output }

theorem keptOutput_eq_content : console.keptOutput answers.flush = console.output.content ↔
    console.FlushKeeps answers := by
  have taken := takenOutput_append console answers.flush
  rw [FlushKeeps, keptOutput]
  by_cases closed : console.OutputClosed answers.flush
  · rw [if_pos closed]
    constructor
    · intro empty
      rw [← empty] at taken
      exact ⟨(List.append_eq_nil_iff.mp taken).1, fun _ => empty.symm⟩
    · rintro ⟨_, empty⟩
      exact (empty closed).symm
  · rw [if_neg closed]
    constructor
    · intro same
      refine ⟨?_, fun shut => absurd shut closed⟩
      rw [same] at taken
      exact List.append_left_eq_self.mp taken
    · rintro ⟨none, _⟩
      rw [none]
      rfl

theorem flushResult_error (throws : console.FlushThrows answers) :
    console.flushResult answers.flush = .error .consoleOutputFlushFailed := if_pos throws

theorem flushResult_ok (done : ¬console.FlushThrows answers) :
    console.flushResult answers.flush = .ok () := if_neg done

theorem openDestination_ok (valid : config.Valid)
    (opens : ¬console.OutputOpenFails config answers) :
    console.closeOutput.openDestination config answers.output = .ok { console.closeOutput with
      outputFd := newOutputFd config answers
      outputFile := newOutputFile config answers
      outputFilename := config.outputFilename } := by
  have filename := valid.outputFilename
  rw [OutputOpenFails, not_or, not_or] at opens
  obtain ⟨_, descriptor, file⟩ := opens
  rw [openDestination, newOutputFd, newOutputFile]
  cases destination : config.outputDestination with
  | toFd =>
      cases given : answers.output.fd with
      | none => exact absurd ⟨destination, Or.inr given⟩ descriptor
      | some fd =>
          have nonnegative : 0 ≤ config.outputFd := by
            by_contra negative
            exact descriptor ⟨destination, Or.inl (by omega)⟩
          have empty : config.outputFilename = "" := by simpa [destination] using filename
          rw [dupFd_ok.mpr ⟨nonnegative, rfl⟩, empty]
          rfl
  | toFile =>
      cases given : answers.output.file with
      | none => exact absurd ⟨destination, given⟩ file
      | some pointer => rfl
  | toNull | toStdout | toStderr | toBuffer =>
      have empty : config.outputFilename = "" := by simpa [destination] using filename
      rw [empty]
      rfl

theorem openOutput_fails (fails : console.OutputOpenFails config answers) : ∃ failure,
    console.closeOutput.openOutput config answers.output = ⟨console.closeOutput, .error failure⟩ := by
  have length : console.closeOutput.output = console.output := rfl
  rw [openOutput, length]
  by_cases shrinks : config.outputBufferSize < console.output.buffer.length
  · exact ⟨_, if_pos shrinks⟩
  · rw [if_neg shrinks]
    have refused : ∃ failure,
        console.closeOutput.openDestination config answers.output = .error failure := by
      rw [openDestination]
      rcases fails with smaller | ⟨destination, bad⟩ | ⟨destination, none⟩
      · exact absurd smaller shrinks
      · rw [destination]
        by_cases negative : config.outputFd < 0
        · simp only [dupFd, check, if_neg (not_le.mpr negative)]
          exact ⟨_, rfl⟩
        · have none : answers.output.fd = none := bad.resolve_left negative
          simp only [dupFd, none, check_pos (not_lt.mp negative)]
          exact ⟨_, rfl⟩
      · rw [destination]
        simp only [none]
        exact ⟨_, rfl⟩
    obtain ⟨failure, error⟩ := refused
    exact ⟨failure, by rw [error]⟩

theorem resizeOutput_fails {answer : OpenAnswer}
    (grows : console.output.buffer.length < config.outputBufferSize)
    (cannot : ¬answer.CanResize config.outputBufferSize) :
    console.resizeOutput config answer = ⟨{ console with
      outputDestination := config.outputDestination
      outputFlushMode := config.outputFlushMode }, .error .allocationFailed⟩ := by
  simp only [resizeOutput]
  rw [if_pos grows, if_neg cannot]

theorem resizeOutput_ok {answer : OpenAnswer} (sound : console.Sound)
    (larger : ¬config.outputBufferSize < console.output.buffer.length)
    (can : console.output.buffer.length < config.outputBufferSize →
      answer.CanResize config.outputBufferSize) : ∃ output,
    console.resizeOutput config answer = ⟨{ console with
      outputDestination := config.outputDestination
      outputFlushMode := config.outputFlushMode
      output := output }, .ok ()⟩ ∧ output.Sound ∧
    output.buffer.length = config.outputBufferSize ∧ output.content = console.output.content := by
  simp only [resizeOutput]
  by_cases grows : console.output.buffer.length < config.outputBufferSize
  · obtain ⟨later, content⟩ := sound.output.resize (can grows).2
    refine ⟨console.output.resize config.outputBufferSize, ?_, later, ?_, content⟩
    · rw [if_pos grows, if_pos (can grows)]
    · rw [CharBuffer.Sound.length_resize]
      omega
  · exact ⟨console.output, by rw [if_neg grows], sound.output, by omega, rfl⟩

theorem openOutput_cannotResize (valid : config.Valid)
    (opens : ¬console.OutputOpenFails config answers)
    (fails : console.OutputResizeFails config answers) :
    console.closeOutput.openOutput config answers.output =
      ⟨console.withOutput config answers console.output, .error .allocationFailed⟩ := by
  have larger : ¬config.outputBufferSize < console.closeOutput.output.buffer.length :=
    fun smaller => opens (Or.inl smaller)
  rw [openOutput, if_neg larger, openDestination_ok valid opens]
  exact resizeOutput_fails fails.1 fails.2

theorem openOutput_ok (sound : console.Sound) (valid : config.Valid)
    (opens : ¬console.OutputOpenFails config answers)
    (resizes : ¬console.OutputResizeFails config answers) : ∃ output,
    console.closeOutput.openOutput config answers.output =
      ⟨console.withOutput config answers output, .ok ()⟩ ∧ output.Sound ∧
    output.buffer.length = config.outputBufferSize ∧ output.content = console.output.content := by
  have larger : ¬config.outputBufferSize < console.closeOutput.output.buffer.length :=
    fun smaller => opens (Or.inl smaller)
  have can (grows : console.output.buffer.length < config.outputBufferSize) :
      answers.output.CanResize config.outputBufferSize := by
    by_contra cannot
    exact resizes ⟨grows, cannot⟩
  rw [openOutput, if_neg larger, openDestination_ok valid opens]
  exact resizeOutput_ok (show Sound { console.closeOutput with
    outputFd := newOutputFd config answers
    outputFile := newOutputFile config answers
    outputFilename := config.outputFilename } from ⟨sound.output, sound.input⟩) larger can

/-- The results of the part for the output, one for each of its steps that can throw. -/
theorem setOutput_flush (sound : console.Sound) (changed : console.OutputChanged config)
    (throws : console.FlushThrows answers) : ∃ output failure,
    console.setOutput config answers = .ok ⟨{ console with output := output }, .error failure⟩ ∧
    output.buffer.length = console.output.buffer.length ∧
    output.content = console.keptOutput answers.flush := by
  obtain ⟨output, done, later, length, content⟩ := flushOutput_ok sound answers.flush
  refine ⟨output, .consoleOutputFlushFailed, ?_, length, content⟩
  rw [setOutput, if_pos changed, done, flushResult_error throws]
  rfl

theorem setOutput_opening (sound : console.Sound) (changed : console.OutputChanged config)
    (flushed : ¬console.FlushThrows answers) (fails : console.OutputOpenFails config answers) :
    ∃ output failure, console.setOutput config answers =
      .ok ⟨{ console.closeOutput with output := output }, .error failure⟩ ∧
    output.buffer.length = console.output.buffer.length ∧
    output.content = console.keptOutput answers.flush := by
  obtain ⟨output, done, later, length, content⟩ := flushOutput_ok sound answers.flush
  have fails' : OutputOpenFails { console with output := output } config answers := by
    rw [OutputOpenFails, length]
    exact fails
  obtain ⟨failure, opened⟩ := openOutput_fails fails'
  refine ⟨output, failure, ?_, length, content⟩
  rw [setOutput, if_pos changed, done, flushResult_ok flushed]
  exact congrArg Except.ok opened

theorem setOutput_resizing (sound : console.Sound) (valid : config.Valid)
    (changed : console.OutputChanged config) (flushed : ¬console.FlushThrows answers)
    (opens : ¬console.OutputOpenFails config answers)
    (fails : console.OutputResizeFails config answers) : ∃ output failure,
    console.setOutput config answers =
      .ok ⟨console.withOutput config answers output, .error failure⟩ ∧
    output.buffer.length = console.output.buffer.length ∧
    output.content = console.keptOutput answers.flush := by
  obtain ⟨output, done, later, length, content⟩ := flushOutput_ok sound answers.flush
  have opens' : ¬OutputOpenFails { console with output := output } config answers := by
    rw [OutputOpenFails, length]
    exact opens
  have fails' : OutputResizeFails { console with output := output } config answers := by
    rw [OutputResizeFails, length]
    exact fails
  refine ⟨output, .allocationFailed, ?_, length, content⟩
  rw [setOutput, if_pos changed, done, flushResult_ok flushed]
  exact congrArg Except.ok (openOutput_cannotResize valid opens' fails')

theorem setOutput_ok (sound : console.Sound) (valid : config.Valid)
    (changed : console.OutputChanged config) (flushed : ¬console.FlushThrows answers)
    (opens : ¬console.OutputOpenFails config answers)
    (resizes : ¬console.OutputResizeFails config answers) : ∃ output,
    console.setOutput config answers = .ok ⟨console.withOutput config answers output, .ok ()⟩ ∧
    output.Sound ∧ output.buffer.length = config.outputBufferSize ∧
    output.content = console.keptOutput answers.flush := by
  obtain ⟨output, done, later, length, content⟩ := flushOutput_ok sound answers.flush
  have opens' : ¬OutputOpenFails { console with output := output } config answers := by
    rw [OutputOpenFails, length]
    exact opens
  have resizes' : ¬OutputResizeFails { console with output := output } config answers := by
    rw [OutputResizeFails, length]
    exact resizes
  obtain ⟨resized, opened, later', length', content'⟩ :=
    openOutput_ok (show Sound { console with output := output } from ⟨later, sound.input⟩) valid opens'
      resizes'
  refine ⟨resized, ?_, later', length', content'.trans content⟩
  rw [setOutput, if_pos changed, done, flushResult_ok flushed]
  exact congrArg Except.ok opened

/-- What the part for the output leaves when none of its steps throws. -/
def AfterOutput (console : MachineConsole) (config : ConsoleRuntimeConfig) (answers : ConfigAnswers)
    (later : MachineConsole) : Prop :=
  if console.OutputChanged config then ∃ output : CharBuffer,
    later = console.withOutput config answers output ∧ output.Sound ∧
    output.buffer.length = config.outputBufferSize ∧
    output.content = console.keptOutput answers.flush
  else later = console

theorem AfterOutput.sameOutput_iff {later : MachineConsole}
    (after : console.AfterOutput config answers later) :
    console.SameOutput later ↔ console.OutputKept config answers := by
  rw [AfterOutput] at after
  by_cases changed : console.OutputChanged config
  · rw [if_pos changed] at after
    obtain ⟨output, rfl, _, length, content⟩ := after
    rw [OutputKept, ← keptOutput_eq_content]
    constructor
    · intro same _
      refine ⟨⟨same.destination.symm, same.flushMode.symm, same.fd.symm, same.file.symm,
        same.filename.symm⟩, ?_, ?_⟩
      · rw [← content]
        exact same.content
      · rw [← length]
        exact same.length.symm
    · intro kept
      obtain ⟨⟨destination, mode, fd, file, filename⟩, flush, size⟩ := kept changed
      exact ⟨destination.symm, mode.symm, fd.symm, file.symm, filename.symm, length.trans size.symm,
        content.trans flush⟩
  · rw [if_neg changed] at after
    subst after
    exact ⟨fun _ changes => absurd changes changed, fun _ => ⟨rfl, rfl, rfl, rfl, rfl, rfl, rfl⟩⟩

end Output

section Input

/-- The console after its input was opened. -/
def withInput (console : MachineConsole) (config : ConsoleRuntimeConfig) (answers : ConfigAnswers)
    (input : CharBuffer) (closed : Bool) : MachineConsole :=
  { console with
    inputSource := config.inputSource
    inputFd := newInputFd config answers
    inputFile := newInputFile config answers
    inputFilename := config.inputFilename
    inputTtyOpened := config.inputSource = .fromStdin
    input := input
    inputClosed := closed }

theorem openSource_ok (valid : config.Valid) (opens : ¬console.InputOpenFails config answers) :
    console.closeInput.openSource config answers.input = .ok { console.closeInput with
      inputFd := newInputFd config answers
      inputFile := newInputFile config answers
      inputFilename := config.inputFilename
      inputTtyOpened := config.inputSource = .fromStdin } := by
  have filename := valid.inputFilename
  rw [InputOpenFails, not_or, not_or, not_or] at opens
  obtain ⟨_, terminal, descriptor, file⟩ := opens
  rw [openSource, newInputFd, newInputFile]
  cases source : config.inputSource with
  | fromStdin =>
      have empty : config.inputFilename = "" := by simpa [source] using filename
      have opened : answers.input.tty = true := by
        by_contra shut
        exact terminal ⟨source, by simpa using shut⟩
      simp only [check_pos opened, empty]
      rfl
  | fromFd =>
      cases given : answers.input.fd with
      | none => exact absurd ⟨source, Or.inr given⟩ descriptor
      | some fd =>
          have nonnegative : 0 ≤ config.inputFd := by
            by_contra negative
            exact descriptor ⟨source, Or.inl (by omega)⟩
          have empty : config.inputFilename = "" := by simpa [source] using filename
          rw [dupFd_ok.mpr ⟨nonnegative, rfl⟩, empty]
          rfl
  | fromFile =>
      cases given : answers.input.file with
      | none => exact absurd ⟨source, given⟩ file
      | some pointer => rfl
  | fromNull | fromBuffer =>
      have empty : config.inputFilename = "" := by simpa [source] using filename
      rw [empty]
      rfl

theorem resizeInput_fails {answer : OpenAnswer}
    (grows : console.input.buffer.length < config.inputBufferSize)
    (cannot : ¬answer.CanResize config.inputBufferSize) :
    console.resizeInput config answer = ⟨{ console with
      inputSource := config.inputSource
      inputClosed := config.inputSource = .fromNull }, .error .allocationFailed⟩ := by
  simp only [resizeInput]
  rw [if_pos grows, if_neg cannot]

theorem resizeInput_ok {answer : OpenAnswer} (sound : console.Sound)
    (larger : ¬config.inputBufferSize < console.input.buffer.length)
    (can : console.input.buffer.length < config.inputBufferSize →
      answer.CanResize config.inputBufferSize) : ∃ input,
    console.resizeInput config answer = ⟨{ console with
      inputSource := config.inputSource
      inputClosed := config.inputSource = .fromNull
      input := input }, .ok ()⟩ ∧ input.Sound ∧
    input.buffer.length = config.inputBufferSize ∧ input.content = console.input.content := by
  simp only [resizeInput]
  by_cases grows : console.input.buffer.length < config.inputBufferSize
  · obtain ⟨later, content⟩ := sound.input.resize (can grows).2
    refine ⟨console.input.resize config.inputBufferSize, ?_, later, ?_, content⟩
    · rw [if_pos grows, if_pos (can grows)]
    · rw [CharBuffer.Sound.length_resize]
      omega
  · exact ⟨console.input, by rw [if_neg grows], sound.input, by omega, rfl⟩

theorem setInput_opening (changed : console.InputChanged config)
    (fails : console.InputOpenFails config answers) : ∃ failure,
    console.setInput config answers = .ok ⟨console.closeInput, .error failure⟩ := by
  have refused : ∃ failure, console.closeInput.prepareInput config answers.input =
      ⟨console.closeInput, .error failure⟩ := by
    have length : console.closeInput.input = console.input := rfl
    rw [prepareInput, length]
    by_cases shrinks : config.inputBufferSize < console.input.buffer.length
    · exact ⟨_, if_pos shrinks⟩
    · rw [if_neg shrinks, openSource]
      rcases fails with smaller | ⟨source, shut⟩ | ⟨source, bad⟩ | ⟨source, none⟩
      · exact absurd smaller shrinks
      · rw [source]
        simp only [shut, check]
        exact ⟨_, rfl⟩
      · rw [source]
        by_cases negative : config.inputFd < 0
        · simp only [dupFd, check, if_neg (not_le.mpr negative)]
          exact ⟨_, rfl⟩
        · have none : answers.input.fd = none := bad.resolve_left negative
          simp only [dupFd, none, check_pos (not_lt.mp negative)]
          exact ⟨_, rfl⟩
      · rw [source]
        simp only [none]
        exact ⟨_, rfl⟩
  obtain ⟨failure, error⟩ := refused
  refine ⟨failure, ?_⟩
  rw [setInput, if_pos changed, openInput, error]
  rfl

theorem setInput_resizing (valid : config.Valid) (changed : console.InputChanged config)
    (opens : ¬console.InputOpenFails config answers)
    (fails : console.InputResizeFails config answers) : ∃ closed failure,
    console.setInput config answers =
      .ok ⟨console.withInput config answers console.input closed, .error failure⟩ := by
  have larger : ¬config.inputBufferSize < console.closeInput.input.buffer.length :=
    fun smaller => opens (Or.inl smaller)
  have refused : console.closeInput.prepareInput config answers.input =
      ⟨console.withInput config answers console.input (config.inputSource = .fromNull),
        .error .allocationFailed⟩ := by
    rw [prepareInput, if_neg larger, openSource_ok valid opens]
    exact resizeInput_fails fails.1 fails.2
  refine ⟨config.inputSource = .fromNull, .allocationFailed, ?_⟩
  rw [setInput, if_pos changed, openInput, refused]
  rfl

theorem prepareInput_ok (sound : console.Sound) (valid : config.Valid)
    (opens : ¬console.InputOpenFails config answers)
    (resizes : ¬console.InputResizeFails config answers) : ∃ input,
    console.closeInput.prepareInput config answers.input =
      ⟨console.withInput config answers input (config.inputSource = .fromNull), .ok ()⟩ ∧
    input.Sound ∧ input.buffer.length = config.inputBufferSize ∧
    input.content = console.input.content := by
  have larger : ¬config.inputBufferSize < console.closeInput.input.buffer.length :=
    fun smaller => opens (Or.inl smaller)
  have can (grows : console.input.buffer.length < config.inputBufferSize) :
      answers.input.CanResize config.inputBufferSize := by
    by_contra cannot
    exact resizes ⟨grows, cannot⟩
  rw [prepareInput, if_neg larger, openSource_ok valid opens]
  exact resizeInput_ok (show Sound { console.closeInput with
    inputFd := newInputFd config answers
    inputFile := newInputFile config answers
    inputFilename := config.inputFilename
    inputTtyOpened := config.inputSource = .fromStdin } from ⟨sound.output, sound.input⟩) larger can

theorem refillThrows_iff (answers : ConfigAnswers) {input : CharBuffer}
    (content : input.content = console.input.content)
    (length : input.buffer.length = config.inputBufferSize) (valid : config.Valid) :
    (input.content = [] ∧ decide (config.inputSource = .fromNull) = false ∧
      (console.withInput config answers input (config.inputSource = .fromNull)).SourceFails
        answers.refill ∧ answers.refill.errno ≠ epipe) ↔ console.RefillThrows config answers := by
  have size := valid.inputBufferSize
  rw [content, RefillThrows, SourceFails, withInput]
  cases source : config.inputSource <;> simp [length, size] <;> tauto

/-- A source that fails gives no bytes. -/
theorem sourceGives_of_fails {answer : InputAnswer} (fails : console.SourceFails answer) :
    console.sourceGives answer = [] := by
  unfold SourceFails at fails
  unfold sourceGives
  split at fails
  · exact absurd fails id
  · exact absurd fails id
  · rw [fails.2]
    simp
  · rw [fails.2]
    simp
  · exact fails.1

theorem setInput_refill (sound : console.Sound) (valid : config.Valid)
    (changed : console.InputChanged config) (opens : ¬console.InputOpenFails config answers)
    (resizes : ¬console.InputResizeFails config answers) : ∃ input closed,
    console.setInput config answers = .ok ⟨console.withInput config answers input closed,
      if console.RefillThrows config answers then .error .consoleInputRefillFailed else .ok ()⟩ ∧
    input.buffer.length = config.inputBufferSize ∧
    (console.RefillThrows config answers → input.content = console.input.content) := by
  obtain ⟨prepared, done, later, length, content⟩ := prepareInput_ok sound valid opens resizes
  obtain ⟨input, closed, refilled, _, length', content'⟩ := refillInput_ok
    (show (console.withInput config answers prepared (config.inputSource = .fromNull)).Sound from
      ⟨sound.output, later⟩) answers.refill
  have throws := refillThrows_iff answers content length valid
  refine ⟨input, closed, ?_, length'.trans length, fun threw => ?_⟩
  · rw [setInput, if_pos changed, openInput, done]
    simp only [← throws]
    exact refilled
  · obtain ⟨empty, opened, fails, _⟩ := throws.mpr threw
    rw [content', suppliedInput, sourceGives_of_fails fails, ite_self, List.append_nil]
    exact content

end Input

section Whole

/-- The part for the output leaves the settings of the input alone. -/
structure Beside (console later : MachineConsole) : Prop where
  source : later.inputSource = console.inputSource
  fd : later.inputFd = console.inputFd
  file : later.inputFile = console.inputFile
  filename : later.inputFilename = console.inputFilename
  ttyOpened : later.inputTtyOpened = console.inputTtyOpened
  input : later.input = console.input
  ttyCols : later.ttyCols = console.ttyCols
  ttyRows : later.ttyRows = console.ttyRows

namespace Beside

variable {mid : MachineConsole}

theorem inputChanged (beside : console.Beside mid) :
    mid.InputChanged config ↔ console.InputChanged config := by
  rw [InputChanged, InputChanged, beside.source, beside.fd, beside.filename, beside.input]

theorem inputOpenFails (beside : console.Beside mid) (answers : ConfigAnswers) :
    mid.InputOpenFails config answers ↔ console.InputOpenFails config answers := by
  rw [InputOpenFails, InputOpenFails, beside.input]

theorem inputResizeFails (beside : console.Beside mid) (answers : ConfigAnswers) :
    mid.InputResizeFails config answers ↔ console.InputResizeFails config answers := by
  rw [InputResizeFails, InputResizeFails, beside.input]

theorem refillThrows (beside : console.Beside mid) (answers : ConfigAnswers) :
    mid.RefillThrows config answers ↔ console.RefillThrows config answers := by
  rw [RefillThrows, RefillThrows, beside.input]

theorem closeInput (beside : console.Beside mid) :
    console.SameInput mid.closeInput ↔ console.InputShut := by
  constructor
  · intro same
    exact ⟨same.source.symm, same.fd.symm, same.file.symm, same.filename.symm, same.ttyOpened.symm⟩
  · rintro ⟨source, fd, file, filename, opened⟩
    have input : mid.closeInput.input = console.input := beside.input
    exact ⟨source.symm, fd.symm, file.symm, filename.symm, opened.symm, by rw [input],
      by rw [input]⟩

theorem withInput {input : CharBuffer} {closed : Bool} :
    console.SameInput (mid.withInput config answers input closed) ↔
      console.InputAsRequested config answers ∧
      input.buffer.length = console.input.buffer.length ∧
      input.content = console.input.content := by
  constructor
  · intro same
    exact ⟨⟨same.source.symm, same.fd.symm, same.file.symm, same.filename.symm,
      same.ttyOpened.symm⟩, same.length, same.content⟩
  · rintro ⟨⟨source, fd, file, filename, opened⟩, length, content⟩
    exact ⟨source.symm, fd.symm, file.symm, filename.symm, opened.symm, length, content⟩

end Beside

theorem AfterOutput.beside {mid : MachineConsole} (after : console.AfterOutput config answers mid) :
    console.Beside mid := by
  rw [AfterOutput] at after
  split at after
  · obtain ⟨output, rfl, _⟩ := after
    exact ⟨rfl, rfl, rfl, rfl, rfl, rfl, rfl, rfl⟩
  · subst after
    exact ⟨rfl, rfl, rfl, rfl, rfl, rfl, rfl, rfl⟩

theorem setConfig_invalid (console : MachineConsole) (answers : ConfigAnswers)
    (invalid : ¬config.Valid) : ∃ failure,
    console.setConfig config answers = .ok ⟨console, .error failure⟩ := by
  obtain ⟨failure, refused⟩ := validateConfig_error invalid
  exact ⟨failure, by rw [setConfig, refused]; rfl⟩

theorem setConfig_output {later : MachineConsole} {failure : Failure} (valid : config.Valid)
    (output : console.setOutput config answers = .ok ⟨later, .error failure⟩) :
    console.setConfig config answers = .ok ⟨later, .error failure⟩ := by
  rw [setConfig, validateConfig_ok.mpr valid, output]
  rfl

theorem setConfig_input {mid later : MachineConsole} {failure : Failure} (valid : config.Valid)
    (output : console.setOutput config answers = .ok ⟨mid, .ok ()⟩)
    (input : mid.setInput config answers = .ok ⟨later, .error failure⟩) :
    console.setConfig config answers = .ok ⟨later, .error failure⟩ := by
  rw [setConfig, validateConfig_ok.mpr valid, output]
  show (mid.setInput config answers >>= _) = _
  rw [input]
  rfl

theorem setConfig_done {mid later : MachineConsole} (valid : config.Valid)
    (output : console.setOutput config answers = .ok ⟨mid, .ok ()⟩)
    (input : mid.setInput config answers = .ok ⟨later, .ok ()⟩) :
    console.setConfig config answers = .ok ⟨later.setTtySize config, .ok ()⟩ := by
  rw [setConfig, validateConfig_ok.mpr valid, output]
  show (mid.setInput config answers >>= _) = _
  rw [input]
  rfl

theorem atomic_error {later : MachineConsole} {failure : Failure}
    (threw : console.setConfig config answers = .ok ⟨later, .error failure⟩) :
    console.Atomic config answers ↔ console.SameSettings later := by
  rw [Atomic, threw]
  constructor
  · rintro ⟨outcome, same, holds⟩
    cases same
    exact holds
  · intro same
    exact ⟨_, rfl, same⟩

theorem atomic_done {later : MachineConsole}
    (returned : console.setConfig config answers = .ok ⟨later, .ok ()⟩)
    (applied : Applied config answers later) : console.Atomic config answers := by
  rw [Atomic, returned]
  exact ⟨_, rfl, applied⟩

/-- No step of the part for the output throws. -/
theorem setOutput_done (sound : console.Sound) (valid : config.Valid)
    (flushed : ¬(console.OutputChanged config ∧ console.FlushThrows answers))
    (opens : ¬(console.OutputChanged config ∧ console.OutputOpenFails config answers))
    (resizes : ¬(console.OutputChanged config ∧ console.OutputResizeFails config answers)) :
    ∃ mid, console.setOutput config answers = .ok ⟨mid, .ok ()⟩ ∧ mid.Sound ∧
    console.AfterOutput config answers mid := by
  by_cases changed : console.OutputChanged config
  · obtain ⟨output, done, later, length, content⟩ := setOutput_ok sound valid changed
      (fun throws => flushed ⟨changed, throws⟩) (fun fails => opens ⟨changed, fails⟩)
      (fun fails => resizes ⟨changed, fails⟩)
    refine ⟨_, done, ⟨later, sound.input⟩, ?_⟩
    rw [AfterOutput, if_pos changed]
    exact ⟨output, rfl, later, length, content⟩
  · refine ⟨console, ?_, sound, ?_⟩
    · rw [setOutput, if_neg changed]
      rfl
    · rw [AfterOutput, if_neg changed]

/-- The part of the configuration for the output is applied. -/
theorem AfterOutput.applied {mid : MachineConsole} (after : console.AfterOutput config answers mid)
    (valid : config.Valid)
    (opens : ¬(console.OutputChanged config ∧ console.OutputOpenFails config answers)) :
    mid.outputDestination = config.outputDestination ∧
    mid.outputFilename = config.outputFilename ∧
    (mid.outputFd = config.outputFd ∨
      config.outputDestination = .toFd ∧ answers.output.fd = some mid.outputFd) ∧
    mid.outputFlushMode = config.outputFlushMode ∧
    mid.output.buffer.length = config.outputBufferSize := by
  rw [AfterOutput] at after
  by_cases changed : console.OutputChanged config
  · rw [if_pos changed] at after
    obtain ⟨output, rfl, _, length, _⟩ := after
    refine ⟨rfl, rfl, ?_, rfl, length⟩
    show newOutputFd config answers = config.outputFd ∨
      config.outputDestination = .toFd ∧ answers.output.fd = some (newOutputFd config answers)
    rw [newOutputFd]
    by_cases descriptor : config.outputDestination = .toFd
    · rw [if_pos descriptor]
      cases given : answers.output.fd with
      | none => exact absurd ⟨changed, Or.inr (Or.inl ⟨descriptor, Or.inr given⟩)⟩ opens
      | some fd => exact Or.inr ⟨descriptor, rfl⟩
    · rw [if_neg descriptor]
      exact Or.inl (valid.outputFd.resolve_right descriptor).symm
  · rw [if_neg changed] at after
    subst after
    rw [OutputChanged] at changed
    push Not at changed
    obtain ⟨destination, fd, filename, mode, length⟩ := changed
    exact ⟨destination, filename, Or.inl fd, mode, length.symm⟩

/-- No step of the part for the input throws. -/
theorem setInput_done (sound : console.Sound) (valid : config.Valid)
    (opens : ¬(console.InputChanged config ∧ console.InputOpenFails config answers))
    (resizes : ¬(console.InputChanged config ∧ console.InputResizeFails config answers))
    (refills : ¬(console.InputChanged config ∧ console.RefillThrows config answers)) :
    ∃ later, console.setInput config answers = .ok ⟨later, .ok ()⟩ ∧
    later.outputDestination = console.outputDestination ∧
    later.outputFilename = console.outputFilename ∧ later.outputFd = console.outputFd ∧
    later.outputFlushMode = console.outputFlushMode ∧ later.output = console.output ∧
    later.inputSource = config.inputSource ∧ later.inputFilename = config.inputFilename ∧
    (later.inputFd = config.inputFd ∨
      config.inputSource = .fromFd ∧ answers.input.fd = some later.inputFd) ∧
    later.input.buffer.length = config.inputBufferSize := by
  by_cases changed : console.InputChanged config
  · have opened : ¬console.InputOpenFails config answers := fun fails => opens ⟨changed, fails⟩
    obtain ⟨input, closed, done, length, _⟩ := setInput_refill sound valid changed opened
      (fun fails => resizes ⟨changed, fails⟩)
    rw [if_neg (fun throws => refills ⟨changed, throws⟩)] at done
    refine ⟨_, done, rfl, rfl, rfl, rfl, rfl, rfl, rfl, ?_, length⟩
    show newInputFd config answers = config.inputFd ∨
      config.inputSource = .fromFd ∧ answers.input.fd = some (newInputFd config answers)
    rw [newInputFd]
    by_cases descriptor : config.inputSource = .fromFd
    · rw [if_pos descriptor]
      cases given : answers.input.fd with
      | none => exact absurd (Or.inr (Or.inr (Or.inl ⟨descriptor, Or.inr given⟩))) opened
      | some fd => exact Or.inr ⟨descriptor, rfl⟩
    · rw [if_neg descriptor]
      exact Or.inl (valid.inputFd.resolve_right descriptor).symm
  · refine ⟨console, ?_, rfl, rfl, rfl, rfl, rfl, ?_⟩
    · rw [setInput, if_neg changed]
      rfl
    · rw [InputChanged] at changed
      push Not at changed
      obtain ⟨source, fd, filename, length⟩ := changed
      exact ⟨source, filename, Or.inl fd, length.symm⟩

/-- When the part for the output throws, the settings are the same if those of the output are. -/
theorem Beside.sameSettings {later : MachineConsole} (beside : console.Beside later) :
    console.SameSettings later ↔ console.SameOutput later := by
  constructor
  · exact SameSettings.output
  · intro same
    exact ⟨same, ⟨beside.source, beside.fd, beside.file, beside.filename, beside.ttyOpened,
      by rw [beside.input], by rw [beside.input]⟩, beside.ttyCols, beside.ttyRows⟩

/-- A change of the configuration is atomic if and only if the step that throws has nothing to undo. -/
theorem setConfig_atomic_iff (sound : console.Sound) (config : ConsoleRuntimeConfig)
    (answers : ConfigAnswers) : console.Atomic config answers ↔
      console.NothingToUndo config answers (console.throwingStage config answers) := by
  rw [throwingStage]
  by_cases invalid : ¬config.Valid
  · obtain ⟨failure, threw⟩ := setConfig_invalid console answers invalid
    rw [if_pos invalid, atomic_error threw]
    exact ⟨fun _ => trivial, fun _ => ⟨⟨rfl, rfl, rfl, rfl, rfl, rfl, rfl⟩,
      ⟨rfl, rfl, rfl, rfl, rfl, rfl, rfl⟩, rfl, rfl⟩⟩
  have valid : config.Valid := not_not.mp invalid
  rw [if_neg invalid]
  by_cases flush : console.OutputChanged config ∧ console.FlushThrows answers
  · obtain ⟨output, failure, done, length, content⟩ := setOutput_flush sound flush.1 flush.2
    have beside : console.Beside { console with output := output } :=
      ⟨rfl, rfl, rfl, rfl, rfl, rfl, rfl, rfl⟩
    rw [if_pos flush, atomic_error (setConfig_output valid done), beside.sameSettings, NothingToUndo,
      ← keptOutput_eq_content, ← content]
    exact ⟨SameOutput.content, fun same => ⟨rfl, rfl, rfl, rfl, rfl, length, same⟩⟩
  rw [if_neg flush]
  by_cases opening : console.OutputChanged config ∧ console.OutputOpenFails config answers
  · obtain ⟨output, failure, done, length, content⟩ := setOutput_opening sound opening.1
      (fun throws => flush ⟨opening.1, throws⟩) opening.2
    have beside : console.Beside { console.closeOutput with output := output } :=
      ⟨rfl, rfl, rfl, rfl, rfl, rfl, rfl, rfl⟩
    rw [if_pos opening, atomic_error (setConfig_output valid done), beside.sameSettings,
      NothingToUndo, ← keptOutput_eq_content, ← content]
    constructor
    · intro same
      exact ⟨⟨same.destination.symm, same.fd.symm, same.file.symm, same.filename.symm⟩,
        same.content⟩
    · rintro ⟨⟨destination, fd, file, filename⟩, same⟩
      exact ⟨destination.symm, rfl, fd.symm, file.symm, filename.symm, length, same⟩
  rw [if_neg opening]
  by_cases resizing : console.OutputChanged config ∧ console.OutputResizeFails config answers
  · obtain ⟨output, failure, done, length, content⟩ := setOutput_resizing sound valid resizing.1
      (fun throws => flush ⟨resizing.1, throws⟩) (fun fails => opening ⟨resizing.1, fails⟩) resizing.2
    have beside : console.Beside (console.withOutput config answers output) :=
      ⟨rfl, rfl, rfl, rfl, rfl, rfl, rfl, rfl⟩
    rw [if_pos resizing, atomic_error (setConfig_output valid done), beside.sameSettings,
      NothingToUndo, ← keptOutput_eq_content, ← content]
    constructor
    · intro same
      exact ⟨⟨same.destination.symm, same.flushMode.symm, same.fd.symm, same.file.symm,
        same.filename.symm⟩, same.content⟩
    · rintro ⟨⟨destination, mode, fd, file, filename⟩, same⟩
      exact ⟨destination.symm, mode.symm, fd.symm, file.symm, filename.symm, length, same⟩
  rw [if_neg resizing]
  -- The output is done, and the console that the input finds is the old one beside the output.
  obtain ⟨mid, output, sound', after⟩ := setOutput_done sound valid flush opening resizing
  have beside := after.beside
  have kept := after.sameOutput_iff
  simp only [← beside.inputChanged, ← beside.inputOpenFails answers, ← beside.inputResizeFails answers,
    ← beside.refillThrows answers]
  by_cases opening' : mid.InputChanged config ∧ mid.InputOpenFails config answers
  · obtain ⟨failure, input⟩ := setInput_opening opening'.1 opening'.2
    rw [if_pos opening', atomic_error (setConfig_input valid output input), NothingToUndo, ← kept,
      ← beside.closeInput]
    constructor
    · rintro ⟨⟨destination, mode, fd, file, filename, length, content⟩, same, _, _⟩
      exact ⟨⟨destination, mode, fd, file, filename, length, content⟩, same⟩
    · rintro ⟨⟨destination, mode, fd, file, filename, length, content⟩, same⟩
      exact ⟨⟨destination, mode, fd, file, filename, length, content⟩, same, beside.ttyCols,
        beside.ttyRows⟩
  rw [if_neg opening']
  by_cases resizing' : mid.InputChanged config ∧ mid.InputResizeFails config answers
  · obtain ⟨closed, failure, input⟩ := setInput_resizing valid resizing'.1
      (fun fails => opening' ⟨resizing'.1, fails⟩) resizing'.2
    rw [if_pos resizing', atomic_error (setConfig_input valid output input), NothingToUndo, ← kept]
    constructor
    · rintro ⟨⟨destination, mode, fd, file, filename, length, content⟩, same, _, _⟩
      exact ⟨⟨destination, mode, fd, file, filename, length, content⟩,
        (Beside.withInput.mp same).1⟩
    · rintro ⟨⟨destination, mode, fd, file, filename, length, content⟩, asked⟩
      exact ⟨⟨destination, mode, fd, file, filename, length, content⟩,
        Beside.withInput.mpr ⟨asked, by rw [beside.input], by rw [beside.input]⟩, beside.ttyCols,
        beside.ttyRows⟩
  rw [if_neg resizing']
  by_cases refill : mid.InputChanged config ∧ mid.RefillThrows config answers
  · obtain ⟨filled, closed, input, length, content⟩ := setInput_refill sound' valid refill.1
      (fun fails => opening' ⟨refill.1, fails⟩) (fun fails => resizing' ⟨refill.1, fails⟩)
    have same : filled.content = console.input.content := by
      rw [content refill.2, beside.input]
    rw [if_pos refill.2] at input
    rw [if_pos refill, atomic_error (setConfig_input valid output input), NothingToUndo, ← kept,
      ← length]
    constructor
    · rintro ⟨⟨destination, mode, fd, file, filename, length', content'⟩, unchanged, _, _⟩
      obtain ⟨asked, size, _⟩ := Beside.withInput.mp unchanged
      exact ⟨⟨destination, mode, fd, file, filename, length', content'⟩, asked, size.symm⟩
    · rintro ⟨⟨destination, mode, fd, file, filename, length', content'⟩, asked, size⟩
      exact ⟨⟨destination, mode, fd, file, filename, length', content'⟩,
        Beside.withInput.mpr ⟨asked, size.symm, same⟩, beside.ttyCols, beside.ttyRows⟩
  rw [if_neg refill]
  obtain ⟨destination, filename, fd, mode, length⟩ := after.applied valid opening
  obtain ⟨later, input, destination', filename', fd', mode', buffer, source, name, descriptor,
    size⟩ := setInput_done sound' valid opening' resizing' refill
  constructor
  · exact fun _ => trivial
  · intro _
    apply atomic_done (setConfig_done valid output input)
    refine ⟨source, destination'.trans destination, name, filename'.trans filename, descriptor, ?_,
      mode'.trans mode, rfl, rfl, ?_, size⟩
    · show later.outputFd = config.outputFd ∨ _ ∧ answers.output.fd = some later.outputFd
      rw [fd']
      exact fd
    · show later.output.buffer.length = config.outputBufferSize
      rw [buffer]
      exact length

section Soundness

variable {answer : OpenAnswer}

theorem openDestination_buffers {opened : MachineConsole}
    (done : console.openDestination config answer = .ok opened) :
    opened.output = console.output ∧ opened.input = console.input := by
  rw [openDestination] at done
  split at done
  case h_5 =>
      obtain ⟨fd, _, rest⟩ := bind_ok.mp done
      cases rest
      exact ⟨rfl, rfl⟩
  case h_6 =>
      obtain ⟨file, _, rest⟩ := bind_ok.mp done
      cases rest
      exact ⟨rfl, rfl⟩
  all_goals
    cases done
    exact ⟨rfl, rfl⟩

theorem openSource_buffers {opened : MachineConsole}
    (done : console.openSource config answer = .ok opened) :
    opened.output = console.output ∧ opened.input = console.input := by
  rw [openSource] at done
  split at done
  case h_1 | h_2 =>
      cases done
      exact ⟨rfl, rfl⟩
  all_goals
    obtain ⟨_, _, rest⟩ := bind_ok.mp done
    cases rest
    exact ⟨rfl, rfl⟩

theorem openOutput_sound (sound : console.Sound) :
    (console.openOutput config answer).console.Sound := by
  rw [openOutput]
  split
  · exact sound
  · split
    next => exact sound
    next opened done =>
      obtain ⟨output, input⟩ := openDestination_buffers done
      have again : opened.Sound := ⟨output ▸ sound.output, input ▸ sound.input⟩
      simp only [resizeOutput]
      split
      · split
        next can => exact ⟨(again.output.resize can.2).1, again.input⟩
        next => exact ⟨again.output, again.input⟩
      · exact ⟨again.output, again.input⟩

theorem openInput_sound (sound : console.Sound) {refill : InputAnswer} {outcome : Outcome Unit}
    (done : console.openInput config answer refill = .ok outcome) : outcome.console.Sound := by
  have prepared : (console.prepareInput config answer).console.Sound := by
    rw [prepareInput]
    split
    · exact sound
    · split
      next => exact sound
      next opened done =>
        obtain ⟨output, input⟩ := openSource_buffers done
        have again : opened.Sound := ⟨output ▸ sound.output, input ▸ sound.input⟩
        simp only [resizeInput]
        split
        · split
          next can => exact ⟨again.output, (again.input.resize can.2).1⟩
          next => exact ⟨again.output, again.input⟩
        · exact ⟨again.output, again.input⟩
  rw [openInput] at done
  split at done
  next =>
    cases done
    exact prepared
  next =>
    obtain ⟨input, closed, refilled, later, _⟩ := refillInput_ok prepared refill
    cases refilled.symm.trans done
    exact ⟨prepared.output, later⟩

theorem initial_sound : initial.Sound := by
  constructor <;> exact ⟨by decide, by decide, by decide, by decide⟩

/-- The constructor puts both buffers in order. -/
theorem create_sound {outcome : Outcome Unit} (done : create config answers = .ok outcome) :
    outcome.console.Sound := by
  have blank : (initial.setTtySize config).Sound := ⟨initial_sound.output, initial_sound.input⟩
  rw [create] at done
  split at done
  next =>
    cases done
    exact initial_sound
  next =>
    obtain ⟨opened, input, rest⟩ := bind_ok.mp done
    have sound := openInput_sound blank input
    split at rest
    next =>
      cases rest
      exact sound
    next =>
      cases rest
      exact openOutput_sound sound

/-- A change of the configuration keeps both buffers in order, also when it throws. -/
theorem setConfig_sound (sound : console.Sound) {outcome : Outcome Unit}
    (done : console.setConfig config answers = .ok outcome) : outcome.console.Sound := by
  have output {switched : Outcome Unit} (done : console.setOutput config answers = .ok switched) :
      switched.console.Sound := by
    rw [setOutput] at done
    split at done
    · obtain ⟨output, flushed, later, _⟩ := flushOutput_ok sound answers.flush
      obtain ⟨result, flush, rest⟩ := bind_ok.mp done
      obtain rfl := Except.ok.inj (flushed.symm.trans flush)
      split at rest
      next =>
        cases rest
        exact ⟨later, sound.input⟩
      next =>
        cases rest
        exact openOutput_sound (show (closeOutput { console with output := output }).Sound from
          ⟨later, sound.input⟩)
    · cases done
      exact sound
  rw [setConfig] at done
  split at done
  next =>
    cases done
    exact sound
  next =>
    obtain ⟨switched, first, rest⟩ := bind_ok.mp done
    have middle := output first
    split at rest
    next =>
      cases rest
      exact middle
    next =>
      obtain ⟨opened, second, last⟩ := bind_ok.mp rest
      have final : opened.console.Sound := by
        rw [setInput] at second
        split at second
        · exact openInput_sound (show switched.console.closeInput.Sound from
            ⟨middle.output, middle.input⟩) second
        · cases second
          exact middle
      split at last
      next =>
        cases last
        exact final
      next =>
        cases last
        exact ⟨final.output, final.input⟩

end Soundness

/-- A console that shows its output in a buffer, and a configuration with a descriptor that cannot be
duplicated. -/
def shownConsole : MachineConsole :=
  { initial with
    outputDestination := .toBuffer
    output := ⟨[97, 98, 99, 0], 0, 3⟩
    input := ⟨[0], 0, 0⟩ }

def refusedConfig : ConsoleRuntimeConfig where
  outputDestination := .toFd
  outputBufferSize := 4
  outputFd := 7
  inputBufferSize := 1

def refusingAnswers : ConfigAnswers := ⟨⟨none, true, false, 0⟩, {}, {}, ⟨false, none, false, false, 0⟩⟩

/-- The old destination is gone when the new one cannot be opened. -/
theorem setConfig_not_atomic : ¬shownConsole.Atomic refusedConfig refusingAnswers := by
  have threw : shownConsole.setConfig refusedConfig refusingAnswers =
      .ok ⟨shownConsole.closeOutput, .error .dupFailed⟩ := rfl
  rw [atomic_error threw]
  intro same
  exact absurd same.output.destination (by decide)

theorem setConfig_atomic_iff_shown : shownConsole.Atomic refusedConfig refusingAnswers ↔
    shownConsole.NothingToUndo refusedConfig refusingAnswers
      (shownConsole.throwingStage refusedConfig refusingAnswers) :=
  setConfig_atomic_iff (by constructor <;> exact ⟨by decide, by decide, by decide, by decide⟩) _ _

end Whole

end MachineConsole

end MachineEmulator
