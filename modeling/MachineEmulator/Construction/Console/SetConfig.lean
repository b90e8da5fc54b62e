/-
This file gives the change of the configuration of a console, and the construction of a console with
its first configuration.
-/

import MachineEmulator.Construction.Console.MachineConsole

namespace MachineEmulator

open Console

namespace Console

/-- What the host answers when an endpoint is opened: the new descriptor of `dup`, the file pointer of
`fopen` (none for a failure), whether the terminal can be opened and whether there is memory for a
larger buffer. -/
structure OpenAnswer where
  fd : Option Int := none
  file : Option Nat := none
  tty : Bool := true
  memory : Bool := true
deriving DecidableEq

/-- What the host answers during a change of the configuration. -/
structure ConfigAnswers where
  flush : OutputAnswer
  output : OpenAnswer
  input : OpenAnswer
  refill : InputAnswer
deriving DecidableEq

/-- This is `validate_config`. -/
def validateConfig (config : ConsoleRuntimeConfig) : Except Failure Unit := do
  check (¬(config.outputFilename ≠ "" ∧ config.outputDestination ≠ .toFile)) .consoleOutputFilenameSet
  check (¬(config.inputFilename ≠ "" ∧ config.inputSource ≠ .fromFile)) .consoleInputFilenameSet
  check (¬(config.outputFd ≠ -1 ∧ config.outputDestination ≠ .toFd)) .consoleOutputFdSet
  check (¬(config.inputFd ≠ -1 ∧ config.inputSource ≠ .fromFd)) .consoleInputFdSet
  check (config.outputBufferSize ≠ 0) .consoleOutputBufferEmpty
  check (config.inputBufferSize ≠ 0) .consoleInputBufferEmpty

/-- This is `os::dup_fd`. -/
def dupFd (fd : Int) (answer : Option Int) : Except Failure Int := do
  check (0 ≤ fd) .invalidFileDescriptor
  match answer with
  | none => .error .dupFailed
  | some newFd => return newFd

/-- A vector cannot be resized beyond `max_size` or without memory. -/
def OpenAnswer.CanResize (answer : OpenAnswer) (size : Nat) : Prop :=
  answer.memory = true ∧ size < 2 ^ 63

instance (answer : OpenAnswer) (size : Nat) : Decidable (answer.CanResize size) :=
  inferInstanceAs (Decidable (_ ∧ _))

/-- This is `make_unique_fopen`. -/
def makeUniqueFopen : Option Nat → Except Failure Nat
  | none => .error .openFileFailed
  | some file => .ok file

end Console

namespace MachineConsole

variable (console : MachineConsole) (config : ConsoleRuntimeConfig)

section Output

/-- This is `close_output`. -/
def closeOutput : MachineConsole :=
  { console with
    outputFd := -1
    outputFile := none
    outputFilename := ""
    outputDestination := .toNull }

/-- The switch of `open_output`. It changes nothing when it throws. -/
def openDestination (answer : OpenAnswer) : Except Failure MachineConsole :=
  match config.outputDestination with
  | .toNull | .toStdout | .toStderr | .toBuffer => return console
  | .toFd => do
      let fd ← dupFd config.outputFd answer.fd
      return { console with outputFd := fd }
  | .toFile => do
      let file ← makeUniqueFopen answer.file
      return { console with outputFile := some file, outputFilename := config.outputFilename }

/-- The end of `open_output`, whose fields are set before the buffer is resized. -/
def resizeOutput (answer : OpenAnswer) : Outcome Unit :=
  let opened := { console with
    outputDestination := config.outputDestination
    outputFlushMode := config.outputFlushMode }
  if console.output.buffer.length < config.outputBufferSize then
    if answer.CanResize config.outputBufferSize then
      ⟨{ opened with output := console.output.resize config.outputBufferSize }, .ok ()⟩
    else ⟨opened, .error .allocationFailed⟩
  else ⟨opened, .ok ()⟩

/-- This is `open_output`. -/
def openOutput (answer : OpenAnswer) : Outcome Unit :=
  if config.outputBufferSize < console.output.buffer.length then
    ⟨console, .error .consoleOutputBufferShrinks⟩
  else
    match console.openDestination config answer with
    | .error failure => ⟨console, .error failure⟩
    | .ok opened => opened.resizeOutput config answer

def OutputChanged : Prop :=
  console.outputDestination ≠ config.outputDestination ∨ console.outputFd ≠ config.outputFd ∨
    console.outputFilename ≠ config.outputFilename ∨
    console.outputFlushMode ≠ config.outputFlushMode ∨
    config.outputBufferSize ≠ console.output.buffer.length

instance : Decidable (console.OutputChanged config) := by
  unfold OutputChanged
  infer_instance

/-- The part of `set_config` for the output. -/
def setOutput (answers : ConfigAnswers) : Except Failure (Outcome Unit) :=
  if console.OutputChanged config then do
    let flushed ← console.flushOutput answers.flush
    match flushed.result with
    | .error _ => return flushed
    | .ok () => return flushed.console.closeOutput.openOutput config answers.output
  else return ⟨console, .ok ()⟩

end Output

section Input

/-- This is `close_input`. -/
def closeInput : MachineConsole :=
  { console with
    inputTtyOpened := false
    inputFd := -1
    inputFile := none
    inputFilename := ""
    inputSource := .fromNull
    inputClosed := true }

/-- The switch of `open_input`. It changes nothing when it throws. -/
def openSource (answer : OpenAnswer) : Except Failure MachineConsole :=
  match config.inputSource with
  | .fromNull | .fromBuffer => return console
  | .fromStdin => do
      check (answer.tty = true) .openTtyFailed
      return { console with inputTtyOpened := true }
  | .fromFd => do
      let fd ← dupFd config.inputFd answer.fd
      return { console with inputFd := fd }
  | .fromFile => do
      let file ← makeUniqueFopen answer.file
      return { console with inputFile := some file, inputFilename := config.inputFilename }

/-- The part of `open_input` that resizes the buffer, after the fields are set. -/
def resizeInput (answer : OpenAnswer) : Outcome Unit :=
  let opened := { console with
    inputSource := config.inputSource
    inputClosed := config.inputSource = .fromNull }
  if console.input.buffer.length < config.inputBufferSize then
    if answer.CanResize config.inputBufferSize then
      ⟨{ opened with input := console.input.resize config.inputBufferSize }, .ok ()⟩
    else ⟨opened, .error .allocationFailed⟩
  else ⟨opened, .ok ()⟩

/-- The part of `open_input` before the refill. -/
def prepareInput (answer : OpenAnswer) : Outcome Unit :=
  if config.inputBufferSize < console.input.buffer.length then
    ⟨console, .error .consoleInputBufferShrinks⟩
  else
    match console.openSource config answer with
    | .error failure => ⟨console, .error failure⟩
    | .ok opened => opened.resizeInput config answer

/-- This is `open_input`. -/
def openInput (answer : OpenAnswer) (refill : InputAnswer) : Except Failure (Outcome Unit) :=
  let prepared := console.prepareInput config answer
  match prepared.result with
  | .error _ => return prepared
  | .ok () => prepared.console.refillInput refill

def InputChanged : Prop :=
  console.inputSource ≠ config.inputSource ∨ console.inputFd ≠ config.inputFd ∨
    console.inputFilename ≠ config.inputFilename ∨
    config.inputBufferSize ≠ console.input.buffer.length

instance : Decidable (console.InputChanged config) := by
  unfold InputChanged
  infer_instance

/-- The part of `set_config` for the input. -/
def setInput (answers : ConfigAnswers) : Except Failure (Outcome Unit) :=
  if console.InputChanged config then
    console.closeInput.openInput config answers.input answers.refill
  else return ⟨console, .ok ()⟩

end Input

def setTtySize : MachineConsole := { console with ttyCols := config.ttyCols, ttyRows := config.ttyRows }

/-- This is `set_config`. -/
def setConfig (answers : ConfigAnswers) : Except Failure (Outcome Unit) :=
  match validateConfig config with
  | .error failure => return ⟨console, .error failure⟩
  | .ok () => do
      let output ← console.setOutput config answers
      match output.result with
      | .error _ => return output
      | .ok () => do
          let input ← output.console.setInput config answers
          match input.result with
          | .error _ => return input
          | .ok () => return ⟨input.console.setTtySize config, .ok ()⟩

/-- The fields of a console before its constructor runs. -/
def initial : MachineConsole where
  outputDestination := .toStdout
  outputFlushMode := .everyLine
  outputFd := -1
  outputFilename := ""
  outputFile := none
  output := ⟨[], 0, 0⟩
  inputSource := .fromNull
  inputFd := -1
  inputFilename := ""
  inputFile := none
  input := ⟨[], 0, 0⟩
  inputClosed := true
  inputTtyOpened := false
  ttyCols := 80
  ttyRows := 25

/-- This is the constructor. -/
def create (answers : ConfigAnswers) : Except Failure (Outcome Unit) :=
  match validateConfig config with
  | .error failure => return ⟨initial, .error failure⟩
  | .ok () => do
      let input ← (initial.setTtySize config).openInput config answers.input answers.refill
      match input.result with
      | .error _ => return input
      | .ok () => return input.console.openOutput config answers.output

end MachineConsole

end MachineEmulator
