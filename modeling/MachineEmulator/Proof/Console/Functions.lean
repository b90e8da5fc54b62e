/-
This file says what each function of a console does to the bytes in its buffers.
-/

import MachineEmulator.Proof.Console.Buffers

namespace MachineEmulator

open Console

namespace MachineConsole

/-- Both buffers are in order. -/
structure Sound (console : MachineConsole) : Prop where
  output : console.output.Sound
  input : console.input.Sound

variable {console : MachineConsole}

section Characters

/-- The oldest bytes go when there is too little room. -/
theorem putchars_ok (sound : console.Sound) (buf : Span) : ∃ shouldFlush output,
    console.putchars buf = .ok (shouldFlush, { console with output := output }) ∧
    output.Sound ∧ output.buffer.length = console.output.buffer.length ∧
    output.content = if console.outputDestination = .toNull then console.output.content
      else console.output.content.drop
        (console.output.content.length + buf.bytes.length - console.output.buffer.length) ++
          buf.bytes.take console.output.buffer.length := by
  by_cases idle : buf.bytes = [] ∨ console.outputDestination = .toNull
  · refine ⟨false, console.output, ?_, sound.output, rfl, ?_⟩
    · rw [putchars, if_pos idle]
      rfl
    · have few := sound.output.content_le
      rcases idle with empty | dropped
      · have none : console.output.content.length - console.output.buffer.length = 0 := by omega
        simp [empty, none]
      · rw [if_pos dropped]
  · obtain ⟨appended, done, later, length, content⟩ := sound.output.appendOutput buf.fits
    have shown : console.outputDestination ≠ .toNull := fun dropped => idle (Or.inr dropped)
    rw [putchars, if_neg idle, done, if_neg shown]
    exact ⟨_, appended, rfl, later, length, content⟩

/-- The characters that `getchars` takes from the input. -/
def nextChars (console : MachineConsole) (length : Nat) : List Byte :=
  if console.inputClosed then [] else console.input.content.take length

theorem getchars_ok (sound : console.Sound) {length : Nat} (small : length < 2 ^ 63) :
    ∃ chars shouldRefill input,
    console.getchars length = .ok (chars, shouldRefill, { console with input := input }) ∧
    input.Sound ∧ input.buffer.length = console.input.buffer.length ∧
    console.nextChars length ++ input.content = console.input.content ∧
    chars = if console.inputClosed then List.replicate length endOfTransmissionChar
      else console.nextChars length := by
  rw [getchars, nextChars]
  by_cases closed : console.inputClosed
  · rw [if_pos closed, if_pos closed]
    exact ⟨_, _, console.input, rfl, sound.input, rfl, List.nil_append _, (if_pos closed).symm⟩
  · obtain ⟨rest, done, later, buffer, content⟩ := sound.input.consume small
    rw [if_neg closed, if_neg closed, done, if_neg closed]
    exact ⟨_, _, rest, rfl, later, by rw [buffer], by rw [content, List.take_append_drop], rfl⟩

/-- The bytes that `read_output` gives. A length that is negative as `ptrdiff_t` gives none. -/
def readableOutput (console : MachineConsole) (dataIsNull : Bool) (maxLength : Word) : List Byte :=
  if dataIsNull ∨ console.outputDestination ≠ .toBuffer then []
  else console.output.content.take maxLength.toInt.toNat

/-- What `read_output` returns. -/
def readResult (console : MachineConsole) (dataIsNull : Bool) (maxLength : Word) :
    Except Failure (Nat × List Byte) :=
  if console.outputDestination ≠ .toBuffer then .error .outputDestinationNotBuffer
  else if dataIsNull ∨ maxLength = 0 then .ok (console.output.content.length, [])
  else .ok ((console.readableOutput dataIsNull maxLength).length,
    console.readableOutput dataIsNull maxLength)

theorem readOutput_ok (sound : console.Sound) (dataIsNull : Bool) (maxLength : Word) : ∃ output,
    console.readOutput dataIsNull maxLength =
      .ok ⟨{ console with output := output }, console.readResult dataIsNull maxLength⟩ ∧
    output.Sound ∧ output.buffer.length = console.output.buffer.length ∧
    console.readableOutput dataIsNull maxLength ++ output.content = console.output.content := by
  rw [readOutput, readResult]
  by_cases buffered : console.outputDestination = .toBuffer
  · rw [if_neg (not_not.mpr buffered), if_neg (not_not.mpr buffered)]
    by_cases query : dataIsNull ∨ maxLength = 0
    · have none : console.readableOutput dataIsNull maxLength = [] := by
        rcases query with null | zero
        · simp [readableOutput, null]
        · simp [readableOutput, zero]
      rw [if_pos query, if_pos query, sound.output.toSize_size, none]
      exact ⟨console.output, rfl, sound.output, rfl, rfl⟩
    · have readable : console.readableOutput dataIsNull maxLength =
          console.output.content.take maxLength.toInt.toNat := by
        rw [readableOutput, if_neg]
        rintro (null | other)
        · exact query (Or.inl null)
        · exact other buffered
      rw [if_neg query, if_neg query, readable]
      have size := sound.output.content_length
      have chunk : console.output.content.take (min console.output.size maxLength.toInt).toNat =
          console.output.content.take maxLength.toInt.toNat := by
        rw [List.take_eq_take_iff]
        omega
      by_cases some : 0 < min console.output.size maxLength.toInt
      · have small : (min console.output.size maxLength.toInt).toNat < 2 ^ 63 := by
          have within := sound.output.content_le
          have bounded := sound.output.bounded
          omega
        obtain ⟨rest, done, later, buffer, content⟩ := sound.output.consume small
        simp only [if_pos some, done]
        rw [chunk]
        refine ⟨rest, rfl, later, by rw [buffer], ?_⟩
        rw [content, ← chunk, List.take_append_drop]
      · have none : console.output.content.take maxLength.toInt.toNat = [] := by
          rw [← chunk, Int.toNat_of_nonpos (by omega), List.take_zero]
        simp only [if_neg some, none]
        exact ⟨console.output, rfl, sound.output, rfl, rfl⟩
  · rw [if_pos buffered, if_pos buffered, readableOutput, if_pos (Or.inr buffered)]
    exact ⟨console.output, rfl, sound.output, rfl, List.nil_append _⟩

/-- The bytes that `write_input` takes. -/
def acceptedInput (console : MachineConsole) : Option (Word → Byte) → Word → List Byte
  | none, _ => []
  | some data, length =>
      if console.inputSource ≠ .fromBuffer then []
      else (List.range (min length.toNat
        (console.input.buffer.length - console.input.content.length))).map fun index =>
          data (BitVec.ofNat 64 index)

/-- What `write_input` returns. -/
def writeResult (console : MachineConsole) (data : Option (Word → Byte)) (length : Word) :
    Except Failure (Nat × List Byte) :=
  if console.inputSource ≠ .fromBuffer then .error .inputSourceNotBuffer
  else if data.isNone ∨ length = 0 then
    .ok (console.input.buffer.length - console.input.content.length, [])
  else .ok ((console.acceptedInput data length).length, console.acceptedInput data length)

theorem writeInput_ok (sound : console.Sound) (data : Option (Word → Byte)) (length : Word) :
    ∃ input, console.writeInput data length =
      .ok ⟨{ console with input := input }, console.writeResult data length⟩ ∧
    input.Sound ∧ input.buffer.length = console.input.buffer.length ∧
    input.content = console.input.content ++ console.acceptedInput data length := by
  rw [writeInput.eq_def, writeResult]
  by_cases buffered : console.inputSource = .fromBuffer
  · rw [if_neg (not_not.mpr buffered), if_neg (not_not.mpr buffered), ← sound.input.availableSpace_eq]
    cases data with
    | none => exact ⟨console.input, rfl, sound.input, rfl, (List.append_nil _).symm⟩
    | some data =>
        have accepted : console.acceptedInput (some data) length = (List.range (min length.toNat
            (console.input.buffer.length - console.input.content.length))).map fun index =>
              data (BitVec.ofNat 64 index) := if_neg (not_not.mpr buffered)
        rw [accepted]
        by_cases zero : length = 0
        · simp only [zero]
          exact ⟨console.input, rfl, sound.input, rfl, by simp⟩
        · obtain ⟨appended, done, later, same, content⟩ :=
            sound.input.appendInput data length.toNat
          have asked : ¬((some data).isNone ∨ length = 0) := by
            rintro (null | again)
            · exact absurd null nofun
            · exact zero again
          rw [if_neg asked]
          simp only [if_neg zero, done]
          exact ⟨appended, rfl, later, same, content⟩
  · have none : console.acceptedInput data length = [] := by
      cases data with
      | none => rfl
      | some data => exact if_pos buffered
    rw [if_pos buffered, if_pos buffered, none, List.append_nil]
    exact ⟨console.input, rfl, sound.input, rfl, rfl⟩

end Characters

section Flush

/-- The destination fails at a flush of some bytes. -/
def FlushFails (console : MachineConsole) (answer : OutputAnswer) : Prop :=
  match console.outputDestination with
  | .toNull | .toBuffer => False
  | .toStdout | .toStderr | .toFd => answer.accepted = none
  | .toFile => if 0 < answer.accepted.getD 0 then answer.flushed = false else answer.error = true

instance (answer : OutputAnswer) : Decidable (console.FlushFails answer) := by
  unfold FlushFails
  split <;> infer_instance

/-- The bytes that the destination takes at a flush. No destination is one that takes all. -/
def takenOutput (console : MachineConsole) (answer : OutputAnswer) : List Byte :=
  match console.outputDestination with
  | .toNull => console.output.content
  | .toBuffer => []
  | .toStdout | .toStderr | .toFd | .toFile =>
      console.output.content.take (answer.accepted.getD 0)

/-- The output was closed at the other end. -/
def OutputClosed (console : MachineConsole) (answer : OutputAnswer) : Prop :=
  console.FlushFails answer ∧ answer.errno = epipe

instance (answer : OutputAnswer) : Decidable (console.OutputClosed answer) :=
  inferInstanceAs (Decidable (_ ∧ _))

/-- The bytes that stay in the output buffer. -/
def keptOutput (console : MachineConsole) (answer : OutputAnswer) : List Byte :=
  if console.OutputClosed answer then []
  else console.output.content.drop (console.takenOutput answer).length

/-- What `flush_output` returns. -/
def flushResult (console : MachineConsole) (answer : OutputAnswer) : Except Failure Unit :=
  if console.output.content ≠ [] ∧ console.FlushFails answer ∧ answer.errno ≠ epipe then
    .error .consoleOutputFlushFailed
  else .ok ()

/-- A destination takes the first bytes. -/
theorem takenOutput_append (console : MachineConsole) (answer : OutputAnswer) :
    console.takenOutput answer ++ console.output.content.drop (console.takenOutput answer).length = console.output.content := by
  rw [← List.prefix_iff_eq_append, takenOutput]
  split
  · exact List.prefix_refl _
  · exact List.nil_prefix
  all_goals exact List.take_prefix _ _

theorem dropOutput_ok (sound : console.Sound) {count : Nat} (small : count < 2 ^ 63) : ∃ output,
    console.dropOutput count = .ok { console with output := output } ∧ output.Sound ∧
    output.buffer.length = console.output.buffer.length ∧
    output.content = console.output.content.drop count := by
  obtain ⟨rest, done, later, buffer, content⟩ := sound.output.consume small
  rw [dropOutput, done]
  exact ⟨rest, rfl, later, by rw [buffer], content⟩

theorem flushTook_ok (sound : console.Sound) {count : Nat} (small : count < 2 ^ 63) : ∃ output,
    console.flushTook count = .ok ⟨{ console with output := output }, .ok ()⟩ ∧ output.Sound ∧
    output.buffer.length = console.output.buffer.length ∧
    output.content = console.output.content.drop count := by
  rw [flushTook]
  by_cases some : 0 < count
  · obtain ⟨rest, done, later, length, content⟩ := dropOutput_ok sound small
    rw [if_pos some, done]
    exact ⟨rest, rfl, later, length, content⟩
  · have none : count = 0 := by omega
    rw [if_neg some]
    exact ⟨console.output, rfl, sound.output, rfl, by rw [none, List.drop_zero]⟩

theorem flushFailed_ok (sound : console.Sound) (errno : Nat) : ∃ output,
    console.flushFailed errno = ⟨{ console with output := output },
      if errno = epipe then .ok () else .error .consoleOutputFlushFailed⟩ ∧ output.Sound ∧
    output.buffer.length = console.output.buffer.length ∧
    output.content = if errno = epipe then [] else console.output.content := by
  rw [flushFailed]
  by_cases closed : errno = epipe
  · rw [if_pos closed, if_pos closed, if_pos closed]
    refine ⟨{ console.output with start := 0, size := 0 }, rfl, ?_, rfl, ?_⟩
    · exact ⟨le_rfl, le_rfl, Int.natCast_nonneg _, sound.output.bounded⟩
    · exact List.take_zero
  · rw [if_neg closed, if_neg closed, if_neg closed]
    exact ⟨console.output, rfl, sound.output, rfl, rfl⟩

/-- The number of bytes that a destination takes is not more than there are. -/
theorem drop_length_take (bytes : List Byte) (count : Nat) :
    bytes.drop (bytes.take count).length = bytes.drop (min count bytes.length) := by
  rw [List.length_take]

theorem flushTo_ok (sound : console.Sound) (answer : OutputAnswer) : ∃ output,
    console.flushTo console.output.content.length answer = .ok ⟨{ console with output := output },
      if answer.accepted = none ∧ answer.errno ≠ epipe then .error .consoleOutputFlushFailed
      else .ok ()⟩ ∧ output.Sound ∧
    output.buffer.length = console.output.buffer.length ∧
    output.content = if answer.accepted = none ∧ answer.errno = epipe then []
      else console.output.content.drop
        (console.output.content.take (answer.accepted.getD 0)).length := by
  rw [flushTo.eq_def]
  cases accepted : answer.accepted with
  | none =>
      obtain ⟨output, done, later, length, content⟩ := flushFailed_ok sound answer.errno
      refine ⟨output, ?_, later, length, ?_⟩
      · simp only [done]
        by_cases closed : answer.errno = epipe <;> simp [closed] <;> rfl
      · rw [content]
        simp
  | some count =>
      have within := sound.output.content_le
      have bounded := sound.output.bounded
      obtain ⟨output, done, later, length, content⟩ :=
        flushTook_ok sound (show min count console.output.content.length < 2 ^ 63 by omega)
      refine ⟨output, ?_, later, length, ?_⟩
      · simp only [done]
        simp
      · rw [content]
        simp

theorem flushToFile_ok (sound : console.Sound) (some : console.output.content ≠ [])
    (answer : OutputAnswer) : ∃ output,
    console.flushToFile console.output.content.length answer = .ok ⟨{ console with output := output },
      if (if 0 < answer.accepted.getD 0 then answer.flushed = false else answer.error = true) ∧
        answer.errno ≠ epipe then .error .consoleOutputFlushFailed else .ok ()⟩ ∧ output.Sound ∧
    output.buffer.length = console.output.buffer.length ∧
    output.content =
      if (if 0 < answer.accepted.getD 0 then answer.flushed = false else answer.error = true) ∧
        answer.errno = epipe then []
      else console.output.content.drop
        (console.output.content.take (answer.accepted.getD 0)).length := by
  have within := sound.output.content_le
  have bounded := sound.output.bounded
  have positive := List.length_pos_iff.mpr some
  have code : (if answer.errno = 0 then eio else answer.errno) = epipe ↔ answer.errno = epipe := by
    split
    next zero => rw [zero]; decide
    next => rfl
  rw [flushToFile, drop_length_take]
  generalize answer.accepted.getD 0 = accepted
  by_cases took : 0 < accepted
  · have took' : 0 < min accepted console.output.content.length := by omega
    simp only [if_pos took, if_pos took']
    by_cases flushed : answer.flushed = true
    · obtain ⟨output, done, later, length, content⟩ :=
        flushTook_ok sound (show min accepted console.output.content.length < 2 ^ 63 by omega)
      refine ⟨output, ?_, later, length, ?_⟩
      · simp [flushed, done]
      · simp [flushed, content]
    · obtain ⟨rest, dropped, later, length, content⟩ :=
        dropOutput_ok sound (show min accepted console.output.content.length < 2 ^ 63 by omega)
      obtain ⟨output, done, last, length', content'⟩ := flushFailed_ok
        (show MachineConsole.Sound { console with output := rest } from ⟨later, sound.input⟩)
        (if answer.errno = 0 then eio else answer.errno)
      refine ⟨output, ?_, last, length'.trans length, ?_⟩
      · simp only [if_neg flushed, dropped]
        show Except.ok (flushFailed _ _) = _
        rw [done]
        simp [flushed, code]
      · simp only [code] at content'
        simp [content', content, flushed]
  · have none : accepted = 0 := by omega
    have took' : ¬0 < min accepted console.output.content.length := by omega
    simp only [if_neg took, if_neg took']
    by_cases failed : answer.error = true
    · obtain ⟨output, done, later, length, content⟩ := flushFailed_ok sound
        (if answer.errno = 0 then eio else answer.errno)
      refine ⟨output, ?_, later, length, ?_⟩
      · simp only [if_pos failed, done]
        simp [failed, code]
        rfl
      · simp only [code] at content
        simp [content, failed, none]
    · rw [if_neg failed]
      refine ⟨console.output, ?_, sound.output, rfl, ?_⟩
      · simp [failed]
        rfl
      · simp [failed, none]

theorem flushDestination_ok (sound : console.Sound) (some : console.output.content ≠ [])
    (answer : OutputAnswer) : ∃ output,
    console.flushDestination console.output.content.length answer =
      .ok ⟨{ console with output := output }, console.flushResult answer⟩ ∧
    output.Sound ∧ output.buffer.length = console.output.buffer.length ∧
    output.content = console.keptOutput answer := by
  have within := sound.output.content_le
  have bounded := sound.output.bounded
  rw [flushDestination.eq_def]
  unfold flushResult keptOutput OutputClosed FlushFails takenOutput
  rcases console with ⟨destination, mode, fd, filename, file, buffer, input⟩
  cases destination with
  | toNull =>
      obtain ⟨output, done, later, length, content⟩ :=
        flushTook_ok sound (lt_of_le_of_lt within bounded)
      exact ⟨output, by simpa using done, later, length, by simpa using content⟩
  | toBuffer => exact ⟨buffer, by simp; rfl, sound.output, rfl, by simp⟩
  | toStdout => simpa [some] using flushTo_ok sound answer
  | toStderr => simpa [some] using flushTo_ok sound answer
  | toFd => simpa [some] using flushTo_ok sound answer
  | toFile => simpa [some] using flushToFile_ok sound some answer

/-- What a destination takes goes, and all goes when the output was closed at the other end. -/
theorem flushOutput_ok (sound : console.Sound) (answer : OutputAnswer) : ∃ output,
    console.flushOutput answer = .ok ⟨{ console with output := output }, console.flushResult answer⟩ ∧
    output.Sound ∧ output.buffer.length = console.output.buffer.length ∧
    output.content = console.keptOutput answer := by
  rw [flushOutput]
  by_cases empty : console.output.content = []
  · rw [if_pos (sound.output.size_eq_zero.mpr empty), flushResult,
      if_neg (fun failing => failing.1 empty)]
    refine ⟨console.output, rfl, sound.output, rfl, ?_⟩
    simp [keptOutput, empty]
  · rw [if_neg (fun zero => empty (sound.output.size_eq_zero.mp zero)),
      sound.output.subspan_content]
    exact flushDestination_ok sound empty answer

end Flush

section Refill

/-- The bytes that the input source gives when it is asked for some. -/
def sourceGives (console : MachineConsole) (answer : InputAnswer) : List Byte :=
  match console.inputSource with
  | .fromNull | .fromBuffer => []
  | .fromStdin | .fromFd =>
      if answer.ready then (answer.received.getD []).take console.input.buffer.length else []
  | .fromFile => (answer.received.getD []).take console.input.buffer.length

/-- The bytes that the input source gives at a refill. -/
def suppliedInput (console : MachineConsole) (answer : InputAnswer) : List Byte :=
  if console.input.content ≠ [] ∨ console.inputClosed then [] else console.sourceGives answer

/-- The input source fails when it is asked for some bytes. -/
def SourceFails (console : MachineConsole) (answer : InputAnswer) : Prop :=
  match console.inputSource with
  | .fromNull | .fromBuffer => False
  | .fromStdin | .fromFd => answer.ready = true ∧ answer.received = none
  | .fromFile => (answer.received.getD []).take console.input.buffer.length = [] ∧
      answer.endOfFile = false ∧ answer.error = true

instance (answer : InputAnswer) : Decidable (console.SourceFails answer) := by
  unfold SourceFails
  split <;> infer_instance

/-- What `refill_input` returns. -/
def refillResult (console : MachineConsole) (answer : InputAnswer) : Except Failure Unit :=
  if console.input.content = [] ∧ console.inputClosed = false ∧ console.SourceFails answer ∧
      answer.errno ≠ epipe then .error .consoleInputRefillFailed
  else .ok ()

theorem refillFailed_eq (errno : Nat) : console.refillFailed errno =
    ⟨console, if errno = epipe then .ok () else .error .consoleInputRefillFailed⟩ := by
  rw [refillFailed]
  split <;> rfl

theorem refillGot_ok (sound : console.Sound) (none : console.input.size = 0)
    (front : console.input.start = 0) {received : List Byte}
    (fits : received.length ≤ console.input.buffer.length) (closed : Bool) : ∃ input,
    { console with inputClosed := closed }.refillGot received =
      .ok ⟨{ console with input := input, inputClosed := closed }, .ok ()⟩ ∧ input.Sound ∧
    input.buffer.length = console.input.buffer.length ∧ input.content = received := by
  obtain ⟨buffer, copied, length, later, content⟩ := sound.input.copyTo_front fits
  have size : (if 0 < received.length then (received.length : Int) else console.input.size) =
      received.length := by
    split <;> omega
  refine ⟨⟨buffer, 0, received.length⟩, ?_, later, length, content⟩
  rw [refillGot, copied]
  show Except.ok (Outcome.mk { console with
    inputClosed := closed
    input := ⟨buffer, console.input.start, if 0 < received.length then (received.length : Int)
      else console.input.size⟩ } _) = _
  rw [size, front]

theorem refillFromFile_ok (sound : console.Sound) (none : console.input.size = 0)
    (front : console.input.start = 0) {bytes : List Byte}
    (fits : bytes.length ≤ console.input.buffer.length) (answer : InputAnswer) : ∃ input closed,
    console.refillFromFile bytes answer = .ok ⟨{ console with input := input, inputClosed := closed },
      if (bytes = [] ∧ answer.endOfFile = false ∧ answer.error = true) ∧ answer.errno ≠ epipe then
        .error .consoleInputRefillFailed
      else .ok ()⟩ ∧
    input.Sound ∧ input.buffer.length = console.input.buffer.length ∧ input.content = bytes := by
  have empty : console.input.content = [] := sound.input.size_eq_zero.mp none
  have code : (if answer.errno = 0 then eio else answer.errno) = epipe ↔ answer.errno = epipe := by
    split
    next zero => rw [zero]; decide
    next => rfl
  obtain ⟨filled, got, later, length, content⟩ := refillGot_ok sound none front fits (bytes = [])
  rw [refillFromFile]
  by_cases nothing : bytes = []
  · by_cases ended : answer.endOfFile = true
    · refine ⟨console.input, true, ?_, sound.input, rfl, by rw [nothing]; exact empty⟩
      simp [nothing, ended, refillFailed_eq]
      rfl
    · by_cases failed : answer.error = true
      · refine ⟨console.input, true, ?_, sound.input, rfl, by rw [nothing]; exact empty⟩
        simp [nothing, ended, failed, refillFailed_eq, code]
        rfl
      · refine ⟨filled, bytes = [], ?_, later, length, content⟩
        simpa [nothing, ended, failed] using got
  · refine ⟨filled, bytes = [], ?_, later, length, content⟩
    simpa [nothing] using got

/-- A source gives as many bytes as an empty buffer has room for, or fails. -/
theorem refillSource_ok (sound : console.Sound) (none : console.input.size = 0)
    (front : console.input.start = 0) (answer : InputAnswer) : ∃ input closed,
    console.refillSource answer = .ok ⟨{ console with input := input, inputClosed := closed },
      if console.SourceFails answer ∧ answer.errno ≠ epipe then .error .consoleInputRefillFailed
      else .ok ()⟩ ∧
    input.Sound ∧ input.buffer.length = console.input.buffer.length ∧
    input.content = console.sourceGives answer := by
  have empty : console.input.content = [] := sound.input.size_eq_zero.mp none
  have fits (bytes : List Byte) :
      (bytes.take console.input.buffer.length).length ≤ console.input.buffer.length := by
    rw [List.length_take]
    exact Nat.min_le_left _ _
  rw [refillSource.eq_def]
  unfold SourceFails sourceGives
  rcases console with ⟨destination, mode, fd, filename, file, output, source, fd', filename',
    file', input, shut, opened, cols, rows⟩
  rcases answer with ⟨ready, received, ended, failed, errno⟩
  cases source with
  | fromNull => exact ⟨input, shut, by simp; rfl, sound.input, rfl, empty⟩
  | fromBuffer => exact ⟨input, shut, by simp; rfl, sound.input, rfl, empty⟩
  | fromStdin =>
      cases ready with
      | false => exact ⟨input, shut, by simp; rfl, sound.input, rfl, by simpa using empty⟩
      | true =>
        cases received with
        | none => exact ⟨input, true, by simp [refillFailed_eq]; rfl, sound.input, rfl,
            by simpa using empty⟩
        | some bytes =>
            obtain ⟨filled, got, later, length, content⟩ :=
              refillGot_ok sound none front (fits bytes) false
            exact ⟨filled, false, by simpa using got, later, length,
              by simpa using content⟩
  | fromFd =>
      cases ready with
      | false => exact ⟨input, shut, by simp; rfl, sound.input, rfl, by simpa using empty⟩
      | true =>
        cases received with
        | none => exact ⟨input, true, by simp [refillFailed_eq]; rfl, sound.input, rfl,
            by simpa using empty⟩
        | some bytes =>
            obtain ⟨filled, got, later, length, content⟩ := refillGot_ok sound none front
              (fits bytes) (bytes.take input.buffer.length = [])
            exact ⟨filled, bytes.take input.buffer.length = [], by simpa using got, later, length,
              by simpa using content⟩
  | fromFile =>
      have same : (received.map (·.take input.buffer.length)).getD [] =
          (received.getD []).take input.buffer.length := by
        cases received <;> simp
      simp only [same]
      exact refillFromFile_ok sound none front (fits _) ⟨ready, received, ended, failed, errno⟩

/-- A source gives bytes to an empty buffer only. -/
theorem refillInput_ok (sound : console.Sound) (answer : InputAnswer) : ∃ input closed,
    console.refillInput answer = .ok ⟨{ console with input := input, inputClosed := closed },
      console.refillResult answer⟩ ∧
    input.Sound ∧ input.buffer.length = console.input.buffer.length ∧
    input.content = console.input.content ++ console.suppliedInput answer := by
  rw [refillInput, refillResult, suppliedInput]
  by_cases used : console.input.content ≠ []
  · rw [if_pos (sound.input.size_pos.mpr used), if_neg (fun failing => used failing.1),
      if_pos (Or.inl used)]
    exact ⟨console.input, console.inputClosed, rfl, sound.input, rfl, (List.append_nil _).symm⟩
  · have empty : console.input.content = [] := not_not.mp used
    rw [if_neg (fun positive => used (sound.input.size_pos.mp positive))]
    by_cases closed : console.inputClosed
    · rw [if_pos closed, if_neg (by simp [closed]), if_pos (Or.inr closed)]
      exact ⟨console.input, console.inputClosed, rfl, sound.input, rfl, (List.append_nil _).symm⟩
    · have none : console.input.size = 0 := sound.input.size_eq_zero.mpr empty
      have again : Sound { console with input := { console.input with start := 0 } } := by
        refine ⟨sound.output, le_rfl, sound.input.size, ?_, sound.input.bounded⟩
        show 0 + console.input.size ≤ console.input.buffer.length
        rw [none]
        exact Int.natCast_nonneg _
      obtain ⟨input, shut, done, later, length, content⟩ := refillSource_ok again none rfl answer
      have idle : ¬(console.input.content ≠ [] ∨ console.inputClosed = true) := by
        simp [empty, closed]
      rw [if_neg closed, if_neg idle, done]
      refine ⟨input, shut, ?_, later, length, by rw [content, empty]; rfl⟩
      simp only [empty, closed, true_and]
      rfl

end Refill

end MachineConsole

end MachineEmulator
