/-
This file gives the console of the machine: an output and an input buffer between the guest and a
terminal, a descriptor, a file or the program that runs the machine.
-/

import MachineEmulator.Construction.Failure
import MachineEmulator.Construction.Memory

namespace MachineEmulator.Console

section Integers

/-- The conversion of a `size_t` to `ptrdiff_t`. -/
def toPtrdiff (value : Nat) : Int := (BitVec.ofNat 64 value).toInt

/-- The conversion of a `ptrdiff_t` to `size_t`. -/
def toSize (value : Int) : Nat := (BitVec.ofInt 64 value).toNat

/-- The bytes of a `std::span`. No object of the language has more than `PTRDIFF_MAX` of them. -/
structure Span where
  bytes : List Byte
  fits : bytes.length < 2 ^ 63
deriving DecidableEq

end Integers

section Configuration

inductive ConsoleOutputDestination where
  | toNull
  | toStdout
  | toStderr
  | toFd
  | toFile
  | toBuffer
deriving DecidableEq, Repr

inductive ConsoleFlushMode where
  | whenFull
  | everyChar
  | everyLine
deriving DecidableEq, Repr

inductive ConsoleInputSource where
  | fromNull
  | fromStdin
  | fromFd
  | fromFile
  | fromBuffer
deriving DecidableEq, Repr

/-- This is `console_runtime_config`. -/
structure ConsoleRuntimeConfig where
  outputDestination : ConsoleOutputDestination := .toStdout
  outputFlushMode : ConsoleFlushMode := .everyLine
  outputBufferSize : Nat := 4096
  outputFd : Int := -1
  outputFilename : String := ""
  inputSource : ConsoleInputSource := .fromNull
  inputBufferSize : Nat := 4096
  inputFd : Int := -1
  inputFilename : String := ""
  ttyCols : BitVec 16 := 80
  ttyRows : BitVec 16 := 25
deriving DecidableEq

end Configuration

/-- A buffer with the start and the size of the bytes in use, for the output or for the input. -/
structure CharBuffer where
  buffer : List Byte
  start : Int
  size : Int
deriving DecidableEq

namespace CharBuffer

/-- This is `subspan`, which has no meaning outside of the buffer. -/
def subspan (buffer : List Byte) (offset count : Int) : Except Failure (List Byte) := do
  check (0 ≤ offset ∧ 0 ≤ count ∧ offset + count ≤ buffer.length) .undefinedBehavior
  return (buffer.drop offset.toNat).take count.toNat

/-- This is `std::ranges::copy` into the buffer. -/
def copyTo (buffer : List Byte) (offset : Int) (data : List Byte) : Except Failure (List Byte) := do
  check (0 ≤ offset ∧ offset + data.length ≤ buffer.length) .undefinedBehavior
  return buffer.take offset.toNat ++ data ++ buffer.drop (offset.toNat + data.length)

variable (chars : CharBuffer)

def availableSpace : Nat :=
  if toSize chars.size < chars.buffer.length then chars.buffer.length - toSize chars.size else 0

/-- This is `consume_output` and `consume_input`. -/
def consume (n : Nat) : Except Failure (List Byte × CharBuffer) := do
  let chunkLen := min (toPtrdiff n) chars.size
  let chunkBuf ← subspan chars.buffer chars.start chunkLen
  let size := chars.size - chunkLen
  return (chunkBuf, { chars with
    start := if size = 0 then 0 else chars.start + chunkLen
    size := size })

/-- The bytes in use move to the left end of the buffer when needed. -/
def moveLeft (length : Nat) : Except Failure CharBuffer :=
  if 0 < chars.start ∧
      chars.buffer.length < (toSize (chars.start + chars.size) + length) % 2 ^ 64 then
    if 0 < chars.size then do
      let moved ← subspan chars.buffer chars.start chars.size
      let buffer ← copyTo chars.buffer 0 moved
      return { chars with buffer := buffer, start := 0 }
    else return { chars with start := 0 }
  else return chars

/-- The common end of `append_output` and `append_input`. -/
def place (data : List Byte) : Except Failure CharBuffer := do
  let moved ← chars.moveLeft data.length
  let buffer ← copyTo moved.buffer (moved.start + moved.size) data
  return { moved with buffer := buffer, size := moved.size + toPtrdiff data.length }

/-- This is `append_output`, which discards the oldest bytes when there is too little room. -/
def appendOutput (data : List Byte) : Except Failure (List Byte × CharBuffer) := do
  let total := (toSize chars.size + data.length) % 2 ^ 64
  if chars.buffer.length < total then
    let (_, rest) ← chars.consume (total - chars.buffer.length)
    let fitting := data.take (min data.length rest.availableSpace)
    let appended ← rest.place fitting
    return (fitting, appended)
  else
    let appended ← chars.place data
    return (data, appended)

/-- This is `append_input`, which takes as many of the bytes as there is room for. -/
def appendInput (data : Word → Byte) (length : Nat) : Except Failure (List Byte × CharBuffer) := do
  let taken := (List.range (min length chars.availableSpace)).map fun index =>
    data (BitVec.ofNat 64 index)
  if taken = [] then return (taken, chars)
  else
    let appended ← chars.place taken
    return (taken, appended)

/-- This is `resize`, for a larger size. -/
def resize (size : Nat) : CharBuffer :=
  { chars with buffer := chars.buffer ++ List.replicate (size - chars.buffer.length) 0 }

end CharBuffer

end MachineEmulator.Console

namespace MachineEmulator

open Console

/-- This is `machine_console`. The name of the file pointer is a number. -/
structure MachineConsole where
  outputDestination : ConsoleOutputDestination
  outputFlushMode : ConsoleFlushMode
  outputFd : Int
  outputFilename : String
  outputFile : Option Nat
  output : CharBuffer
  inputSource : ConsoleInputSource
  inputFd : Int
  inputFilename : String
  inputFile : Option Nat
  input : CharBuffer
  inputClosed : Bool
  inputTtyOpened : Bool
  ttyCols : BitVec 16
  ttyRows : BitVec 16
deriving DecidableEq

namespace Console

def endOfTransmissionChar : Byte := 4

def epipe : Nat := 32

def eio : Nat := 5

/-- The console after a function with what the function returns or throws. -/
structure Outcome (A : Type) where
  console : MachineConsole
  result : Except Failure A

/-- What the output destination does with the bytes of a flush: how many it takes (none for a
failure), whether a file is flushed and has an error, and `errno`. -/
structure OutputAnswer where
  accepted : Option Nat
  flushed : Bool := true
  error : Bool := false
  errno : Nat := 0
deriving DecidableEq

/-- What the input source does at a refill: whether it is ready, the bytes that it gives (none for a
failure), whether a file is at its end or has an error, and `errno`. -/
structure InputAnswer where
  ready : Bool
  received : Option (List Byte)
  endOfFile : Bool := false
  error : Bool := false
  errno : Nat := 0
deriving DecidableEq

end Console

namespace MachineConsole

variable (console : MachineConsole)

section Characters

/-- This is `putchars`. It says whether the output should be flushed from outside. -/
def putchars (buf : Span) : Except Failure (Bool × MachineConsole) :=
  if buf.bytes = [] ∨ console.outputDestination = .toNull then return (false, console)
  else do
    let (appended, output) ← console.output.appendOutput buf.bytes
    let full := output.availableSpace = 0
    let shouldFlush : Bool := match console.outputFlushMode with
      | .whenFull => full
      | .everyChar => true
      | .everyLine => full ∨ '\n'.toNat ∈ appended.map BitVec.toNat
    return (shouldFlush, { console with output := output })

/-- This is `getchars`, with the bytes that it writes and whether the input should be refilled. -/
def getchars (length : Nat) : Except Failure (List Byte × Bool × MachineConsole) :=
  if console.inputClosed then
    return (List.replicate length endOfTransmissionChar, false, console)
  else do
    let (chunk, input) ← console.input.consume length
    return (chunk, input.size = 0, { console with input := input })

/-- This is `read_output`, with the returned number and the bytes that it writes at the pointer. -/
def readOutput (dataIsNull : Bool) (maxLength : Word) : Except Failure (Outcome (Nat × List Byte)) :=
  if console.outputDestination ≠ .toBuffer then
    return ⟨console, .error .outputDestinationNotBuffer⟩
  else if dataIsNull ∨ maxLength = 0 then
    return ⟨console, .ok (toSize console.output.size, [])⟩
  else
    let toRead := min console.output.size maxLength.toInt
    if 0 < toRead then do
      let (chunk, output) ← console.output.consume toRead.toNat
      return ⟨{ console with output := output }, .ok (chunk.length, chunk)⟩
    else return ⟨console, .ok (0, [])⟩

/-- This is `write_input`, with the returned number and the bytes that it takes. -/
def writeInput (data : Option (Word → Byte)) (length : Word) :
    Except Failure (Outcome (Nat × List Byte)) :=
  if console.inputSource ≠ .fromBuffer then
    return ⟨console, .error .inputSourceNotBuffer⟩
  else
    match data with
    | none => return ⟨console, .ok (console.input.availableSpace, [])⟩
    | some bytes =>
        if length = 0 then return ⟨console, .ok (console.input.availableSpace, [])⟩
        else do
          let (taken, input) ← console.input.appendInput bytes length.toNat
          return ⟨{ console with input := input }, .ok (taken.length, taken)⟩

end Characters

section Flush

def clearOutput : MachineConsole :=
  { console with output := { console.output with start := 0, size := 0 } }

/-- Bytes leave the output buffer. -/
def dropOutput (count : Nat) : Except Failure MachineConsole := do
  let (_, output) ← console.output.consume count
  return { console with output := output }

/-- The end of `flush_output` for a destination that failed. -/
def flushFailed (errno : Nat) : Outcome Unit :=
  if errno = epipe then ⟨console.clearOutput, .ok ()⟩
  else ⟨console, .error .consoleOutputFlushFailed⟩

/-- The end of `flush_output` for a destination that took some bytes. -/
def flushTook (count : Nat) : Except Failure (Outcome Unit) :=
  if 0 < count then do
    let rest ← console.dropOutput count
    return ⟨rest, .ok ()⟩
  else return ⟨console, .ok ()⟩

/-- A destination without `FILE` takes bytes or fails. -/
def flushTo (length : Nat) (answer : OutputAnswer) : Except Failure (Outcome Unit) :=
  match answer.accepted with
  | none => return console.flushFailed answer.errno
  | some count => console.flushTook (min count length)

/-- The branch of a file. Bytes that it took are consumed also when it cannot be flushed. -/
def flushToFile (length : Nat) (answer : OutputAnswer) : Except Failure (Outcome Unit) :=
  let errno := if answer.errno = 0 then eio else answer.errno
  let count := min (answer.accepted.getD 0) length
  if 0 < count then
    if answer.flushed then console.flushTook count
    else do
      let rest ← console.dropOutput count
      return rest.flushFailed errno
  else if answer.error then return console.flushFailed errno
  else return ⟨console, .ok ()⟩

/-- The switch of `flush_output`. -/
def flushDestination (length : Nat) (answer : OutputAnswer) : Except Failure (Outcome Unit) :=
  match console.outputDestination with
  | .toNull => console.flushTook length
  | .toStdout | .toStderr | .toFd => console.flushTo length answer
  | .toFile => console.flushToFile length answer
  | .toBuffer => return ⟨console, .ok ()⟩

/-- This is `flush_output`. -/
def flushOutput (answer : OutputAnswer) : Except Failure (Outcome Unit) :=
  if console.output.size = 0 then return ⟨console, .ok ()⟩
  else do
    let chunk ← CharBuffer.subspan console.output.buffer console.output.start console.output.size
    console.flushDestination chunk.length answer

end Flush

section Refill

/-- The end of `refill_input` for a source that failed. -/
def refillFailed (errno : Nat) : Outcome Unit :=
  if errno = epipe then ⟨console, .ok ()⟩ else ⟨console, .error .consoleInputRefillFailed⟩

/-- The end of `refill_input` for a source that gave some bytes. -/
def refillGot (received : List Byte) : Except Failure (Outcome Unit) := do
  let buffer ← CharBuffer.copyTo console.input.buffer 0 received
  return ⟨{ console with
    input := { console.input with
      buffer := buffer
      size := if 0 < received.length then received.length else console.input.size } }, .ok ()⟩

/-- The branch of a file for the bytes that were read. -/
def refillFromFile (bytes : List Byte) (answer : InputAnswer) : Except Failure (Outcome Unit) :=
  let read := { console with inputClosed := bytes = [] }
  if bytes = [] ∧ answer.endOfFile then return read.refillFailed epipe
  else if bytes = [] ∧ answer.error then
    return read.refillFailed (if answer.errno = 0 then eio else answer.errno)
  else read.refillGot bytes

/-- The switch of `refill_input`. The source gives no more bytes than the buffer has room for. -/
def refillSource (answer : InputAnswer) : Except Failure (Outcome Unit) :=
  let received := answer.received.map (·.take console.input.buffer.length)
  match console.inputSource with
  | .fromNull | .fromBuffer => return ⟨console, .ok ()⟩
  | .fromStdin =>
      if answer.ready then
        match received with
        | none => return { console with inputClosed := true }.refillFailed answer.errno
        | some bytes => { console with inputClosed := false }.refillGot bytes
      else return ⟨console, .ok ()⟩
  | .fromFd =>
      if answer.ready then
        match received with
        | none => return { console with inputClosed := true }.refillFailed answer.errno
        | some bytes => { console with inputClosed := bytes = [] }.refillGot bytes
      else return ⟨console, .ok ()⟩
  | .fromFile => console.refillFromFile (received.getD []) answer

/-- This is `refill_input`. -/
def refillInput (answer : InputAnswer) : Except Failure (Outcome Unit) :=
  if 0 < console.input.size then return ⟨console, .ok ()⟩
  else if console.inputClosed then return ⟨console, .ok ()⟩
  else { console with input := { console.input with start := 0 } }.refillSource answer

end Refill

end MachineConsole

end MachineEmulator
