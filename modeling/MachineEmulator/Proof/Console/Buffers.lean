/-
This file proves that the buffers of a console are queues, whatever the lengths are.
-/

import MachineEmulator.Construction.Console.SetConfig
import MachineEmulator.Library.SlidingWindow

namespace MachineEmulator.Console

open Buffering

theorem toPtrdiff_of_lt {value : Nat} (small : value < 2 ^ 63) : toPtrdiff value = value := by
  rw [toPtrdiff, BitVec.toInt_eq_toNat_of_lt, BitVec.toNat_ofNat, Nat.mod_eq_of_lt (by omega)]
  rw [BitVec.toNat_ofNat, Nat.mod_eq_of_lt (by omega)]
  omega

theorem toSize_of_lt {value : Nat} (small : value < 2 ^ 64) : toSize (value : Int) = value := by
  rw [toSize, BitVec.ofInt_natCast, BitVec.toNat_ofNat]
  exact Nat.mod_eq_of_lt small

namespace CharBuffer

/-- The bytes in use. -/
def content (chars : CharBuffer) : List Byte :=
  (chars.buffer.drop chars.start.toNat).take chars.size.toNat

/-- The buffer holds a window, and is no longer than an object of the language can be. -/
structure Holds (chars : CharBuffer) (window : Window Byte) : Prop where
  buffer : chars.buffer = window.cells
  start : chars.start = window.start
  size : chars.size = window.size
  bounded : window.cells.length < 2 ^ 63

/-- The start and the size are those of a piece of the buffer. -/
structure Sound (chars : CharBuffer) : Prop where
  start : 0 ≤ chars.start
  size : 0 ≤ chars.size
  within : chars.start + chars.size ≤ chars.buffer.length
  bounded : chars.buffer.length < 2 ^ 63

section Spans

variable {buffer data : List Byte} {offset count : Nat}

theorem subspan_eq (inside : offset + count ≤ buffer.length) :
    subspan buffer offset count = .ok ((buffer.drop offset).take count) := by
  rw [subspan, check_pos (by omega)]
  rfl

theorem copyTo_eq (inside : offset + data.length ≤ buffer.length) :
    copyTo buffer offset data =
      .ok (buffer.take offset ++ data ++ buffer.drop (offset + data.length)) := by
  rw [copyTo, check_pos (by omega)]
  rfl

end Spans

variable {chars : CharBuffer} {window : Window Byte}

theorem Sound.holds (sound : chars.Sound) : ∃ window, chars.Holds window := by
  have start := sound.start
  have size := sound.size
  have within := sound.within
  exact ⟨⟨chars.buffer, chars.start.toNat, chars.size.toNat, by omega⟩, rfl, by simp [start],
    by simp [size], sound.bounded⟩

namespace Holds

variable (holds : chars.Holds window)

include holds

theorem sound : chars.Sound := by
  have within := window.within
  constructor
  · rw [holds.start]
    exact Int.natCast_nonneg _
  · rw [holds.size]
    exact Int.natCast_nonneg _
  · rw [holds.start, holds.size, holds.buffer]
    omega
  · rw [holds.buffer]
    exact holds.bounded

theorem content_eq : chars.content = window.content := by
  rw [content, holds.buffer, holds.start, holds.size]
  rfl

theorem length_buffer : chars.buffer.length = window.cells.length := by rw [holds.buffer]

theorem toSize_size : toSize chars.size = window.size := by
  have size := window.size_le
  have bounded := holds.bounded
  rw [holds.size]
  exact toSize_of_lt (by omega)

theorem availableSpace_eq : chars.availableSpace = window.room := by
  have size := window.size_le
  rw [availableSpace, holds.toSize_size, holds.length_buffer, Window.room]
  split <;> omega

theorem consume {n : Nat} (small : n < 2 ^ 63) : ∃ rest,
    chars.consume n = .ok (window.content.take n, rest) ∧ rest.Holds (window.consume n) := by
  have within := window.within
  have chunk : min (toPtrdiff n) chars.size = (min n window.size : Nat) := by
    rw [toPtrdiff_of_lt small, holds.size]
    omega
  have inside : window.start + min n window.size ≤ window.cells.length := by omega
  have bytes : (window.cells.drop window.start).take (min n window.size) = window.content.take n := by
    rw [Window.content, List.take_take]
  rw [CharBuffer.consume, chunk, holds.start, holds.buffer, subspan_eq inside, bytes]
  refine ⟨_, rfl, rfl, ?_, ?_, holds.bounded⟩
  · simp only [holds.size, Window.consume]
    split <;> split <;> omega
  · simp only [holds.size, Window.size_consume]
    omega

theorem moveLeft {count : Nat} (fits : count ≤ window.room) : ∃ moved,
    chars.moveLeft count = .ok moved ∧ moved.Holds (window.compact count) := by
  have within := window.within
  have total := window.size_add_room
  have bounded := holds.bounded
  have behind : (toSize (chars.start + chars.size) + count) % 2 ^ 64 =
      window.start + window.size + count := by
    rw [holds.start, holds.size, ← Nat.cast_add, toSize_of_lt (by omega)]
    exact Nat.mod_eq_of_lt (by omega)
  have needed : (0 < chars.start ∧ chars.buffer.length <
      (toSize (chars.start + chars.size) + count) % 2 ^ 64) ↔
      0 < window.start ∧ window.cells.length < window.start + window.size + count := by
    rw [behind, holds.start, holds.length_buffer, Nat.cast_pos]
  rw [CharBuffer.moveLeft, Window.compact]
  by_cases needs : 0 < window.start ∧ window.cells.length < window.start + window.size + count
  · rw [if_pos (needed.mpr needs), if_pos needs]
    by_cases used : 0 < window.size
    · have moved : CharBuffer.copyTo window.cells ((0 : Nat) : Int) window.content =
          .ok (window.content ++ window.cells.drop window.size) := by
        rw [copyTo_eq (by rw [Window.length_content]; omega), Window.length_content]
        simp
      have piece : (window.cells.drop window.start).take window.size = window.content := rfl
      rw [if_pos (by rw [holds.size]; omega), holds.start, holds.size, holds.buffer,
        subspan_eq within, piece]
      show ∃ result, (CharBuffer.copyTo window.cells ((0 : Nat) : Int) window.content >>= _) = _ ∧ _
      rw [moved]
      exact ⟨_, rfl, rfl, rfl, rfl, by simpa using by omega⟩
    · have none : window.size = 0 := by omega
      have nothing : window.content = [] := List.length_eq_zero_iff.mp (by simpa using none)
      rw [if_neg (by rw [holds.size]; omega)]
      refine ⟨_, rfl, ?_, rfl, holds.size, by simpa using by omega⟩
      simp [nothing, none, holds.buffer]
  · rw [if_neg (needed.not.mpr needs), if_neg needs]
    exact ⟨chars, rfl, holds⟩

theorem place {data : List Byte} (fits : data.length ≤ window.room) : ∃ appended,
    chars.place data = .ok appended ∧ appended.Holds (window.append data fits) := by
  obtain ⟨moved, compacted, again⟩ := holds.moveLeft fits
  have bound := window.compact_fits fits
  have bounded := holds.bounded
  have size := window.size_compact data.length
  have length := window.length_cells_compact data.length
  have start : moved.start + moved.size =
      ((window.compact data.length).start + (window.compact data.length).size : Nat) := by
    rw [again.start, again.size, Nat.cast_add]
  rw [CharBuffer.place, compacted]
  show ∃ result, (CharBuffer.copyTo moved.buffer (moved.start + moved.size) data >>= _) = _ ∧ _
  rw [start, again.buffer, copyTo_eq (by omega)]
  refine ⟨_, rfl, rfl, again.start, ?_, by simpa using bounded⟩
  rw [Window.append]
  simp only [again.size, toPtrdiff_of_lt (show data.length < 2 ^ 63 by omega), Nat.cast_add]

/-- The oldest bytes go when there is too little room, and the first bytes of the data are put in. -/
theorem appendOutput {data : List Byte} (small : data.length < 2 ^ 63) : ∃ appended later,
    chars.appendOutput data = .ok (data.take window.cells.length, appended) ∧
    appended.Holds later ∧ later.cells.length = window.cells.length ∧
    later.content = window.content.drop (window.size + data.length - window.cells.length) ++
      data.take window.cells.length := by
  have bounded := holds.bounded
  have inside := window.size_le
  have total : (toSize chars.size + data.length) % 2 ^ 64 = window.size + data.length := by
    rw [holds.toSize_size]
    exact Nat.mod_eq_of_lt (by omega)
  rw [CharBuffer.appendOutput, total, holds.length_buffer]
  by_cases overflows : window.cells.length < window.size + data.length
  · obtain ⟨rest, consumed, again⟩ := holds.consume
      (n := window.size + data.length - window.cells.length) (by omega)
    have fitting : data.take (min data.length rest.availableSpace) = data.take window.cells.length := by
      rw [again.availableSpace_eq, Window.room, Window.size_consume, Window.cells_consume]
      by_cases long : data.length ≤ window.cells.length
      · rw [List.take_of_length_le long, List.take_of_length_le (by omega)]
      · congr 1
        omega
    have fits : (data.take window.cells.length).length ≤
        (window.consume (window.size + data.length - window.cells.length)).room := by
      rw [Window.room, Window.size_consume, Window.cells_consume, List.length_take]
      omega
    obtain ⟨appended, placed, last⟩ := again.place fits
    refine ⟨appended, _, ?_, last, by simp, ?_⟩
    · rw [if_pos overflows, consumed]
      show (rest.place (data.take (min data.length rest.availableSpace)) >>= _) = _
      rw [fitting, placed]
      rfl
    · rw [Window.content_append, Window.content_consume]
  · have fits : data.length ≤ window.room := by
      rw [Window.room]
      omega
    have whole : data.take window.cells.length = data := List.take_of_length_le (by omega)
    have none : window.size + data.length - window.cells.length = 0 := by omega
    obtain ⟨appended, placed, last⟩ := holds.place fits
    refine ⟨appended, _, ?_, last, by simp, ?_⟩
    · rw [if_neg overflows, placed, whole]
      rfl
    · rw [Window.content_append, none, List.drop_zero, whole]

/-- As many bytes are taken as there is room for. -/
theorem appendInput (data : Word → Byte) (length : Nat) : ∃ appended later,
    chars.appendInput data length = .ok ((List.range (min length window.room)).map fun index =>
      data (BitVec.ofNat 64 index), appended) ∧
    appended.Holds later ∧ later.cells.length = window.cells.length ∧
    later.content = window.content ++ (List.range (min length window.room)).map fun index =>
      data (BitVec.ofNat 64 index) := by
  rw [CharBuffer.appendInput, holds.availableSpace_eq]
  generalize taken_eq : (List.range (min length window.room)).map
    (fun index => data (BitVec.ofNat 64 index)) = taken
  have fits : taken.length ≤ window.room := by
    rw [← taken_eq, List.length_map, List.length_range]
    exact Nat.min_le_right _ _
  by_cases nothing : taken = []
  · refine ⟨chars, window, ?_, holds, rfl, ?_⟩
    · simp only [nothing]
      rfl
    · rw [nothing, List.append_nil]
  · obtain ⟨appended, placed, later⟩ := holds.place fits
    refine ⟨appended, _, ?_, later, by simp, Window.content_append fits⟩
    simp only [if_neg nothing, placed]
    rfl

theorem resize {size : Nat} (bounded : size < 2 ^ 63) : (chars.resize size).Holds
    (window.grow (List.replicate (size - window.cells.length) 0)) := by
  have small := holds.bounded
  refine ⟨?_, holds.start, holds.size, ?_⟩
  · rw [CharBuffer.resize, holds.buffer]
    rfl
  · rw [Window.grow, List.length_append, List.length_replicate]
    omega

end Holds

namespace Sound

theorem content_length (sound : chars.Sound) : (chars.content.length : Int) = chars.size := by
  obtain ⟨window, holds⟩ := sound.holds
  rw [holds.content_eq, Window.length_content, holds.size]

theorem availableSpace_eq (sound : chars.Sound) :
    chars.availableSpace = chars.buffer.length - chars.content.length := by
  obtain ⟨window, holds⟩ := sound.holds
  rw [holds.availableSpace_eq, holds.content_eq, Window.length_content, holds.length_buffer]
  rfl

theorem content_le (sound : chars.Sound) : chars.content.length ≤ chars.buffer.length := by
  obtain ⟨window, holds⟩ := sound.holds
  rw [holds.content_eq, Window.length_content, holds.length_buffer]
  exact window.size_le

theorem toSize_size (sound : chars.Sound) : toSize chars.size = chars.content.length := by
  obtain ⟨window, holds⟩ := sound.holds
  rw [holds.toSize_size, holds.content_eq, Window.length_content]

theorem size_eq_zero (sound : chars.Sound) : chars.size = 0 ↔ chars.content = [] := by
  rw [← sound.content_length, ← List.length_eq_zero_iff]
  omega

theorem size_pos (sound : chars.Sound) : 0 < chars.size ↔ chars.content ≠ [] := by
  rw [← sound.content_length, ← List.length_pos_iff]
  omega

/-- The whole content is a piece of the buffer. -/
theorem subspan_content (sound : chars.Sound) :
    subspan chars.buffer chars.start chars.size = .ok chars.content := by
  rw [subspan, check_pos ⟨sound.start, sound.size, sound.within⟩]
  rfl

theorem consume (sound : chars.Sound) {n : Nat} (small : n < 2 ^ 63) : ∃ rest,
    chars.consume n = .ok (chars.content.take n, rest) ∧ rest.Sound ∧
    rest.buffer = chars.buffer ∧ rest.content = chars.content.drop n := by
  obtain ⟨window, holds⟩ := sound.holds
  obtain ⟨rest, consumed, again⟩ := holds.consume small
  refine ⟨rest, ?_, again.sound, ?_, ?_⟩
  · rw [consumed, holds.content_eq]
  · rw [again.buffer, holds.buffer, Window.cells_consume]
  · rw [again.content_eq, holds.content_eq, Window.content_consume]

theorem appendOutput (sound : chars.Sound) {data : List Byte} (small : data.length < 2 ^ 63) :
    ∃ appended, chars.appendOutput data = .ok (data.take chars.buffer.length, appended) ∧
    appended.Sound ∧ appended.buffer.length = chars.buffer.length ∧
    appended.content = chars.content.drop
      (chars.content.length + data.length - chars.buffer.length) ++
        data.take chars.buffer.length := by
  obtain ⟨window, holds⟩ := sound.holds
  obtain ⟨appended, later, done, again, length, content⟩ := holds.appendOutput small
  refine ⟨appended, ?_, again.sound, ?_, ?_⟩
  · rw [done, holds.length_buffer]
  · rw [again.length_buffer, length, holds.length_buffer]
  · rw [again.content_eq, content, holds.content_eq, Window.length_content, holds.length_buffer]

theorem appendInput (sound : chars.Sound) (data : Word → Byte) (length : Nat) : ∃ appended,
    chars.appendInput data length = .ok ((List.range
      (min length (chars.buffer.length - chars.content.length))).map fun index =>
        data (BitVec.ofNat 64 index), appended) ∧
    appended.Sound ∧ appended.buffer.length = chars.buffer.length ∧
    appended.content = chars.content ++ (List.range
      (min length (chars.buffer.length - chars.content.length))).map fun index =>
        data (BitVec.ofNat 64 index) := by
  obtain ⟨window, holds⟩ := sound.holds
  obtain ⟨appended, later, done, again, same, content⟩ := holds.appendInput data length
  have room : chars.buffer.length - chars.content.length = window.room := by
    rw [holds.content_eq, Window.length_content, holds.length_buffer]
    rfl
  rw [room]
  refine ⟨appended, done, again.sound, ?_, ?_⟩
  · rw [again.length_buffer, same, holds.length_buffer]
  · rw [again.content_eq, content, holds.content_eq]

theorem resize (sound : chars.Sound) {size : Nat} (bounded : size < 2 ^ 63) :
    (chars.resize size).Sound ∧ (chars.resize size).content = chars.content := by
  obtain ⟨window, holds⟩ := sound.holds
  have again := holds.resize bounded
  exact ⟨again.sound, by rw [again.content_eq, Window.content_grow, holds.content_eq]⟩

theorem length_resize (size : Nat) :
    (chars.resize size).buffer.length = max chars.buffer.length size := by
  rw [CharBuffer.resize, List.length_append, List.length_replicate]
  omega

/-- Bytes that are read into an empty buffer are its content. -/
theorem copyTo_front (sound : chars.Sound) {received : List Byte}
    (fits : received.length ≤ chars.buffer.length) : ∃ buffer,
    copyTo chars.buffer 0 received = .ok buffer ∧ buffer.length = chars.buffer.length ∧
    CharBuffer.Sound ⟨buffer, 0, received.length⟩ ∧
    content ⟨buffer, 0, received.length⟩ = received := by
  have copied : copyTo chars.buffer ((0 : Nat) : Int) received = .ok (chars.buffer.take 0 ++
      received ++ chars.buffer.drop (0 + received.length)) := copyTo_eq (by omega)
  have length : (chars.buffer.take 0 ++ received ++
      chars.buffer.drop (0 + received.length)).length = chars.buffer.length := by
    simp only [List.take_zero, List.nil_append, List.length_append, List.length_drop]
    omega
  refine ⟨_, copied, length, ⟨le_rfl, Int.natCast_nonneg _, ?_, ?_⟩, ?_⟩
  · simp only [length]
    omega
  · simp only [length]
    exact sound.bounded
  · simp [content]

end Sound

end CharBuffer

end MachineEmulator.Console
