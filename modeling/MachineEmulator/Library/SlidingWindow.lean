/-
This file gives a queue inside a buffer. Its cells stand in one piece, which goes back to the left
end of the buffer when there is too little room behind it.
-/

import Mathlib.Tactic

namespace Buffering

/-- The used cells of a buffer are those of a window; the others are left over from before. -/
structure Window (Cell : Type) where
  cells : List Cell
  start : Nat
  size : Nat
  within : start + size ≤ cells.length

namespace Window

variable {Cell : Type} (window : Window Cell)

def content : List Cell := (window.cells.drop window.start).take window.size

/-- The number of cells that can still come behind the used ones. -/
def room : Nat := window.cells.length - window.size

@[simp] theorem length_content : window.content.length = window.size := by
  have within := window.within
  simp only [content, List.length_take, List.length_drop]
  omega

theorem size_le : window.size ≤ window.cells.length := by
  have within := window.within
  omega

theorem size_add_room : window.size + window.room = window.cells.length := by
  have size := window.size_le
  simp only [room]
  omega

/-- The window over a whole buffer from its left end. -/
def ofPrefix (cells : List Cell) (size : Nat) (within : size ≤ cells.length) : Window Cell where
  cells := cells
  start := 0
  size := size
  within := by omega

@[simp] theorem content_ofPrefix (cells : List Cell) (size : Nat) (within : size ≤ cells.length) :
    (ofPrefix cells size within).content = cells.take size := by
  simp [ofPrefix, content]

section Consume

/-- The first cells leave; an empty window goes back to the left end. -/
def consume (count : Nat) : Window Cell where
  cells := window.cells
  start := if window.size ≤ count then 0 else window.start + count
  size := window.size - count
  within := by
    have within := window.within
    split <;> omega

@[simp] theorem size_consume (count : Nat) : (window.consume count).size = window.size - count := rfl

@[simp] theorem cells_consume (count : Nat) : (window.consume count).cells = window.cells := rfl

theorem content_consume (count : Nat) :
    (window.consume count).content = window.content.drop count := by
  by_cases all : window.size ≤ count
  · have none : (window.consume count).size = 0 := by
      rw [size_consume]
      omega
    rw [content, none, List.take_zero, List.drop_eq_nil_of_le (by simpa using all)]
  · simp [content, consume, all, List.drop_take]

/-- The cells that leave and those that stay are the ones that were there. -/
theorem take_append_consume (count : Nat) :
    window.content.take count ++ (window.consume count).content = window.content := by
  rw [content_consume, List.take_append_drop]

end Consume

section Append

/-- The window goes to the left end if that is needed for more cells to come behind it. -/
def compact (count : Nat) : Window Cell :=
  if 0 < window.start ∧ window.cells.length < window.start + window.size + count then
    { cells := window.content ++ window.cells.drop window.size
      start := 0
      size := window.size
      within := by simp }
  else window

@[simp] theorem size_compact (count : Nat) : (window.compact count).size = window.size := by
  rw [compact]
  split <;> rfl

@[simp] theorem length_cells_compact (count : Nat) :
    (window.compact count).cells.length = window.cells.length := by
  have size := window.size_le
  rw [compact]
  split
  · simp only [List.length_append, length_content, List.length_drop]
    omega
  · rfl

@[simp] theorem content_compact (count : Nat) : (window.compact count).content = window.content := by
  rw [compact]
  split
  · rw [content, List.drop_zero]
    exact List.take_left' window.length_content
  · rfl

theorem compact_fits {count : Nat} (fits : count ≤ window.room) :
    (window.compact count).start + window.size + count ≤ window.cells.length := by
  have total := window.size_add_room
  rw [compact]
  split
  · simp only
    omega
  · omega

/-- The piece that ends where other cells are put in becomes longer by them. -/
theorem take_drop_insert (cells data : List Cell) {start size : Nat}
    (within : start + size ≤ cells.length) :
    ((cells.take (start + size) ++ data ++ cells.drop (start + size + data.length)).drop start).take
      (size + data.length) = (cells.drop start).take size ++ data := by
  have front : ((cells.drop start).take size).length = size := by
    rw [List.length_take, List.length_drop]
    omega
  have low : start ≤ (cells.take (start + size)).length := by
    rw [List.length_take]
    omega
  rw [List.append_assoc, List.drop_append_of_le_length low, List.drop_take, Nat.add_sub_cancel_left,
    ← List.append_assoc]
  apply List.take_left'
  rw [List.length_append, front]

/-- More cells come behind the used ones. -/
def append (data : List Cell) (fits : data.length ≤ window.room) : Window Cell :=
  let moved := window.compact data.length
  { cells := moved.cells.take (moved.start + moved.size) ++ data ++
      moved.cells.drop (moved.start + moved.size + data.length)
    start := moved.start
    size := moved.size + data.length
    within := by
      have fits := window.compact_fits fits
      have length := window.length_cells_compact data.length
      have size := window.size_compact data.length
      simp only [moved, List.length_append, List.length_take, List.length_drop]
      omega }

variable {window} {data : List Cell} (fits : data.length ≤ window.room)

@[simp] theorem size_append : (window.append data fits).size = window.size + data.length := by
  simp [append]

@[simp] theorem length_cells_append :
    (window.append data fits).cells.length = window.cells.length := by
  have bound := window.compact_fits fits
  have length := window.length_cells_compact data.length
  have size := window.size_compact data.length
  simp only [append, List.length_append, List.length_take, List.length_drop]
  omega

theorem content_append : (window.append data fits).content = window.content ++ data := by
  have bound := window.compact_fits fits
  have length := window.length_cells_compact data.length
  have size := window.size_compact data.length
  have within : (window.compact data.length).start + (window.compact data.length).size ≤
      (window.compact data.length).cells.length := by omega
  rw [← window.content_compact data.length]
  exact take_drop_insert _ data within

theorem room_append : (window.append data fits).room = window.room - data.length := by
  simp only [room, length_cells_append, size_append]
  omega

end Append

section Grow

/-- The buffer gets longer at its right end. -/
def grow (more : List Cell) : Window Cell where
  cells := window.cells ++ more
  start := window.start
  size := window.size
  within := by
    have within := window.within
    rw [List.length_append]
    omega

theorem content_grow (more : List Cell) : (window.grow more).content = window.content := by
  have within := window.within
  have low : window.size ≤ (window.cells.drop window.start).length := by
    rw [List.length_drop]
    omega
  have front : window.start ≤ window.cells.length := by omega
  rw [content, content, grow]
  simp only
  rw [List.drop_append_of_le_length front, List.take_append_of_le_length low]

end Grow

end Window

end Buffering
