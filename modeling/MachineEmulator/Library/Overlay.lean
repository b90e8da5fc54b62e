/-
This file gives total maps from numbers that hold a list of items from one number on, as a memory holds
a block of bytes.
-/

import Mathlib.Data.List.GetD
import Mathlib.Tactic

namespace Overlay

variable {A : Type}

/-- The items at the numbers from a start on. -/
def slice (content : Nat → A) (start count : Nat) : List A :=
  (List.range count).map fun index => content (start + index)

/-- The map with the items put in from a start on. -/
def put (content : Nat → A) (start : Nat) (items : List A) : Nat → A := fun place =>
  if start ≤ place then items.getD (place - start) (content place) else content place

variable {content other : Nat → A} {start count : Nat} {items more : List A}

section Slices

@[simp] theorem length_slice : (slice content start count).length = count := by
  simp [slice]

@[simp] theorem slice_zero : slice content start 0 = [] := rfl

theorem slice_congr (same : ∀ index < count, content (start + index) = other (start + index)) :
    slice content start count = slice other start count :=
  List.map_congr_left fun index member => same index (List.mem_range.mp member)

theorem slice_add (first second : Nat) : slice content start (first + second) =
    slice content start first ++ slice content (start + first) second := by
  simp [slice, List.range_add, Nat.add_assoc]

theorem slice_const {item : A} (same : ∀ index < count, content (start + index) = item) :
    slice content start count = List.replicate count item := by
  rw [List.eq_replicate_iff]
  refine ⟨length_slice, fun found member => ?_⟩
  obtain ⟨index, inside, rfl⟩ := List.mem_map.mp member
  exact same index (List.mem_range.mp inside)

theorem slice_shift (offset : Nat) : slice (fun place => content (offset + place)) start count =
    slice content (offset + start) count :=
  List.map_congr_left fun _ _ => congrArg content (Nat.add_assoc _ _ _).symm

end Slices

section Puts

theorem put_of_lt {place : Nat} (before : place < start) : put content start items place =
    content place := if_neg (Nat.not_le.mpr before)

theorem put_of_ge {place : Nat} (behind : start + items.length ≤ place) :
    put content start items place = content place := by
  rw [put, if_pos (by omega), List.getD_eq_default _ _ (by omega)]

theorem put_inside {index : Nat} (inside : index < items.length) :
    put content start items (start + index) = items[index] := by
  rw [put, if_pos (Nat.le_add_right _ _), Nat.add_sub_cancel_left, List.getD_eq_getElem _ _ inside]

theorem put_nil : put content start [] = content := by
  funext place
  simp [put]

/-- A list goes in part by part. -/
theorem put_append : put content start (items ++ more) =
    put (put content start items) (start + items.length) more := by
  funext place
  by_cases before : place < start
  · rw [put_of_lt before, put_of_lt (by omega), put_of_lt before]
  · obtain ⟨index, rfl⟩ := Nat.exists_eq_add_of_le (Nat.not_lt.mp before)
    by_cases first : index < items.length
    · rw [put_of_lt (show start + index < start + items.length by omega), put_inside first, put_inside
        (by rw [List.length_append]; omega), List.getElem_append_left first]
    · by_cases second : index < (items ++ more).length
      · rw [put_inside second, List.getElem_append_right (Nat.not_lt.mp first)]
        have place : start + index = start + items.length + (index - items.length) := by omega
        rw [place, put_inside (by rw [List.length_append] at second; omega)]
      · rw [List.length_append] at second
        rw [put_of_ge (by rw [List.length_append]; omega), put_of_ge (show start + items.length + more.length ≤ start + index by omega),
          put_of_ge (by omega)]

theorem put_slice : put content start (slice content start count) = content := by
  funext place
  by_cases before : place < start
  · exact put_of_lt before
  · obtain ⟨index, rfl⟩ := Nat.exists_eq_add_of_le (Nat.not_lt.mp before)
    by_cases inside : index < (slice content start count).length
    · rw [put_inside inside]
      simp [slice]
    · exact put_of_ge (by omega)

theorem slice_put : slice (put content start items) start items.length = items := by
  apply List.ext_getElem length_slice
  intro index inside bound
  simp only [slice, List.getElem_map, List.getElem_range]
  exact put_inside bound

/-- Items that are there already change nothing. -/
theorem put_of_slice (same : slice content start items.length = items) :
    put content start items = content := by
  rw [← same, put_slice]

end Puts

end Overlay
