import Mathlib.Data.List.Basic
import Mathlib.Tactic.Common

/-!
# Rows of a flat buffer

A buffer that holds several rows of one width, one behind the other.  Row `row` begins at
`row * width`.  `slice` reads a row and `write` replaces it.

## Independence

A written row reads as it was written (`slice_write_self`), and the rows are independent: writing
one shows in that one and in no other (`slice_write_of_ne`).  For two rows there are two cases, one
for each of their orders, and in both the windows do not meet because a whole width lies between
the starts.

## Bounds

Everything is stated for rows that lie inside the buffer, which is what `row_le` gives for the rows
that the buffer has been made for.  The length of the buffer may be larger; what is behind the rows
is not touched, and no theorem speaks of it.  A written row must have the width of the rows, since
`write` puts it between what was in front of the row and what was behind it, and a row of another
length would move the rest (`length_write`).
-/

namespace RowSlices

variable {α : Type*}

/-- The cells of a row. -/
def slice (cells : List α) (width row : ℕ) : List α := (cells.drop (row * width)).take width

/-- Replaces the cells of a row. -/
def write (cells : List α) (width row : ℕ) (written : List α) : List α :=
  cells.take (row * width) ++ written ++ cells.drop (row * width + width)

variable {cells written : List α} {width row row' : ℕ}

theorem length_slice (h : row * width + width ≤ cells.length) :
    (slice cells width row).length = width := by
  rw [slice, List.length_take, List.length_drop]
  omega

theorem length_write (h : row * width + width ≤ cells.length) (hw : written.length = width) :
    (write cells width row written).length = cells.length := by
  rw [write, List.length_append, List.length_append, List.length_take, List.length_drop, hw]
  omega

/-- A row lies inside a buffer of enough rows. -/
theorem row_le {rows : ℕ} (hrow : row < rows) : row * width + width ≤ rows * width := by
  rw [← Nat.succ_mul]
  exact Nat.mul_le_mul_right width hrow

theorem getElem?_slice (cells : List α) (width row i : ℕ) :
    (slice cells width row)[i]? = if i < width then cells[row * width + i]? else none := by
  rw [slice, List.getElem?_take, List.getElem?_drop]

/-- A written row reads as it was written. -/
theorem slice_write_self (h : row * width + width ≤ cells.length) (hw : written.length = width) :
    slice (write cells width row written) width row = written := by
  have hbefore : (cells.take (row * width)).length = row * width := by
    rw [List.length_take]
    omega
  rw [slice, write, List.append_assoc, List.drop_left' hbefore, List.take_left' hw]

/-- **Writing a row leaves the others alone.** -/
theorem slice_write_of_ne (h : row * width + width ≤ cells.length) (hw : written.length = width)
    (hne : row' ≠ row) : slice (write cells width row written) width row' =
      slice cells width row' := by
  have hbefore : (cells.take (row * width)).length = row * width := by
    rw [List.length_take]
    omega
  refine List.ext_getElem? fun i => ?_
  rw [getElem?_slice, getElem?_slice]
  by_cases hi : i < width
  · rw [if_pos hi, if_pos hi, write, List.append_assoc]
    rcases Nat.lt_or_ge row' row with hlt | hge
    · have hrows : row' * width + width ≤ row * width := row_le hlt
      rw [List.getElem?_append_left (by omega), List.getElem?_take_of_lt (by omega)]
    · have hrows : row * width + width ≤ row' * width := row_le (by omega)
      rw [List.getElem?_append_right (by omega), List.getElem?_append_right (by omega), hbefore,
        hw, List.getElem?_drop]
      congr 1
      omega
  · rw [if_neg hi, if_neg hi]

end RowSlices
