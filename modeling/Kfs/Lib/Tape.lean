import Mathlib.Logic.Function.Basic

/-!
# An unbounded tape of lines

A teletype that never runs out of paper: lines of `width` cells, one behind
the other, and a cursor that writes, feeds a line, or goes back and erases.
Everything from the cursor on is blank (`Tape.Clean`), whatever was written.
-/

namespace Kfs

/-- Cells are numbered from the start of the first line. -/
structure Tape (α : Type) where
  cells : Nat → α
  cursor : Nat

namespace Tape

variable {α : Type} (width : Nat) (space : α)

/-- A blank tape. -/
def start : Tape α := ⟨fun _ => space, 0⟩

/-- The line the cursor is in. -/
def row (t : Tape α) : Nat := t.cursor / width

/-- The column the cursor is in. -/
def column (t : Tape α) : Nat := t.cursor % width

/-- Write a cell and advance, past the end of a line to the next one. -/
def put (v : α) (t : Tape α) : Tape α := ⟨Function.update t.cells t.cursor v, t.cursor + 1⟩

/-- To the start of the next line. -/
def lineFeed (t : Tape α) : Tape α := ⟨t.cells, (t.row width + 1) * width⟩

/-- One cell back, and erase it. -/
def erase (t : Tape α) : Tape α := ⟨Function.update t.cells (t.cursor - 1) space, t.cursor - 1⟩

/-- Nothing is written at the cursor or behind it. -/
def Clean (t : Tape α) : Prop := ∀ i, t.cursor ≤ i → t.cells i = space

variable {width space} {t : Tape α}

theorem clean_start : (start space).Clean space := fun _ _ => rfl

theorem Clean.put (h : t.Clean space) (v : α) : (t.put v).Clean space := by
  intro i hi
  have hi' : t.cursor + 1 ≤ i := hi
  show Function.update t.cells t.cursor v i = space
  rw [Function.update_of_ne (by omega)]
  exact h i (by omega)

theorem Clean.lineFeed (h : t.Clean space) (hwidth : 0 < width) :
    (t.lineFeed width).Clean space := by
  intro i hi
  have hi' : (t.cursor / width + 1) * width ≤ i := hi
  have hlt := Nat.lt_div_mul_add hwidth (a := t.cursor)
  rw [Nat.add_mul] at hi'
  exact h i (by omega)

theorem Clean.erase (h : t.Clean space) : (t.erase space).Clean space := by
  intro i hi
  have hi' : t.cursor - 1 ≤ i := hi
  show Function.update t.cells (t.cursor - 1) space i = space
  by_cases hat : i = t.cursor - 1
  · rw [hat, Function.update_self]
  · rw [Function.update_of_ne hat]
    exact h i (by omega)

end Tape

end Kfs
