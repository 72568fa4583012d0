import Kfs.Lib.Cells

/-!
# Arrays of a fixed size

The same loops with every access tested: `readCell` and `writeCell` fail
outside an array of `n` cells, and `forRangeM` is the loop whose turns may
fail. If no turn fails, it is the loop without the tests (`forRangeM_some`).
`readString` reads up to a terminator, and fails if there is none.
-/

namespace Kfs

section Cells

variable {α : Type} (n : Nat) (m : Nat → α) (i : Nat)

def readCell : Option α := if i < n then some (m i) else none

def writeCell (v : α) : Option (Nat → α) := if i < n then some (Function.update m i v) else none

variable {n i}

theorem readCell_some (h : i < n) : readCell n m i = some (m i) := if_pos h

theorem writeCell_some (h : i < n) (v : α) : writeCell n m i v = some (Function.update m i v) :=
  if_pos h

/-- Copy a cell. -/
theorem readCell_writeCell {n' j : Nat} (src : Nat → α) (hi : i < n) (hj : j < n') :
    (readCell n' src j).bind (writeCell n m i) = some (Function.update m i (src j)) := by
  rw [readCell_some src hj, Option.bind_some, writeCell_some m hi]

end Cells

section Loops

variable {σ : Type} {lo hi : Nat}

def forRangeM (lo hi : Nat) (body : Nat → σ → Option σ) (s : σ) : Option σ :=
  (List.range' lo (hi - lo)).foldlM (fun s i => body i s) s

theorem forRangeM_some {body : Nat → σ → Option σ} {f : Nat → σ → σ}
    (h : ∀ i, lo ≤ i → i < hi → ∀ s, body i s = some (f i s)) (s : σ) :
    forRangeM lo hi body s = some (forRange lo hi f s) := by
  unfold forRangeM forRange
  have hmem : ∀ i ∈ List.range' lo (hi - lo), ∀ s, body i s = some (f i s) := fun i hi' s => by
    obtain ⟨hlo, hhi⟩ := List.mem_range'_1.mp hi'
    exact h i hlo (by omega) s
  generalize List.range' lo (hi - lo) = is at hmem ⊢
  induction is generalizing s with
  | nil => rfl
  | cons i is ih =>
      rw [List.foldlM_cons, List.foldl_cons, hmem i List.mem_cons_self]
      exact ih _ fun j hj => hmem j (List.mem_cons_of_mem _ hj)

end Loops

section Strings

variable {α : Type} [DecidableEq α] (zero : α)

/-- The cells from `i` up to the first `zero`, of which one must be among the
next `left`. -/
def readString (m : Nat → α) : (left i : Nat) → Option (List α)
  | 0, _ => none
  | left + 1, i => if m i = zero then some [] else (readString m left (i + 1)).map (m i :: ·)

variable {zero} {m : Nat → α} {left i : Nat} {s : List α}

theorem readString_cons (hi : m i ≠ zero) (h : readString zero m left (i + 1) = some s) :
    readString zero m (left + 1) i = some (m i :: s) := by
  rw [readString, if_neg hi, h]
  rfl

/-- A write in front of a string leaves it. -/
theorem readString_update {j : Nat} (hj : j < i) (v : α) :
    readString zero (Function.update m j v) left i = readString zero m left i := by
  induction left generalizing i with
  | zero => rfl
  | succ left ih =>
      rw [readString, readString, Function.update_of_ne (by omega), ih (by omega)]

end Strings

end Kfs
