import Mathlib.Logic.Function.Basic
import Kfs.Lib.Run

/-!
# Loops that write an array

An array is a function from indices to cells. A loop writes `n` cells from
`d` up, each from what the array holds when its turn comes. If no turn reads
a cell that an earlier one wrote, the loop writes all cells at once
(`forRange_update`): a fill, a copy from another array, and a move to lower
indices, whose source may overlap its destination.
-/

namespace Kfs

variable {α : Type} {m : Nat → α} {d n : Nat} {dst : Nat → Nat}

theorem forRange_update {f : Nat → (Nat → α) → α} {g : Nat → α} (hdst : ∀ i, dst i = d + i)
    (hf : ∀ i, i < n → ∀ b, (∀ x, d + i ≤ x → b x = m x) → f i b = g i) :
    forRange 0 n (fun i b => Function.update b (dst i) (f i b)) m
      = fun x => if d ≤ x ∧ x < d + n then g (x - d) else m x := by
  refine forRange_invariant
    (I := fun i b => b = fun x => if d ≤ x ∧ x < d + i then g (x - d) else m x)
    (Nat.zero_le n) ?_ ?_
  · funext x
    rw [if_neg (by omega)]
  · rintro i b - hi rfl
    rw [hdst, hf i hi _ fun x hx => if_neg (by omega)]
    funext x
    by_cases hx : x = d + i
    · rw [hx, Function.update_self, if_pos (by omega), Nat.add_sub_cancel_left]
    · rw [Function.update_of_ne hx]
      exact if_congr (by omega) rfl rfl

theorem forRange_fill (v : α) (hdst : ∀ i, dst i = d + i) :
    forRange 0 n (fun i b => Function.update b (dst i) v) m
      = fun x => if d ≤ x ∧ x < d + n then v else m x :=
  forRange_update (f := fun _ _ => v) hdst fun _ _ _ _ => rfl

section Copy

variable {src : Nat → Nat} {s : Nat}

/-- Copy from another array. -/
theorem forRange_copy (from' : Nat → α) (hdst : ∀ i, dst i = d + i) (hsrc : ∀ i, src i = s + i) :
    forRange 0 n (fun i b => Function.update b (dst i) (from' (src i))) m
      = fun x => if d ≤ x ∧ x < d + n then from' (s + (x - d)) else m x :=
  forRange_update (f := fun i _ => from' (src i)) (g := fun i => from' (s + i)) hdst
    fun i _ _ _ => by rw [hsrc]

/-- Move to lower indices. -/
theorem forRange_move (hds : d ≤ s) (hdst : ∀ i, dst i = d + i) (hsrc : ∀ i, src i = s + i) :
    forRange 0 n (fun i b => Function.update b (dst i) (b (src i))) m
      = fun x => if d ≤ x ∧ x < d + n then m (s + (x - d)) else m x :=
  forRange_update (f := fun i b => b (src i)) (g := fun i => m (s + i)) hdst
    fun i _ _ hb => by rw [hsrc, hb _ (by omega)]

end Copy

end Kfs
