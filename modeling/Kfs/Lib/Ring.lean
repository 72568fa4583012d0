import Mathlib.Logic.Function.Basic
import Mathlib.Tactic.Common

/-!
# Bounded rings

The queue of a C program that keeps `head` and `tail` indices into a fixed
array and leaves one slot unused: it is empty when the indices meet and full
when the slot after `tail` is `head`. The indices are `Fin n`, so an index
outside the array cannot be written down.

`contents` reads the queued values in order. `contents_put` and
`contents_drop` are the two refinement facts: writing into a ring that is
not full appends, advancing `head` takes the oldest value. `full_iff` says
how many values a full ring holds.
-/

namespace Kfs

structure Ring (n : Nat) (α : Type) where
  slots : Fin n → α
  head : Fin n
  tail : Fin n

namespace Ring

variable {n : Nat} {α : Type}

/-- `(i + 1) % n`. -/
def bump (i : Fin n) : Fin n := ⟨(i.val + 1) % n, Nat.mod_lt _ i.pos⟩

def Full (r : Ring n α) : Prop := bump r.tail = r.head

instance (r : Ring n α) : Decidable r.Full := inferInstanceAs (Decidable (_ = _))

def Empty (r : Ring n α) : Prop := r.head = r.tail

instance (r : Ring n α) : Decidable r.Empty := inferInstanceAs (Decidable (_ = _))

/-- Write at `tail` and advance it. -/
def put (r : Ring n α) (v : α) : Ring n α :=
  { r with slots := Function.update r.slots r.tail v, tail := bump r.tail }

/-- The value at `head`. -/
def front (r : Ring n α) : α := r.slots r.head

/-- Advance `head`. -/
def drop (r : Ring n α) : Ring n α := { r with head := bump r.head }

/-- The number of queued values. -/
def count (r : Ring n α) : Nat := (r.tail.val + n - r.head.val) % n

/-- The slot `i` places behind `head`. -/
def index (r : Ring n α) (i : Nat) : Fin n := ⟨(r.head.val + i) % n, Nat.mod_lt _ r.head.pos⟩

/-- The queued values, oldest first. -/
def contents (r : Ring n α) : List α := (List.range r.count).map fun i => r.slots (r.index i)

/-! ## Counting -/

theorem count_lt (r : Ring n α) : r.count < n := Nat.mod_lt _ r.head.pos

/-- `count` without the remainder. -/
theorem count_cases (r : Ring n α) :
    (r.head.val ≤ r.tail.val ∧ r.count = r.tail.val - r.head.val)
      ∨ (r.tail.val < r.head.val ∧ r.count = r.tail.val + n - r.head.val) := by
  have hh := r.head.isLt
  have ht := r.tail.isLt
  unfold count
  rcases Nat.lt_or_ge r.tail.val r.head.val with hlt | hge
  · exact Or.inr ⟨hlt, Nat.mod_eq_of_lt (by omega)⟩
  · refine Or.inl ⟨hge, ?_⟩
    rw [show r.tail.val + n - r.head.val = (r.tail.val - r.head.val) + n by omega,
      Nat.add_mod_right, Nat.mod_eq_of_lt (by omega)]

theorem bump_cases (i : Fin n) :
    (i.val + 1 < n ∧ (bump i).val = i.val + 1) ∨ (i.val + 1 = n ∧ (bump i).val = 0) := by
  have hi := i.isLt
  unfold bump
  rcases Nat.lt_or_ge (i.val + 1) n with hlt | hge
  · exact Or.inl ⟨hlt, Nat.mod_eq_of_lt hlt⟩
  · have heq : i.val + 1 = n := by omega
    refine Or.inr ⟨heq, ?_⟩
    simp only [heq, Nat.mod_self]

theorem full_iff (r : Ring n α) : r.Full ↔ r.count = n - 1 := by
  have hh := r.head.isLt
  have ht := r.tail.isLt
  have hb := bump_cases r.tail
  have hc := r.count_cases
  unfold Full
  rw [Fin.ext_iff]
  omega

theorem empty_iff (r : Ring n α) : r.Empty ↔ r.count = 0 := by
  have hh := r.head.isLt
  have ht := r.tail.isLt
  have hc := r.count_cases
  unfold Empty
  rw [Fin.ext_iff]
  omega

theorem count_put {r : Ring n α} (hfull : ¬r.Full) (v : α) : (r.put v).count = r.count + 1 := by
  have hh := r.head.isLt
  have hb := bump_cases r.tail
  have hc := r.count_cases
  have hc' := (r.put v).count_cases
  have hlt := r.count_lt
  have hne := mt r.full_iff.mpr hfull
  have hhead : (r.put v).head = r.head := rfl
  have htail : (r.put v).tail = bump r.tail := rfl
  rw [hhead, htail] at hc'
  omega

theorem count_drop {r : Ring n α} (hempty : ¬r.Empty) : r.count = r.drop.count + 1 := by
  have ht := r.tail.isLt
  have hb := bump_cases r.head
  have hc := r.count_cases
  have hc' := r.drop.count_cases
  have hne := mt r.empty_iff.mpr hempty
  have hhead : r.drop.head = bump r.head := rfl
  have htail : r.drop.tail = r.tail := rfl
  rw [hhead, htail] at hc'
  omega

/-! ## Contents -/

@[simp] theorem length_contents (r : Ring n α) : r.contents.length = r.count := by
  simp [contents]

theorem contents_eq_nil {r : Ring n α} (h : r.Empty) : r.contents = [] := by
  rw [contents, r.empty_iff.mp h]
  rfl

/-- The slot behind the last queued value is the one `put` writes. -/
theorem index_count (r : Ring n α) : r.index r.count = r.tail := by
  have hh := r.head.isLt
  have ht := r.tail.isLt
  apply Fin.ext
  show (r.head.val + r.count) % n = r.tail.val
  rcases r.count_cases with ⟨_, hc⟩ | ⟨_, hc⟩
  · rw [hc, Nat.mod_eq_of_lt (by omega)]
    omega
  · rw [hc, show r.head.val + (r.tail.val + n - r.head.val) = r.tail.val + n by omega,
      Nat.add_mod_right, Nat.mod_eq_of_lt ht]

/-- No queued value sits in that slot. -/
theorem index_ne_tail {r : Ring n α} {i : Nat} (hi : i < r.count) : r.index i ≠ r.tail := by
  have hh := r.head.isLt
  have ht := r.tail.isLt
  have hlt := r.count_lt
  intro heq
  have hval : (r.head.val + i) % n = r.tail.val := congrArg Fin.val heq
  have hmod : r.head.val + i < n ∧ (r.head.val + i) % n = r.head.val + i
      ∨ n ≤ r.head.val + i ∧ (r.head.val + i) % n = r.head.val + i - n := by
    rcases Nat.lt_or_ge (r.head.val + i) n with h | h
    · exact Or.inl ⟨h, Nat.mod_eq_of_lt h⟩
    · exact Or.inr ⟨h, by rw [Nat.mod_eq_sub_mod h, Nat.mod_eq_of_lt (by omega)]⟩
  have hc := r.count_cases
  omega

theorem contents_put {r : Ring n α} (hfull : ¬r.Full) (v : α) :
    (r.put v).contents = r.contents ++ [v] := by
  have hindex : ∀ i, (r.put v).index i = r.index i := fun _ => rfl
  unfold contents
  rw [count_put hfull, List.range_succ, List.map_append]
  congr 1
  · refine List.map_congr_left ?_
    intro i hi
    rw [hindex, put]
    exact Function.update_of_ne (index_ne_tail (List.mem_range.mp hi)) _ _
  · rw [List.map_singleton, hindex, r.index_count, put]
    exact congrArg (fun x => [x]) (Function.update_self _ _ _)

theorem contents_drop {r : Ring n α} (hempty : ¬r.Empty) :
    r.contents = r.front :: r.drop.contents := by
  have hhead : r.index 0 = r.head := Fin.ext (Nat.mod_eq_of_lt r.head.isLt)
  have hindex : ∀ i, r.drop.index i = r.index (i + 1) := by
    intro i
    apply Fin.ext
    show ((r.head.val + 1) % n + i) % n = (r.head.val + (i + 1)) % n
    rw [Nat.mod_add_mod, Nat.add_assoc, Nat.add_comm 1 i]
  unfold contents
  rw [count_drop hempty, List.range_succ_eq_map, List.map_cons, List.map_map, hhead]
  congr 1
  refine List.map_congr_left ?_
  intro i _
  rw [hindex]
  rfl

end Ring

end Kfs
