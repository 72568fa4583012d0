import Mathlib.Data.List.Induction
import Mathlib.Data.List.Infix

/-!
# Line editing

A line is edited by appending characters and deleting the last one. An
unbounded line takes every character; a bounded one of `cap` characters drops
what does not fit. As long as the unbounded line stays shorter than `cap` the
two are the same (`foldl_editBounded`).

`StopsAfter` is the moment an editor that watches its line for `stop` hands it
over; every input either gets there or never stops (`stops_or_not`).
-/

namespace Kfs

section Editor

variable {α : Type} [DecidableEq α] (back : α)

/-- Append `c`, or delete the last character. -/
def editLine (line : List α) (c : α) : List α :=
  if c = back then line.dropLast else line ++ [c]

/-- With room for `cap` characters. -/
def editBounded (cap : Nat) (line : List α) (c : α) : List α :=
  if c = back then line.dropLast else if line.length < cap then line ++ [c] else line

variable {back} {line input : List α} {c x : α}

theorem mem_editLine (h : x ∈ editLine back line c) : x ∈ line ∨ x = c := by
  unfold editLine at h
  split at h
  · exact Or.inl (List.dropLast_subset _ h)
  · exact (List.mem_append.mp h).imp_right List.mem_singleton.mp

theorem mem_foldl_editLine (h : x ∈ input.foldl (editLine back) line) : x ∈ line ∨ x ∈ input := by
  induction input generalizing line with
  | nil => exact Or.inl h
  | cons c input ih =>
      rcases ih h with h | h
      · rcases mem_editLine h with h | rfl
        · exact Or.inl h
        · exact Or.inr List.mem_cons_self
      · exact Or.inr (List.mem_cons_of_mem _ h)

theorem length_editBounded {cap : Nat} (h : line.length ≤ cap) :
    (editBounded back cap line c).length ≤ cap := by
  unfold editBounded
  split
  · rw [List.length_dropLast]
    omega
  · split
    · rw [List.length_append, List.length_singleton]
      omega
    · exact h

/-- Nothing is dropped while the line stays shorter than `cap`. -/
theorem foldl_editBounded {cap : Nat}
    (h : ∀ before, before <+: input → (before.foldl (editLine back) line).length < cap) :
    input.foldl (editBounded back cap) line = input.foldl (editLine back) line := by
  induction input generalizing line with
  | nil => rfl
  | cons c input ih =>
      have hroom : line.length < cap := h [] List.nil_prefix
      have hstep : editBounded back cap line c = editLine back line c := by
        unfold editBounded editLine
        rw [if_pos hroom]
      rw [List.foldl_cons, List.foldl_cons, hstep]
      exact ih fun before hb => h (c :: before) (List.cons_prefix_cons.mpr ⟨rfl, hb⟩)

end Editor

/-! ## Stopping -/

section Stopping

variable {α : Type} {edit : List α → α → List α} {stop : List α → Prop}

/-- The line stops the editor after `consumed`, and not before. -/
structure StopsAfter (edit : List α → α → List α) (stop : List α → Prop) (line consumed : List α) :
    Prop where
  stops : stop (consumed.foldl edit line)
  first : ∀ before, before <+: consumed → before ≠ consumed → ¬stop (before.foldl edit line)

theorem StopsAfter.cons {line consumed : List α} {c : α} (hline : ¬stop line)
    (h : StopsAfter edit stop (edit line c) consumed) :
    StopsAfter edit stop line (c :: consumed) := by
  refine ⟨h.stops, fun before hbegins hne => ?_⟩
  cases before with
  | nil => exact hline
  | cons d before =>
      obtain ⟨rfl, hbefore⟩ := List.cons_prefix_cons.mp hbegins
      exact h.first before hbefore fun heq => hne (heq ▸ rfl)

theorem StopsAfter.tail {line consumed : List α} {c : α}
    (h : StopsAfter edit stop line (c :: consumed)) :
    ¬stop line ∧ StopsAfter edit stop (edit line c) consumed := by
  refine ⟨h.first [] List.nil_prefix nofun, h.stops, fun before hbegins hne => ?_⟩
  exact h.first (c :: before) (List.cons_prefix_cons.mpr ⟨rfl, hbegins⟩)
    fun heq => hne (List.cons.inj heq).2

/-- An input stops the editor after a first part of it, or not at all. -/
theorem stops_or_not (edit : List α → α → List α) (stop : List α → Prop) (line input : List α) :
    (∃ consumed rest, input = consumed ++ rest ∧ StopsAfter edit stop line consumed)
      ∨ ∀ before, before <+: input → ¬stop (before.foldl edit line) := by
  induction input generalizing line with
  | nil =>
      by_cases hline : stop line
      · exact Or.inl ⟨[], [], rfl, hline, fun before hbegins hne =>
          absurd (List.prefix_nil.mp hbegins) hne⟩
      · refine Or.inr fun before hbegins => ?_
        rw [List.prefix_nil.mp hbegins]
        exact hline
  | cons c input ih =>
      by_cases hline : stop line
      · exact Or.inl ⟨[], c :: input, rfl, hline, fun before hbegins hne =>
          absurd (List.prefix_nil.mp hbegins) hne⟩
      · rcases ih (edit line c) with ⟨consumed, rest, rfl, hstops⟩ | hnever
        · exact Or.inl ⟨c :: consumed, rest, rfl, hstops.cons hline⟩
        · refine Or.inr fun before hbegins => ?_
          cases before with
          | nil => exact hline
          | cons d before =>
              obtain ⟨rfl, hbefore⟩ := List.cons_prefix_cons.mp hbegins
              exact hnever before hbefore

end Stopping

end Kfs
