import Mathlib.Data.List.Basic
import Mathlib.Data.List.Induction

/-!
# Machines that read and write

A machine reads one letter at a time and writes a word, perhaps empty, for
each. What two machines write for a text can be the same although they
disagree along the way; `transduce_eq_iff` says when it cannot: if on
every letter one of them writes at least as much of one kind and at most as
much of the other kind, equal texts are equal letter by letter.
-/

namespace Kfs

section Machine

variable {σ α β : Type} (step : σ → α → σ × List β)

/-- What the machine writes for a text. -/
def transduce : σ → List α → List β
  | _, [] => []
  | s, a :: as => (step s a).2 ++ transduce (step s a).1 as

/-- Where the machine is after a text. -/
def stateAfter (s : σ) (as : List α) : σ := as.foldl (fun s a => (step s a).1) s

/-- What it writes for `a` after a text. -/
def writes (s : σ) (as : List α) (a : α) : List β := (step (stateAfter step s as) a).2

variable (s : σ) (as : List α) (a : α)

@[simp] theorem stateAfter_nil : stateAfter step s [] = s := rfl

@[simp] theorem stateAfter_snoc :
    stateAfter step s (as ++ [a]) = (step (stateAfter step s as) a).1 := by
  simp [stateAfter]

theorem transduce_snoc :
    transduce step s (as ++ [a]) = transduce step s as ++ writes step s as a := by
  induction as generalizing s with
  | nil => simp [transduce, writes]
  | cons b bs ih => simp [transduce, ih, writes, stateAfter]

end Machine

/-! ## Two machines on one text -/

section Compare

variable {σ τ α β : Type} {step : σ → α → σ × List β} {step' : τ → α → τ × List β}
  {s : σ} {t : τ} {p : β → Bool}

/-- What is written more often for every letter is written more often. -/
theorem countP_transduce_le
    (h : ∀ before a, (writes step s before a).countP p ≤ (writes step' t before a).countP p)
    (as : List α) : (transduce step s as).countP p ≤ (transduce step' t as).countP p := by
  induction as using List.reverseRecOn with
  | nil => exact Nat.le_refl 0
  | append_singleton as a ih =>
      rw [transduce_snoc, transduce_snoc, List.countP_append, List.countP_append]
      exact Nat.add_le_add ih (h as a)

/-- The first machine writes what has `p` at most as often as the second, and
the rest at least as often. -/
theorem transduce_eq_iff
    (hless : ∀ before a,
      (writes step s before a).countP p ≤ (writes step' t before a).countP p)
    (hmore : ∀ before a, (writes step' t before a).countP (fun b => !p b)
      ≤ (writes step s before a).countP fun b => !p b)
    (as : List α) :
    transduce step s as = transduce step' t as
      ↔ ∀ before a, before ++ [a] <+: as → writes step s before a = writes step' t before a := by
  induction as using List.reverseRecOn with
  | nil =>
      refine ⟨fun _ before a h => ?_, fun _ => rfl⟩
      exact absurd (List.prefix_nil.mp h) (by simp)
  | append_singleton as a ih =>
      rw [transduce_snoc, transduce_snoc]
      constructor
      · intro heq before b hbegins
        have hp := congrArg (List.countP p) heq
        have hq := congrArg (List.countP fun b => !p b) heq
        rw [List.countP_append, List.countP_append] at hp hq
        have hpast := countP_transduce_le hless as
        have hpast' := countP_transduce_le hmore as
        have hlast := hless as a
        have hlast' := hmore as a
        have hlen : (writes step s as a).length = (writes step' t as a).length := by
          rw [List.length_eq_countP_add_countP p (l := writes step s as a),
            List.length_eq_countP_add_countP p (l := writes step' t as a)]
          simp only [Bool.not_eq_true, Bool.decide_eq_false]
          omega
        obtain ⟨hbefore, hwrites⟩ := List.append_inj' heq hlen
        rcases List.prefix_concat_iff.mp hbegins with hall | hrest
        · obtain ⟨rfl, hb⟩ := List.append_inj' hall rfl
          obtain rfl := List.cons.inj hb |>.1
          exact hwrites
        · exact ih.mp hbefore before b hrest
      · intro h
        rw [h as a (List.prefix_refl _),
          ih.mpr fun before b hb => h before b (hb.trans (List.prefix_append _ _))]

end Compare

end Kfs
