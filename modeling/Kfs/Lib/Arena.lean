import Kfs.Lib.Run

/-!
# Arenas

An arena hands out the cells between `start` and `stop`, from below and for
good: `top` only moves up. So the ranges it hands out lie one behind the
other, however the calls are mixed (`Run.granted`).
-/

namespace Kfs

structure Arena where
  start : Nat
  top : Nat
  stop : Nat
  start_le : start ≤ top
  top_le : top ≤ stop

/-- Hand out the next `n` cells. -/
def Arena.reserve (a : Arena) (n : Nat) : Option Arena :=
  if h : a.top + n ≤ a.stop then
    some { a with
      top := a.top + n
      start_le := Nat.le_trans a.start_le (Nat.le_add_right _ _)
      top_le := h }
  else none

/-- A step of whoever uses the arena, labelled with the range it learns. -/
inductive ArenaStep : Arena → Option (Nat × Nat) → Arena → Prop where
  | idle {a : Arena} : ArenaStep a none a
  | silent {a a' : Arena} {n : Nat} (room : a.reserve n = some a') : ArenaStep a none a'
  | granted {a a' : Arena} {n : Nat} (room : a.reserve n = some a') :
      ArenaStep a (some (a.top, n)) a'

/-- The ranges handed out, first ones first. -/
def grants (labels : List (Option (Nat × Nat))) : List (Nat × Nat) := labels.filterMap id

section

variable {a a' : Arena}

theorem Arena.reserve_eq {n : Nat} (h : a.reserve n = some a') :
    a'.start = a.start ∧ a'.top = a.top + n ∧ a'.stop = a.stop := by
  unfold Arena.reserve at h
  split at h
  · obtain rfl := Option.some.inj h
    exact ⟨rfl, rfl, rfl⟩
  · cases h

/-- What a step keeps, and where the range it hands out is. -/
theorem ArenaStep.moves {label : Option (Nat × Nat)} (h : ArenaStep a label a') :
    a'.start = a.start ∧ a'.stop = a.stop ∧ a.top ≤ a'.top
      ∧ ∀ r, label = some r → r.1 = a.top ∧ r.1 + r.2 = a'.top := by
  cases h with
  | idle => exact ⟨rfl, rfl, Nat.le_refl _, fun r hr => by cases hr⟩
  | silent room =>
      obtain ⟨hstart, htop, hstop⟩ := Arena.reserve_eq room
      exact ⟨hstart, hstop, by omega, fun r hr => by cases hr⟩
  | granted room =>
      obtain ⟨hstart, htop, hstop⟩ := Arena.reserve_eq room
      refine ⟨hstart, hstop, by omega, ?_⟩
      rintro r hr
      obtain rfl := Option.some.inj hr
      exact ⟨rfl, htop.symm⟩

/-- What a run of an arena did: the ranges are in order between the two
tops. -/
structure ArenaRun (a : Arena) (labels : List (Option (Nat × Nat))) (a' : Arena) : Prop where
  start : a'.start = a.start
  stop : a'.stop = a.stop
  top : a.top ≤ a'.top
  inside : ∀ r ∈ grants labels, a.top ≤ r.1 ∧ r.1 + r.2 ≤ a'.top
  apart : (grants labels).Pairwise fun r r' => r.1 + r.2 ≤ r'.1

theorem Run.granted {labels : List (Option (Nat × Nat))} (h : Run ArenaStep a labels a') :
    ArenaRun a labels a' := by
  refine h.invariant_trace (I := fun labels a' => ArenaRun a labels a')
    ⟨rfl, rfl, Nat.le_refl _, by simp [grants], by simp [grants]⟩ ?_
  intro labels a1 label a2 ih hstep
  obtain ⟨hstart, hstop, htop, hlabel⟩ := hstep.moves
  refine ⟨hstart.trans ih.start, hstop.trans ih.stop, Nat.le_trans ih.top htop, ?_, ?_⟩
  · intro r hr
    rw [grants, List.filterMap_append, List.mem_append] at hr
    rcases hr with hr | hr
    · obtain ⟨hlo, hhi⟩ := ih.inside r hr
      exact ⟨hlo, Nat.le_trans hhi htop⟩
    · have hr : label = some r := by simpa [eq_comm] using hr
      obtain ⟨hlo, hhi⟩ := hlabel r hr
      exact ⟨hlo ▸ ih.top, Nat.le_of_eq hhi⟩
  · rw [grants, List.filterMap_append, List.pairwise_append]
    refine ⟨ih.apart, ?_, ?_⟩
    · cases label <;> simp
    · intro r hr r' hr'
      have hr' : label = some r' := by simpa [eq_comm] using hr'
      rw [(hlabel r' hr').1]
      exact (ih.inside r hr).2

end

end Kfs
