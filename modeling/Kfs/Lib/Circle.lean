import Mathlib.Data.List.Chain
import Mathlib.Data.List.Nodup

/-!
# Going round a list

`circleFrom c l` is the list `l` read in a circle, from the element behind
`c` round to `c` itself. The first element of the circle that passes a test
is the next one to be served (`circleFrom_next`): it goes to the end of the
circle. `queueFrom e c l`, the circle without the elements that fail the test
`e`, is then a queue that is served at its head and refilled at its end, so a
round that serves as many as the queue is long serves each of them once
(`queue_served`).
-/

namespace Kfs

variable {α : Type} [DecidableEq α]

/-- From behind `c` to the end of the list, and from its start up to `c`. -/
def circleFrom (c : α) (l : List α) : List α :=
  (l.dropWhile fun x => decide (x ≠ c)).tail ++ (l.takeWhile fun x => decide (x ≠ c)) ++ [c]

theorem circleFrom_append {c : α} {xs ys : List α} (h : c ∉ xs) :
    circleFrom c (xs ++ c :: ys) = ys ++ xs ++ [c] := by
  have hpass : ∀ x ∈ xs, decide (x ≠ c) = true := by
    intro x hx
    rw [decide_eq_true_eq]
    rintro rfl
    exact h hx
  unfold circleFrom
  rw [List.dropWhile_append_of_pos hpass, List.takeWhile_append_of_pos hpass,
    List.dropWhile_cons_of_neg (by simp), List.takeWhile_cons_of_neg (by simp), List.append_nil]
  rfl

theorem circleFrom_perm {c : α} {l : List α} (h : c ∈ l) : (circleFrom c l).Perm l := by
  obtain ⟨xs, ys, rfl, hxs⟩ := List.eq_append_cons_of_mem h
  rw [circleFrom_append hxs, List.append_assoc]
  refine List.perm_append_comm.trans ?_
  rw [List.append_assoc]
  exact .refl _

/-- Serving the first of the circle puts it at the end. -/
theorem circleFrom_next {c p : α} {l us vs : List α} (hnodup : l.Nodup) (hc : c ∈ l)
    (h : circleFrom c l = us ++ p :: vs) : circleFrom p l = vs ++ us ++ [p] := by
  obtain ⟨xs, ys, rfl, hxs⟩ := List.eq_append_cons_of_mem hc
  have hcircle : (circleFrom c (xs ++ c :: ys)).Nodup :=
    (circleFrom_perm (by simp)).nodup_iff.mpr hnodup
  rw [circleFrom_append hxs] at h hcircle
  rw [h] at hcircle
  -- where `p` stands: behind `c`, before it, or at it
  rw [List.append_assoc] at h
  rcases List.append_eq_append_iff.mp h with ⟨ws, rfl, hrest⟩ | ⟨ws, rfl, hrest⟩
  · rcases List.append_eq_append_iff.mp hrest with ⟨zs, rfl, hend⟩ | ⟨zs, rfl, hend⟩
    · cases zs with
      | nil =>
          obtain ⟨rfl, rfl⟩ : c = p ∧ vs = [] := by simpa using hend
          rw [circleFrom_append hxs]
          simp
      | cons z zs =>
          have := congrArg List.length hend
          simp at this
    · cases zs with
      | nil =>
          obtain ⟨rfl, rfl⟩ : p = c ∧ vs = [] := by simpa using hend
          rw [List.append_nil] at hxs ⊢
          rw [circleFrom_append hxs]
          simp
      | cons z zs =>
          obtain ⟨rfl, rfl⟩ := List.cons.inj hend
          have hp : p ∉ ws := fun hp => by
            rw [List.append_assoc] at hcircle
            exact (List.nodup_append.mp (List.nodup_append.mp hcircle).2.1).2.2 p hp p
              List.mem_cons_self rfl
          rw [List.append_assoc, List.cons_append, circleFrom_append hp]
          simp
  · cases ws with
    | nil =>
        rw [List.append_nil] at *
        cases xs with
        | nil =>
            obtain ⟨rfl, rfl⟩ : p = c ∧ vs = [] := by simpa using hrest
            rw [circleFrom_append hxs]
            simp
        | cons x xs =>
            obtain ⟨rfl, rfl⟩ := List.cons.inj hrest
            have hcircle' := @circleFrom_append _ _ p [] (xs ++ c :: us) List.not_mem_nil
            rw [List.nil_append] at hcircle'
            rw [List.cons_append, hcircle']
            simp
    | cons w ws =>
        obtain ⟨rfl, rfl⟩ := List.cons.inj hrest
        have hp : p ∉ xs ++ c :: us := by
          intro hp
          have hnodup' : (us ++ p :: (ws ++ (xs ++ [c]))).Nodup := hcircle
          obtain ⟨-, htail, happ⟩ := List.nodup_append.mp hnodup'
          rcases List.mem_append.mp hp with hp | hp
          · exact (List.nodup_cons.mp htail).1 (by simp [hp])
          · rcases List.mem_cons.mp hp with rfl | hp
            · exact (List.nodup_cons.mp htail).1 (by simp)
            · exact happ p hp p List.mem_cons_self rfl
        have hsplit : xs ++ c :: (us ++ p :: ws) = (xs ++ c :: us) ++ p :: ws := by simp
        rw [hsplit, circleFrom_append hp]
        simp

/-- What is found in a list depends on the test of its elements alone. -/
theorem find?_congr {β : Type} {e e' : β → Bool} {l : List β} (h : ∀ x ∈ l, e x = e' x) :
    l.find? e = l.find? e' := by
  rw [← List.head?_filter, ← List.head?_filter, List.filter_congr h]

/-! ## The queue -/

section Queue

variable {e : α → Bool} {c p : α} {l : List α}

/-- The elements that pass the test, the next one to be served first. -/
def queueFrom (e : α → Bool) (c : α) (l : List α) : List α := (circleFrom c l).filter e

theorem queueFrom_perm (h : c ∈ l) : (queueFrom e c l).Perm (l.filter e) :=
  (circleFrom_perm h).filter e

/-- The one that is served leaves the head of the queue for its end. -/
theorem queueFrom_next (hnodup : l.Nodup) (hc : c ∈ l)
    (h : (circleFrom c l).find? e = some p) :
    ∃ rest, queueFrom e c l = p :: rest ∧ queueFrom e p l = rest ++ [p] := by
  obtain ⟨hp, us, vs, hsplit, hfirst⟩ := List.find?_eq_some_iff_append.mp h
  have hus : us.filter e = [] :=
    List.filter_eq_nil_iff.mpr fun x hx => by simpa using hfirst x hx
  refine ⟨vs.filter e, ?_, ?_⟩
  · rw [queueFrom, hsplit, List.filter_append, hus, List.filter_cons_of_pos hp]
    rfl
  · rw [queueFrom, circleFrom_next hnodup hc hsplit, List.filter_append, List.filter_append, hus,
      List.append_nil, List.filter_cons_of_pos hp]
    rfl

end Queue

/-- The element served next, after a part of the queue was served. -/
theorem queue_served {β : Type} {p : β} {q served rest : List β} (hlen : served.length < q.length)
    (hserved : served = q.take served.length)
    (hnow : p :: rest = q.drop served.length ++ q.take served.length) :
    served ++ [p] = q.take (served ++ [p]).length
      ∧ rest ++ [p] = q.drop (served ++ [p]).length ++ q.take (served ++ [p]).length := by
  rw [List.drop_eq_getElem_cons hlen, List.cons_append] at hnow
  obtain ⟨rfl, rfl⟩ := List.cons.inj hnow
  rw [List.length_append, List.length_singleton]
  have htake : q.take (served.length + 1) = q.take served.length ++ [q[served.length]] :=
    List.take_succ_eq_append_getElem hlen
  rw [htake, ← hserved]
  exact ⟨rfl, List.append_assoc _ _ _⟩

end Kfs
