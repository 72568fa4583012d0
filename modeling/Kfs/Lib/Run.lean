import Mathlib.Logic.Relation

/-!
# Faults, loops and runs

`Fault` is what can stop a C function from returning: a panic, or a loop
that never ends. Functions that can meet one return in `Except Fault`, and
`bind_eq_ok` takes such a computation apart.

`forRange` is the counting loop of C; `forRange_invariant` is its Hoare rule.

A system is a labelled step relation; `Run` is its finite executions, read
from the start, so that the last step is the outermost constructor. The two
rules below are the only inductions over runs: `Run.invariant` for a
property of states, and `Run.invariant_trace` for a property that also
looks at the labels seen so far.
-/

namespace Kfs

/-- Why a C function does not return. -/
inductive Fault where
  /-- The kernel printed `message` and halted. -/
  | panic (message : String)
  /-- A loop revisits a state it has been in before. -/
  | diverge
  deriving DecidableEq, Repr

theorem bind_eq_ok {ε α β : Type} {x : Except ε α} {f : α → Except ε β} {b : β} :
    x >>= f = .ok b ↔ ∃ a, x = .ok a ∧ f a = .ok b := by
  cases x with
  | error e => simp [bind, Except.bind]
  | ok a => simp [bind, Except.bind]

theorem bind_of_ok {ε α β : Type} {x : Except ε α} {f : α → Except ε β} {a : α}
    (h : x = .ok a) : x >>= f = f a := by
  rw [h]
  rfl

theorem bind_of_error {ε α β : Type} {x : Except ε α} {f : α → Except ε β} {e : ε}
    (h : x = .error e) : x >>= f = .error e := by
  rw [h]
  rfl

theorem map_eq_ok {ε α β : Type} {x : Except ε α} {f : α → β} {b : β} :
    x.map f = .ok b ↔ ∃ a, x = .ok a ∧ f a = b := by
  cases x with
  | error e => simp [Except.map]
  | ok a => simp [Except.map]

/-- For a call whose result is a reply and a state, of which the reply is
translated. -/
theorem map_reply_eq_ok {ε α ρ σ : Type} {x : Except ε (α × σ)} {f : α → ρ} {r : ρ} {t : σ} :
    (x.map fun y => (f y.1, y.2)) = .ok (r, t) ↔ ∃ a, r = f a ∧ x = .ok (a, t) := by
  rw [map_eq_ok]
  constructor
  · rintro ⟨⟨a, u⟩, hx, heq⟩
    obtain ⟨rfl, rfl⟩ := Prod.mk.inj heq
    exact ⟨a, rfl, hx⟩
  · rintro ⟨a, rfl, hx⟩
    exact ⟨(a, t), hx, rfl⟩

theorem map_of_ok {ε α β : Type} {x : Except ε α} {f : α → β} {a : α} (h : x = .ok a) :
    x.map f = .ok (f a) := by
  rw [h]
  rfl

theorem map_of_error {ε α β : Type} {x : Except ε α} {f : α → β} {e : ε} (h : x = .error e) :
    x.map f = .error e := by
  rw [h]
  rfl

theorem eq_ok_of_toOption {ε α : Type} {x : Except ε α} {a : α} (h : x.toOption = some a) :
    x = .ok a := by
  cases x with
  | error e => cases h
  | ok b => exact congrArg Except.ok (Option.some.inj h)

/-- A call that is known by what is observed of its result. -/
theorem eq_ok_of_map {ε α β : Type} {x : Except ε α} {f : α → β} {b : β}
    (h : x.toOption.map f = some b) : ∃ a, x = .ok a ∧ f a = b := by
  obtain ⟨a, hx, rfl⟩ := Option.map_eq_some_iff.mp h
  exact ⟨a, eq_ok_of_toOption hx, rfl⟩

/-- A call that is known by the first component of its result. -/
theorem eq_ok_of_fst {ε α β : Type} {x : Except ε (α × β)} {a : α}
    (h : x.toOption.map Prod.fst = some a) : ∃ b, x = .ok (a, b) := by
  obtain ⟨r, rfl, rfl⟩ := eq_ok_of_map h
  exact ⟨r.2, rfl⟩

/-! ## Counting loops -/

section Loops

variable {σ : Type}

/-- `for (i = lo; i < hi; i++) s = body(i, s)`. -/
def forRange (lo hi : Nat) (body : Nat → σ → σ) (s : σ) : σ :=
  (List.range' lo (hi - lo)).foldl (fun s i => body i s) s

theorem forRange_invariant {I : Nat → σ → Prop} {lo hi : Nat} {f : Nat → σ → σ}
    {s : σ} (hle : lo ≤ hi) (h0 : I lo s)
    (hstep : ∀ i s, lo ≤ i → i < hi → I i s → I (i + 1) (f i s)) :
    I hi (forRange lo hi f s) := by
  unfold forRange
  have main : ∀ n lo s, lo + n = hi → I lo s →
      (∀ i s, lo ≤ i → i < hi → I i s → I (i + 1) (f i s)) →
      I hi ((List.range' lo n).foldl (fun s i => f i s) s) := by
    intro n
    induction n with
    | zero =>
        intro lo s hlo h0 _
        obtain rfl : lo = hi := by omega
        exact h0
    | succ n ih =>
        intro lo s hlo h0 hstep
        rw [List.range'_succ, List.foldl_cons]
        exact ih (lo + 1) (f lo s) (by omega) (hstep lo s (by omega) (by omega) h0)
          fun i s hi h => hstep i s (by omega) h
  exact main (hi - lo) lo s (by omega) h0 hstep

/-- A loop whose range is empty does nothing. -/
theorem forRange_of_le {lo hi : Nat} {body : Nat → σ → σ} {s : σ} (h : hi ≤ lo) :
    forRange lo hi body s = s := by
  rw [forRange, Nat.sub_eq_zero_of_le h]
  rfl

end Loops

/-! ## Runs -/

section Runs

variable {σ ε : Type} {step : σ → ε → σ → Prop}

/-- The executions of a labelled step relation, with the labels in order. -/
inductive Run (step : σ → ε → σ → Prop) (s : σ) : List ε → σ → Prop where
  | nil : Run step s [] s
  | snoc {es : List ε} {t u : σ} {e : ε} :
      Run step s es t → step t e u → Run step s (es ++ [e]) u

theorem Run.one {s t : σ} {e : ε} (h : step s e t) : Run step s [e] t := .snoc .nil h

theorem Run.invariant_trace {I : List ε → σ → Prop} {s u : σ} {es : List ε}
    (h0 : I [] s)
    (hstep : ∀ {es t e u}, I es t → step t e u → I (es ++ [e]) u)
    (h : Run step s es u) : I es u := by
  induction h with
  | nil => exact h0
  | snoc _ hs ih => exact hstep ih hs

theorem Run.invariant {I : σ → Prop} {s u : σ} {es : List ε} (h0 : I s)
    (hstep : ∀ {t e u}, I t → step t e u → I u) (h : Run step s es u) : I u :=
  h.invariant_trace (I := fun _ => I) h0 hstep

/-- A run under a stronger step relation is a run. -/
theorem Run.mono {step' : σ → ε → σ → Prop} {s u : σ} {es : List ε}
    (hsub : ∀ {t e u}, step t e u → step' t e u) (h : Run step s es u) :
    Run step' s es u := by
  induction h with
  | nil => exact .nil
  | snoc _ hs ih => exact .snoc ih (hsub hs)

/-- A run all of whose labels satisfy `P`. -/
theorem Run.restrict {P : ε → Prop} {s u : σ} {es : List ε} (h : Run step s es u)
    (hall : ∀ e ∈ es, P e) : Run (fun s e t => step s e t ∧ P e) s es u := by
  induction h with
  | nil => exact .nil
  | snoc _ hs ih =>
      exact (ih fun e he => hall e (List.mem_append_left _ he)).snoc ⟨hs, hall _ (by simp)⟩

/-- A run of a system is one of every system that simulates it step by
step. -/
theorem Run.simulates {τ δ : Type} {step' : τ → δ → τ → Prop} {R : σ → τ → Prop} {f : ε → δ}
    {s u : σ} {t : τ} {es : List ε}
    (hsim : ∀ {s e s' t}, step s e s' → R s t → ∃ t', step' t (f e) t' ∧ R s' t')
    (h : Run step s es u) (h0 : R s t) : ∃ t', Run step' t (es.map f) t' ∧ R u t' := by
  induction h with
  | nil => exact ⟨t, .nil, h0⟩
  | snoc _ hs ih =>
      obtain ⟨t1, hrun, h1⟩ := ih
      obtain ⟨t2, hstep, h2⟩ := hsim hs h1
      exact ⟨t2, by simpa using hrun.snoc hstep, h2⟩

theorem Run.append {s t u : σ} {es fs : List ε} (h : Run step s es t)
    (h' : Run step t fs u) : Run step s (es ++ fs) u := by
  induction h' with
  | nil => simpa using h
  | snoc _ hs ih => rw [← List.append_assoc]; exact .snoc ih hs

/-- Runs read from the start: empty, or a first step and the rest. -/
theorem Run.cases_head {s u : σ} {es : List ε} (h : Run step s es u) :
    es = [] ∧ u = s ∨ ∃ e fs t, es = e :: fs ∧ step s e t ∧ Run step t fs u := by
  induction h with
  | nil => exact Or.inl ⟨rfl, rfl⟩
  | @snoc es t u e hrun hs ih =>
      rcases ih with ⟨rfl, rfl⟩ | ⟨f, fs, t1, rfl, hfirst, hrest⟩
      · exact Or.inr ⟨e, [], u, rfl, hs, .nil⟩
      · exact Or.inr ⟨f, fs ++ [e], t1, rfl, hfirst, hrest.snoc hs⟩

theorem Run.eq_of_nil {s u : σ} (h : Run step s [] u) : u = s := by
  rcases h.cases_head with ⟨-, rfl⟩ | ⟨e, fs, t, heq, -⟩
  · rfl
  · cases heq

theorem Run.uncons {s u : σ} {e : ε} {es : List ε} (h : Run step s (e :: es) u) :
    ∃ t, step s e t ∧ Run step t es u := by
  rcases h.cases_head with ⟨heq, -⟩ | ⟨f, fs, t, heq, hfirst, hrest⟩
  · cases heq
  · obtain ⟨rfl, rfl⟩ := List.cons.inj heq
    exact ⟨t, hfirst, hrest⟩

theorem Run.of_one {s u : σ} {e : ε} (h : Run step s [e] u) : step s e u := by
  obtain ⟨t, hstep, hrest⟩ := h.uncons
  obtain rfl := hrest.eq_of_nil
  exact hstep

/-! ## Executable runs -/

variable {ε' ρ : Type} {step' : σ → ε' × ρ → σ → Prop}

/-- Execute a list of inputs, collecting the replies. -/
def execRun (exec : σ → ε' → Option (ρ × σ)) (s : σ) : List ε' → Option (List ρ × σ)
  | [] => some ([], s)
  | e :: es => (exec s e).bind fun x => (execRun exec x.2 es).map fun y => (x.1 :: y.1, y.2)

theorem execRun_run {exec : σ → ε' → Option (ρ × σ)}
    (hexec : ∀ ⦃s e r t⦄, exec s e = some (r, t) → step' s (e, r) t) {es : List ε'} {s t : σ}
    {rs : List ρ} (h : execRun exec s es = some (rs, t)) : Run step' s (es.zip rs) t := by
  induction es generalizing s rs with
  | nil =>
      obtain ⟨rfl, rfl⟩ := Prod.mk.inj (Option.some.inj h)
      exact .nil
  | cons e es ih =>
      obtain ⟨⟨r, s1⟩, hfirst, h⟩ := Option.bind_eq_some_iff.mp h
      obtain ⟨⟨rs, t⟩, hrest, heq⟩ := Option.map_eq_some_iff.mp h
      obtain ⟨rfl, rfl⟩ := Prod.mk.inj heq
      exact (Run.one (hexec hfirst)).append (ih hrest)

/-- An executed run, known by its replies and by a property of its last
state. -/
theorem execRun_observe {exec : σ → ε' → Option (ρ × σ)}
    (hexec : ∀ ⦃s e r t⦄, exec s e = some (r, t) → step' s (e, r) t) (s : σ) (es : List ε')
    (rs : List ρ) (P : σ → Prop) [DecidablePred P]
    (h : (execRun exec s es).map (fun x => (x.1, decide (P x.2))) = some (rs, true)) :
    ∃ t, Run step' s (es.zip rs) t ∧ P t := by
  obtain ⟨⟨rs', t⟩, hrun, heq⟩ := Option.map_eq_some_iff.mp h
  obtain ⟨rfl, hP⟩ := Prod.mk.inj heq
  exact ⟨t, execRun_run hexec hrun, of_decide_eq_true hP⟩

/-- Take a list of steps, while each can be taken. -/
def execSteps (exec : σ → ε → Option σ) (s : σ) : List ε → Option σ
  | [] => some s
  | e :: es => (exec s e).bind fun t => execSteps exec t es

theorem execSteps_run {exec : σ → ε → Option σ}
    (hexec : ∀ ⦃s e t⦄, exec s e = some t → step s e t) {es : List ε} {s t : σ}
    (h : execSteps exec s es = some t) : Run step s es t := by
  induction es generalizing s with
  | nil =>
      obtain rfl := Option.some.inj h
      exact .nil
  | cons e es ih =>
      obtain ⟨s1, hfirst, h⟩ := Option.bind_eq_some_iff.mp h
      exact (Run.one (hexec hfirst)).append (ih h)

/-- The steps taken, known by a property of the last state. -/
theorem execSteps_observe {exec : σ → ε → Option σ}
    (hexec : ∀ ⦃s e t⦄, exec s e = some t → step s e t) (s : σ) (es : List ε)
    (P : σ → Prop) [DecidablePred P]
    (h : (execSteps exec s es).map (fun t => decide (P t)) = some true) :
    ∃ t, Run step s es t ∧ P t := by
  obtain ⟨t, hrun, hP⟩ := Option.map_eq_some_iff.mp h
  exact ⟨t, execSteps_run hexec hrun, of_decide_eq_true hP⟩

/-- The same for two lists of steps, one behind the other. -/
theorem execSteps_observe_two {exec : σ → ε → Option σ}
    (hexec : ∀ ⦃s e t⦄, exec s e = some t → step s e t) (s : σ) (es fs : List ε)
    (P : σ → σ → Prop) [∀ t u, Decidable (P t u)]
    (h : ((execSteps exec s es).bind fun t =>
      (execSteps exec t fs).map fun u => decide (P t u)) = some true) :
    ∃ t u, Run step s es t ∧ Run step t fs u ∧ P t u := by
  obtain ⟨t, hrun, h⟩ := Option.bind_eq_some_iff.mp h
  obtain ⟨u, hrun', hP⟩ := Option.map_eq_some_iff.mp h
  exact ⟨t, u, execSteps_run hexec hrun, execSteps_run hexec hrun', of_decide_eq_true hP⟩

/-- Two executed runs, one behind the other. -/
theorem execRun_observe_two {exec : σ → ε' → Option (ρ × σ)}
    (hexec : ∀ ⦃s e r t⦄, exec s e = some (r, t) → step' s (e, r) t) (s : σ) (es : List ε')
    (rs : List ρ) (fs : List ε') (qs : List ρ) (P : σ → σ → Prop) [∀ t u, Decidable (P t u)]
    (h : ((execRun exec s es).bind fun x =>
      (execRun exec x.2 fs).map fun y => (x.1, y.1, decide (P x.2 y.2))) = some (rs, qs, true)) :
    ∃ t u, Run step' s (es.zip rs) t ∧ Run step' t (fs.zip qs) u ∧ P t u := by
  obtain ⟨⟨rs', t⟩, hrun, h⟩ := Option.bind_eq_some_iff.mp h
  obtain ⟨⟨qs', u⟩, hrun', heq⟩ := Option.map_eq_some_iff.mp h
  simp only [Prod.mk.injEq] at heq
  obtain ⟨rfl, rfl, hP⟩ := heq
  exact ⟨t, u, execRun_run hexec hrun, execRun_run hexec hrun', of_decide_eq_true hP⟩

end Runs

end Kfs
