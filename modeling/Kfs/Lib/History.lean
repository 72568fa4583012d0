import Kfs.Lib.Run

/-!
# WithRecord runs

A recorder stands beside a system and writes down what it sees: `record` makes
the next record of the last one and of the step just taken, and the system
never looks at it. Every run can be recorded (`Run.recorded`), a recorded run
is a run (`WithRecord.run`), and `WithRecord.invariant` is the rule for what holds
between the states and the record.
-/

namespace Kfs

variable {σ ε γ : Type} {step : σ → ε → σ → Prop} {record : σ → ε → σ → γ → γ}

/-- A step of the system, with the record of it. -/
def WithRecord (step : σ → ε → σ → Prop) (record : σ → ε → σ → γ → γ) (x : σ × γ) (e : ε)
    (y : σ × γ) : Prop :=
  step x.1 e y.1 ∧ y.2 = record x.1 e y.1 x.2

theorem Run.recorded {s t : σ} {es : List ε} (h : Run step s es t) (g : γ) :
    ∃ g', Run (WithRecord step record) (s, g) es (t, g') := by
  induction h with
  | nil => exact ⟨g, .nil⟩
  | @snoc es t u e _ hstep ih =>
      obtain ⟨g', hrun⟩ := ih
      exact ⟨record t e u g', hrun.snoc ⟨hstep, rfl⟩⟩

/-- `I` is an invariant of the system, and `J` one of the record while `I`
holds. -/
theorem WithRecord.invariant {I : σ → Prop} {J : σ → γ → Prop} {s : σ} {g : γ} {y : σ × γ}
    {es : List ε} (h0 : I s) (hJ : J s g) (hI : ∀ {t e u}, I t → step t e u → I u)
    (hstep : ∀ {t e u g}, I t → J t g → step t e u → J u (record t e u g))
    (h : Run (WithRecord step record) (s, g) es y) : I y.1 ∧ J y.1 y.2 := by
  refine h.invariant (I := fun y => I y.1 ∧ J y.1 y.2) ⟨h0, hJ⟩ ?_
  rintro ⟨t, g1⟩ e ⟨u, g2⟩ ⟨ht, hg⟩ ⟨hs, hrecord⟩
  obtain rfl : g2 = record t e u g1 := hrecord
  exact ⟨hI ht hs, hstep ht hg hs⟩

end Kfs
