import Mathlib.Algebra.BigOperators.Group.Finset.Basic
import Mathlib.Tactic.Common

/-!
# Who holds what

A ledger splits a finite set of used things between a fixed part `base` and
finitely many holders, each thing in one place only. Three entries keep it:
`grant` gives fresh things to a holder that has none, `revoke` takes back all
a holder has, and `waste` adds fresh things to the fixed part. `Ledger.card`
counts: nothing is lost and nothing is counted twice. With two groups of
holders there are two ledgers, and `exchange` leads from one to the other.
-/

namespace Kfs

variable {ι α : Type} [Fintype ι] [DecidableEq α]

structure Ledger (used base : Finset α) (owned : ι → Finset α) : Prop where
  total : used = base ∪ Finset.univ.biUnion owned
  apart : ∀ i, Disjoint base (owned i)
  disjoint : ∀ i j, i ≠ j → Disjoint (owned i) (owned j)

variable {used base fresh : Finset α} {owned owned' : ι → Finset α}

theorem Ledger.owned_subset (h : Ledger used base owned) (i : ι) : owned i ⊆ used := by
  intro a ha
  rw [h.total]
  exact Finset.mem_union_right _ (Finset.mem_biUnion.mpr ⟨i, Finset.mem_univ i, ha⟩)

theorem Ledger.base_subset (h : Ledger used base owned) : base ⊆ used := by
  rw [h.total]
  exact Finset.subset_union_left

/-- If everything is fixed, nobody has anything. -/
theorem Ledger.nobody (h : Ledger used used owned) : Finset.univ.biUnion owned = ∅ := by
  refine Finset.eq_empty_of_forall_notMem ?_
  intro a ha
  obtain ⟨i, -, hi⟩ := Finset.mem_biUnion.mp ha
  exact Finset.disjoint_left.mp (h.apart i) (h.owned_subset i hi) hi

/-- Fresh things are nobody's. -/
theorem Ledger.fresh_owned (h : Ledger used base owned) (hfresh : Disjoint used fresh) (i : ι) :
    Disjoint (owned i) fresh :=
  Finset.disjoint_of_subset_left (h.owned_subset i) hfresh

theorem Ledger.fresh_base (h : Ledger used base owned) (hfresh : Disjoint used fresh) :
    Disjoint base fresh :=
  Finset.disjoint_of_subset_left h.base_subset hfresh

theorem Ledger.grant (h : Ledger used base owned) {i : ι} (hi : owned i = ∅)
    (hfresh : Disjoint used fresh) (hself : owned' i = fresh)
    (hother : ∀ j, j ≠ i → owned' j = owned j) : Ledger (used ∪ fresh) base owned' where
  total := by
    ext a
    rw [h.total]
    simp only [Finset.mem_union, Finset.mem_biUnion, Finset.mem_univ, true_and]
    constructor
    · rintro ((ha | ⟨j, ha⟩) | ha)
      · exact Or.inl ha
      · refine Or.inr ⟨j, ?_⟩
        rwa [hother j]
        rintro rfl
        rw [hi] at ha
        exact absurd ha (Finset.notMem_empty a)
      · exact Or.inr ⟨i, hself ▸ ha⟩
    · rintro (ha | ⟨j, ha⟩)
      · exact Or.inl (Or.inl ha)
      · by_cases hj : j = i
        · subst hj
          exact Or.inr (hself ▸ ha)
        · exact Or.inl (Or.inr ⟨j, hother j hj ▸ ha⟩)
  apart j := by
    by_cases hj : j = i
    · rw [hj, hself]
      exact h.fresh_base hfresh
    · rw [hother j hj]
      exact h.apart j
  disjoint j l hjl := by
    by_cases hj : j = i
    · have hl : l ≠ i := fun hl => hjl (hj.trans hl.symm)
      rw [hj, hself, hother l hl]
      exact (h.fresh_owned hfresh l).symm
    · by_cases hl : l = i
      · rw [hl, hself, hother j hj]
        exact h.fresh_owned hfresh j
      · rw [hother j hj, hother l hl]
        exact h.disjoint j l hjl

theorem Ledger.revoke (h : Ledger used base owned) {i : ι} (hself : owned' i = ∅)
    (hother : ∀ j, j ≠ i → owned' j = owned j) : Ledger (used \ owned i) base owned' where
  total := by
    ext a
    rw [h.total]
    simp only [Finset.mem_sdiff, Finset.mem_union, Finset.mem_biUnion, Finset.mem_univ, true_and]
    constructor
    · rintro ⟨ha | ⟨j, ha⟩, hi⟩
      · exact Or.inl ha
      · refine Or.inr ⟨j, ?_⟩
        rwa [hother j]
        rintro rfl
        exact hi ha
    · rintro (ha | ⟨j, ha⟩)
      · exact ⟨Or.inl ha, Finset.disjoint_left.mp (h.apart i) ha⟩
      · have hj : j ≠ i := by
          rintro rfl
          rw [hself] at ha
          exact absurd ha (Finset.notMem_empty a)
        rw [hother j hj] at ha
        exact ⟨Or.inr ⟨j, ha⟩, Finset.disjoint_left.mp (h.disjoint j i hj) ha⟩
  apart j := by
    by_cases hj : j = i
    · rw [hj, hself]
      exact Finset.disjoint_empty_right _
    · rw [hother j hj]
      exact h.apart j
  disjoint j l hjl := by
    by_cases hj : j = i
    · rw [hj, hself]
      exact Finset.disjoint_empty_left _
    · by_cases hl : l = i
      · rw [hl, hself]
        exact Finset.disjoint_empty_right _
      · rw [hother j hj, hother l hl]
        exact h.disjoint j l hjl

theorem Ledger.waste (h : Ledger used base owned) (hfresh : Disjoint used fresh) :
    Ledger (used ∪ fresh) (base ∪ fresh) owned where
  total := by
    rw [h.total, Finset.union_right_comm]
  apart i := Finset.disjoint_union_left.mpr ⟨h.apart i, (h.fresh_owned hfresh i).symm⟩
  disjoint := h.disjoint

/-- Two groups of holders: what one group holds is fixed for the other. -/
theorem Ledger.exchange {κ : Type} [Fintype κ] {held : κ → Finset α}
    (h : Ledger used (base ∪ Finset.univ.biUnion held) owned) (hapart : ∀ j, Disjoint base (held j))
    (hdisjoint : ∀ i j, i ≠ j → Disjoint (held i) (held j)) :
    Ledger used (base ∪ Finset.univ.biUnion owned) held where
  total := by rw [h.total, Finset.union_right_comm]
  apart j := by
    refine Finset.disjoint_union_left.mpr ⟨hapart j, ?_⟩
    refine (Finset.disjoint_biUnion_left _ _ _).mpr ?_
    intro i _
    refine Finset.disjoint_of_subset_right ?_ (h.apart i).symm
    exact (Finset.subset_biUnion_of_mem held (Finset.mem_univ j)).trans Finset.subset_union_right
  disjoint := hdisjoint

/-- Used is the fixed part and what everybody holds. -/
theorem Ledger.card (h : Ledger used base owned) :
    used.card = base.card + ∑ i, (owned i).card := by
  have hbase : Disjoint base (Finset.univ.biUnion owned) :=
    (Finset.disjoint_biUnion_right _ _ _).mpr fun i _ => h.apart i
  rw [h.total, Finset.card_union_of_disjoint hbase,
    Finset.card_biUnion fun i _ j _ hij => h.disjoint i j hij]

end Kfs
