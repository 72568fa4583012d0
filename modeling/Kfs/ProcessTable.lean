import Kfs.ProcessLinks

/-!
# The table and the list agree

The list of processes contains the used slots and nothing else, and as long
as the pid counter has not come round, pids tell them apart. `PidInv n`
counts the pids handed out so far: a pid is handed out by every creation
that gets a slot, whether it succeeds or not, and never given back.
-/

namespace Kfs

/-! ## Looking up a pid -/

section Lookup

variable {k : Kernel} {l : List Slot} {kids : Slot → List Slot} (h : LinkInv k l kids)

include h

theorem LinkInv.getByPid (pid : Nat) :
    processGetByPid k pid = .ok (l.find? fun p =>
      decide ((k.processTable p).used = true ∧ (k.processTable p).pid = pid)) :=
  search_eq h.linked (nodup_length_lt h.nodup)

theorem LinkInv.getByPid_none (pid : Nat) :
    processGetByPid k pid = .ok none ↔
      ∀ s, (k.processTable s).used = true → (k.processTable s).pid ≠ pid := by
  rw [h.getByPid, Except.ok.injEq, List.find?_eq_none]
  simp only [decide_eq_true_eq, not_and]
  constructor
  · intro hall s hs
    exact hall s ((h.mem s).mpr hs) hs
  · intro hall s _ hs
    exact hall s hs

theorem LinkInv.getByPid_some
    (hinj : ∀ s t, (k.processTable s).used = true → (k.processTable t).used = true →
      (k.processTable s).pid = (k.processTable t).pid → s = t) (pid : Nat) (s : Slot) :
    processGetByPid k pid = .ok (some s) ↔
      (k.processTable s).used = true ∧ (k.processTable s).pid = pid := by
  refine ⟨processGetByPid_some, ?_⟩
  rintro ⟨hused, hpid⟩
  cases hfind : l.find? fun p =>
      decide ((k.processTable p).used = true ∧ (k.processTable p).pid = pid) with
  | none =>
      have hnone := (h.getByPid_none pid).mp ((h.getByPid pid).trans (congrArg Except.ok hfind))
      exact absurd hpid (hnone s hused)
  | some t =>
      have hget := (h.getByPid pid).trans (congrArg Except.ok hfind)
      obtain ⟨hused', hpid'⟩ := processGetByPid_some hget
      rw [hget, hinj s t hused hused' (hpid.trans hpid'.symm)]

end Lookup

/-! ## Pids -/

structure PidInv (n : Nat) (k : Kernel) : Prop where
  next : k.nextPid = (n + 2) % 4294967296
  range : ∀ s, (k.processTable s).used = true →
    1 ≤ (k.processTable s).pid ∧ (k.processTable s).pid ≤ n + 1
  inj : ∀ s t, (k.processTable s).used = true → (k.processTable t).used = true →
    (k.processTable s).pid = (k.processTable t).pid → s = t

/-- Fewer processes and no new pid. -/
theorem PidInv.shrink {n : Nat} {k k' : Kernel} (h : PidInv n k) (hnext : k'.nextPid = k.nextPid)
    (hsame : ∀ s, (k'.processTable s).used = true →
      (k.processTable s).used = true ∧ (k'.processTable s).pid = (k.processTable s).pid) :
    PidInv n k' := by
  refine ⟨hnext.trans h.next, ?_, ?_⟩
  · intro s hs
    obtain ⟨hused, hpid⟩ := hsame s hs
    rw [hpid]
    exact h.range s hused
  · intro s t hs ht heq
    obtain ⟨hused, hpid⟩ := hsame s hs
    obtain ⟨hused', hpid'⟩ := hsame t ht
    exact h.inj s t hused hused' (by rw [← hpid, ← hpid', heq])

/-- A pid is handed out and perhaps not used. -/
theorem PidInv.waste {n : Nat} {k k' : Kernel} (h : PidInv n k)
    (hnext : k'.nextPid = add32 k.nextPid 1)
    (hsame : ∀ s, (k'.processTable s).used = true →
      (k.processTable s).used = true ∧ (k'.processTable s).pid = (k.processTable s).pid) :
    PidInv (n + 1) k' := by
  refine ⟨?_, ?_, ?_⟩
  · rw [hnext, h.next, add32_eq]
    omega
  · intro s hs
    obtain ⟨hused, hpid⟩ := hsame s hs
    have := h.range s hused
    omega
  · intro s t hs ht heq
    obtain ⟨hused, hpid⟩ := hsame s hs
    obtain ⟨hused', hpid'⟩ := hsame t ht
    exact h.inj s t hused hused' (by rw [← hpid, ← hpid', heq])

/-- A pid is handed out to a new process. -/
theorem PidInv.extend {n : Nat} {k k' : Kernel} {p : Slot} (h : PidInv n k)
    (hn : n + 2 < 4294967296) (hnext : k'.nextPid = add32 k.nextPid 1)
    (hself : (k'.processTable p).pid = k.nextPid)
    (hsame : ∀ s, s ≠ p → (k'.processTable s).used = (k.processTable s).used
      ∧ (k'.processTable s).pid = (k.processTable s).pid) : PidInv (n + 1) k' := by
  have hpid : (k'.processTable p).pid = n + 2 := by
    rw [hself, h.next, Nat.mod_eq_of_lt hn]
  have hold : ∀ s, s ≠ p → (k'.processTable s).used = true →
      (k'.processTable s).pid ≤ n + 1 := fun s hs hused => by
    rw [(hsame s hs).2]
    exact (h.range s ((hsame s hs).1.symm.trans hused)).2
  refine ⟨?_, ?_, ?_⟩
  · rw [hnext, h.next, add32_eq]
    omega
  · intro s hs
    by_cases hsp : s = p
    · subst hsp
      omega
    · obtain ⟨hused, hpid'⟩ := hsame s hsp
      have := h.range s (hused.symm.trans hs)
      omega
  · intro s t hs ht heq
    by_cases hsp : s = p
    · by_cases htp : t = p
      · rw [hsp, htp]
      · subst hsp
        have := hold t htp ht
        omega
    · by_cases htp : t = p
      · subst htp
        have := hold s hsp hs
        omega
      · obtain ⟨hused, hpid'⟩ := hsame s hsp
        obtain ⟨hused', hpid''⟩ := hsame t htp
        exact h.inj s t (hused.symm.trans hs) (hused'.symm.trans ht)
          (by rw [← hpid', ← hpid'', heq])

/-- The pids an effect may hand out. -/
def Effect.attempts : Effect → Nat
  | .spawn .. => 1
  | .miss _ => 1
  | _ => 0

theorem PidInv.effect {n : Nat} {k k' : Kernel} {x : Effect} (h : PidInv n k)
    (hk : k.kernelProcess = some 0) (hn : n + x.attempts + 1 < 4294967296)
    (hx : KernelEffect k x k') : ∃ n' ≤ n + x.attempts, PidInv n' k' := by
  have htame : Tame k k' → PidInv n k' := fun ht =>
    h.shrink ht.nextPid fun s hs => ⟨(ht.used s).symm.trans hs, frame_pid (ht.frame s)⟩
  cases x with
  | spawn p parent base =>
      cases hx with
      | spawn call =>
          obtain ⟨-, -, vm, memory, table, head, -, rfl, hnew, hcore⟩ := spawn_eq call
          have hn' : n + 2 < 4294967296 := hn
          refine ⟨n + 1, Nat.le_refl _, h.extend (p := p) hn' rfl (core_pid hnew) ?_⟩
          intro s hs
          exact ⟨core_used (hcore s hs), core_pid (hcore s hs)⟩
  | miss base =>
      cases hx with
      | miss call =>
          rcases miss_eq hk call with rfl | ⟨p, vm, table, head, -, -, -, rfl, hzero, hcore⟩
          · exact ⟨n, Nat.le_add_right _ _, h⟩
          · refine ⟨n + 1, Nat.le_refl _, h.waste rfl ?_⟩
            intro s hs
            by_cases hsp : s = p
            · subst hsp
              dsimp only at hs
              rw [hzero] at hs
              cases hs
            · exact ⟨(core_used (hcore s hsp)).symm.trans hs, core_pid (hcore s hsp)⟩
  | release c =>
      cases hx with
      | release hkernel _ call =>
          obtain ⟨table, head, rfl, hzero, hcore⟩ := processRelease_eq hkernel call
          refine ⟨n, Nat.le_refl _, h.shrink rfl ?_⟩
          intro s hs
          by_cases hsc : s = c
          · subst hsc
            dsimp only at hs
            rw [hzero] at hs
            cases hs
          · exact ⟨(core_used (hcore s hsc)).symm.trans hs, core_pid (hcore s hsc)⟩
  | exit p => exact ⟨n, Nat.le_refl _, htame (hx.tame (Or.inl trivial))⟩
  | waitFor parent pid => exact ⟨n, Nat.le_refl _, htame (hx.tame (Or.inr ⟨parent, pid, rfl⟩))⟩
  | other => exact ⟨n, Nat.le_refl _, htame (hx.tame (Or.inl trivial))⟩

/-- The pids a sequence of effects may hand out. -/
def attempts (effects : List Effect) : Nat := (effects.map Effect.attempts).sum

theorem attempts_append (xs : List Effect) (x : Effect) :
    attempts (xs ++ [x]) = attempts xs + x.attempts := by
  simp [attempts]

theorem attempts_mild : ∀ {effects : List Effect}, (∀ x ∈ effects, x.mild) → attempts effects = 0
  | [], _ => rfl
  | x :: effects, h => by
      have hx : x.attempts = 0 := by
        have := h x List.mem_cons_self
        cases x <;> first | rfl | cases this
      have hrest := attempts_mild fun y hy => h y (List.mem_cons_of_mem _ hy)
      unfold attempts at hrest ⊢
      rw [List.map_cons, List.sum_cons, hx, hrest]

theorem Shape.attempts_le {k : Kernel} {e : Event} {r : Reply} {effects : List Effect}
    (h : Shape k e r effects) : attempts effects ≤ e.creations := by
  cases h with
  | mild hmild => rw [attempts_mild hmild]; exact Nat.zero_le _
  | @spawned e p rest one hmild =>
      have hrest := attempts_mild hmild
      have : attempts (.spawn p (e.creator k) e.base :: rest) = 1 + attempts rest := by
        simp [attempts, Effect.attempts]
      omega
  | missed one => rw [one]; exact Nat.le_refl 1
  | @pair owner value a b rest hmild =>
      have hrest := attempts_mild hmild
      have : attempts (.spawn a k.creator 0 :: .spawn b k.creator 0 :: rest)
          = 2 + attempts rest := by
        simp [attempts, Effect.attempts]
        omega
      rw [this, hrest]
      exact Nat.le_refl 2
  | pairMissed => exact Nat.le_succ 1
  | pairUndone => exact Nat.le_refl 2
  | waiting => exact Nat.le_refl 0
  | reaped _ _ _ => exact Nat.le_refl 0

/-- The pid invariant over the effects of one event. -/
theorem PidInv.effects {n : Nat} {k k' : Kernel} {effects : List Effect} (h : PidInv n k)
    (hl : Linkage k) (hn : n + attempts effects + 1 < 4294967296)
    (hrun : Run KernelEffect k effects k') : ∃ n' ≤ n + attempts effects, PidInv n' k' := by
  refine (hrun.invariant_trace (I := fun xs k' => Linkage k'
    ∧ (n + attempts xs + 1 < 4294967296 → ∃ n' ≤ n + attempts xs, PidInv n' k'))
    ⟨hl, fun _ => ⟨n, Nat.le_add_right _ _, h⟩⟩ ?_).2 hn
  rintro xs k1 x k2 ⟨hl1, ih⟩ hx
  refine ⟨hl1.effect hx, ?_⟩
  intro hn
  rw [attempts_append] at hn ⊢
  obtain ⟨n1, hn1, h1⟩ := ih (by omega)
  obtain ⟨n2, hn2, h2⟩ := h1.effect hl1.kernel (by omega) hx
  exact ⟨n2, by omega, h2⟩

theorem pidInv_processInit (vm : Vm) : PidInv 0 (processInit vm) := by
  have hused : ∀ s, ((processInit vm).processTable s).used = true → s = 0 := by
    intro s hs
    by_contra hne
    simp [processInit, hne, Process.zero] at hs
  refine ⟨rfl, ?_, fun s t hs ht _ => by rw [hused s hs, hused t ht]⟩
  intro s hs
  rw [hused s hs]
  exact ⟨Nat.le_refl 1, Nat.le_refl 1⟩

theorem creations_append (labels : List (Event × Reply)) (label : Event × Reply) :
    creations (labels ++ [label]) = creations labels + label.1.creations := by
  simp [creations]

/-- Along every run the lists are linked up and, while fewer than
`2 ^ 32 - 1` processes were created, pids are distinct. -/
theorem kernelRun_linkage {vm : Vm} {labels : List (Event × Reply)} {k : Kernel}
    (hrun : Run KernelStep (processInit vm) labels k) :
    Linkage k ∧ (creations labels < 4294967295 → ∃ n ≤ creations labels, PidInv n k) := by
  refine hrun.invariant_trace (I := fun labels k => Linkage k
    ∧ (creations labels < 4294967295 → ∃ n ≤ creations labels, PidInv n k))
    ⟨linkage_processInit vm, fun _ => ⟨0, Nat.le_refl _, pidInv_processInit vm⟩⟩ ?_
  rintro labels k1 label k2 ⟨hl, ih⟩ hstep
  refine ⟨hl.step hstep, ?_⟩
  intro hc
  rw [creations_append] at hc ⊢
  obtain ⟨n, hn, hpid⟩ := ih (by omega)
  obtain ⟨effects, heffects, hshape⟩ := hl.performs hstep
  have hle := hshape.attempts_le
  obtain ⟨n', hn', hpid'⟩ := hpid.effects hl (by omega) heffects
  exact ⟨n', by omega, hpid'⟩

end Kfs
