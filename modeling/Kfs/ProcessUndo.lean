import Kfs.ProcessLinks

/-!
# Undoing a creation

What a failed creation leaves of the process table. A record that was never
linked is zeroed and that is all (`LinkInv.scrap_restored`). A process that
was linked is the tail of the global list and the first child of its parent,
so releasing it right away takes back the two links that were assigned for it
(`LinkInv.undone`).
-/

namespace Kfs

/-- Everything but the memory, the unused slots and `next_pid` is as it
was. -/
structure Restored (k k' : Kernel) : Prop where
  used : ∀ q, (k'.processTable q).used = (k.processTable q).used
  records : ∀ q, (k.processTable q).used = true → k'.processTable q = k.processTable q
  rest : k' = { k with vm := k'.vm, processTable := k'.processTable, nextPid := k'.nextPid }

theorem Restored.refl (k : Kernel) : Restored k k := ⟨fun _ => rfl, fun _ _ => rfl, rfl⟩

/-- The links are all that a core leaves out. -/
theorem process_ext {r s : Process} (hcore : r.core = s.core) (hnext : r.next = s.next)
    (hchildren : r.children = s.children) (hsibling : r.nextSibling = s.nextSibling) : r = s := by
  have hr : r = { r.core with next := r.next, children := r.children, nextSibling := r.nextSibling }
    := rfl
  rw [hr, hcore, hnext, hchildren, hsibling]
  rfl

section Undo

variable {k k' k'' : Kernel} {l : List Slot} {kids : Slot → List Slot} {p : Slot}

/-- A record that was never linked is zeroed again. -/
theorem LinkInv.scrap_restored {r : Process} {vm : Vm} (h : LinkInv k l kids) (hp : p ≠ 0)
    (hunused : (k.processTable p).used = false) (hparent : r.parent = none)
    (hrelease : processRelease (k.withProcess p r vm) p = .ok k') :
    Restored k k' ∧ k'.vm = (processReleaseMemory vm r.memory).1 := by
  obtain ⟨heq, hcursor, hready⟩ := @LinkInv.scrap_eq k l kids p r vm h hp hunused hparent
  obtain rfl := Except.ok.inj (heq.symm.trans hrelease)
  have hothers : ∀ q, q ≠ p → ((Kfs.releaseReady (k.withProcess p r vm) p).modify p
      fun _ => Process.zero).processTable q = k.processTable q := fun q hq =>
    (modify_of_ne _ _ _ hq).trans (hready q hq)
  refine ⟨⟨?_, ?_, ?_⟩, ?_⟩
  · intro q
    by_cases hq : q = p
    · rw [hq, modify_self, hunused]
      rfl
    · rw [hothers q hq]
  · intro q hq
    refine hothers q ?_
    rintro rfl
    rw [hunused] at hq
    cases hq
  · unfold Kfs.releaseReady Kernel.modify
    rw [hcursor]
    rfl
  · show (processReleaseMemory vm ((k.withProcess p r vm).processTable p).memory).1 = _
    rw [withProcess_self]

/-- A creation that fails. -/
theorem LinkInv.missed_restored {parent : Option Slot} {owner base size : Nat}
    {function : Option ExecFn} (h : LinkInv k l kids)
    (call : processCreateInternal k parent owner base function size = .ok (none, k')) :
    Restored k k' ∧ ∃ kids', LinkInv k' l kids' ∧ ∀ s, kids' s = kids s
      ∨ ((k.processTable s).used = false ∧ kids' s = []) := by
  rcases processCreateInternal_none call with rfl | ⟨p, vm, memory, hp, hunused, -, hrelease⟩
  · exact ⟨Restored.refl k', kids, h, fun _ => Or.inl rfl⟩
  · obtain ⟨hrestored, -⟩ := h.scrap_restored hp hunused rfl hrelease
    obtain ⟨k1, hrelease', hlinks⟩ :=
      h.scrap (r := freshProcess k.nextPid owner function memory) hp hunused rfl
    obtain rfl := Except.ok.inj (hrelease.symm.trans hrelease')
    refine ⟨hrestored, _, hlinks, ?_⟩
    intro s
    by_cases hs : s = p
    · rw [if_pos hs, hs]
      exact Or.inr ⟨hunused, rfl⟩
    · rw [if_neg hs]
      exact Or.inl rfl

/-! ## A process that was linked -/

/-- Unlinking a process that is the first child of its parent, or not among
its children, leaves every other record's `next_sibling` alone. -/
theorem processUnlinkChild_first (hfirst : ∀ s, (k.processTable p).parent = some s →
      (k.processTable s).children = some p ∨ (k.processTable s).children = none)
    (h : processUnlinkChild k p = .ok k') {q : Slot} (hq : q ≠ p) :
    (k'.processTable q).nextSibling = (k.processTable q).nextSibling := by
  unfold processUnlinkChild at h
  cases hparent : (k.processTable p).parent with
  | none =>
      rw [hparent] at h
      rw [Except.ok.inj h]
  | some s =>
      rw [hparent] at h
      dsimp only at h
      rcases hfirst s hparent with hchildren | hchildren
      · rw [hchildren] at h
        have hscan : scan k.siblingOf (fun c => decide (c = p)) 17 none (some p)
            = .ok (some (none, p)) := by
          simp [scan]
        rw [hscan] at h
        obtain rfl := Except.ok.inj h
        rw [modify_of_ne _ _ _ hq]
        exact modify_keeps Process.nextSibling rfl q
      · rw [hchildren] at h
        rw [Except.ok.inj h]

theorem processUnlinkGlobal_sibling (h : processUnlinkGlobal k p = .ok k') (q : Slot) :
    (k'.processTable q).nextSibling = (k.processTable q).nextSibling := by
  obtain ⟨r, -, hr⟩ := bind_eq_ok.mp h
  match r, hr with
  | none, hr => rw [Except.ok.inj hr]
  | some (none, cursor), hr =>
      obtain rfl := Except.ok.inj hr
      exact modify_keeps (k := { k with processHead := k.nextOf cursor }) Process.nextSibling rfl q
  | some (some previous, cursor), hr =>
      obtain rfl := Except.ok.inj hr
      exact (modify_keeps (k := k.modify previous _) Process.nextSibling rfl q).trans
        (modify_keeps Process.nextSibling rfl q)

theorem processRelease_sibling (hp : some p ≠ k.kernelProcess)
    (hfirst : ∀ s, (k.processTable p).parent = some s →
      (k.processTable s).children = some p ∨ (k.processTable s).children = none)
    (h : processRelease k p = .ok k') {q : Slot} (hq : q ≠ p) :
    (k'.processTable q).nextSibling = (k.processTable q).nextSibling := by
  obtain ⟨k1, k2, hchild, hglobal, rfl⟩ := processRelease_unlinks hp h
  have hkeep : ∀ {α : Type} (g : Process → α),
      (∀ (r : Process) (m : ProcessMemory), g { r with memory := m } = g r) → ∀ q,
      g ((releaseReady k p).processTable q) = g (k.processTable q) := fun g hg q =>
    modify_keeps (k := { k with schedulerCursor := cursorOff k p, vm := vmWithout k p }) g
      (hg _ _) q
  have hready : ∀ s, ((releaseReady k p).processTable p).parent = some s →
      ((releaseReady k p).processTable s).children = some p
        ∨ ((releaseReady k p).processTable s).children = none := by
    intro s hs
    rw [hkeep Process.parent fun _ _ => rfl] at hs
    rw [hkeep Process.children fun _ _ => rfl]
    exact hfirst s hs
  rw [modify_of_ne _ _ _ hq, processUnlinkGlobal_sibling hglobal,
    processUnlinkChild_first hready hchild hq]
  exact hkeep Process.nextSibling (fun _ _ => rfl) q

theorem processLinkGlobal_sibling (h : processLinkGlobal k p = .ok k') (q : Slot) :
    (k'.processTable q).nextSibling = (k.processTable q).nextSibling := by
  unfold processLinkGlobal at h
  split at h
  · obtain rfl := Except.ok.inj h
    rfl
  · obtain ⟨r, -, hr⟩ := bind_eq_ok.mp h
    cases r with
    | none => rw [Except.ok.inj hr]
    | some tail =>
        obtain rfl := Except.ok.inj hr
        exact modify_keeps Process.nextSibling rfl q

section Spawned

variable {parent : Option Slot} {owner base size : Nat} {function : Option ExecFn}

theorem spawn_sibling
    (call : processCreateInternal k parent owner base function size = .ok (some p, k')) {q : Slot}
    (hq : q ≠ p) : (k'.processTable q).nextSibling = (k.processTable q).nextSibling := by
  obtain ⟨-, -, vm, memory, k1, -, hlink, rfl⟩ := processCreateInternal_some call
  show (k1.processTable q).nextSibling = _
  rw [processLinkGlobal_sibling hlink, (processLinkChild_apply _ _ _ _).2.2, if_neg hq,
    withProcess_of_ne hq]

section Undone

variable {k2 : Kernel} {kids2 : Slot → List Slot}

/-- A process that has just been created is the first child of its parent,
or not among its children any more. -/
theorem LinkInv.first_child (h2 : LinkInv k2 (l ++ [p]) kids2)
    (hkids : ∀ s, kids2 s = kidsWith kids parent p s
      ∨ ((k'.processTable s).used = false ∧ kids2 s = [])) {s : Slot} (hs : parent = some s) :
    (k2.processTable s).children = some p ∨ (k2.processTable s).children = none := by
  have hlinked := h2.kidsLinked s
  rcases hkids s with heq | ⟨-, heq⟩
  · rw [heq, kidsWith, if_pos hs] at hlinked
    exact Or.inl hlinked.1
  · rw [heq] at hlinked
    exact Or.inr hlinked

/-- Without it the children of a living process are those of before. -/
theorem LinkInv.kids_back (h : LinkInv k l kids) (hunused : (k.processTable p).used = false)
    {q : Slot} (hq : (k'.processTable q).used = true) (hqp : q ≠ p)
    (hkids : ∀ s, kids2 s = kidsWith kids parent p s
      ∨ ((k'.processTable s).used = false ∧ kids2 s = [])) :
    kidsWithout kids2 p q = kids q := by
  have hlive : kids2 q = kidsWith kids parent p q := by
    refine (hkids q).resolve_right fun hgone => ?_
    rw [hq] at hgone
    cases hgone.1
  unfold kidsWithout
  rw [if_neg hqp, hlive, kidsWith, if_neg hqp]
  split
  · exact List.erase_cons_head p (kids q)
  · exact List.erase_of_not_mem fun hin => h.ne_of_mem_kids hunused hin rfl

/-- Releasing a process that has just been created, with at most a failed
creation in between, puts every link back. -/
theorem LinkInv.undone (h : LinkInv k l kids)
    (call : processCreateInternal k parent owner base function size = .ok (some p, k'))
    (h2 : LinkInv k2 (l ++ [p]) kids2)
    (hrestored : Restored k' k2)
    (hkids : ∀ s, kids2 s = kidsWith kids parent p s
      ∨ ((k'.processTable s).used = false ∧ kids2 s = []))
    (hrelease : processRelease k2 p = .ok k'') : Restored k k'' := by
  have hx : KernelEffect k (.spawn p parent base) k' := .spawn call
  obtain ⟨hp0, hunused, ⟨owner', function', memory', hnew⟩, hcore⟩ := hx.spawn_table
  have hp : (k'.processTable p).used = true := core_used hnew
  have hpl : p ∉ l := fun hin => h.ne_of_mem hunused hin rfl
  have hpk : some p ≠ k2.kernelProcess := by
    rw [h2.kernel]
    exact fun he => hp0 (Option.some.inj he)
  obtain ⟨k3, hrelease', h3⟩ := h2.release (c := p) (by simp) hp0
  obtain rfl := Except.ok.inj (hrelease.symm.trans hrelease')
  rw [List.erase_append_right _ hpl, List.erase_cons_head, List.append_nil] at h3
  have hfirst : ∀ s, (k2.processTable p).parent = some s →
      (k2.processTable s).children = some p ∨ (k2.processTable s).children = none := by
    intro s hs
    rw [hrestored.records p hp, core_parent hnew] at hs
    exact h2.first_child hkids hs
  obtain ⟨table, head, hk3, hzero, hcore3⟩ := processRelease_eq hpk hrelease
  have htable : k''.processTable = table := by rw [hk3]
  rw [← htable] at hzero hcore3
  have hne : ∀ q, (k.processTable q).used = true → q ≠ p := by
    rintro q hq rfl
    rw [hunused] at hq
    cases hq
  refine ⟨?_, ?_, ?_⟩
  · intro q
    by_cases hq : q = p
    · rw [hq, hzero, hunused]
      rfl
    · exact (core_used (hcore3 q hq)).trans ((hrestored.used q).trans (core_used (hcore q hq)))
  · intro q hq
    have hqp := hne q hq
    have hql : q ∈ l := (h.mem q).mpr hq
    have hq' : (k'.processTable q).used = true := (core_used (hcore q hqp)).trans hq
    have hsame := hrestored.records q hq'
    refine process_ext ?_ ?_ ?_ ?_
    · exact (hcore3 q hqp).trans (hsame ▸ hcore q hqp)
    · exact (h.linked.agree h3.linked).2 q hql
    · have hlist := h.kids_back hunused hq' hqp hkids
      have hlinked := h3.kidsLinked q
      rw [hlist] at hlinked
      exact ((h.kidsLinked q).agree hlinked).1
    · rw [processRelease_sibling hpk hfirst hrelease hqp, hsame, spawn_sibling call hqp]
  · obtain ⟨-, -, vm1, memory1, table1, head1, -, hk1, -, -⟩ := spawn_eq call
    have hrest := hrestored.rest
    have hhead : head = k.processHead := by
      have := h3.head
      rw [hk3] at this
      exact this.trans h.head.symm
    have hcursor : cursorOff k2 p = k.schedulerCursor := by
      have hsame : k2.schedulerCursor = k.schedulerCursor := by
        rw [hrest, hk1]
      unfold cursorOff
      rw [hsame, if_neg (h.cursor_ne hunused)]
    rw [hhead, hcursor] at hk3
    generalize vmWithout k2 p = vm3 at hk3
    generalize k2.vm = vm2 at hrest
    generalize k2.processTable = table2 at hrest
    generalize k2.nextPid = pid at hrest
    subst hrest hk1 hk3
    rfl

end Undone

end Spawned

end Undo

end Kfs
