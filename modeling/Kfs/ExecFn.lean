import Kfs.SystemFrames

/-!
# Processes at any base

`exec_fn` creates a process at an address of the caller's choice. Its four
pages go into a private table only where the copied directory has none: at a
base whose window the kernel uses, identity map and allocator included, they
go into the kernel's own table, and when the process is reaped that table is
freed. Four pages across a window boundary need two tables, of which one is
given back.

At a free window nothing of this happens: the kernel sees the same memory all
the time, its tables stay, and a reap gives back exactly the frames that the
creation took (`carefulRun_execFn`).
-/

namespace Kfs

/-! ## The frames of the processes -/

section Frames

variable {k k' : Kernel} {p : Slot}

/-- Between a creation and a reap nobody's frames change. -/
theorem tame_of_quiet {e : Event} {r : Reply} (hl : Linkage k) (hstep : KernelStep k (e, r) k')
    (hcreations : e.creations = 0) (hreap : ∀ q, ¬reaps q (e, r)) : Tame k k' := by
  obtain ⟨effects, hrun, hshape⟩ := hl.performs hstep
  have htame : (∀ x ∈ effects, x.mild ∨ ∃ parent pid, x = .waitFor parent pid) → Tame k k' := by
    refine hrun.invariant_trace (I := fun xs k' =>
      (∀ x ∈ xs, x.mild ∨ ∃ parent pid, x = .waitFor parent pid) → Tame k k')
      (fun _ => Tame.refl k) ?_
    intro xs k1 x k2 ih hx hall
    exact (ih fun y hy => hall y (List.mem_append_left _ hy)).trans (hx.tame (hall x (by simp)))
  cases hshape with
  | mild hmild => exact htame fun x hx => Or.inl (hmild x hx)
  | spawned one _ => cases one.symm.trans hcreations
  | missed one => cases one.symm.trans hcreations
  | pair _ => cases hcreations
  | pairMissed => cases hcreations
  | pairUndone => cases hcreations
  | @waiting parent _ pid _ _ _ =>
      refine htame fun x hx => Or.inr ⟨parent, pid, ?_⟩
      exact List.mem_singleton.mp hx
  | @reaped _ _ c exitCode _ _ _ => exact absurd ⟨exitCode, rfl⟩ (hreap c)

theorem execFn_framesOf {addr size : Nat} {function : Option ExecFn}
    (hstep : KernelStep k (.execFn addr function size, .created (some p)) k') :
    p ≠ 0 ∧ k.framesOf p = ∅ ∧ ∀ q, q ≠ p → k'.framesOf q = k.framesOf q := by
  obtain ⟨process, hreply, hcall⟩ := map_reply_eq_ok.mp hstep.2
  obtain rfl : process = some p := Reply.created.inj hreply.symm
  obtain ⟨hp, hunused, -, hcore⟩ := (KernelEffect.spawn hcall).spawn_table
  exact ⟨hp, if_neg (not_live hunused), fun q hq => framesOf_core (hcore q hq)⟩

theorem reaped_framesOf {parent : Option Slot} {pid : Nat} {exitCode : Int} (hl : Linkage k)
    (hp : p ≠ 0) (hstep : KernelStep k (.wait parent pid, .waited (.reaped p exitCode)) k') :
    k'.framesOf p = ∅ ∧ ∀ q, q ≠ p → k'.framesOf q = k.framesOf q := by
  obtain ⟨result, hreply, hcall⟩ := map_reply_eq_ok.mp hstep.2
  obtain rfl : result = .reaped p exitCode := Reply.waited.inj hreply.symm
  obtain ⟨hget, -, hrelease⟩ := processWait_reaped hcall
  have htame := stopWaiting_tame k parent
  have hkernel : some p ≠ (stopWaiting k parent).kernelProcess := by
    rw [htame.kernel, hl.kernel]
    exact fun heq => hp (Option.some.inj heq)
  have hused := (htame.used p).trans (processGetByPid_some hget).1
  obtain ⟨-, hzero, hcore⟩ := (KernelEffect.release hkernel hused hrelease).release_table
  refine ⟨if_neg (not_live (congrArg Process.used hzero)), ?_⟩
  intro q hq
  exact (framesOf_core (hcore q hq)).trans (congrFun htame.framesOf q)

end Frames

/-! ## Steps that meet the condition -/

/-- Processes are created at free windows, and the rest is called as the
kernel's code does: in the kernel directory, with sizes whose sum with the
break cannot overflow, and pages are mapped by hand outside the range only. -/
def SystemEvent.Careful (s : System) : SystemEvent → Prop
  | .process e => e.FreeWindow s.vm
  | .vmalloc size => s.vm.currentDirectory = some .kernel ∧ size ≤ 0xEFFFF000
  | .vfree _ => s.vm.currentDirectory = some .kernel
  | .mapPage virt _ flags => s.vm.currentDirectory = some .kernel ∧ virt < 4294967296
      ∧ (virt < vmallocStart ∨ vmallocEnd ≤ virt) ∧ flags &&& pagePresent ≠ 0

instance (s : System) : (e : SystemEvent) → Decidable (e.Careful s)
  | .process e => inferInstanceAs (Decidable (e.FreeWindow s.vm))
  | .vmalloc _ => inferInstanceAs (Decidable (_ ∧ _))
  | .vfree _ => inferInstanceAs (Decidable (_ = _))
  | .mapPage _ _ _ => inferInstanceAs (Decidable (_ ∧ _ ∧ _ ∧ _))

def CarefulStep (s : System) (label : SystemEvent × SystemReply) (s' : System) : Prop :=
  SystemStep s label s' ∧ label.1.Careful s

/-- `CarefulStep` as a function. -/
def carefulExec (s : System) (e : SystemEvent) : Option (SystemReply × System) :=
  if e.Careful s then systemExec s e else none

theorem carefulExec_step ⦃s : System⦄ ⦃e : SystemEvent⦄ ⦃r : SystemReply⦄ ⦃s' : System⦄
    (h : carefulExec s e = some (r, s')) : CarefulStep s (e, r) s' := by
  unfold carefulExec at h
  split at h
  · next hcareful => exact ⟨systemExec_step h, hcareful⟩
  · cases h

theorem SystemInv.step {base : Finset Nat} {total : Nat} {s s' : System}
    {label : SystemEvent × SystemReply} (h : SystemInv base total s)
    (hstep : CarefulStep s label s') : ∃ base', SystemInv base' total s' := by
  obtain ⟨e, r⟩ := label
  obtain ⟨hstep, hcareful⟩ := hstep
  cases e with
  | process e =>
      obtain ⟨-, base', -, hinv, -⟩ := h.process hstep hcareful
      exact ⟨base', hinv⟩
  | vmalloc size => exact ⟨base, (h.vmalloc hstep hcareful.1 hcareful.2).1⟩
  | vfree p => exact ⟨base, (h.vfree hstep hcareful).1⟩
  | mapPage virt phys flags =>
      obtain ⟨hcurrent, hvirt, hout, hflags⟩ := hcareful
      obtain ⟨base', hinv, -⟩ := h.mapPage hstep hcurrent hvirt hout hflags
      exact ⟨base', hinv⟩

theorem carefulRun_inv {vm : Vm} {heap : Heap} (hboot : Booted vm heap)
    {labels : List (SystemEvent × SystemReply)} {s : System}
    (hrun : Run CarefulStep (systemInit vm heap) labels s) :
    ∃ base, SystemInv base vm.pmm.totalFrames s := by
  refine hrun.invariant (I := fun s => ∃ base, SystemInv base vm.pmm.totalFrames s)
    ⟨_, hboot.ready.systemInv⟩ ?_
  rintro s label s' ⟨base, h⟩ hstep
  exact h.step hstep

/-! ## What the kernel sees -/

/-- The kernel's view of memory in `s'` is that of `s`, and its tables are in
frames that are in use. -/
structure SameView (s s' : System) : Prop where
  translation : ∀ v, v < 4294967296 →
    pagingGetPhysicalInDirectory s'.vm (some .kernel) v
      = pagingGetPhysicalInDirectory s.vm (some .kernel) v
  mapped : ∀ v, v < 4294967296 → (Mapped s'.vm .kernel v ↔ Mapped s.vm .kernel v)
  tables : ∀ i, i < 1024 → s'.vm.dirEntry .kernel i &&& pagePresent ≠ 0 →
    bitmapTest s'.vm.pmm (pageFrame (s'.vm.dirEntry .kernel i) / 4096) = true

section View

variable {base : Finset Nat} {total : Nat} {s s' : System}

theorem SystemInv.sameView (h : SystemInv base total s) {base' : Finset Nat}
    (h' : SystemInv base' total s')
    (hflat : ∀ n, n < 1048576 → flatOf s'.vm .kernel n = flatOf s.vm .kernel n) :
    SameView s s' := by
  have htables := h.kernelTables
  have htables' := h'.kernelTables
  refine ⟨?_, ?_, ?_⟩
  · intro v hv
    rw [htables'.getPhysical hv, htables.getPhysical hv]
    unfold translate
    rw [hflat _ (by omega)]
  · intro v hv
    rw [htables'.mapped hv, htables.mapped hv, hflat _ (by omega)]
  · intro i hi hpresent
    have ht : tableOf s'.vm .kernel i = some (s'.vm.dirEntry .kernel i / 4096) := if_neg hpresent
    rw [htables'.pageFrame_eq hi ht, Nat.mul_div_cancel _ (by omega)]
    exact htables'.used i _ hi ht

end View

/-- A process event that neither creates nor reaps. -/
def Quiet (label : SystemEvent × SystemReply) : Prop :=
  ∃ e r, label = (.process e, .reply r) ∧ e.creations = 0 ∧ ∀ q, ¬reaps q (e, r)

/-- The system went on, and the kernel and the allocator have noticed
nothing. -/
structure Unseen (base : Finset Nat) (total : Nat) (s s' : System) : Prop where
  inv : SystemInv base total s'
  flat : ∀ n, n < 1048576 → flatOf s'.vm .kernel n = flatOf s.vm .kernel n
  held : allHeld s'.vm = allHeld s.vm

section Unseen

variable {base : Finset Nat} {total : Nat} {s s' s'' : System}

theorem Unseen.trans (h : Unseen base total s s') (h' : Unseen base total s' s'') :
    Unseen base total s s'' :=
  ⟨h'.inv, fun n hn => (h'.flat n hn).trans (h.flat n hn), h'.held.trans h.held⟩

theorem SystemInv.unseen (h : SystemInv base total s) (h' : SystemInv base total s')
    (hspares : Spares (base ∪ allHeld s.vm) total s.vm s'.vm) : Unseen base total s s' := by
  refine ⟨h', fun n hn => h.flat hspares hn, ?_⟩
  unfold allHeld
  rw [h.held hspares]

/-- An event that is no failed creation. -/
theorem SystemInv.processed {e : Event} {r : Reply} (h : SystemInv base total s)
    (hstep : SystemStep s (.process e, .reply r) s') (hfree : e.FreeWindow s.vm)
    (hsucceeds : ¬refuses (e, r)) : Unseen base total s s' := by
  obtain ⟨reply, base', hreply, hinv, hout, -, hsame⟩ := h.process hstep hfree
  obtain rfl := SystemReply.reply.inj hreply
  obtain rfl := hsame hsucceeds
  exact h.unseen hinv hout.spares

theorem SystemInv.quiet {label : SystemEvent × SystemReply} (h : SystemInv base total s)
    (hstep : SystemStep s label s') (hquiet : Quiet label) :
    Unseen base total s s' ∧ s'.1.framesOf = s.1.framesOf := by
  obtain ⟨e, r, rfl, hcreations, hreap⟩ := hquiet
  obtain ⟨reply, hreply, hkernel, hsame⟩ := hstep.process
  obtain rfl := SystemReply.reply.inj hreply
  have htame := tame_of_quiet h.linkage hkernel hcreations hreap
  have hout := h.regions.tame htame fun _ => False
  have hinv := h.within hout (h.linkage.step hkernel) hsame
  exact ⟨h.unseen hinv hout.spares, htame.framesOf⟩

/-- With the same frames in every hand the bitmap is the same. -/
theorem Unseen.frameBitmap (h : SystemInv base total s) (hunseen : Unseen base total s s')
    (hframes : s'.1.framesOf = s.1.framesOf) :
    s'.vm.pmm.frameBitmap = s.vm.pmm.frameBitmap := by
  have hregions := h.regions
  have hregions' := hunseen.inv.regions
  have hused := hregions'.ledger.total
  rw [hunseen.held, hframes, ← hregions.ledger.total] at hused
  exact frameBitmap_eq hregions'.ok hregions.ok (hregions'.frames.trans hregions.frames.symm) hused

end Unseen

/-- In every state that careful steps reach, `exec_fn` at a free window, an
exit and a reap leave the kernel's view alone and give back what they took.
Between creation and reap anything may happen that creates and reaps
nothing. -/
theorem carefulRun_execFn {vm : Vm} {heap : Heap} (hboot : Booted vm heap)
    {labels : List (SystemEvent × SystemReply)} {s s1 s2 : System}
    (hrun : Run CarefulStep (systemInit vm heap) labels s) {addr size : Nat}
    {function : Option ExecFn} {p : Slot}
    (hexec : CarefulStep s (.process (.execFn addr function size), .reply (.created (some p))) s1)
    {between : List (SystemEvent × SystemReply)} (hbetween : Run SystemStep s1 between s2)
    (hquiet : ∀ label ∈ between, Quiet label) :
    SameView s s2 ∧ ∀ parent pid exitCode s3,
      SystemStep s2 (.process (.wait parent pid), .reply (.waited (.reaped p exitCode))) s3 →
      SameView s s3 ∧ s3.vm.pmm.frameBitmap = s.vm.pmm.frameBitmap := by
  obtain ⟨base, hinv⟩ := carefulRun_inv hboot hrun
  have hcreated := hinv.processed hexec.1 hexec.2 (by simp [refuses])
  have hmiddle : Unseen base vm.pmm.totalFrames s s2 ∧ s2.1.framesOf = s1.1.framesOf := by
    refine hbetween.invariant_trace (I := fun labels s2 => (∀ label ∈ labels, Quiet label) →
      Unseen base vm.pmm.totalFrames s s2 ∧ s2.1.framesOf = s1.1.framesOf)
      (fun _ => ⟨hcreated, rfl⟩) ?_ hquiet
    intro labels s2 label s3 ih hstep hall
    obtain ⟨hunseen, hframes⟩ := ih fun l hl => hall l (List.mem_append_left _ hl)
    obtain ⟨hnext, hframes'⟩ := hunseen.inv.quiet hstep (hall label (by simp))
    exact ⟨hunseen.trans hnext, hframes'.trans hframes⟩
  obtain ⟨hunseen, hframes⟩ := hmiddle
  refine ⟨hinv.sameView hunseen.inv hunseen.flat, ?_⟩
  intro parent pid exitCode s3 hwait
  have hreaped := hunseen.trans
    (hunseen.inv.processed hwait (fun hne => absurd rfl hne) (by simp [refuses]))
  refine ⟨hinv.sameView hreaped.inv hreaped.flat, hreaped.frameBitmap hinv (funext ?_)⟩
  intro q
  obtain ⟨hp, hempty, hothers⟩ := execFn_framesOf hexec.1.kernel
  obtain ⟨hempty', hothers'⟩ := reaped_framesOf hunseen.inv.linkage hp hwait.kernel
  by_cases hq : q = p
  · rw [hq, hempty, hempty']
  · rw [hothers' q hq, hframes, hothers q hq]

/-- A process at 1 GB, beside a region of the allocator. -/
theorem carefulRun_execFn_gigabyte :
    ∃ s s1 s2 s3, Run CarefulStep (systemInit (machine 4096 2576) machineHeap)
        [(.vmalloc 5000, .address 0x1000000)] s
      ∧ CarefulStep s (.process (.execFn 0x40000000 none 0), .reply (.created (some 1))) s1
      ∧ Run SystemStep s1 [(.process (.exit (some 1) 7), .reply .done)] s2
      ∧ SystemStep s2 (.process (.wait (some 0) 2), .reply (.waited (.reaped 1 7))) s3
      ∧ SameView s s2 ∧ SameView s s3 ∧ s3.vm.pmm.frameBitmap = s.vm.pmm.frameBitmap := by
  obtain ⟨s, s3, hrun, hrest, -⟩ := execRun_observe_two carefulExec_step
    (systemInit (machine 4096 2576) machineHeap) [.vmalloc 5000] [.address 0x1000000]
    [.process (.execFn 0x40000000 none 0), .process (.exit (some 1) 7), .process (.wait (some 0) 2)]
    [.reply (.created (some 1)), .reply .done, .reply (.waited (.reaped 1 7))]
    (fun _ _ => True) (by decide +kernel)
  obtain ⟨s1, hexec, hrest⟩ := hrest.uncons
  obtain ⟨s2, hexit, hrest⟩ := hrest.uncons
  obtain ⟨s3', hwait, hrest⟩ := hrest.uncons
  obtain rfl := hrest.eq_of_nil
  have hboot : Booted (machine 4096 2576) machineHeap :=
    rangeMachine_booted (by decide) (by decide) (by decide)
  have hquiet : ∀ label ∈ [((.process (.exit (some 1) 7), .reply .done) :
      SystemEvent × SystemReply)], Quiet label := by
    intro label hlabel
    rw [List.mem_singleton.mp hlabel]
    refine ⟨_, _, rfl, rfl, ?_⟩
    rintro q ⟨exitCode, hreply⟩
    cases hreply
  obtain ⟨hview, hreap⟩ := carefulRun_execFn hboot hrun hexec (Run.one hexit.1) hquiet
  obtain ⟨hview', hbitmap⟩ := hreap (some 0) 2 7 s3 hwait.1
  exact ⟨s, s1, s2, s3, hrun, hexec, Run.one hexit.1, hwait.1, hview, hview', hbitmap⟩

/-- A process in the identity map. Its data page takes the place of the page
that was there, and the reap frees a table of the kernel. -/
theorem execFn_identity :
    Booted (machine 4096 2576) machineHeap
      ∧ ∃ s1 s2, Run SystemStep (systemInit (machine 4096 2576) machineHeap)
          [(.process (.execFn 0x00400000 none 0), .reply (.created (some 1)))] s1
        ∧ Run SystemStep s1 [(.process (.exit (some 1) 0), .reply .done),
          (.process (.wait (some 0) 2), .reply (.waited (.reaped 1 0)))] s2
        ∧ pagingGetPhysicalInDirectory (systemInit (machine 4096 2576) machineHeap).vm
          (some .kernel) 0x00400000 = 0x00400000
        ∧ pagingGetPhysicalInDirectory s1.vm (some .kernel) 0x00400000 ≠ 0x00400000
        ∧ pagingGetPhysicalInDirectory s2.vm (some .kernel) 0x00400000 = 0
        ∧ s2.vm.dirEntry .kernel 1 &&& pagePresent ≠ 0
        ∧ bitmapTest s2.vm.pmm (pageFrame (s2.vm.dirEntry .kernel 1) / 4096) = false
        ∧ bitmapTest (systemInit (machine 4096 2576) machineHeap).vm.pmm
          (pageFrame (s2.vm.dirEntry .kernel 1) / 4096) = true := by
  refine ⟨rangeMachine_booted (by decide) (by decide) (by decide), ?_⟩
  exact execRun_observe_two systemExec_step (systemInit (machine 4096 2576) machineHeap)
    [.process (.execFn 0x00400000 none 0)] [.reply (.created (some 1))]
    [.process (.exit (some 1) 0), .process (.wait (some 0) 2)]
    [.reply .done, .reply (.waited (.reaped 1 0))]
    (fun s1 s2 => pagingGetPhysicalInDirectory (systemInit (machine 4096 2576) machineHeap).vm
          (some .kernel) 0x00400000 = 0x00400000
        ∧ pagingGetPhysicalInDirectory s1.vm (some .kernel) 0x00400000 ≠ 0x00400000
        ∧ pagingGetPhysicalInDirectory s2.vm (some .kernel) 0x00400000 = 0
        ∧ s2.vm.dirEntry .kernel 1 &&& pagePresent ≠ 0
        ∧ bitmapTest s2.vm.pmm (pageFrame (s2.vm.dirEntry .kernel 1) / 4096) = false
        ∧ bitmapTest (systemInit (machine 4096 2576) machineHeap).vm.pmm
          (pageFrame (s2.vm.dirEntry .kernel 1) / 4096) = true) (by decide +kernel)

end Kfs
