import Kfs.PagingFlat
import Kfs.ProcessIsolation

/-!
# Runs of the paging code

The directory `paging_init` built and the abstract map it stands for, side
by side: every call that maps or unmaps a page is one update of the map, and
every lookup is answered by it.
-/

namespace Kfs

inductive PagingEvent where
  | map (virt phys flags : Nat)
  | unmap (virt : Nat)

/-- The calls on the directory of `paging_init`. A call that needs a table
and finds no frame panics, so it is no step. -/
inductive PagingStep : Vm → PagingEvent → Vm → Prop where
  | map {vm vm' : Vm} {virt phys flags : Nat} (hvirt : virt < 4294967296)
      (hflags : flags &&& pagePresent ≠ 0)
      (hcall : pagingMapPageInDirectory vm (some .kernel) virt phys flags = .ok vm') :
      PagingStep vm (.map virt phys flags) vm'
  | unmap {vm : Vm} {virt : Nat} (hvirt : virt < 4294967296) :
      PagingStep vm (.unmap virt) (pagingUnmapPageInDirectory vm (some .kernel) virt)

/-- What the call does to the abstract map. -/
def PagingEvent.apply (flat : Nat → Option Nat) : PagingEvent → Nat → Option Nat
  | .map virt phys _ => Function.update flat (virt / 4096) (some (phys &&& 0xFFFFF000))
  | .unmap virt => Function.update flat (virt / 4096) none

/-- The abstract map after some calls. -/
def flatRun (flat : Nat → Option Nat) (events : List PagingEvent) : Nat → Option Nat :=
  events.foldl PagingEvent.apply flat

/-- The directory stands for `flat`, and the machine can go on. -/
structure Refines (flat : Nat → Option Nat) (vm : Vm) : Prop where
  tables : TablesOk vm .kernel
  ok : PmmOk vm.pmm
  low : LowUsed vm.pmm
  current : vm.currentDirectory = some .kernel
  flat : ∀ n, n < 1048576 → flatOf vm .kernel n = flat n

theorem refines_pagingInit {kernelPageTables : Fin 4 → Nat} {vm : Vm}
    (hk : KernelTables kernelPageTables vm.pmm) (hok : PmmOk vm.pmm) (hlow : LowUsed vm.pmm) :
    Refines identityMap (pagingInit kernelPageTables vm) := by
  refine ⟨pagingInit_tables hk, ?_, ?_, (pagingInit_directories _ _).1,
    fun n hn => pagingInit_flat hk hn⟩
  · rwa [pagingInit_pmm]
  · rwa [pagingInit_pmm]

theorem Refines.step {flat : Nat → Option Nat} {vm vm' : Vm} {e : PagingEvent}
    (h : Refines flat vm) (hstep : PagingStep vm e vm') : Refines (e.apply flat) vm' := by
  cases hstep with
  | map hvirt hflags hcall =>
      obtain ⟨table, hmaps⟩ :=
        pagingMapPageInDirectory_spec h.tables h.ok h.low hvirt hflags hcall
      obtain ⟨hok, hlow⟩ := hmaps.pmm h.ok h.low
      refine ⟨hmaps.tables, hok, hlow, hmaps.current.trans h.current, ?_⟩
      intro n hn
      rw [hmaps.flat n hn, h.flat n hn, PagingEvent.apply, Function.update_apply]
  | unmap hvirt =>
      have hunmaps := pagingUnmapPageInDirectory_spec h.tables hvirt
      refine ⟨hunmaps.tables, hunmaps.pmm ▸ h.ok, hunmaps.pmm ▸ h.low,
        hunmaps.current.trans h.current, ?_⟩
      intro n hn
      rw [hunmaps.flat n hn, h.flat n hn, PagingEvent.apply, Function.update_apply]

/-- The two levels answer as the abstract map does, after any calls, and a
call goes through if there is a table or a frame for one. -/
theorem pagingRun_refines {kernelPageTables : Fin 4 → Nat} {vm vm' : Vm}
    {events : List PagingEvent} (hk : KernelTables kernelPageTables vm.pmm) (hok : PmmOk vm.pmm)
    (hlow : LowUsed vm.pmm) (hrun : Run PagingStep (pagingInit kernelPageTables vm) events vm') :
    (∀ v, v < 4294967296 →
      pagingGetPhysicalInDirectory vm' (some .kernel) v = translate (flatRun identityMap events) v
        ∧ pagingIsMapped vm' v = (flatRun identityMap events (v / 4096)).isSome)
      ∧ ∀ virt phys flags, virt < 4294967296 → flags &&& pagePresent ≠ 0 →
        (tableOf vm' .kernel (virt / 4096 / 1024) ≠ none ∨ vm'.allocFrame.1 ≠ 0) →
        ∃ vm'', PagingStep vm' (.map virt phys flags) vm'' := by
  have hrefines : Refines (flatRun identityMap events) vm' := by
    refine hrun.invariant_trace (I := fun events vm' => Refines (flatRun identityMap events) vm')
      (refines_pagingInit hk hok hlow) fun {es t e u} ih hstep => ?_
    rw [flatRun, List.foldl_append]
    exact ih.step hstep
  constructor
  · intro v hv
    have hpage := hrefines.flat (v / 4096) (by omega)
    rw [hrefines.tables.getPhysical hv, hrefines.tables.isMapped hrefines.current hv, hpage]
    refine ⟨?_, rfl⟩
    unfold translate
    rw [hpage]
  · intro virt phys flags hvirt hflags hroom
    obtain ⟨vm'', hcall⟩ := pagingMapPageInDirectory_ok phys flags hvirt hroom
    exact ⟨vm'', .map hvirt hflags hcall⟩

theorem eightMegabytes_kernelTables :
    KernelTables (fun i => 0x110000 + 4096 * i.val) eightMegabytes.pmm := by
  refine ⟨fun i => by omega, fun i => by omega, fun i j h => Fin.ext (by omega), ?_⟩
  intro i
  rw [eightMegabytes_test, decide_eq_true_eq]
  omega

/-- A page above the identity map is mapped, a page below is taken out. -/
theorem pagingRun_refines_twice :
    ∃ vm, Run PagingStep (pagingInit (fun i => 0x110000 + 4096 * i.val) eightMegabytes)
        [.map 0x01400000 0x300FFF pageKernel, .unmap 0x5000] vm
      ∧ pagingGetPhysicalInDirectory vm (some .kernel) 0x01400123 = 0x300123
      ∧ pagingGetPhysicalInDirectory vm (some .kernel) 0x5123 = 0 := by
  have hk := eightMegabytes_kernelTables
  have hfree : (pagingInit (fun i => 0x110000 + 4096 * i.val) eightMegabytes).allocFrame.1 ≠ 0 := by
    decide +kernel
  generalize hvm : pagingInit (fun i => 0x110000 + 4096 * i.val) eightMegabytes = vm0 at *
  obtain ⟨vm, hcall⟩ := pagingMapPageInDirectory_ok (d := .kernel) (v := 0x01400000) 0x300FFF
    pageKernel (by decide) (Or.inr hfree)
  have hrun := (Run.one (PagingStep.map (by decide) (by decide) hcall)).snoc
    (@PagingStep.unmap vm 0x5000 (by decide))
  have hrefines := (pagingRun_refines hk eightMegabytes_ready.ok eightMegabytes_ready.low
    (hvm ▸ hrun)).1
  exact ⟨_, hrun, (hrefines 0x01400123 (by decide)).1.trans (by decide +kernel),
    (hrefines 0x5123 (by decide)).1.trans (by decide +kernel)⟩

end Kfs
