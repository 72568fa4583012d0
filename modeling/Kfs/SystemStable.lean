import Kfs.ProcessContext
import Kfs.System

/-!
# What holds in every state

The invariant of runs of the system that needs no promise from the callers:
a run may free what is not its own, map over tables or pass sizes that wrap
around. The process lists, the accounting of frames and the directory
pointers survive all of it (`systemRun_sound`).
-/

namespace Kfs

/-! ## Process events -/

section Events

variable {k k' : Kernel}

theorem KernelEffect.stable {x : Effect} (h : KernelEffect k x k') (hk : k.kernelProcess = some 0) :
    (PmmOk k.vm.pmm → PmmOk k'.vm.pmm) ∧ k'.vm.kernelDirectory = k.vm.kernelDirectory := by
  have hmoved : Stable k.vm k'.vm →
      (PmmOk k.vm.pmm → PmmOk k'.vm.pmm) ∧ k'.vm.kernelDirectory = k.vm.kernelDirectory :=
    fun hs => ⟨hs.ok, hs.kernelDirectory⟩
  have htame : Tame k k' →
      (PmmOk k.vm.pmm → PmmOk k'.vm.pmm) ∧ k'.vm.kernelDirectory = k.vm.kernelDirectory :=
    fun ht => ⟨fun hok => ht.pmm ▸ hok, ht.kernelDirectory⟩
  cases x with
  | spawn p parent base =>
      cases h with
      | spawn call =>
          obtain ⟨-, -, vm, memory, table, head, hmap, rfl, -, -⟩ := spawn_eq call
          exact hmoved ((processMemoryMap_stable hmap).trans (stable_memory vm _))
  | miss base =>
      cases h with
      | miss call =>
          rcases miss_eq hk call with rfl | ⟨p, vm, table, head, -, -, hmap, rfl, -, -⟩
          · exact hmoved (Stable.refl _)
          · exact hmoved (processMemoryMap_stable hmap)
  | release c =>
      cases h with
      | release hc _ call =>
          obtain ⟨table, head, rfl, -, -⟩ := processRelease_eq hc call
          exact hmoved (processReleaseMemory_stable _ _)
  | exit p => exact htame (h.tame (Or.inl trivial))
  | waitFor parent pid => exact htame (h.tame (Or.inr ⟨parent, pid, rfl⟩))
  | other => exact htame (h.tame (Or.inl trivial))

/-- A directory stays loaded. -/
theorem switch_current {vm : Vm} (h : vm.currentDirectory ≠ none) (directory : Option Directory) :
    (pagingSwitchDirectory vm directory).currentDirectory ≠ none := by
  cases directory with
  | none => exact h
  | some d => exact fun hd => by cases hd

theorem SameContext.loaded (h : SameContext k k') (hcurrent : k.vm.currentDirectory ≠ none) :
    k'.vm.currentDirectory ≠ none := by
  rw [h.directory]
  exact hcurrent

theorem scheduleNextProcess_loaded (hk : k.kernelProcess = some 0)
    (hcurrent : k.vm.currentDirectory ≠ none) (h : scheduleNextProcess k = .ok k') :
    k'.vm.currentDirectory ≠ none := by
  obtain ⟨picked, -, h⟩ := bind_eq_ok.mp h
  cases picked with
  | none =>
      obtain rfl := Except.ok.inj h
      exact hcurrent
  | some p =>
      dsimp only at h
      have hsame := (deliverProcessSignal_moves (P := fun _ => True)
        { k with schedulerCursor := some p, currentProcess := some p } (some p)
        fun _ _ => trivial).sameContext hk
      have hloaded := hsame.loaded hcurrent
      split at h
      · obtain rfl := Except.ok.inj h
        exact switch_current hloaded _
      · obtain rfl := Except.ok.inj h
        exact hloaded

theorem yieldEvent_loaded (hcurrent : k.vm.currentDirectory ≠ none) :
    (yieldEvent k).vm.currentDirectory ≠ none := by
  have hyield : (processYield k).vm = k.vm := by
    unfold processYield
    split
    · rfl
    · split
      · rfl
      · dsimp only
        split
        · rfl
        · rfl
  have hkernel : ∀ k : Kernel, k.vm.currentDirectory ≠ none →
      (processSwitchToKernelSpace k).vm.currentDirectory ≠ none := by
    intro k hk
    unfold processSwitchToKernelSpace
    split
    · exact hk
    · exact switch_current hk _
  unfold yieldEvent
  split
  · exact hcurrent
  · next p _ =>
      have hspace := hkernel (processYield k) (hyield ▸ hcurrent)
      unfold scheduleResume
      dsimp only
      split
      · exact hspace
      · exact hspace

theorem exec_loaded {e : Event} {r : Reply} (hk : k.kernelProcess = some 0)
    (hcurrent : k.vm.currentDirectory ≠ none) (h : e.exec k = .ok (r, k')) :
    k'.vm.currentDirectory ≠ none := by
  by_cases hschedule : e = .schedule
  · subst hschedule
    obtain ⟨k1, hround, heq⟩ := map_eq_ok.mp h
    obtain ⟨-, rfl⟩ := Prod.mk.inj heq
    unfold scheduleEvent at hround
    split at hround
    · obtain rfl := Except.ok.inj hround
      exact hcurrent
    · obtain ⟨k2, hdeliver, hnext⟩ := bind_eq_ok.mp hround
      have hmoves := deliverAll_moves (P := fun _ => True) (fun _ => trivial) hdeliver
      have hk2 : k2.kernelProcess = some 0 := by
        refine hmoves.along (R := fun _ k' => k'.kernelProcess = some 0) hk hk (fun _ h => h) ?_
        exact fun hk _ hmove => hmove.kernel hk
      exact scheduleNextProcess_loaded hk2 ((hmoves.sameContext hk).loaded hcurrent) hnext
  · by_cases hyield : e = .yield
    · subst hyield
      obtain ⟨-, rfl⟩ := Prod.mk.inj (Except.ok.inj h)
      exact yieldEvent_loaded hcurrent
    · exact ((exec_moves hk h hschedule hyield).sameContext hk).loaded hcurrent

end Events

/-! ## Runs -/

structure Sound (s : System) : Prop where
  linkage : Linkage s.1
  ok : PmmOk s.vm.pmm
  kernelDirectory : s.vm.kernelDirectory = some .kernel
  current : s.vm.currentDirectory ≠ none

section Runs

variable {s s' : System} {label : SystemEvent × SystemReply}

/-- A call that only works on the machine. -/
theorem Sound.machine (h : Sound s) (hsame : s'.1 = { s.1 with vm := s'.vm })
    (hstable : Stable s.vm s'.vm) : Sound s' where
  linkage := hsame ▸ h.linkage.withVm _
  ok := hstable.ok h.ok
  kernelDirectory := hstable.kernelDirectory.trans h.kernelDirectory
  current := by
    rw [hstable.current]
    exact h.current

theorem Sound.process {e : Event} {r : Reply} (h : Sound s)
    (hstep : KernelStep s.1 (e, r) s'.1) : Sound s' := by
  obtain ⟨effects, hrun, -⟩ := h.linkage.performs hstep
  obtain ⟨-, hok, hkernel⟩ := hrun.invariant
    (I := fun k => Linkage k ∧ PmmOk k.vm.pmm ∧ k.vm.kernelDirectory = some .kernel)
    ⟨h.linkage, h.ok, h.kernelDirectory⟩ fun ⟨hl, hok, hkernel⟩ hx =>
      have hstable := hx.stable hl.kernel
      ⟨hl.effect hx, hstable.1 hok, hstable.2.trans hkernel⟩
  exact ⟨h.linkage.step hstep, hok, hkernel, exec_loaded h.linkage.kernel h.current hstep.2⟩

theorem Sound.step (h : Sound s) (hstep : SystemStep s label s') : Sound s' := by
  obtain ⟨e, r⟩ := label
  cases e with
  | process e =>
      obtain ⟨reply, -, hkernel, -⟩ := hstep.process
      exact h.process hkernel
  | vmalloc size =>
      obtain ⟨p, -, hcall, hsame⟩ := hstep.vmalloc
      exact h.machine hsame (vmalloc_stable hcall)
  | vfree p =>
      obtain ⟨hcall, hsame⟩ := hstep.vfree
      exact h.machine hsame (vfree_stable hcall)
  | mapPage virt phys flags =>
      obtain ⟨hcall, hsame, -⟩ := hstep.mapPage
      exact h.machine hsame (pagingMapPageInDirectory_stable hcall)

end Runs

theorem sound_init {vm : Vm} {heap : Heap} (h : BootReady vm heap) :
    Sound (systemInit vm heap) := by
  refine ⟨linkage_processInit vm, ?_, ?_, ?_⟩
  · exact h.refines.ok
  · exact h.kernelDirectory
  · show vm.currentDirectory ≠ none
    rw [h.refines.current]
    exact fun he => by cases he

/-- Whatever is called, with whatever arguments. -/
theorem systemRun_sound {vm : Vm} {heap : Heap} (hboot : Booted vm heap)
    {labels : List (SystemEvent × SystemReply)} {s : System}
    (hrun : Run SystemStep (systemInit vm heap) labels s) : Sound s :=
  hrun.invariant (sound_init hboot.ready) fun h hstep => h.step hstep

end Kfs
