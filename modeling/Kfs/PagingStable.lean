import Kfs.PmmFrames
import Kfs.Vmalloc
import Kfs.ProcessCore

/-!
# What no call breaks

Calls on the machine keep the accounting of frames and the two directory
pointers, in whatever state the tables are (`Stable`). This is all that is
left once something has been mapped or freed that should not have been.
-/

namespace Kfs

structure Stable (vm vm' : Vm) : Prop where
  ok : PmmOk vm.pmm → PmmOk vm'.pmm
  current : vm'.currentDirectory = vm.currentDirectory
  kernelDirectory : vm'.kernelDirectory = vm.kernelDirectory

section Stable

variable {vm vm' vm'' : Vm}

theorem Stable.refl (vm : Vm) : Stable vm vm := ⟨id, rfl, rfl⟩

theorem Stable.trans (h : Stable vm vm') (h' : Stable vm' vm'') : Stable vm vm'' :=
  ⟨fun hok => h'.ok (h.ok hok), h'.current.trans h.current,
    h'.kernelDirectory.trans h.kernelDirectory⟩

theorem stable_allocFrame (vm : Vm) : Stable vm vm.allocFrame.2 :=
  ⟨fun hok => hok.allocFrame, rfl, rfl⟩

theorem stable_freeFrame (vm : Vm) (addr : Nat) : Stable vm (vm.freeFrame addr) :=
  ⟨fun hok => hok.freeFrame addr, rfl, rfl⟩

theorem stable_memory (vm : Vm) (mem : Mem) : Stable vm { vm with mem := mem } :=
  ⟨id, rfl, rfl⟩

/-! ## Paging -/

theorem pagingMapPageInDirectory_stable {directory : Option Directory} {virt phys flags : Nat}
    (h : pagingMapPageInDirectory vm directory virt phys flags = .ok vm') : Stable vm vm' := by
  unfold pagingMapPageInDirectory at h
  cases directory with
  | none =>
      obtain rfl := Except.ok.inj h
      exact Stable.refl vm
  | some d =>
      obtain ⟨⟨table, vm1⟩, htable, h⟩ := bind_eq_ok.mp h
      obtain rfl := Except.ok.inj h
      refine Stable.trans ?_ (stable_memory vm1 _)
      unfold pagingGetOrCreateTable at htable
      dsimp only at htable
      split at htable
      · have halloc := stable_allocFrame vm
        split at htable
        · cases htable
        · obtain ⟨-, rfl⟩ := Prod.mk.inj (Except.ok.inj htable)
          refine halloc.trans ?_
          split
          · exact ⟨id, rfl, rfl⟩
          · exact ⟨id, rfl, rfl⟩
      · obtain ⟨-, rfl⟩ := Prod.mk.inj (Except.ok.inj htable)
        split
        · exact ⟨id, rfl, rfl⟩
        · exact Stable.refl vm

/-- Unmapping writes to memory, if anywhere. -/
theorem pagingUnmapPageInDirectory_memory (vm : Vm) (directory : Option Directory) (virt : Nat) :
    ∃ mem, pagingUnmapPageInDirectory vm directory virt = { vm with mem := mem } := by
  unfold pagingUnmapPageInDirectory
  cases directory with
  | none => exact ⟨vm.mem, rfl⟩
  | some d =>
      dsimp only
      split
      · exact ⟨vm.mem, rfl⟩
      · exact ⟨_, rfl⟩

theorem pagingUnmapPageInDirectory_stable (vm : Vm) (directory : Option Directory) (virt : Nat) :
    Stable vm (pagingUnmapPageInDirectory vm directory virt) := by
  obtain ⟨mem, heq⟩ := pagingUnmapPageInDirectory_memory vm directory virt
  rw [heq]
  exact stable_memory vm mem

theorem pagingCopyDirectory_stable (vm : Vm) (destination source : Option Directory) :
    Stable vm (pagingCopyDirectory vm destination source) := by
  unfold pagingCopyDirectory
  split
  · exact ⟨id, rfl, rfl⟩
  · exact Stable.refl vm

/-! ## Processes -/

theorem releasePage_stable (vm : Vm) (directory : Option Directory) (page start : Nat) :
    Stable vm (releasePage directory page start vm) := by
  unfold releasePage
  split
  · exact (pagingUnmapPageInDirectory_stable vm directory start).trans (stable_freeFrame _ page)
  · exact Stable.refl vm

theorem processReleaseMemory_stable (vm : Vm) (memory : ProcessMemory) :
    Stable vm (processReleaseMemory vm memory).1 := by
  have htable : ∀ vm : Vm, Stable vm (releaseTable memory vm) := by
    intro vm
    unfold releaseTable
    split
    · exact Stable.refl vm
    · split
      · exact ⟨fun hok => hok.freeFrame _, rfl, rfl⟩
      · exact Stable.refl vm
  exact ((((releasePage_stable vm _ _ _).trans (releasePage_stable _ _ _ _)).trans
    (releasePage_stable _ _ _ _)).trans (releasePage_stable _ _ _ _)).trans (htable _)

theorem mapOrRelease_stable {start : Nat} {field : ProcessMemory → Nat → ProcessMemory}
    {memory memory' : ProcessMemory} {ok : Bool}
    {next : Vm → ProcessMemory → Except Fault (Bool × Vm × ProcessMemory)}
    (hnext : ∀ vm1 m1, next vm1 m1 = .ok (ok, vm', memory') → Stable vm1 vm')
    (h : mapOrRelease start field vm memory next = .ok (ok, vm', memory')) : Stable vm vm' := by
  obtain ⟨⟨page, vm1⟩, hpage, h⟩ := bind_eq_ok.mp h
  have hvm1 : Stable vm vm1 := by
    unfold allocProcessPage at hpage
    have halloc := stable_allocFrame vm
    dsimp only at hpage
    split at hpage
    · obtain ⟨-, rfl⟩ := Prod.mk.inj (Except.ok.inj hpage)
      exact halloc
    · obtain ⟨vm2, hmap, hpage⟩ := bind_eq_ok.mp hpage
      obtain ⟨-, rfl⟩ := Prod.mk.inj (Except.ok.inj hpage)
      exact (halloc.trans (pagingMapPageInDirectory_stable hmap)).trans (stable_memory vm2 _)
  cases page with
  | none =>
      have hvm : (processReleaseMemory vm1 memory).1 = vm' :=
        congrArg Prod.fst (Prod.mk.inj (Except.ok.inj h)).2
      exact hvm1.trans (hvm ▸ processReleaseMemory_stable vm1 memory)
  | some page => exact hvm1.trans (hnext _ _ h)

theorem processMemoryMap_stable {p : Slot} {memory memory' : ProcessMemory} {ok : Bool}
    (h : processMemoryMap vm p memory = .ok (ok, vm', memory')) : Stable vm vm' := by
  unfold processMemoryMap at h
  refine (pagingCopyDirectory_stable vm _ _).trans (mapOrRelease_stable (fun _ _ h => ?_) h)
  refine mapOrRelease_stable (fun _ _ h => ?_) h
  refine mapOrRelease_stable (fun _ _ h => ?_) h
  refine mapOrRelease_stable (fun _ _ h => ?_) h
  obtain ⟨rfl, -⟩ := Prod.mk.inj (Prod.mk.inj (Except.ok.inj h)).2
  exact Stable.refl _

/-! ## The allocator -/

theorem clearMapped_same {ptr size : Nat} (h : clearMapped vm ptr size = .ok vm') :
    ∃ mem, vm' = { vm with mem := mem } := by
  unfold clearMapped at h
  split at h
  · exact ⟨_, (Except.ok.inj h).symm⟩
  · cases h

theorem vmallocMemset_same {ptr : Nat} (h : vmallocMemset vm ptr = .ok vm') :
    (∃ mem, vm' = { vm with mem := mem }) ∧ vm.currentDirectory ≠ none := by
  obtain ⟨vm1, hfirst, h⟩ := bind_eq_ok.mp h
  obtain ⟨mem, hvm1⟩ := clearMapped_same hfirst
  constructor
  · split at h
    · exact ⟨mem, (Except.ok.inj h).symm.trans hvm1⟩
    · obtain ⟨mem', rfl⟩ := clearMapped_same h
      exact ⟨mem', by rw [hvm1]⟩
  · intro hnone
    unfold clearMapped pagingIsMapped at hfirst
    rw [hnone] at hfirst
    cases hfirst

theorem vmallocUndo_stable (virt i : Nat) (vm : Vm) : Stable vm (vmallocUndo virt i vm) := by
  unfold vmallocUndo
  exact (pagingUnmapPageInDirectory_stable vm _ _).trans (stable_freeFrame _ _)

theorem vfreePage_stable (virt i : Nat) (vm : Vm) : Stable vm (vfreePage virt i vm) := by
  unfold vfreePage
  dsimp only
  split
  · exact (pagingUnmapPageInDirectory_stable vm _ _).trans (stable_freeFrame _ _)
  · exact Stable.refl vm

theorem forRange_stable {body : Nat → Vm → Vm} (n : Nat) (hbody : ∀ i vm, Stable vm (body i vm)) :
    Stable vm (forRange 0 n body vm) :=
  forRange_invariant (I := fun _ vm' => Stable vm vm') (Nat.zero_le n) (Stable.refl vm)
    fun i vm' _ _ h => h.trans (hbody i vm')

theorem vmallocPages_stable {virt : Nat} : ∀ {n i : Nat} {vm : Vm} {ok : Bool},
    vmallocPages virt n i vm = .ok (ok, vm') → Stable vm vm' := by
  intro n
  induction n with
  | zero =>
      intro i vm ok h
      obtain ⟨-, rfl⟩ := Prod.mk.inj (Except.ok.inj h)
      exact Stable.refl _
  | succ n ih =>
      intro i vm ok h
      have halloc := stable_allocFrame vm
      unfold vmallocPages at h
      dsimp only at h
      split at h
      · obtain ⟨-, rfl⟩ := Prod.mk.inj (Except.ok.inj h)
        exact halloc.trans (forRange_stable i (vmallocUndo_stable virt))
      · obtain ⟨vm1, hmap, h⟩ := bind_eq_ok.mp h
        obtain ⟨vm2, hset, h⟩ := bind_eq_ok.mp h
        obtain ⟨⟨mem, rfl⟩, -⟩ := vmallocMemset_same hset
        exact ((halloc.trans (pagingMapPageInDirectory_stable hmap)).trans
          (stable_memory vm1 mem)).trans (ih h)

theorem vmalloc_stable {a a' : Vmalloc} {size p : Nat}
    (h : vmalloc vm a size = .ok (p, vm', a')) : Stable vm vm' := by
  have hsame : ∀ {a1}, (0, vm, a1) = (p, vm', a') → Stable vm vm' := by
    intro a1 heq
    obtain ⟨rfl, -⟩ := Prod.mk.inj (Prod.mk.inj heq).2
    exact Stable.refl vm
  unfold Kfs.vmalloc at h
  split at h
  · exact hsame (Except.ok.inj h)
  dsimp only at h
  split at h
  · exact hsame (Except.ok.inj h)
  obtain ⟨⟨region, heap⟩, -, h⟩ := bind_eq_ok.mp h
  dsimp only at h
  split at h
  · exact hsame (Except.ok.inj h)
  obtain ⟨⟨ok, vm1⟩, hloop, h⟩ := bind_eq_ok.mp h
  have hpages := vmallocPages_stable hloop
  cases ok with
  | true =>
      obtain ⟨rfl, -⟩ := Prod.mk.inj (Prod.mk.inj (Except.ok.inj h)).2
      exact hpages
  | false =>
      obtain ⟨⟨heap', warned⟩, -, h⟩ := bind_eq_ok.mp h
      obtain ⟨rfl, -⟩ := Prod.mk.inj (Prod.mk.inj (Except.ok.inj h)).2
      exact hpages

theorem vfree_stable {a a' : Vmalloc} {p : Nat} (h : vfree vm a p = .ok (vm', a')) :
    Stable vm vm' := by
  unfold Kfs.vfree at h
  split at h
  · obtain ⟨rfl, -⟩ := Prod.mk.inj (Except.ok.inj h)
    exact Stable.refl vm
  split at h
  · cases h
  next region _ =>
  obtain ⟨⟨heap, warned⟩, -, h⟩ := bind_eq_ok.mp h
  obtain ⟨rfl, -⟩ := Prod.mk.inj (Except.ok.inj h)
  exact forRange_stable _ (vfreePage_stable region.virtAddr)

end Stable

end Kfs
