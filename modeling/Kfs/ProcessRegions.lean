import Kfs.Lib.Ledger
import Kfs.ProcessSpaces
import Kfs.ProcessLinks

/-!
# Processes and their frames

Every live process has an address space of its own (`SpaceAt`), and a ledger
says who has which frame: those of `base`, which no process has, and the five
frames of each live process. `Regions` is both together.

It needs every process to be created at a base whose window the kernel
directory leaves alone (`FreeWindow`); at any other base the pages would go
into a table of the kernel. Then `Regions.effect` says what an effect of the
process interface does to the machine: the bytes of `base` and the kernel
directory stay (`Spares`), and a process that is there afterwards was there
before and kept its directory (`Keeps`) or is new (`Fresh`).
-/

namespace Kfs

/-- A process other than the kernel that was created and not yet reaped. -/
def Kernel.Live (k : Kernel) (p : Slot) : Prop := p ≠ 0 ∧ (k.processTable p).used = true

instance (k : Kernel) (p : Slot) : Decidable (k.Live p) := inferInstanceAs (Decidable (_ ∧ _))

/-- The frames of a live process. -/
def Kernel.framesOf (k : Kernel) (p : Slot) : Finset Nat :=
  if k.Live p then (k.processTable p).memory.frames else ∅

/-- The address space of a process. -/
def Kernel.HasSpace (k : Kernel) (p : Slot) : Prop :=
  ∃ b w start table frames, SpaceAt k.vm p (k.processTable p).memory b w start table frames

structure Regions (base : Finset Nat) (total : Nat) (k : Kernel) : Prop where
  ok : PmmOk k.vm.pmm
  kernelDirectory : k.vm.kernelDirectory = some .kernel
  frames : k.vm.pmm.totalFrames = total
  low : 0 < total → 0 ∈ base
  ledger : Ledger (usedSet k.vm.pmm) base k.framesOf
  spaces : ∀ p, k.Live p → k.HasSpace p

/-! ## Spaces -/

/-- `x` lies in one of the four pages of the process. -/
def OwnPage (m : ProcessMemory) (x : Nat) : Prop :=
  InPages m x ∨ (m.stackPage ≤ x ∧ x < m.stackPage + 4096)

section Spaces

variable {vm vm' : Vm} {p : Slot} {m : ProcessMemory} {base w start table : Nat}
  {frames : List Nat}

theorem SpaceAt.pages (h : SpaceAt vm p m base w start table frames) :
    ∃ f1 f2 f3 f4, frames = [f1, f2, f3, f4] ∧ m.dataPage = f1 * 4096 ∧ m.bssPage = f2 * 4096
      ∧ m.heapPage = f3 * 4096 ∧ m.stackPage = f4 * 4096 ∧ m.processPageTable = table * 4096 := by
  have haddr := h.addresses
  unfold ProcessMemory.addresses at haddr
  match frames, haddr with
  | [f1, f2, f3, f4], haddr =>
      simp only [List.cons_append, List.nil_append, List.map_cons, List.map_nil,
        List.cons.injEq] at haddr
      obtain ⟨h1, h2, h3, h4, h5, -⟩ := haddr
      exact ⟨f1, f2, f3, f4, rfl, h1, h2, h3, h4, h5⟩
  | [], haddr => simp at haddr
  | [_], haddr => simp at haddr
  | [_, _], haddr => simp at haddr
  | [_, _, _], haddr => simp at haddr
  | _ :: _ :: _ :: _ :: _ :: _, haddr => simp at haddr

theorem SpaceAt.frames_card (h : SpaceAt vm p m base w start table frames) :
    m.frames.card = 5 := by
  obtain ⟨f1, f2, f3, f4, rfl, -⟩ := h.pages
  rw [h.frames_eq.1, List.toFinset_card_of_nodup h.nodup]
  rfl

theorem SpaceAt.table_mem (h : SpaceAt vm p m base w start table frames) : table ∈ m.frames := by
  rw [h.frames_eq.1]
  simp

/-- What is written to the pages of a process stays off its table. -/
theorem SpaceAt.ownPage (h : SpaceAt vm p m base w start table frames) {x : Nat}
    (hx : OwnPage m x) : x / 4096 ∈ m.frames ∧ x / 4096 ≠ table := by
  obtain ⟨f1, f2, f3, f4, rfl, h1, h2, h3, h4, h5⟩ := h.pages
  have hin : x / 4096 ∈ [f1, f2, f3, f4] := by
    unfold OwnPage InPages at hx
    simp only [List.mem_cons, List.not_mem_nil, or_false]
    omega
  have hnot := (List.nodup_cons.mp h.nodup).1
  refine ⟨?_, fun heq => hnot (heq ▸ hin)⟩
  rw [h.frames_eq.1, List.mem_toFinset]
  exact List.mem_cons_of_mem _ hin

theorem SpaceAt.inPages (h : SpaceAt vm p m base w start table frames) {x : Nat}
    (hx : InPages m x) : x / 4096 ∈ m.frames ∧ x / 4096 ≠ table := h.ownPage (Or.inl hx)

theorem SpaceAt.congr (h : SpaceAt vm p m base w start table frames)
    (hown : vm'.directories (.process p) = vm.directories (.process p))
    (hmem : ∀ x, x / 4096 = table → vm'.mem x = vm.mem x) :
    SpaceAt vm' p m base w start table frames :=
  ⟨h.placed, h.window, h.addresses, h.mounted.congr hown hmem, h.nodup, h.small⟩

/-- Nothing another process does touches a space. -/
theorem SpaceAt.touched (h : SpaceAt vm p m base w start table frames) {d : Directory}
    {touched : Finset Nat} (hd : .process p ≠ d) (ht : Touches d touched vm vm')
    (hapart : Disjoint m.frames touched) : SpaceAt vm' p m base w start table frames := by
  refine h.congr (ht.directories _ hd) fun x hx => ht.mem x ?_
  rw [hx]
  exact Finset.disjoint_left.mp hapart h.table_mem

/-- The frames of a record do not depend on its `heap_break`. -/
theorem frames_layout {m m' : ProcessMemory} (h : m'.layout = m.layout) :
    m'.frames = m.frames := by
  have heq : m'.layout.frames = m.layout.frames := congrArg ProcessMemory.frames h
  exact heq

theorem virtualBase_layout {m m' : ProcessMemory} (h : m'.layout = m.layout) :
    m'.virtualBase = m.virtualBase := by
  have heq : m'.layout.virtualBase = m.layout.virtualBase :=
    congrArg ProcessMemory.virtualBase h
  exact heq

theorem SpaceAt.layout {m' : ProcessMemory} (h : SpaceAt vm p m base w start table frames)
    (heq : m'.layout = m.layout) : SpaceAt vm p m' base w start table frames := by
  have hplaced : PlacedAt p base m.layout :=
    ⟨h.placed.directory, h.placed.virtualBase, h.placed.data, h.placed.bss, h.placed.heap,
      h.placed.stack⟩
  have haddr : m.layout.addresses = (frames ++ [table]).map (· * 4096) := h.addresses
  rw [← heq] at hplaced haddr
  exact ⟨⟨hplaced.directory, hplaced.virtualBase, hplaced.data, hplaced.bss, hplaced.heap,
    hplaced.stack⟩, h.window, haddr, h.mounted, h.nodup, h.small⟩

theorem clearFirstWords_touches (h : SpaceAt vm p m base w start table frames) :
    Touches (.process p) m.frames vm (clearFirstWords m vm)
      ∧ SpaceAt (clearFirstWords m vm) p m base w start table frames := by
  have houtside : ∀ x, ¬InPages m x → (clearFirstWords m vm).mem x = vm.mem x := by
    intro x hx
    unfold InPages at hx
    have hstore : ∀ (mem : Mem) (page : Nat), x < page ∨ page + 4096 ≤ x →
        (if page ≠ 0 then store32 mem page 0 else mem) x = mem x := by
      intro mem page hout
      split
      · exact store32_outside (by omega)
      · rfl
    unfold clearFirstWords
    simp only
    rw [hstore _ _ (by omega), hstore _ _ (by omega)]
  constructor
  · exact ⟨fun _ _ => rfl, rfl, fun x hx => houtside x fun hin => hx (h.inPages hin).1⟩
  · exact h.congr rfl fun x hx => houtside x fun hin => (h.inPages hin).2 hx

end Spaces

/-! ## Free windows -/

/-- The four pages from `base` on are in one window of 4 MB, and the kernel
directory has no table there. -/
def FreeWindow (vm : Vm) (base : Nat) : Prop :=
  (∀ j, j < 4 → pageDirIndex (pageFrom base j) = pageDirIndex base)
    ∧ vm.directories .kernel (pageDirIndex base) &&& pagePresent = 0

instance (vm : Vm) (base : Nat) : Decidable (FreeWindow vm base) :=
  inferInstanceAs (Decidable ((∀ j, j < 4 → _) ∧ _))

/-- The window of the default bases. -/
theorem freeWindow_slot {vm : Vm} (h : vm.directories .kernel 8 &&& pagePresent = 0) (p : Slot) :
    FreeWindow vm (processVirtualBaseForSlot p) := by
  have hwindow := inWindow_slot p
  have hbase : pageDirIndex (processVirtualBaseForSlot p) = 8 := (hwindow 0 (by omega)).1
  exact ⟨fun j hj => (hwindow j hj).1.trans hbase.symm, hbase.symm ▸ h⟩

/-- Processes are created only at free windows. -/
def Effect.FreeWindow (vm : Vm) : Effect → Prop
  | .spawn p _ b => Kfs.FreeWindow vm (baseOf b p)
  | .miss b => ∀ p, Kfs.FreeWindow vm (baseOf b p)
  | _ => True

/-- Not a creation that failed. -/
def Effect.succeeds : Effect → Prop
  | .miss _ => False
  | _ => True

/-- The base of a process that an effect creates. -/
def Effect.base? : Effect → Option Nat
  | .spawn _ _ b => some b
  | _ => none

/-! ## What an effect leaves -/

/-- The kernel directory, the frames of `base` and what is beyond the machine
are as before. -/
structure Spares (base : Finset Nat) (total : Nat) (vm vm' : Vm) : Prop where
  kernel : vm'.directories .kernel = vm.directories .kernel
  mem : ∀ x, x / 4096 ∈ base ∨ total ≤ x / 4096 → vm'.mem x = vm.mem x

/-- A process that was there before. -/
structure Keeps (k k' : Kernel) (q : Slot) : Prop where
  live : k.Live q
  layout : (k'.processTable q).memory.layout = (k.processTable q).memory.layout
  directory : k'.vm.directories (.process q) = k.vm.directories (.process q)

/-- A new process at base `b`: its directory is the kernel's but for its
window. -/
structure Fresh (k' : Kernel) (q : Slot) (b : Nat) : Prop where
  base : (k'.processTable q).memory.virtualBase = baseOf b q
  shared : ∀ i, i ≠ pageDirIndex (k'.processTable q).memory.virtualBase →
    k'.vm.directories (.process q) i = k'.vm.directories .kernel i
  vacant : k'.vm.directories .kernel (pageDirIndex (k'.processTable q).memory.virtualBase)
    &&& pagePresent = 0

/-- What effects that create processes at the bases `B` lead to. -/
structure Outcome (base base' : Finset Nat) (total : Nat) (B : Nat → Prop) (k k' : Kernel) :
    Prop where
  regions : Regions base' total k'
  grows : base ⊆ base'
  spares : Spares base total k.vm k'.vm
  each : ∀ q, k'.Live q → Keeps k k' q ∨ ∃ b, B b ∧ Fresh k' q b

theorem Keeps.trans {k k' k'' : Kernel} {q : Slot} (h : Keeps k k' q) (h' : Keeps k' k'' q) :
    Keeps k k'' q :=
  ⟨h.live, h'.layout.trans h.layout, h'.directory.trans h.directory⟩

theorem Fresh.keeps {k k' : Kernel} {q : Slot} {b : Nat} (h : Fresh k q b) (hkeeps : Keeps k k' q)
    (hkernel : k'.vm.directories .kernel = k.vm.directories .kernel) : Fresh k' q b := by
  have hbase := virtualBase_layout hkeeps.layout
  refine ⟨hbase.trans h.base, ?_, ?_⟩
  · rw [hbase, hkeeps.directory, hkernel]
    exact h.shared
  · rw [hbase, hkernel]
    exact h.vacant

theorem Outcome.trans {base base' base'' : Finset Nat} {total : Nat} {B : Nat → Prop}
    {k k' k'' : Kernel} (h : Outcome base base' total B k k')
    (h' : Outcome base' base'' total B k' k'') : Outcome base base'' total B k k'' where
  regions := h'.regions
  grows := h.grows.trans h'.grows
  spares := ⟨h'.spares.kernel.trans h.spares.kernel, fun x hx =>
    (h'.spares.mem x (hx.imp_left fun hin => h.grows hin)).trans (h.spares.mem x hx)⟩
  each q hq := by
    rcases h'.each q hq with hkeeps | hfresh
    · rcases h.each q hkeeps.live with hkeeps' | ⟨b, hb, hfresh⟩
      · exact Or.inl (hkeeps'.trans hkeeps)
      · exact Or.inr ⟨b, hb, hfresh.keeps hkeeps h'.spares.kernel⟩
    · exact Or.inr hfresh

theorem Outcome.mono {base base' : Finset Nat} {total : Nat} {B B' : Nat → Prop} {k k' : Kernel}
    (h : Outcome base base' total B k k') (hsub : ∀ b, B b → B' b) :
    Outcome base base' total B' k k' :=
  ⟨h.regions, h.grows, h.spares, fun q hq =>
    (h.each q hq).imp_right fun ⟨b, hb, hfresh⟩ => ⟨b, hsub b hb, hfresh⟩⟩

section Steps

variable {base : Finset Nat} {total : Nat} {k k' : Kernel}

theorem not_live {p : Slot} (h : (k.processTable p).used = false) : ¬k.Live p := fun hlive => by
  have hused := hlive.2
  rw [h] at hused
  cases hused

theorem framesOf_live {p : Slot} (h : k.Live p) :
    k.framesOf p = (k.processTable p).memory.frames := if_pos h

theorem framesOf_congr {p : Slot} (hused : (k'.processTable p).used = (k.processTable p).used)
    (hframes : (k'.processTable p).memory.frames = (k.processTable p).memory.frames) :
    k'.framesOf p = k.framesOf p := by
  have hiff : k'.Live p ↔ k.Live p := by
    unfold Kernel.Live
    rw [hused]
  unfold Kernel.framesOf
  simp only [hiff, hframes]

theorem framesOf_core {p : Slot} (h : (k'.processTable p).core = (k.processTable p).core) :
    k'.framesOf p = k.framesOf p :=
  framesOf_congr (core_used h) (congrArg ProcessMemory.frames (core_memory h))

theorem Tame.framesOf (h : Tame k k') : k'.framesOf = k.framesOf := funext fun p =>
  framesOf_congr (h.used p) (frames_layout (frame_layout (h.frame p)))

theorem Regions.lowUsed (h : Regions base total k) : LowUsed k.vm.pmm := fun hpos =>
  h.ledger.base_subset (h.low (h.frames ▸ hpos))

/-- Two live processes have no frame in common. -/
theorem Regions.apart (h : Regions base total k) {p q : Slot} (hp : k.Live p) (hq : k.Live q)
    (hne : p ≠ q) :
    Disjoint (k.processTable p).memory.frames (k.processTable q).memory.frames := by
  rw [← framesOf_live hp, ← framesOf_live hq]
  exact h.ledger.disjoint p q hne

theorem Regions.used (h : Regions base total k) {p : Slot} (hp : k.Live p) :
    (k.processTable p).memory.frames ⊆ usedSet k.vm.pmm := by
  rw [← framesOf_live hp]
  exact h.ledger.owned_subset p

/-- The frame of a process is not in the base and not beyond the machine. -/
theorem Regions.owned (h : Regions base total k) {p : Slot} (hp : k.Live p) {f : Nat}
    (hf : f ∈ (k.processTable p).memory.frames) : ¬(f ∈ base ∨ total ≤ f) := by
  have hlt := (mem_usedSet.mp (h.used hp hf)).1
  rw [h.frames] at hlt
  rintro (hin | hge)
  · rw [← framesOf_live hp] at hf
    exact Finset.disjoint_left.mp (h.ledger.apart p) hin hf
  · omega

/-- Fresh frames are neither. -/
theorem Regions.fresh (h : Regions base total k) {fresh : Finset Nat}
    (hfresh : Disjoint (usedSet k.vm.pmm) fresh) (hlt : ∀ f ∈ fresh, f < k.vm.pmm.totalFrames)
    {f : Nat} (hf : f ∈ fresh) : ¬(f ∈ base ∨ total ≤ f) := by
  rintro (hin | hge)
  · exact Finset.disjoint_left.mp hfresh (h.ledger.base_subset hin) hf
  · have hf' := hlt f hf
    rw [h.frames] at hf'
    omega

theorem Touches.spares {p : Slot} {touched : Finset Nat} {vm vm' : Vm}
    (h : Touches (.process p) touched vm vm')
    (hout : ∀ f ∈ touched, ¬(f ∈ base ∨ total ≤ f)) : Spares base total vm vm' :=
  ⟨h.directories .kernel nofun, fun x hx => h.mem x fun hin => hout _ hin hx⟩

/-- Assigning to fields, moving pointers and writing to pages of processes
keep everything. -/
theorem Regions.written (h : Regions base total k)
    (hframe : ∀ q, (k'.processTable q).frame = (k.processTable q).frame)
    (hpmm : k'.vm.pmm = k.vm.pmm) (hdirectories : k'.vm.directories = k.vm.directories)
    (hkernel : k'.vm.kernelDirectory = k.vm.kernelDirectory)
    (hmem : ∀ x, (∀ q, k.Live q → ¬OwnPage (k.processTable q).memory x) →
      k'.vm.mem x = k.vm.mem x) (B : Nat → Prop) : Outcome base base total B k k' := by
  have hlive : ∀ p, k'.Live p → k.Live p := fun p hp =>
    ⟨hp.1, (frame_used (hframe p)).symm.trans hp.2⟩
  have hframes : k'.framesOf = k.framesOf := funext fun p =>
    framesOf_congr (frame_used (hframe p)) (frames_layout (frame_layout (hframe p)))
  refine ⟨⟨hpmm ▸ h.ok, hkernel.trans h.kernelDirectory, hpmm ▸ h.frames, h.low, ?_,
    ?_⟩, Finset.Subset.refl _, ⟨by rw [hdirectories], ?_⟩,
    fun q hq => Or.inl ⟨hlive q hq, frame_layout (hframe q), by rw [hdirectories]⟩⟩
  · rw [hpmm, hframes]
    exact h.ledger
  · intro p hp
    obtain ⟨b, w, start, table, frames, hspace⟩ := h.spaces p (hlive p hp)
    refine ⟨b, w, start, table, frames, (hspace.congr (by rw [hdirectories])
      fun x hx => hmem x ?_).layout (frame_layout (hframe p))⟩
    intro q hq hin
    obtain ⟨_, _, _, table', frames', hspace'⟩ := h.spaces q hq
    obtain ⟨hmem, hne⟩ := hspace'.ownPage hin
    by_cases hpq : p = q
    · subst hpq
      have htables : table = table' := by
        obtain ⟨-, -, -, -, -, -, -, -, -, h5⟩ := hspace.pages
        obtain ⟨-, -, -, -, -, -, -, -, -, h5'⟩ := hspace'.pages
        omega
      exact hne (hx.trans htables)
    · rw [hx] at hmem
      exact Finset.disjoint_left.mp (h.apart (hlive p hp) hq hpq) hspace.table_mem hmem
  · intro x hx
    refine hmem x ?_
    intro q hq hin
    obtain ⟨_, _, _, _, _, hspace⟩ := h.spaces q hq
    exact h.owned hq (hspace.ownPage hin).1 hx

theorem Regions.tame (h : Regions base total k) (ht : Tame k k') (B : Nat → Prop) :
    Outcome base base total B k k' :=
  h.written ht.frame ht.pmm ht.directories ht.kernelDirectory
    (fun x hx => ht.mem x fun q hq hused hin => hx q ⟨hq, hused⟩ (Or.inl hin)) B

/-- The other processes keep their spaces when fresh frames or those of a
third are touched. -/
theorem Regions.others (h : Regions base total k) {p : Slot} {touched : Finset Nat}
    (ht : Touches (.process p) touched k.vm k'.vm)
    (hapart : ∀ q, q ≠ p → k.Live q → Disjoint (k.processTable q).memory.frames touched)
    {q : Slot} (hq : q ≠ p) (hcore : (k'.processTable q).core = (k.processTable q).core)
    (hlive : k'.Live q) : k'.HasSpace q ∧ Keeps k k' q := by
  have hlive' : k.Live q := ⟨hlive.1, (core_used hcore).symm.trans hlive.2⟩
  have hdir : Directory.process q ≠ .process p := fun heq => hq (Directory.process.inj heq)
  constructor
  · obtain ⟨b, w, start, table, frames, hspace⟩ := h.spaces q hlive'
    unfold Kernel.HasSpace
    rw [core_memory hcore]
    exact ⟨b, w, start, table, frames, hspace.touched hdir ht (hapart q hq hlive')⟩
  · exact ⟨hlive', by rw [core_memory hcore], ht.directories _ hdir⟩

/-- The memory of a process that was just created: five fresh frames, and
only they and its directory are touched. -/
structure Spawned (k k' : Kernel) (p : Slot) (b w start table : Nat) (frames : List Nat) :
    Prop where
  space : SpaceAt k'.vm p (k'.processTable p).memory (baseOf b p) w start table frames
  takes : Takes (k'.processTable p).memory.frames k.vm.pmm k'.vm.pmm
  touches : Touches (.process p) (k'.processTable p).memory.frames k.vm k'.vm
  shared : ∀ i, i ≠ w → k'.vm.directories (.process p) i = k'.vm.directories .kernel i

theorem Regions.spawned (h : Regions base total k) {p : Slot} {parent : Option Slot}
    {owner b size : Nat} {function : Option ExecFn}
    (call : processCreateInternal k parent owner b function size = .ok (some p, k'))
    (hfree : FreeWindow k.vm (baseOf b p)) :
    ∃ w start table frames, Spawned k k' p b w start table frames := by
  obtain ⟨hp, hunused, vm, memory, table, head, hmap, heq, hnew, hcore⟩ := spawn_eq call
  have hvm : k'.vm = clearFirstWords memory vm := congrArg Kernel.vm heq
  obtain rfl : k'.processTable = table := congrArg Kernel.processTable heq
  have hmemory : (k'.processTable p).memory = memory := core_memory hnew
  clear heq
  rcases processMemoryMap_at h.ok h.lowUsed h.kernelDirectory (inWindow_of hfree.1) hfree.2
    hmap with ⟨hfalse, -⟩ | ⟨-, tab, frames, hspace, htakes, ht, hshared⟩
  · cases hfalse
  obtain ⟨hclear, hspace'⟩ := clearFirstWords_touches hspace
  have hpmm : k'.vm.pmm = vm.pmm := by
    rw [hvm]
    rfl
  have hdirs : k'.vm.directories = vm.directories := by
    rw [hvm]
    rfl
  have htouches := ht.trans hclear
  rw [← hvm] at htouches hspace'
  rw [← hpmm] at htakes
  rw [← hdirs] at hshared
  rw [← hmemory] at hspace' htakes htouches
  exact ⟨_, _, tab, frames, hspace', htakes, htouches, hshared⟩

/-- A new process gets five fresh frames. -/
theorem Regions.spawn (h : Regions base total k) {p : Slot} {parent : Option Slot} {b : Nat}
    (hx : KernelEffect k (.spawn p parent b) k') (hfree : FreeWindow k.vm (baseOf b p)) :
    Outcome base base total (· = b) k k' := by
  obtain ⟨hp, hunused, ⟨_, _, _, hnew⟩, hcore⟩ := hx.spawn_table
  cases hx with
  | spawn call =>
      obtain ⟨w, start, tab, frames, hspawned⟩ := h.spawned call hfree
      obtain ⟨hspace, htakes, htouches, hshared⟩ := hspawned
      have hothers := fun (q : Slot) (hq : q ≠ p) => h.others htouches
        (fun r hr hlive => Finset.disjoint_of_subset_left (h.used hlive) htakes.fresh) hq
        (hcore q hq)
      refine ⟨⟨htakes.ok, htouches.kernelDirectory.trans h.kernelDirectory,
        htakes.total.trans h.frames, h.low, ?_, ?_⟩, Finset.Subset.refl _,
        htouches.spares fun f hf => h.fresh htakes.fresh
          (fun f hf => htakes.lt_total hf) hf, ?_⟩
      · rw [htakes.used]
        exact h.ledger.grant (if_neg (not_live hunused)) htakes.fresh
          (framesOf_live ⟨hp, core_used hnew⟩) fun q hq => framesOf_core (hcore q hq)
      · intro q hq
        by_cases hqp : q = p
        · subst hqp
          exact ⟨_, _, _, tab, frames, hspace⟩
        · exact (hothers q hqp hq).1
      · intro q hq
        by_cases hqp : q = p
        · subst hqp
          refine Or.inr ⟨b, rfl, hspace.placed.virtualBase, ?_, ?_⟩
          · intro i hi
            exact hshared i (by rwa [← hspace.window_eq])
          · rw [hspace.placed.virtualBase, htouches.directories .kernel nofun]
            exact hfree.2
        · exact Or.inl (hothers q hqp hq).2

/-- A creation that failed leaks at most a table. -/
theorem Regions.miss (h : Regions base total k) (hk : k.kernelProcess = some 0) {b : Nat}
    (hx : KernelEffect k (.miss b) k') (hfree : ∀ p, FreeWindow k.vm (baseOf b p)) :
    ∃ base', Outcome base base' total (fun _ => False) k k' := by
  cases hx with
  | miss call =>
      rcases miss_eq hk call with rfl | ⟨p, vm, table, head, hp, hunused, hmap, heq, hzero, hcore⟩
      · exact ⟨base, h.tame (Tame.refl _) _⟩
      obtain rfl : k'.vm = vm := congrArg Kernel.vm heq
      obtain rfl : k'.processTable = table := congrArg Kernel.processTable heq
      clear heq
      rcases processMemoryMap_at h.ok h.lowUsed h.kernelDirectory (inWindow_of (hfree p).1)
        (hfree p).2 hmap with ⟨-, hleaves⟩ | ⟨htrue, -⟩
      swap
      · cases htrue
      obtain ⟨⟨leak, htakes⟩, touched, hfresh, hlt, ht⟩ := hleaves
      have hdead : ¬k'.Live p := not_live (congrArg Process.used hzero)
      have hothers := fun (q : Slot) (hq : k'.Live q) => h.others ht
        (fun r hr hlive => Finset.disjoint_of_subset_left (h.used hlive) hfresh)
        (fun heq => hdead (heq ▸ hq)) (hcore q fun heq => hdead (heq ▸ hq)) hq
      refine ⟨base ∪ leak, ⟨htakes.ok, ht.kernelDirectory.trans h.kernelDirectory,
        htakes.total.trans h.frames, fun hpos => Finset.mem_union_left _ (h.low hpos), ?_,
        fun q hq => (hothers q hq).1⟩, Finset.subset_union_left,
        ht.spares fun f hf => h.fresh hfresh hlt hf, fun q hq => Or.inl (hothers q hq).2⟩
      have howned : k'.framesOf = k.framesOf := funext fun q => by
        by_cases hqp : q = p
        · subst hqp
          exact (if_neg hdead).trans (if_neg (not_live hunused)).symm
        · exact framesOf_core (hcore q hqp)
      rw [htakes.used, howned]
      exact h.ledger.waste htakes.fresh

/-- A reaped process gives back all five. -/
theorem Regions.release (h : Regions base total k) (hk : k.kernelProcess = some 0) {c : Slot}
    (hx : KernelEffect k (.release c) k') : Outcome base base total (fun _ => False) k k' := by
  cases hx with
  | release hkernel hused call =>
      obtain ⟨table, head, heq, hzero, hcore⟩ := processRelease_eq hkernel call
      have hvm : k'.vm = vmWithout k c := congrArg Kernel.vm heq
      obtain rfl : k'.processTable = table := congrArg Kernel.processTable heq
      clear heq
      have hc : k.Live c := ⟨fun heq => hkernel (by rw [heq, hk]), hused⟩
      obtain ⟨b, w, start, tab, frames, hspace⟩ := h.spaces c hc
      have hlt := (hspace.small tab List.mem_cons_self).2
      obtain ⟨ht, hgives⟩ := processReleaseMemory_spec h.ok hspace.placed hspace.window
        hspace.frames_eq.2 hspace.mounted.entry (by omega)
      rw [show (processReleaseMemory k.vm (k.processTable c).memory).1 = k'.vm from hvm.symm]
        at ht hgives
      have hdead : ¬k'.Live c := not_live (congrArg Process.used hzero)
      have htable : ∀ r, r ≠ c → k.Live r → Disjoint (k.processTable r).memory.frames {tab} := by
        intro r hr hlive
        rw [Finset.disjoint_singleton_right]
        exact fun hin => Finset.disjoint_left.mp (h.apart hlive hc hr) hin hspace.table_mem
      have hothers := fun (q : Slot) (hq : k'.Live q) => h.others ht htable
        (fun heq => hdead (heq ▸ hq)) (hcore q fun heq => hdead (heq ▸ hq)) hq
      refine ⟨⟨hgives.ok, ht.kernelDirectory.trans h.kernelDirectory,
        hgives.total.trans h.frames, h.low, ?_, fun q hq => (hothers q hq).1⟩,
        Finset.Subset.refl _, ht.spares ?_, fun q hq => Or.inl (hothers q hq).2⟩
      · rw [hgives.used, ← framesOf_live hc]
        exact h.ledger.revoke (if_neg hdead) fun q hq => framesOf_core (hcore q hq)
      · intro f hf
        rw [Finset.mem_singleton] at hf
        exact h.owned hc (hf ▸ hspace.table_mem)

/-- An effect that creates only at free windows. -/
theorem Regions.effect {x : Effect} (h : Regions base total k) (hk : k.kernelProcess = some 0)
    (hx : KernelEffect k x k') (hfree : x.FreeWindow k.vm) :
    ∃ base', Outcome base base' total (fun b => x.base? = some b) k k'
      ∧ (x.succeeds → base' = base) := by
  cases x with
  | spawn p parent b =>
      exact ⟨base, (h.spawn hx hfree).mono fun b' hb => hb ▸ rfl, fun _ => rfl⟩
  | miss b =>
      obtain ⟨base', hout⟩ := h.miss hk hx hfree
      exact ⟨base', hout.mono fun _ => False.elim, False.elim⟩
  | release c => exact ⟨base, (h.release hk hx).mono fun _ => False.elim, fun _ => rfl⟩
  | exit p => exact ⟨base, h.tame (hx.tame (Or.inl trivial)) _, fun _ => rfl⟩
  | waitFor parent pid =>
      exact ⟨base, h.tame (hx.tame (Or.inr ⟨parent, pid, rfl⟩)) _, fun _ => rfl⟩
  | other => exact ⟨base, h.tame (hx.tame (Or.inl trivial)) _, fun _ => rfl⟩

theorem FreeWindow.congr {vm vm' : Vm} {b : Nat} (h : FreeWindow vm b)
    (hkernel : vm'.directories .kernel = vm.directories .kernel) : FreeWindow vm' b :=
  ⟨h.1, hkernel ▸ h.2⟩

theorem Effect.FreeWindow.congr {vm vm' : Vm} {x : Effect} (h : x.FreeWindow vm)
    (hkernel : vm'.directories .kernel = vm.directories .kernel) : x.FreeWindow vm' := by
  cases x with
  | spawn p parent b => exact Kfs.FreeWindow.congr h hkernel
  | miss b => exact fun p => (h p).congr hkernel
  | release c => trivial
  | exit p => trivial
  | waitFor parent pid => trivial
  | other => trivial

/-- The kernel directory does not change on the way, so windows that are free
at the start stay free. -/
theorem Regions.effects {effects : List Effect} (h : Regions base total k) (hl : Linkage k)
    (hrun : Run KernelEffect k effects k') (hfree : ∀ x ∈ effects, x.FreeWindow k.vm) :
    ∃ base', Outcome base base' total (fun b => ∃ x ∈ effects, x.base? = some b) k k'
      ∧ ((∀ x ∈ effects, x.succeeds) → base' = base) := by
  refine (hrun.invariant_trace (I := fun xs k' => Linkage k' ∧ ((∀ x ∈ xs, x.FreeWindow k.vm) →
    ∃ base', Outcome base base' total (fun b => ∃ x ∈ xs, x.base? = some b) k k'
      ∧ ((∀ x ∈ xs, x.succeeds) → base' = base)))
    ⟨hl, fun _ => ⟨base, h.tame (Tame.refl k) _, fun _ => rfl⟩⟩ ?_).2 hfree
  rintro xs k1 x k2 ⟨hl1, ih⟩ hx
  refine ⟨hl1.effect hx, ?_⟩
  intro hall
  obtain ⟨base1, hout1, hsame1⟩ := ih fun y hy => hall y (List.mem_append_left _ hy)
  obtain ⟨base2, hout2, hsame2⟩ := hout1.regions.effect hl1.kernel hx
    ((hall x (by simp)).congr hout1.spares.kernel)
  refine ⟨base2, (hout1.mono ?_).trans (hout2.mono ?_), ?_⟩
  · rintro b ⟨y, hy, hb⟩
    exact ⟨y, List.mem_append_left _ hy, hb⟩
  · intro b hb
    exact ⟨x, by simp, hb⟩
  · intro hsucc
    rw [hsame2 (hsucc x (by simp)), hsame1 fun y hy => hsucc y (List.mem_append_left _ hy)]

end Steps

/-! ## Events -/

/-- A creation was asked for and there is no process. -/
def refuses (label : Event × Reply) : Prop :=
  label.2 = .created none ∨ label.2 = .createdPair none

/-- An event that creates a process does so at a free window. -/
def Event.FreeWindow (vm : Vm) (e : Event) : Prop :=
  e.creations ≠ 0 → ∀ p, Kfs.FreeWindow vm (baseOf e.base p)

instance (vm : Vm) (e : Event) : Decidable (e.FreeWindow vm) :=
  inferInstanceAs (Decidable (e.creations ≠ 0 → ∀ p : Slot, Kfs.FreeWindow vm (baseOf e.base p)))

/-- The effects of an event create at its base, and have a creation that
failed among them only if the event says so. -/
theorem Shape.bases {k : Kernel} {e : Event} {r : Reply} {effects : List Effect}
    (h : Shape k e r effects) {vm : Vm} (hfree : e.FreeWindow vm) :
    (∀ x ∈ effects, x.FreeWindow vm ∧ ∀ b, x.base? = some b → b = e.base)
      ∧ (¬refuses (e, r) → ∀ x ∈ effects, x.succeeds) := by
  have hmild : ∀ {xs : List Effect}, (∀ x ∈ xs, x.mild) →
      ∀ x ∈ xs, (x.FreeWindow vm ∧ ∀ b, x.base? = some b → b = e.base) ∧ x.succeeds := by
    intro xs hxs x hx
    have hm := hxs x hx
    cases x with
    | spawn _ _ _ => cases hm
    | miss _ => cases hm
    | release _ => cases hm
    | exit _ => exact ⟨⟨trivial, nofun⟩, trivial⟩
    | waitFor _ _ => exact ⟨⟨trivial, nofun⟩, trivial⟩
    | other => exact ⟨⟨trivial, nofun⟩, trivial⟩
  cases h with
  | mild hm => exact ⟨fun x hx => (hmild hm x hx).1, fun _ x hx => (hmild hm x hx).2⟩
  | @spawned _ p _ one hm =>
      have hwindow := hfree (by omega)
      simp only [List.forall_mem_cons]
      exact ⟨⟨⟨hwindow p, fun b hb => (Option.some.inj hb).symm⟩, fun x hx => (hmild hm x hx).1⟩,
        fun _ => ⟨trivial, fun x hx => (hmild hm x hx).2⟩⟩
  | missed one =>
      have hwindow := hfree (by omega)
      simp only [List.forall_mem_cons, List.not_mem_nil, false_implies, implies_true, and_true]
      exact ⟨⟨hwindow, nofun⟩, fun hr => absurd (Or.inl rfl) hr⟩
  | @pair _ _ a b _ hm =>
      have hwindow := hfree (Nat.succ_ne_zero 1)
      simp only [List.forall_mem_cons]
      exact ⟨⟨⟨hwindow a, fun b hb => (Option.some.inj hb).symm⟩,
          ⟨hwindow b, fun b hb => (Option.some.inj hb).symm⟩, fun x hx => (hmild hm x hx).1⟩,
        fun _ => ⟨trivial, trivial, fun x hx => (hmild hm x hx).2⟩⟩
  | pairMissed =>
      have hwindow := hfree (Nat.succ_ne_zero 1)
      simp only [List.forall_mem_cons, List.not_mem_nil, false_implies, implies_true, and_true]
      exact ⟨⟨hwindow, nofun⟩, fun hr => absurd (Or.inr rfl) hr⟩
  | @pairUndone _ _ a =>
      have hwindow := hfree (Nat.succ_ne_zero 1)
      simp only [List.forall_mem_cons, List.not_mem_nil, false_implies, implies_true, and_true]
      exact ⟨⟨⟨hwindow a, fun b hb => (Option.some.inj hb).symm⟩, ⟨hwindow, nofun⟩, trivial, nofun⟩,
        fun hr => absurd (Or.inr rfl) hr⟩
  | waiting _ _ _ =>
      simp only [List.forall_mem_cons, List.not_mem_nil, false_implies, implies_true, and_true]
      exact ⟨⟨trivial, nofun⟩, fun _ => trivial⟩
  | reaped _ _ _ =>
      simp only [List.forall_mem_cons, List.not_mem_nil, false_implies, implies_true, and_true]
      exact ⟨⟨⟨trivial, nofun⟩, trivial, nofun⟩, fun _ => ⟨trivial, trivial⟩⟩

section Events

variable {base : Finset Nat} {total : Nat} {k k' : Kernel}

/-- The frames nobody has grow only with creations that fail. -/
theorem Regions.step {label : Event × Reply} (h : Regions base total k) (hl : Linkage k)
    (hstep : KernelStep k label k') (hfree : label.1.FreeWindow k.vm) :
    ∃ base', Outcome base base' total (· = label.1.base) k k'
      ∧ (¬refuses label → base' = base) := by
  obtain ⟨effects, heffects, hshape⟩ := hl.performs hstep
  obtain ⟨hbases, hsucceeds⟩ := hshape.bases hfree
  obtain ⟨base', hout, hsame⟩ := h.effects hl heffects fun x hx => (hbases x hx).1
  refine ⟨base', hout.mono ?_, fun hr => hsame (hsucceeds hr)⟩
  rintro b ⟨x, hx, hb⟩
  exact (hbases x hx).2 b hb

/-- Before the first process. -/
theorem regions_processInit {vm : Vm} (hok : PmmOk vm.pmm) (hlow : LowUsed vm.pmm)
    (hkernel : vm.kernelDirectory = some .kernel) :
    Regions (usedSet vm.pmm) vm.pmm.totalFrames (processInit vm) := by
  have hnotlive : ∀ p, ¬(processInit vm).Live p := fun p hp => by
    obtain ⟨hne, hused⟩ := hp
    simp [processInit, hne, Process.zero] at hused
  have hempty : (processInit vm).framesOf = fun _ => ∅ := funext fun p => if_neg (hnotlive p)
  refine ⟨hok, hkernel, rfl, hlow, ?_, fun p hp => absurd hp (hnotlive p)⟩
  rw [hempty]
  refine ⟨?_, fun _ => Finset.disjoint_empty_right _, fun _ _ _ => Finset.disjoint_empty_left _⟩
  show usedSet vm.pmm = _
  ext f
  simp

end Events

end Kfs
