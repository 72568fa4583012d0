import Kfs.ProcessContext
import Kfs.ProcessSockets
import Kfs.SchedulerContext
import Kfs.ShellCalls

/-!
# The code of a process has its own memory

A process that has the processor has its own directory loaded, so what its
code writes to its data and bss lands in its own frames: nothing faults, and
the other processes stay undisturbed (`Ran`). The lemmas below say what each
of the three demos does up to its next `process_yield`.
-/

namespace Kfs

/-- Every process has a space at its default base. -/
structure Spaced (k : Kernel) : Prop where
  regions : ∃ base total, Regions base total k
  vacant : k.vm.directories .kernel 8 &&& pagePresent = 0
  defaults : ∀ q, k.Live q → AtDefault k q

section Spaced

variable {k k' : Kernel} {p q : Slot} {base base' : Finset Nat} {total : Nat}

theorem Spaced.outcome {B : Nat → Prop} (h : Spaced k) (hout : Outcome base base' total B k k')
    (hB : ∀ b, B b → b = 0) : Spaced k' := by
  refine ⟨⟨base', total, hout.regions⟩, hout.spares.kernel ▸ h.vacant, fun q hq => ?_⟩
  rcases hout.each q hq with hkeeps | ⟨b, hb, hfresh⟩
  · exact (h.defaults q hkeeps.live).keeps hkeeps hout.spares.kernel
  · obtain rfl := hB b hb
    exact hfresh.atDefault

theorem Spaced.tame (h : Spaced k) (ht : Tame k k') : Spaced k' := by
  obtain ⟨base, total, hregions⟩ := h.regions
  exact h.outcome (hregions.tame ht fun _ => False) fun _ hfalse => hfalse.elim

theorem Spaced.exec {e : Event} {r : Reply} (h : Spaced k) (hl : Linkage k) (hshell : e.byShell)
    (hexec : e.exec k = .ok (r, k')) : Spaced k' := by
  obtain ⟨base, total, hregions⟩ := h.regions
  have hstep : KernelStep k (e, r) k' := by
    refine ⟨fun hschedule => ?_, hexec⟩
    obtain rfl : e = .schedule := hschedule
    cases hshell
  have hbase : e.base = 0 := by
    cases e <;> first | rfl | cases hshell
  have hfree : e.FreeWindow k.vm := fun _ p => by
    rw [hbase]
    exact freeWindow_default h.vacant p
  obtain ⟨base', hout, -⟩ := hregions.step hl hstep hfree
  exact h.outcome hout fun b hb => hb.trans hbase

theorem Spaced.isolated (h : Spaced k) : Isolated k := by
  obtain ⟨base, total, hregions⟩ := h.regions
  exact (hregions.spaceInv h.vacant h.defaults).isolated

end Spaced

/-! ## Words in the own pages -/

/-- The word at the start of page `j` of process `p` is `value`. -/
def Kernel.storeOwn (k : Kernel) (p : Slot) (j : Fin 4) (value : Nat) : Kernel :=
  { k with vm := { k.vm with
    mem := store32 k.vm.mem ((k.processTable p).memory.page j.castSucc) value } }

/-- The word at the start of page `j` of process `p`. -/
def Kernel.ownWord (k : Kernel) (p : Slot) (j : Fin 4) : Nat :=
  load32 k.vm.mem ((k.processTable p).memory.page j.castSucc)

section Store

variable {k : Kernel} {p q : Slot} {j : Fin 4} {value : Nat}

theorem pagingIsMapped_of_physical {vm : Vm} {virt : Nat} (h : pagingGetPhysical vm virt ≠ 0) :
    pagingIsMapped vm virt = true := by
  unfold pagingGetPhysical pagingGetPhysicalInDirectory at h
  unfold pagingIsMapped
  split at h
  · exact absurd rfl h
  · next d hd =>
      split at h
      · exact absurd rfl h
      · next hdir =>
          dsimp only at h
          split at h
          · exact absurd rfl h
          · next hentry =>
              simp [hdir, hentry]

/-- A live process has its pages in frames of its own. -/
theorem Spaced.page (h : Spaced k) (hp : k.Live p) (j : Fin 5) :
    ∃ f, f ≠ 0 ∧ f ∈ (k.processTable p).memory.frames
      ∧ (k.processTable p).memory.page j = f * 4096 := by
  obtain ⟨base, total, hregions⟩ := h.regions
  obtain ⟨b, w, start, table, frames, hspace⟩ := hregions.spaces p hp
  have hframes := hspace.frames_eq.1
  have hsmall := hspace.small
  obtain ⟨f1, f2, f3, f4, rfl, h1, h2, h3, h4, h5⟩ := hspace.pages
  rw [hframes]
  have hmem : ∀ f ∈ [table, f1, f2, f3, f4], f ≠ 0 := fun f hf => (hsmall f hf).1
  simp only [List.mem_cons, List.not_mem_nil, or_false, forall_eq_or_imp, forall_eq] at hmem
  obtain ⟨ht, hf1, hf2, hf3, hf4⟩ := hmem
  match j with
  | 0 => exact ⟨f1, hf1, by simp, h1⟩
  | 1 => exact ⟨f2, hf2, by simp, h2⟩
  | 2 => exact ⟨f3, hf3, by simp, h3⟩
  | 3 => exact ⟨f4, hf4, by simp, h4⟩
  | 4 => exact ⟨table, ht, by simp, h5⟩

theorem Spaced.page_inj (h : Spaced k) (hp : k.Live p) {i j : Fin 5}
    (heq : (k.processTable p).memory.page i = (k.processTable p).memory.page j) : i = j :=
  (h.isolated.frames p p hp hp i j (by rw [heq])).2

/-- Writing through the loaded directory. -/
theorem Spaced.storeWord (h : Spaced k) (hp : k.Live p)
    (hloaded : k.vm.currentDirectory = some (.process p)) (j : Fin 4) (value : Nat) :
    k.vm.storeWord ((k.processTable p).memory.start j) value
      = .ok (k.storeOwn p j value).vm := by
  obtain ⟨f, hne, -, hpage⟩ := h.page hp j.castSucc
  have hphysical : pagingGetPhysical k.vm ((k.processTable p).memory.start j)
      = (k.processTable p).memory.page j.castSucc := by
    have hown := h.isolated.own p hp j 0 (by omega)
    rw [Nat.add_zero, Nat.add_zero, ← hloaded] at hown
    exact hown
  have hmapped : pagingIsMapped k.vm ((k.processTable p).memory.start j) = true :=
    pagingIsMapped_of_physical (by omega)
  unfold Vm.storeWord
  rw [if_pos hmapped, hphysical]
  rfl

theorem storeOwn_outside (k : Kernel) (p : Slot) (j : Fin 4) (value : Nat) {x : Nat}
    (hx : x < (k.processTable p).memory.page j.castSucc
      ∨ (k.processTable p).memory.page j.castSucc + 4 ≤ x) :
    (k.storeOwn p j value).vm.mem x = k.vm.mem x := store32_outside hx

theorem ownPage_of_start {m : ProcessMemory} {j : Fin 4} {x : Nat}
    (hlo : m.page j.castSucc ≤ x) (hhi : x < m.page j.castSucc + 4) : OwnPage m x := by
  have hlt : x < m.page j.castSucc + 4096 := by omega
  match j with
  | 0 => exact Or.inl (Or.inl ⟨hlo, hlt⟩)
  | 1 => exact Or.inl (Or.inr (Or.inl ⟨hlo, hlt⟩))
  | 2 => exact Or.inl (Or.inr (Or.inr ⟨hlo, hlt⟩))
  | 3 => exact Or.inr ⟨hlo, hlt⟩

theorem Spaced.stored (h : Spaced k) (hp : k.Live p) (j : Fin 4) (value : Nat) :
    Spaced (k.storeOwn p j value) := by
  obtain ⟨base, total, hregions⟩ := h.regions
  have hmem : ∀ x, (∀ q, k.Live q → ¬OwnPage (k.processTable q).memory x) →
      (k.storeOwn p j value).vm.mem x = k.vm.mem x := fun x hx => by
    refine storeOwn_outside k p j value ?_
    by_contra hin
    exact hx p hp (ownPage_of_start (j := j) (by omega) (by omega))
  have hframe : ∀ q, ((k.storeOwn p j value).processTable q).frame
      = (k.processTable q).frame := fun _ => rfl
  exact h.outcome (hregions.written hframe rfl rfl rfl hmem fun _ => False)
    fun _ hfalse => hfalse.elim

/-- What is written to an own page nobody else sees. -/
theorem Spaced.stored_undisturbed (h : Spaced k) (hp : k.Live p) (hq : k.Live q) (hqp : q ≠ p)
    (j : Fin 4) (value : Nat) : Undisturbed k (k.storeOwn p j value) q := by
  obtain ⟨base, total, hregions⟩ := h.regions
  obtain ⟨f, -, hf, hpage⟩ := h.page hp j.castSucc
  refine ⟨rfl, .refl _, fun x hx => storeOwn_outside k p j value ?_⟩
  by_contra hin
  have hxf : x / 4096 = f := by omega
  exact Finset.disjoint_left.mp (hregions.apart hq hp hqp) hx (hxf ▸ hf)

theorem ownWord_stored (hvalue : value < 4294967296) :
    (k.storeOwn p j value).ownWord p j = value := load32_store32 hvalue

theorem Spaced.ownWord_stored_ne (h : Spaced k) (hp : k.Live p) {i : Fin 4} (hij : i ≠ j) :
    (k.storeOwn p j value).ownWord p i = k.ownWord p i := by
  obtain ⟨f, -, -, hf⟩ := h.page hp i.castSucc
  obtain ⟨g, -, -, hg⟩ := h.page hp j.castSucc
  have hfg : f ≠ g := by
    rintro rfl
    have heq := h.page_inj hp (hf.trans hg.symm)
    exact hij (Fin.castSucc_injective 4 heq)
  unfold Kernel.ownWord
  rw [show (k.storeOwn p j value).processTable = k.processTable from rfl]
  exact load32_store32_apart (by omega)

theorem page_layout (j : Fin 4) (m : ProcessMemory) :
    m.layout.page j.castSucc = m.page j.castSucc := by
  match j with | 0 | 1 | 2 | 3 => rfl

/-- An undisturbed process has the same words. -/
theorem Undisturbed.ownWord {k' : Kernel} (hkept : Undisturbed k k' q) (h : Spaced k)
    (hq : k.Live q) (j : Fin 4) : k'.ownWord q j = k.ownWord q j := by
  obtain ⟨f, -, hf, hpage⟩ := h.page hq j.castSucc
  have hpages := layout_field (fun m => m.page j.castSucc) (page_layout j) hkept.layout
  unfold Kernel.ownWord
  rw [hpages]
  exact hkept.word hf hpage

end Store

/-! ## The process that has the processor -/

theorem Housed.withVm {k : Kernel} (h : Housed k) (vm : Vm) : Housed { k with vm := vm } where
  links := h.links.withVm vm
  ground := ⟨h.ground.kernel, h.ground.used, h.ground.root, h.ground.blank⟩
  home := h.home
  idle := h.idle
  spaces := h.spaces
  parents := h.parents

/-- Nothing is created and nothing reaped. -/
structure SamePids (k k' : Kernel) : Prop where
  nextPid : k'.nextPid = k.nextPid
  used : ∀ q, (k'.processTable q).used = (k.processTable q).used
  pid : ∀ q, (k'.processTable q).pid = (k.processTable q).pid

theorem SamePids.refl (k : Kernel) : SamePids k k := ⟨rfl, fun _ => rfl, fun _ => rfl⟩

theorem SamePids.trans {k k' k'' : Kernel} (h : SamePids k k') (h' : SamePids k' k'') :
    SamePids k k'' :=
  ⟨h'.nextPid.trans h.nextPid, fun q => (h'.used q).trans (h.used q),
    fun q => (h'.pid q).trans (h.pid q)⟩

theorem Tame.samePids {k k' : Kernel} (h : Tame k k') : SamePids k k' :=
  ⟨h.nextPid, h.used, fun q => frame_pid (h.frame q)⟩

structure Running (k : Kernel) (p : Slot) : Prop where
  housed : Housed k
  spaced : Spaced k
  context : ProcessContext k p

/-- A stretch of the code of process `p`. -/
structure Ran (k k' : Kernel) (p : Slot) : Prop where
  running : Running k' p
  others : ∀ q, q ≠ p → k.Live q → Undisturbed k k' q
  pids : SamePids k k'

section Running

variable {k k' k'' : Kernel} {p : Slot}

theorem Running.live (h : Running k p) : k.Live p := ⟨h.context.user, h.context.used⟩

theorem Running.loaded (h : Running k p) : k.vm.currentDirectory = some (.process p) :=
  h.context.directory.trans (h.housed.spaces p h.context.user h.context.used)

theorem Running.notKernel (h : Running k p) : some p ≠ k.kernelProcess := by
  rw [h.housed.ground.kernel]
  exact fun heq => h.context.user (Option.some.inj heq)

theorem Ran.live (h : Ran k k' p) (q : Slot) : k'.Live q ↔ k.Live q := by
  unfold Kernel.Live
  rw [h.pids.used q]

theorem Ran.trans (h : Ran k k' p) (h' : Ran k' k'' p) : Ran k k'' p where
  running := h'.running
  others q hqp hq := (h.others q hqp hq).trans (h'.others q hqp ((h.live q).mpr hq))
  pids := h.pids.trans h'.pids

theorem Running.refl (h : Running k p) : Ran k k p :=
  ⟨h, fun q _ _ => .refl k q, .refl k⟩

/-- Writing to an own page. -/
theorem Running.store (h : Running k p) (j : Fin 4) (value : Nat) :
    k.vm.storeWord ((k.processTable p).memory.start j) value = .ok (k.storeOwn p j value).vm
      ∧ Ran k (k.storeOwn p j value) p := by
  refine ⟨h.spaced.storeWord h.live h.loaded j value, ⟨h.housed.withVm _,
    h.spaced.stored h.live j value, ?_⟩, ?_, ⟨rfl, fun _ => rfl, fun _ => rfl⟩⟩
  · exact ⟨h.context.current, h.context.directory, h.context.others, h.context.used,
      h.context.user⟩
  · exact fun q hqp hq => h.spaced.stored_undisturbed h.live hq hqp j value

/-- Calls that create and reap nothing. -/
theorem Running.mild (h : Running k p) (hmild : MildRun k k') (hsame : SameContext k k')
    (hothers : ∀ q, q ≠ p → Undisturbed k k' q) : Ran k k' p := by
  have hh := h.housed.mild hmild
  refine ⟨⟨hh, h.spaced.tame hmild.tame, h.context.same h.housed hh hsame ?_⟩,
    fun q hqp _ => hothers q hqp, hmild.tame.samePids⟩
  exact (hmild.tame.used p).trans h.context.used

/-- Assigning to the own record. -/
theorem Running.assign (h : Running k p) {f : Process → Process}
    (hvitals : (f (k.processTable p)).vitals = (k.processTable p).vitals)
    (hstatus : (f (k.processTable p)).status = (k.processTable p).status) :
    Ran k (k.modify p f) p :=
  h.mild (.quiet k p hvitals) (.modify k p fun hrun => hstatus.symm.trans hrun)
    fun _ hqp => .modify_ne k hqp f

/-- `process_exit` of the process that runs. -/
theorem Running.exit (h : Running k p) (exitCode : Int) :
    Ran k (processExit k (some p) exitCode) p :=
  h.mild (processExit_mildRun k _ _) (processExit_sameContext k _ _)
    fun q hqp => processExit_undisturbed k p q fun heq => absurd heq hqp

end Running

/-! ## The end of a process -/

/-- The process ended with this exit code, and its program is as it was. -/
structure Exited (k k' : Kernel) (p : Slot) (exitCode : Int) : Prop where
  status : (k'.processTable p).status = .zombie
  exitCode : (k'.processTable p).exitCode = exitCode
  program : (k'.processTable p).program = (k.processTable p).program
  mem : k'.vm.mem = k.vm.mem

section Exit

variable {k k' : Kernel} {p : Slot}

theorem Exited.ownWord {exitCode : Int} (h : Exited k k' p exitCode) (j : Fin 4) :
    k'.ownWord p j = k.ownWord p j := by
  have hlayout := program_field h.program (fun r => r.memory.layout) fun _ => rfl
  have hpage := layout_field (fun m => m.page j.castSucc) (page_layout j) hlayout
  unfold Kernel.ownWord
  rw [h.mem, hpage]

theorem processExit_exited {exitCode : Int} (hkernel : some p ≠ k.kernelProcess)
    (halive : (k.processTable p).status ≠ .zombie) :
    Exited k (processExit k (some p) exitCode) p exitCode := by
  rcases processExit_cases k p exitCode with ⟨h, -⟩ | ⟨-, -, ⟨h, -⟩ | ⟨s, hsp, -, -, h⟩⟩
  · exact absurd h (not_or.mpr ⟨hkernel, halive⟩)
  · rw [h]
    exact ⟨by rw [modify_self], by rw [modify_self], by rw [modify_self]; rfl, rfl⟩
  · rw [h]
    have hps := hsp.symm
    exact ⟨by rw [modify_of_ne _ _ _ hps, modify_self], by rw [modify_of_ne _ _ _ hps, modify_self],
      by rw [modify_of_ne _ _ _ hps, modify_self]; rfl, rfl⟩

/-- The second `process_exit` of a process that ended by itself does
nothing. -/
theorem bootstrapExit_zombie (h : (k.processTable p).status = .zombie) :
    bootstrapExit k p = (k, .spinning) := by
  unfold bootstrapExit processExit
  dsimp only
  rw [if_pos (Or.inr h)]

theorem Running.exits (h : Running k p) (halive : (k.processTable p).status ≠ .zombie)
    (exitCode : Int) :
    bootstrapExit (processExit k (some p) exitCode) p
        = (processExit k (some p) exitCode, .spinning)
      ∧ Ran k (processExit k (some p) exitCode) p
      ∧ Exited k (processExit k (some p) exitCode) p exitCode := by
  have hexited : Exited k (processExit k (some p) exitCode) p exitCode :=
    processExit_exited h.notKernel halive
  exact ⟨bootstrapExit_zombie hexited.status, h.exit exitCode, hexited⟩

end Exit

/-! ## The three demos -/

section Demos

variable {k : Kernel} {p : Slot}

/-- A round of the counter. -/
structure CounterRound (k k' : Kernel) (p : Slot) (counter iterations : Nat) : Prop where
  ran : Ran k k' p
  record : k'.processTable p
    = { k.processTable p with runtimeValue := counter, runtimeState := iterations }
  data : k'.ownWord p 0 = counter
  bss : k'.ownWord p 1 = iterations
  sockets : SameSockets k k'

theorem demoCounterLoop_round (h : Running k p) (iterations : Nat) {counter limit : Nat}
    (hlt : counter < limit) (hlimit : limit < 4294967296) :
    ∃ k', demoCounterLoop k p counter iterations limit
        = .ok (k', .counting (counter + 1) (add32 iterations 1) limit)
      ∧ CounterRound k k' p (counter + 1) (add32 iterations 1) := by
  have hcounter : add32 counter 1 = counter + 1 := add32_of_lt (by omega)
  obtain ⟨hdata, hran⟩ := h.store 0 (counter + 1)
  obtain ⟨hbss, hran'⟩ := hran.running.store 1 (add32 iterations 1)
  have hran'' := hran'.running.assign (f := fun r =>
    { r with runtimeValue := counter + 1, runtimeState := add32 iterations 1 }) rfl rfl
  refine ⟨_, ?_, (hran.trans hran').trans hran'', by rw [modify_self]; rfl, ?_, ?_, ?_⟩
  · unfold demoCounterLoop
    rw [if_pos hlt, hcounter]
    exact bind_eq_ok.mpr ⟨_, hdata, bind_eq_ok.mpr ⟨_, hbss, rfl⟩⟩
  · have hother : ((k.storeOwn p 0 (counter + 1)).storeOwn p 1 (add32 iterations 1)).ownWord p 0
        = (k.storeOwn p 0 (counter + 1)).ownWord p 0 :=
      hran.running.spaced.ownWord_stored_ne hran.running.live (by decide)
    have hkept := hother.trans (ownWord_stored (by omega))
    unfold Kernel.ownWord at hkept ⊢
    rw [modify_self]
    exact hkept
  · have hstored := ownWord_stored (k := k.storeOwn p 0 (counter + 1)) (p := p) (j := 1)
      (add32_lt iterations 1)
    unfold Kernel.ownWord at hstored ⊢
    rw [modify_self]
    exact hstored
  · exact SameSockets.modify ((k.storeOwn p 0 (counter + 1)).storeOwn p 1 (add32 iterations 1)) rfl

theorem demoCounterLoop_exit (h : Running k p) (halive : (k.processTable p).status ≠ .zombie)
    (iterations : Nat) {counter limit : Nat} (hle : limit ≤ counter) :
    ∃ k', demoCounterLoop k p counter iterations limit = .ok (k', .spinning)
      ∧ Ran k k' p ∧ Exited k k' p (toInt32 counter) ∧ SameSockets k k' := by
  obtain ⟨heq, hran, hexited⟩ := h.exits halive (toInt32 counter)
  refine ⟨_, ?_, hran, hexited, processExit_sockets k _ _⟩
  unfold demoCounterLoop
  rw [if_neg (by omega), heq]
  rfl

/-- The receiver takes a value from its socket and ends. -/
structure Received (k k' : Kernel) (p : Slot) (value : Nat) : Prop where
  ran : Ran k k' p
  pending : ¬(k.processTable p).processSocket.Empty
  front : (k.processTable p).processSocket.front = value
  status : (k'.processTable p).status = .zombie
  exitCode : (k'.processTable p).exitCode = toInt32 (value &&& 0xFFFF)
  program : (k'.processTable p).program
    = { (k.processTable p).program with lastSocketValue := value }
  data : k'.ownWord p 0 = value
  socket : (k'.processTable p).processSocket = (k.processTable p).processSocket.drop
  sockets : ∀ t, t ≠ p → (k'.processTable t).processSocket = (k.processTable t).processSocket

theorem demoSocketReceiverLoop_waits (h : (k.processTable p).processSocket.Empty) :
    demoSocketReceiverLoop k p = .ok (k, .receiving) := by
  unfold demoSocketReceiverLoop socketRecv
  dsimp only
  rw [if_pos h]

theorem demoSocketReceiverLoop_receives (h : Running k p)
    (halive : (k.processTable p).status ≠ .zombie) {value : Nat}
    (hpending : ¬(k.processTable p).processSocket.Empty)
    (hfront : (k.processTable p).processSocket.front = value) (hvalue : value < 4294967296) :
    ∃ k', demoSocketReceiverLoop k p = .ok (k', .spinning) ∧ Received k k' p value := by
  have htaken := h.assign (f := fun r => { r with
    processSocket := r.processSocket.drop, lastSocketValue := value }) rfl rfl
  obtain ⟨hdata, hstored⟩ := htaken.running.store 0 value
  have hnoted := hstored.running.assign (f := fun r => { r with lastSocketValue := value }) rfl rfl
  have hrecord : (((k.modify p fun r => { r with
      processSocket := r.processSocket.drop, lastSocketValue := value }).storeOwn p 0
        value).modify p fun r => { r with lastSocketValue := value }).processTable p
      = { k.processTable p with
        processSocket := (k.processTable p).processSocket.drop, lastSocketValue := value } := by
    rw [modify_self]
    unfold Kernel.storeOwn
    dsimp only
    rw [modify_self]
  have hword := ownWord_stored (k := k.modify p fun r => { r with
    processSocket := r.processSocket.drop, lastSocketValue := value }) (p := p) (j := 0) hvalue
  obtain ⟨hends, hexit, hexited⟩ := hnoted.running.exits (by rw [hrecord]; exact halive)
    (toInt32 (value &&& 0xFFFF))
  refine ⟨_, ?_, ((htaken.trans hstored).trans hnoted).trans hexit, hpending, hfront,
    hexited.status, hexited.exitCode, ?_, ?_, ?_, fun t ht => ?_⟩
  · unfold demoSocketReceiverLoop socketRecv
    dsimp only
    rw [if_neg hpending, hfront]
    exact bind_eq_ok.mpr ⟨_, hdata, congrArg Except.ok hends⟩
  · rw [hexited.program, hrecord]
    rfl
  · rw [hexited.ownWord]
    unfold Kernel.ownWord at hword ⊢
    rw [modify_self]
    exact hword
  · rw [processExit_sockets, hrecord]
  · rw [processExit_sockets, modify_of_ne _ _ _ ht]
    unfold Kernel.storeOwn
    dsimp only
    rw [modify_of_ne _ _ _ ht]

/-- The value of a sender gets into no socket but that of the process it is
for. -/
def SendsTo (k k' : Kernel) (p t : Slot) : Prop :=
  (k.processTable t).used = true ∧ (k.processTable t).pid = (k.processTable p).runtimeArg0
    ∧ ¬(k.processTable t).processSocket.Full
    ∧ (k'.processTable t).processSocket
      = (k.processTable t).processSocket.put (k.processTable p).runtimeArg1

theorem socketSend_ran {k' : Kernel} {pid value : Nat} {ok : Bool} (h : Running k p)
    (hsend : socketSend k (some p) pid value = .ok (ok, k')) :
    Ran k k' p ∧ Undisturbed k k' p
      ∧ (k'.processTable p).status = (k.processTable p).status := by
  have hexec : Event.exec k (.socketSend (some p) pid value) = .ok (.sent ok, k') :=
    map_reply_eq_ok.mpr ⟨ok, rfl, hsend⟩
  have hsame := (exec_moves h.housed.ground.kernel hexec (fun heq => by cases heq)
    fun heq => by cases heq).sameContext h.housed.ground.kernel
  refine ⟨h.mild (socketSend_mildRun hsend) hsame fun q _ => socketSend_undisturbed hsend,
    socketSend_undisturbed hsend, ?_⟩
  obtain ⟨target, -, hsend⟩ := bind_eq_ok.mp hsend
  cases target with
  | none =>
      obtain ⟨-, rfl⟩ := Prod.mk.inj (Except.ok.inj hsend)
      rfl
  | some t =>
      dsimp only at hsend
      split at hsend
      · obtain ⟨-, rfl⟩ := Prod.mk.inj (Except.ok.inj hsend)
        rfl
      · obtain rfl : (queueProcessSignal _ (some t) processSignalSocket value).2 = k' :=
          congrArg Prod.snd (Except.ok.inj hsend)
        unfold queueProcessSignal
        dsimp only
        split
        · dsimp only
          rw [modify_keeps Process.status rfl]
        · dsimp only
          rw [modify_keeps Process.status rfl, modify_keeps Process.status rfl]

theorem socketSend_sendsTo {k' : Kernel} {ok : Bool}
    (hsend : socketSend k (some p) (k.processTable p).runtimeArg0 (k.processTable p).runtimeArg1
      = .ok (ok, k')) (t : Slot) :
    (k'.processTable t).processSocket = (k.processTable t).processSocket ∨ SendsTo k k' p t := by
  by_cases hget : processGetByPid k (k.processTable p).runtimeArg0 = .ok (some t)
  · rcases socketSend_cases hsend hget with ⟨-, -, rfl⟩ | ⟨hroom, -, hput⟩
    · exact Or.inl rfl
    · obtain ⟨hused, hpid⟩ := processGetByPid_some hget
      exact Or.inr ⟨hused, hpid, hroom, hput⟩
  · exact Or.inl (socketSend_other hsend hget)

theorem socketSend_target {k' : Kernel} {sender : Option Slot} {pid value : Nat}
    (h : socketSend k sender pid value = .ok (true, k')) :
    ∃ t, processGetByPid k pid = .ok (some t) := by
  obtain ⟨target, hget, h⟩ := bind_eq_ok.mp h
  cases target with
  | none => cases (Prod.mk.inj (Except.ok.inj h)).1
  | some t => exact ⟨t, hget⟩

/-- A send that was refused; the value may be in the socket all the same. -/
structure SendRound (k k' : Kernel) (p : Slot) : Prop where
  ran : Ran k k' p
  kept : Undisturbed k k' p
  status : (k'.processTable p).status = (k.processTable p).status
  sockets : ∀ t, (k'.processTable t).processSocket = (k.processTable t).processSocket
    ∨ SendsTo k k' p t

/-- The sender delivers its value and ends. -/
structure Sent (k k' : Kernel) (p : Slot) : Prop where
  ran : Ran k k' p
  status : (k'.processTable p).status = .zombie
  exitCode : (k'.processTable p).exitCode = 0
  program : (k'.processTable p).program = { (k.processTable p).program with runtimeState := 1 }
  sockets : ∀ t, (k'.processTable t).processSocket = (k.processTable t).processSocket
    ∨ SendsTo k k' p t
  delivered : ∃ t, SendsTo k k' p t

theorem demoSocketSenderLoop_ran (h : Running k p) (halive : (k.processTable p).status ≠ .zombie) :
    ∃ k', (demoSocketSenderLoop k p = .ok (k', .sending) ∧ SendRound k k' p)
      ∨ (demoSocketSenderLoop k p = .ok (k', .spinning) ∧ Sent k k' p) := by
  obtain ⟨l, kids, hl⟩ := h.housed.links
  obtain ⟨ok, k1, hsend⟩ : ∃ ok k1, socketSend k (some p) (k.processTable p).runtimeArg0
      (k.processTable p).runtimeArg1 = .ok (ok, k1) := by
    unfold socketSend
    rw [hl.getByPid]
    cases l.find? _ with
    | none => exact ⟨_, _, rfl⟩
    | some t =>
        simp only [bind, Except.bind]
        split
        · exact ⟨_, _, rfl⟩
        · exact ⟨_, _, rfl⟩
  obtain ⟨hran, hkept, hstatus⟩ := socketSend_ran h hsend
  have hsockets := socketSend_sendsTo hsend
  unfold demoSocketSenderLoop
  dsimp only
  rw [hsend]
  cases ok with
  | false => exact ⟨k1, Or.inl ⟨rfl, hran, hkept, hstatus, hsockets⟩⟩
  | true =>
      have hnoted := hran.running.assign (f := fun r => { r with runtimeState := 1 }) rfl rfl
      obtain ⟨hends, hexit, hexited⟩ := hnoted.running.exits
        (by rw [modify_self]; exact fun hz => halive (hstatus.symm.trans hz)) 0
      have hsame : SameSockets k1 (processExit
          (k1.modify p fun r => { r with runtimeState := 1 }) (some p) 0) :=
        (SameSockets.modify k1 rfl).trans (processExit_sockets _ _ _)
      have hall : ∀ t, _ ∨ SendsTo k (processExit
          (k1.modify p fun r => { r with runtimeState := 1 }) (some p) 0) p t := fun t =>
        (hsockets t).imp (hsame t).trans fun ⟨hused, hpid, hroom, hput⟩ =>
          ⟨hused, hpid, hroom, (hsame t).trans hput⟩
      refine ⟨_, Or.inr ⟨congrArg Except.ok hends, (hran.trans hnoted).trans hexit,
        hexited.status, hexited.exitCode, ?_, hall, ?_⟩⟩
      · rw [hexited.program, modify_self]
        show { (k1.processTable p).program with runtimeState := 1 } = _
        rw [hkept.program]
      · obtain ⟨t, hget⟩ := socketSend_target hsend
        rcases socketSend_cases hsend hget with ⟨-, hfalse, -⟩ | ⟨hroom, -, hput⟩
        · cases hfalse
        · obtain ⟨hused, hpid⟩ := processGetByPid_some hget
          exact ⟨t, hused, hpid, hroom, (hsame t).trans hput⟩

end Demos

end Kfs
