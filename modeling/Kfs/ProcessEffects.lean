import Kfs.ProcessCore

/-!
# Effects

Every event is a short sequence of effects. Three effects change which
processes there are: `spawn` and `miss`, the two ways
`process_create_internal` ends, and `release`. All others assign to the
fields of existing processes or move the scheduler's pointers, and `Tame`
says what they leave alone: the frame of every record, that is everything
but its status, its exit code, what it waits for and the fields that only
carry data.

`exec_shape` is the one place where the events are taken apart. An invariant
of the process table is proved for the effects, and from there it holds along
every run.
-/

namespace Kfs

/-! ## Frames -/

/-- The record without the fields that only carry data. -/
def Process.vitals (r : Process) : Process :=
  { r with
    rights := 0
    signals := Process.zero.signals
    processSocket := Process.zero.processSocket
    signalHandler := none
    cpuTicks := 0
    runCount := 0
    switchCount := 0
    lastSignal := 0
    lastSignalValue := 0
    lastSocketValue := 0
    runtimeState := 0
    runtimeValue := 0
    runtimeArg0 := 0
    runtimeArg1 := 0
    memory := { r.memory with heapBreak := 0 } }

/-- The vitals without `status`, `exit_code` and `wait_target_pid`. -/
def Process.frame (r : Process) : Process :=
  { r.vitals with status := .ready, exitCode := 0, waitTargetPid := 0 }

/-- The part of the memory record that is fixed once it is mapped. -/
def ProcessMemory.layout (m : ProcessMemory) : ProcessMemory := { m with heapBreak := 0 }

theorem frame_of_vitals {r s : Process} (h : r.vitals = s.vitals) : r.frame = s.frame := by
  unfold Process.frame
  rw [h]

section FrameFields

variable {r s : Process} (h : r.frame = s.frame)

include h

theorem frame_field {α : Type} (g : Process → α) (hg : ∀ r : Process, g r.frame = g r) :
    g r = g s := by
  rw [← hg r, ← hg s, h]

theorem frame_used : r.used = s.used := frame_field h Process.used fun _ => rfl

theorem frame_pid : r.pid = s.pid := frame_field h Process.pid fun _ => rfl

theorem frame_parent : r.parent = s.parent := frame_field h Process.parent fun _ => rfl

theorem frame_children : r.children = s.children := frame_field h Process.children fun _ => rfl

theorem frame_nextSibling : r.nextSibling = s.nextSibling :=
  frame_field h Process.nextSibling fun _ => rfl

theorem frame_next : r.next = s.next := frame_field h Process.next fun _ => rfl

theorem frame_entry : r.entry = s.entry := frame_field h Process.entry fun _ => rfl

theorem frame_layout : r.memory.layout = s.memory.layout :=
  frame_field h (fun r => r.memory.layout) fun _ => rfl

end FrameFields

theorem vitals_field {r s : Process} (h : r.vitals = s.vitals) {α : Type} (g : Process → α)
    (hg : ∀ r : Process, g r.vitals = g r) : g r = g s := by
  rw [← hg r, ← hg s, h]

/-- `x` lies in one of the pages `fork_process` copies into. -/
def InPages (m : ProcessMemory) (x : Nat) : Prop :=
  (m.dataPage ≤ x ∧ x < m.dataPage + 4096) ∨ (m.bssPage ≤ x ∧ x < m.bssPage + 4096)
    ∨ (m.heapPage ≤ x ∧ x < m.heapPage + 4096)

/-- What every effect but `spawn`, `miss` and `release` leaves alone. -/
structure Tame (k k' : Kernel) : Prop where
  frame : ∀ q, (k'.processTable q).frame = (k.processTable q).frame
  head : k'.processHead = k.processHead
  kernel : k'.kernelProcess = k.kernelProcess
  nextPid : k'.nextPid = k.nextPid
  enabled : k'.schedulerEnabled = k.schedulerEnabled
  cursor : k'.schedulerCursor = k.schedulerCursor
    ∨ ∃ p, (k.processTable p).used = true ∧ k'.schedulerCursor = some p
  current : k'.currentProcess = k.currentProcess ∨ k'.currentProcess = k.kernelProcess
    ∨ ∃ p, (k.processTable p).used = true ∧ k'.currentProcess = some p
  pmm : k'.vm.pmm = k.vm.pmm
  directories : k'.vm.directories = k.vm.directories
  kernelDirectory : k'.vm.kernelDirectory = k.vm.kernelDirectory
  mem : ∀ x, (∀ q, q ≠ 0 → (k.processTable q).used = true → ¬InPages (k.processTable q).memory x) →
    k'.vm.mem x = k.vm.mem x

theorem Tame.refl (k : Kernel) : Tame k k :=
  ⟨fun _ => rfl, rfl, rfl, rfl, rfl, Or.inl rfl, Or.inl rfl, rfl, rfl, rfl, fun _ _ => rfl⟩

/-- An assignment to one record that keeps its frame. -/
theorem Tame.modify (k : Kernel) {p : Slot} {f : Process → Process}
    (hf : (f (k.processTable p)).frame = (k.processTable p).frame) : Tame k (k.modify p f) :=
  ⟨modify_keeps Process.frame hf, rfl, rfl, rfl, rfl, Or.inl rfl, Or.inl rfl, rfl, rfl, rfl,
    fun _ _ => rfl⟩

theorem Tame.used {k k' : Kernel} (h : Tame k k') (q : Slot) :
    (k'.processTable q).used = (k.processTable q).used := frame_used (h.frame q)

theorem inPages_congr {m m' : ProcessMemory} (h : m'.layout = m.layout) (x : Nat) :
    InPages m' x ↔ InPages m x := by
  have hd : m'.layout.dataPage = m.layout.dataPage := by rw [h]
  have hb : m'.layout.bssPage = m.layout.bssPage := by rw [h]
  have hh : m'.layout.heapPage = m.layout.heapPage := by rw [h]
  simp only [ProcessMemory.layout] at hd hb hh
  unfold InPages
  rw [hd, hb, hh]

theorem Tame.trans {k k' k'' : Kernel} (h : Tame k k') (h' : Tame k' k'') : Tame k k'' where
  frame q := (h'.frame q).trans (h.frame q)
  head := h'.head.trans h.head
  kernel := h'.kernel.trans h.kernel
  nextPid := h'.nextPid.trans h.nextPid
  enabled := h'.enabled.trans h.enabled
  cursor := by
    rcases h'.cursor with heq | ⟨p, hp, heq⟩
    · rw [heq]
      exact h.cursor
    · exact Or.inr ⟨p, (h.used p).symm.trans hp, heq⟩
  current := by
    rcases h'.current with heq | heq | ⟨p, hp, heq⟩
    · rw [heq]
      exact h.current
    · exact Or.inr (Or.inl (heq.trans h.kernel))
    · exact Or.inr (Or.inr ⟨p, (h.used p).symm.trans hp, heq⟩)
  pmm := h'.pmm.trans h.pmm
  directories := h'.directories.trans h.directories
  kernelDirectory := h'.kernelDirectory.trans h.kernelDirectory
  mem x hx := by
    refine (h'.mem x ?_).trans (h.mem x hx)
    intro q hq hused hin
    exact hx q hq ((h.used q).symm.trans hused)
      ((inPages_congr (frame_layout (h.frame q)) x).mp hin)

/-! ## The effects -/

inductive Effect where
  | spawn (process : Slot) (parent : Option Slot) (base : Nat)
  | miss (base : Nat)
  | release (child : Slot)
  | exit (process : Slot)
  | waitFor (parent : Slot) (pid : Nat)
  | other
  deriving DecidableEq

/-- The effects an event may have that neither creates, waits nor reaps. -/
def Effect.mild : Effect → Prop
  | .exit _ => True
  | .other => True
  | _ => False

/-- Only the scheduler's and the machine's pointers and counters move. -/
structure Retarget (k k' : Kernel) : Prop where
  table : k'.processTable = k.processTable
  head : k'.processHead = k.processHead
  kernel : k'.kernelProcess = k.kernelProcess
  nextPid : k'.nextPid = k.nextPid
  enabled : k'.schedulerEnabled = k.schedulerEnabled
  cursor : k'.schedulerCursor = k.schedulerCursor
    ∨ ∃ p, (k.processTable p).used = true ∧ k'.schedulerCursor = some p
  current : k'.currentProcess = k.currentProcess ∨ k'.currentProcess = k.kernelProcess
    ∨ ∃ p, (k.processTable p).used = true ∧ k'.currentProcess = some p
  vm : ∃ d, k'.vm = { k.vm with currentDirectory := d }

theorem Retarget.tame {k k' : Kernel} (h : Retarget k k') : Tame k k' := by
  obtain ⟨d, hvm⟩ := h.vm
  refine ⟨fun q => by rw [h.table], h.head, h.kernel, h.nextPid, h.enabled, h.cursor, h.current,
    ?_, ?_, ?_, fun x _ => ?_⟩ <;> rw [hvm]

inductive KernelEffect : Kernel → Effect → Kernel → Prop where
  | spawn {k k' : Kernel} {parent : Option Slot} {owner base size : Nat}
      {function : Option ExecFn} {p : Slot}
      (call : processCreateInternal k parent owner base function size = .ok (some p, k')) :
      KernelEffect k (.spawn p parent base) k'
  | miss {k k' : Kernel} {parent : Option Slot} {owner base size : Nat}
      {function : Option ExecFn}
      (call : processCreateInternal k parent owner base function size = .ok (none, k')) :
      KernelEffect k (.miss base) k'
  | release {k k' : Kernel} {c : Slot} (notKernel : some c ≠ k.kernelProcess)
      (used : (k.processTable c).used = true) (call : processRelease k c = .ok k') :
      KernelEffect k (.release c) k'
  | exit {k : Kernel} (p : Slot) (exitCode : Int) :
      KernelEffect k (.exit p) (processExit k (some p) exitCode)
  | waitFor {k : Kernel} {parent c : Slot} {pid : Nat} (used : (k.processTable c).used = true)
      (target : (k.processTable c).pid = pid) (alive : (k.processTable c).status ≠ .zombie)
      (kin : some parent = k.kernelProcess ∨ (k.processTable c).parent = some parent) :
      KernelEffect k (.waitFor parent pid) (waitFor k (some parent) pid)
  | stopWaiting {k : Kernel} (parent : Option Slot) : KernelEffect k .other (stopWaiting k parent)
  | run {k : Kernel} {p : Slot} (alive : (k.processTable p).status ≠ .zombie)
      (awake : (k.processTable p).status ≠ .waiting) :
      KernelEffect k .other (k.modify p fun r => { r with status := .run })
  | pause {k : Kernel} {p : Slot} (running : (k.processTable p).status = .run) :
      KernelEffect k .other (k.modify p fun r => { r with status := .ready })
  | quiet {k : Kernel} (p : Slot) {f : Process → Process}
      (keeps : (f (k.processTable p)).vitals = (k.processTable p).vitals) :
      KernelEffect k .other (k.modify p f)
  | retarget {k k' : Kernel} (moves : Retarget k k') : KernelEffect k .other k'
  | copy {k : Kernel} {child source : Slot} {vm : Vm} (child_ne : child ≠ 0)
      (used : (k.processTable child).used = true)
      (copied : vm
        = copyPages (k.processTable child).memory (k.processTable source).memory k.vm) :
      KernelEffect k .other { k with vm := vm }

/-- What `process_exit` does: nothing, or the process becomes a zombie and
its parent is woken or not. -/
theorem processExit_cases (k : Kernel) (p : Slot) (exitCode : Int) :
    ((some p = k.kernelProcess ∨ (k.processTable p).status = .zombie)
        ∧ processExit k (some p) exitCode = k)
      ∨ ((k.processTable p).status ≠ .zombie ∧ some p ≠ k.kernelProcess
        ∧ ((processExit k (some p) exitCode
              = k.modify p fun r => { r with exitCode := exitCode, status := .zombie })
            ∧ (∀ q, (k.processTable p).parent = some q → (k.processTable q).status = .waiting →
              (k.processTable q).waitTargetPid = (k.processTable p).pid → q = p)
          ∨ ∃ q, q ≠ p ∧ (k.processTable p).parent = some q
            ∧ (k.processTable q).status = .waiting
            ∧ processExit k (some p) exitCode
              = (k.modify p fun r => { r with exitCode := exitCode, status := .zombie }).modify q
                fun r => { r with status := .ready })) := by
  unfold processExit
  dsimp only
  split
  · exact Or.inl ⟨‹_›, rfl⟩
  · rename_i hcond
    obtain ⟨hkernel, halive⟩ := not_or.mp hcond
    refine Or.inr ⟨halive, hkernel, ?_⟩
    unfold wakeParent
    simp only [modify_self]
    cases hparent : (k.processTable p).parent with
    | none => exact Or.inl ⟨rfl, fun q hq => by cases hq⟩
    | some q =>
        dsimp only
        by_cases hqp : q = p
        · subst hqp
          left
          simp
        · rw [modify_of_ne _ _ _ hqp]
          split
          · rename_i hwait
            exact Or.inr ⟨q, hqp, rfl, hwait.1, rfl⟩
          · rename_i hwait
            refine Or.inl ⟨rfl, ?_⟩
            intro q' hq' hw ht
            obtain rfl := Option.some.inj hq'
            exact absurd ⟨hw, Or.inr ht⟩ hwait

theorem processExit_tame (k : Kernel) (p : Slot) (exitCode : Int) :
    Tame k (processExit k (some p) exitCode) := by
  rcases processExit_cases k p exitCode with ⟨-, h⟩ | ⟨-, -, ⟨h, -⟩ | ⟨q, -, -, -, h⟩⟩
  · rw [h]
    exact Tame.refl k
  · rw [h]
    exact Tame.modify k rfl
  · rw [h]
    exact (Tame.modify k rfl).trans (Tame.modify _ rfl)

theorem waitFor_tame (k : Kernel) (parent : Option Slot) (pid : Nat) :
    Tame k (waitFor k parent pid) := by
  unfold waitFor
  cases parent with
  | none => exact Tame.refl k
  | some p =>
      dsimp only
      split
      · exact Tame.modify k rfl
      · exact (Tame.modify k rfl).trans (Tame.modify _ rfl)

theorem stopWaiting_tame (k : Kernel) (parent : Option Slot) : Tame k (stopWaiting k parent) := by
  unfold stopWaiting
  cases parent with
  | none => exact Tame.refl k
  | some p =>
      dsimp only
      split
      · exact Tame.modify k rfl
      · exact Tame.refl k

section CopyPages

variable {child source : ProcessMemory} {vm : Vm}

theorem copyPages_pmm : (copyPages child source vm).pmm = vm.pmm := by
  simp only [copyPages]

theorem copyPages_directories : (copyPages child source vm).directories = vm.directories := by
  simp only [copyPages]

theorem copyPages_kernelDirectory :
    (copyPages child source vm).kernelDirectory = vm.kernelDirectory := by
  simp only [copyPages]

theorem copyPages_outside {x : Nat} (h : ¬InPages child x) :
    (copyPages child source vm).mem x = vm.mem x := by
  unfold InPages at h
  unfold copyPages
  dsimp only
  rw [memcpy_outside (by omega), memcpy_outside (by omega), memcpy_outside (by omega)]

end CopyPages

/-- Every effect but the three that change which processes there are. -/
theorem KernelEffect.tame {k k' : Kernel} {x : Effect} (h : KernelEffect k x k')
    (hx : x.mild ∨ ∃ parent pid, x = .waitFor parent pid) : Tame k k' := by
  cases h with
  | spawn _ => rcases hx with h | ⟨_, _, h⟩ <;> cases h
  | miss _ => rcases hx with h | ⟨_, _, h⟩ <;> cases h
  | release _ _ _ => rcases hx with h | ⟨_, _, h⟩ <;> cases h
  | exit p exitCode => exact processExit_tame k p exitCode
  | @waitFor parent _ pid _ _ _ _ => exact waitFor_tame k (some parent) pid
  | stopWaiting parent => exact stopWaiting_tame k parent
  | run _ _ => exact Tame.modify k rfl
  | pause _ => exact Tame.modify k rfl
  | quiet p keeps => exact Tame.modify k (frame_of_vitals keeps)
  | retarget moves => exact moves.tame
  | @copy child source vm hne hused copied =>
      exact ⟨fun _ => rfl, rfl, rfl, rfl, rfl, Or.inl rfl, Or.inl rfl,
        (congrArg Vm.pmm copied).trans copyPages_pmm,
        (congrArg Vm.directories copied).trans copyPages_directories,
        (congrArg Vm.kernelDirectory copied).trans copyPages_kernelDirectory,
        fun x hx => (congrFun (congrArg Vm.mem copied) x).trans
          (copyPages_outside (hx child hne hused))⟩

/-! ## The table after a creation or a release -/

section Tables

variable {k k' : Kernel}

theorem KernelEffect.spawn_table {p : Slot} {parent : Option Slot} {base : Nat}
    (h : KernelEffect k (.spawn p parent base) k') :
    p ≠ 0 ∧ (k.processTable p).used = false
      ∧ (∃ owner function memory, (k'.processTable p).core
        = { freshProcess k.nextPid owner function memory with parent := parent }.core)
      ∧ ∀ q, q ≠ p → (k'.processTable q).core = (k.processTable q).core := by
  cases h with
  | spawn call =>
      obtain ⟨hp, hunused, vm, memory, table, head, -, rfl, hnew, hcore⟩ := spawn_eq call
      exact ⟨hp, hunused, ⟨_, _, _, hnew⟩, hcore⟩

/-- A failed creation changes no process. -/
theorem KernelEffect.miss_table {base : Nat} (h : KernelEffect k (.miss base) k')
    (hk : k.kernelProcess = some 0) (q : Slot) : (k'.processTable q).core = (k.processTable q).core
      ∨ (k.processTable q).used = false ∧ k'.processTable q = Process.zero := by
  cases h with
  | miss call =>
      rcases miss_eq hk call with rfl | ⟨p, vm, table, head, -, hunused, -, rfl, hzero, hcore⟩
      · exact Or.inl rfl
      · by_cases hq : q = p
        · subst hq
          exact Or.inr ⟨hunused, hzero⟩
        · exact Or.inl (hcore q hq)

theorem KernelEffect.miss_used {base : Nat} (h : KernelEffect k (.miss base) k')
    (hk : k.kernelProcess = some 0) (q : Slot) :
    (k'.processTable q).used = (k.processTable q).used := by
  rcases h.miss_table hk q with hcore | ⟨hunused, hzero⟩
  · exact core_used hcore
  · rw [hunused, hzero]
    rfl

theorem KernelEffect.miss_core {base : Nat} (h : KernelEffect k (.miss base) k')
    (hk : k.kernelProcess = some 0) {q : Slot} (hq : (k.processTable q).used = true) :
    (k'.processTable q).core = (k.processTable q).core := by
  rcases h.miss_table hk q with hcore | ⟨hunused, -⟩
  · exact hcore
  · rw [hq] at hunused
    cases hunused

theorem KernelEffect.release_table {c : Slot} (h : KernelEffect k (.release c) k') :
    (k.processTable c).used = true ∧ k'.processTable c = Process.zero
      ∧ ∀ q, q ≠ c → (k'.processTable q).core = (k.processTable q).core := by
  cases h with
  | release hkernel hused call =>
      obtain ⟨table, head, rfl, hzero, hcore⟩ := processRelease_eq hkernel call
      exact ⟨hused, hzero, hcore⟩

/-- A process keeps its slot and its pid until it is released. -/
theorem KernelEffect.lives {x : Effect} (h : KernelEffect k x k') (hk : k.kernelProcess = some 0)
    {p : Slot} (hp : (k.processTable p).used = true) (hx : x ≠ .release p) :
    (k'.processTable p).used = true ∧ (k'.processTable p).pid = (k.processTable p).pid := by
  have hcore : (k'.processTable p).core = (k.processTable p).core →
      (k'.processTable p).used = true ∧ (k'.processTable p).pid = (k.processTable p).pid :=
    fun hcore => ⟨(core_used hcore).trans hp, core_pid hcore⟩
  have htame : Tame k k' →
      (k'.processTable p).used = true ∧ (k'.processTable p).pid = (k.processTable p).pid :=
    fun ht => ⟨(ht.used p).trans hp, frame_pid (ht.frame p)⟩
  cases x with
  | spawn q parent base =>
      obtain ⟨-, hunused, -, hother⟩ := h.spawn_table
      refine hcore (hother p ?_)
      rintro rfl
      rw [hp] at hunused
      cases hunused
  | miss base => exact hcore (h.miss_core hk hp)
  | release c =>
      obtain ⟨-, -, hother⟩ := h.release_table
      exact hcore (hother p fun heq => hx (heq ▸ rfl))
  | exit q => exact htame (h.tame (Or.inl trivial))
  | waitFor parent pid => exact htame (h.tame (Or.inr ⟨parent, pid, rfl⟩))
  | other => exact htame (h.tame (Or.inl trivial))

/-- Creating and releasing leave `current_process` and `kernel_process`
alone. -/
theorem KernelEffect.pointers {x : Effect} (h : KernelEffect k x k')
    (hk : k.kernelProcess = some 0)
    (hx : (∃ p parent base, x = .spawn p parent base) ∨ (∃ base, x = .miss base)
      ∨ ∃ c, x = .release c) :
    k'.currentProcess = k.currentProcess ∧ k'.kernelProcess = k.kernelProcess := by
  rcases hx with ⟨p, parent, base, rfl⟩ | ⟨base, rfl⟩ | ⟨c, rfl⟩
  · cases h with
    | spawn call =>
        obtain ⟨-, -, vm, memory, table, head, -, rfl, -⟩ := spawn_eq call
        exact ⟨rfl, rfl⟩
  · cases h with
    | miss call =>
        rcases miss_eq hk call with rfl | ⟨p, vm, table, head, -, -, -, rfl, -⟩
        · exact ⟨rfl, rfl⟩
        · exact ⟨rfl, rfl⟩
  · cases h with
    | release hkernel _ call =>
        obtain ⟨table, head, rfl, -⟩ := processRelease_eq hkernel call
        exact ⟨rfl, rfl⟩

end Tables

/-- The kernel process sits in slot 0 and has no parent, and a free slot has
no entry. -/
structure Grounded (k : Kernel) : Prop where
  kernel : k.kernelProcess = some 0
  used : (k.processTable 0).used = true
  root : (k.processTable 0).parent = none
  blank : ∀ s, (k.processTable s).used = false → (k.processTable s).entry = none

theorem Grounded.tame {k k' : Kernel} (h : Grounded k) (ht : Tame k k') : Grounded k' :=
  ⟨ht.kernel.trans h.kernel, (ht.used 0).trans h.used, (frame_parent (ht.frame 0)).trans h.root,
    fun s hs => (frame_entry (ht.frame s)).trans (h.blank s ((ht.used s).symm.trans hs))⟩

theorem Grounded.release_ne {k k' : Kernel} {c : Slot} (h : Grounded k)
    (hx : KernelEffect k (.release c) k') : c ≠ 0 := by
  rintro rfl
  cases hx with
  | release hkernel _ _ => exact hkernel h.kernel.symm

theorem Grounded.effect {k k' : Kernel} {x : Effect} (h : Grounded k)
    (hx : KernelEffect k x k') : Grounded k' := by
  have hblank : ∀ s, (k'.processTable s).core = (k.processTable s).core →
      (k'.processTable s).used = false → (k'.processTable s).entry = none := fun s hcore hs =>
    (core_entry hcore).trans (h.blank s ((core_used hcore).symm.trans hs))
  cases x with
  | spawn p parent base =>
      obtain ⟨hp, -, ⟨owner, function, memory, hnew⟩, hcore⟩ := hx.spawn_table
      refine ⟨(hx.pointers h.kernel (Or.inl ⟨_, _, _, rfl⟩)).2.trans h.kernel,
        (core_used (hcore 0 hp.symm)).trans h.used,
        (core_parent (hcore 0 hp.symm)).trans h.root, ?_⟩
      intro s hs
      refine hblank s (hcore s ?_) hs
      rintro rfl
      rw [core_used hnew] at hs
      cases hs
  | miss base =>
      have hkernel := (hx.pointers h.kernel (Or.inr (Or.inl ⟨_, rfl⟩))).2
      have h0 := hx.miss_core h.kernel h.used
      refine ⟨hkernel.trans h.kernel, (core_used h0).trans h.used,
        (core_parent h0).trans h.root, ?_⟩
      intro s hs
      rcases hx.miss_table h.kernel s with hcore | ⟨-, hzero⟩
      · exact hblank s hcore hs
      · rw [hzero]
        rfl
  | release c =>
      obtain ⟨-, hzero, hcore⟩ := hx.release_table
      have hc := (h.release_ne hx).symm
      refine ⟨(hx.pointers h.kernel (Or.inr (Or.inr ⟨c, rfl⟩))).2.trans h.kernel,
        (core_used (hcore 0 hc)).trans h.used, (core_parent (hcore 0 hc)).trans h.root, ?_⟩
      intro s hs
      by_cases hsc : s = c
      · rw [hsc, hzero]
        rfl
      · exact hblank s (hcore s hsc) hs
  | exit p => exact h.tame (hx.tame (Or.inl trivial))
  | waitFor parent pid => exact h.tame (hx.tame (Or.inr ⟨parent, pid, rfl⟩))
  | other => exact h.tame (hx.tame (Or.inl trivial))

theorem grounded_processInit (vm : Vm) : Grounded (processInit vm) := by
  refine ⟨rfl, rfl, rfl, ?_⟩
  intro s _
  by_cases hs : s = 0
  · simp [processInit, hs, Process.zero]
  · simp [processInit, hs, Process.zero]

/-! ## Events without creation, wait or reap -/

/-- A run of mild effects. -/
def MildRun (k k' : Kernel) : Prop :=
  ∃ effects, Run KernelEffect k effects k' ∧ ∀ x ∈ effects, x.mild

theorem MildRun.refl (k : Kernel) : MildRun k k :=
  ⟨[], .nil, fun _ h => (List.not_mem_nil h).elim⟩

theorem MildRun.trans {k k' k'' : Kernel} (h : MildRun k k') (h' : MildRun k' k'') :
    MildRun k k'' := by
  obtain ⟨xs, hxs, hmild⟩ := h
  obtain ⟨ys, hys, hmild'⟩ := h'
  refine ⟨xs ++ ys, hxs.append hys, ?_⟩
  intro x hx
  rcases List.mem_append.mp hx with hx | hx
  · exact hmild x hx
  · exact hmild' x hx

theorem KernelEffect.mildRun {k k' : Kernel} {x : Effect} (h : KernelEffect k x k')
    (hx : x.mild) : MildRun k k' :=
  ⟨[x], .one h, fun y hy => by rw [List.mem_singleton.mp hy]; exact hx⟩

theorem MildRun.quiet (k : Kernel) (p : Slot) {f : Process → Process}
    (keeps : (f (k.processTable p)).vitals = (k.processTable p).vitals) :
    MildRun k (k.modify p f) :=
  (KernelEffect.quiet p keeps).mildRun trivial

theorem Retarget.mildRun {k k' : Kernel} (h : Retarget k k') : MildRun k k' :=
  (KernelEffect.retarget h).mildRun trivial

theorem processExit_mildRun (k : Kernel) (process : Option Slot) (exitCode : Int) :
    MildRun k (processExit k process exitCode) := by
  cases process with
  | none => exact MildRun.refl k
  | some p => exact (KernelEffect.exit p exitCode).mildRun trivial

theorem processDefaultSignalHandler_mildRun (k : Kernel) (p : Slot) (signal : Int)
    (value : Nat) : MildRun k (processDefaultSignalHandler k p signal value) := by
  unfold processDefaultSignalHandler
  dsimp only
  split
  · exact (MildRun.quiet k p rfl).trans (processExit_mildRun _ _ _)
  · exact MildRun.quiet k p rfl

theorem deliverOne_mildRun (k : Kernel) (p : Slot) : MildRun k (deliverOne k p) := by
  unfold deliverOne
  dsimp only
  split
  · exact (MildRun.quiet k p rfl).trans (processDefaultSignalHandler_mildRun _ _ _ _)
  · exact (MildRun.quiet k p rfl).trans (processDefaultSignalHandler_mildRun _ _ _ _)

theorem deliverLoop_mildRun (p : Slot) : ∀ (fuel delivered : Nat) (k : Kernel),
    MildRun k (deliverLoop p fuel delivered k).2
  | 0, _, k => MildRun.refl k
  | fuel + 1, delivered, k => by
      rw [deliverLoop]
      split
      · exact MildRun.refl k
      · dsimp only
        split
        · exact deliverOne_mildRun k p
        · exact (deliverOne_mildRun k p).trans (deliverLoop_mildRun p fuel _ _)

theorem deliverProcessSignal_mildRun (k : Kernel) (process : Option Slot) :
    MildRun k (deliverProcessSignal k process).2 := by
  cases process with
  | none => exact MildRun.refl k
  | some p => exact deliverLoop_mildRun p 16 0 k

theorem deliverAll_mildRun {fuel : Nat} {process : Option Slot} {k k' : Kernel}
    (h : deliverAll fuel process k = .ok k') : MildRun k k' := by
  induction fuel generalizing process k with
  | zero => cases h
  | succ fuel ih =>
      cases process with
      | none =>
          obtain rfl := Except.ok.inj h
          exact MildRun.refl k
      | some p =>
          simp only [deliverAll] at h
          refine MildRun.trans ?_ (ih h)
          split
          · exact deliverProcessSignal_mildRun k (some p)
          · exact MildRun.refl k

theorem queueProcessSignal_mildRun (k : Kernel) (process : Option Slot) (signal : Int)
    (value : Nat) : MildRun k (queueProcessSignal k process signal value).2 := by
  unfold queueProcessSignal
  cases process with
  | none => exact MildRun.refl k
  | some p =>
      dsimp only
      split
      · exact MildRun.refl k
      · dsimp only
        exact MildRun.quiet k p rfl

theorem sendSignalToProcess_mildRun {k k' : Kernel} {sender : Option Slot} {pid value : Nat}
    {signal : Int} {ok : Bool} (h : sendSignalToProcess k sender pid signal value = .ok (ok, k')) :
    MildRun k k' := by
  obtain ⟨target, -, h⟩ := bind_eq_ok.mp h
  split at h
  · have hk : (queueProcessSignal k target signal value).2 = k' :=
      congrArg Prod.snd (Except.ok.inj h)
    rw [← hk]
    exact queueProcessSignal_mildRun k target signal value
  · obtain ⟨-, rfl⟩ := Prod.mk.inj (Except.ok.inj h)
    exact MildRun.refl k

theorem socketSend_mildRun {k k' : Kernel} {sender : Option Slot} {pid value : Nat} {ok : Bool}
    (h : socketSend k sender pid value = .ok (ok, k')) : MildRun k k' := by
  obtain ⟨target, -, h⟩ := bind_eq_ok.mp h
  cases target with
  | none =>
      obtain ⟨-, rfl⟩ := Prod.mk.inj (Except.ok.inj h)
      exact MildRun.refl k
  | some t =>
      dsimp only at h
      split at h
      · obtain ⟨-, rfl⟩ := Prod.mk.inj (Except.ok.inj h)
        exact MildRun.refl k
      · have hk := congrArg Prod.snd (Except.ok.inj h)
        dsimp only at hk
        rw [← hk]
        exact (MildRun.quiet k t rfl).trans (queueProcessSignal_mildRun _ _ _ _)

theorem socketRecv_mildRun (k : Kernel) (process : Option Slot) :
    MildRun k (socketRecv k process).2 := by
  unfold socketRecv
  cases process with
  | none => exact MildRun.refl k
  | some p =>
      dsimp only
      split
      · exact MildRun.refl k
      · dsimp only
        exact MildRun.quiet k p rfl

/-! ### The scheduler -/

theorem pickLoop_eligible {k : Kernel} {head start p : Slot} : ∀ {fuel : Nat} {candidate : Slot},
    pickLoop k head start fuel candidate = .ok (some p) → (k.processTable p).eligible = true
  | fuel + 1, candidate, h => by
      rw [pickLoop] at h
      split at h
      · obtain rfl := Option.some.inj (Except.ok.inj h)
        assumption
      · split at h
        · cases Except.ok.inj h
        · exact pickLoop_eligible h

theorem pickNextProcess_eligible {k : Kernel} {p : Slot}
    (h : pickNextProcess k = .ok (some p)) : (k.processTable p).eligible = true := by
  unfold pickNextProcess at h
  split at h
  · exact pickLoop_eligible h
  · cases Except.ok.inj h

theorem eligible_used {r : Process} (h : r.eligible = true) : r.used = true :=
  (of_decide_eq_true h).1

theorem pagingSwitchDirectory_eq (vm : Vm) (directory : Option Directory) :
    ∃ d, pagingSwitchDirectory vm directory = { vm with currentDirectory := d } := by
  cases directory with
  | none => exact ⟨vm.currentDirectory, rfl⟩
  | some d => exact ⟨some d, rfl⟩

theorem schedulerTick_retarget (k : Kernel) : Retarget k (schedulerTick k) :=
  ⟨rfl, rfl, rfl, rfl, rfl, Or.inl rfl, Or.inl rfl, _, rfl⟩

/-- `schedule_next_process` moves its pointers to the process it picked. -/
theorem dispatch_retarget {k : Kernel} {p : Slot} (hused : (k.processTable p).used = true) :
    Retarget k { k with schedulerCursor := some p, currentProcess := some p } :=
  ⟨rfl, rfl, rfl, rfl, rfl, Or.inr ⟨p, hused, rfl⟩, Or.inr (Or.inr ⟨p, hused, rfl⟩), _, rfl⟩

theorem scheduleNextProcess_mildRun {k k' : Kernel} (h : scheduleNextProcess k = .ok k') :
    MildRun k k' := by
  obtain ⟨picked, hpick, h⟩ := bind_eq_ok.mp h
  cases picked with
  | none =>
      obtain rfl := Except.ok.inj h
      exact MildRun.refl k
  | some p =>
      dsimp only at h
      have hused := eligible_used (pickNextProcess_eligible hpick)
      have hdeliver := (dispatch_retarget hused).mildRun.trans
        (deliverProcessSignal_mildRun _ (some p))
      generalize (deliverProcessSignal
        { k with schedulerCursor := some p, currentProcess := some p } (some p)).2 = k1
        at h hdeliver
      refine hdeliver.trans ?_
      split at h
      · rename_i hrun
        obtain rfl := Except.ok.inj h
        have hset := (KernelEffect.run hrun.1 hrun.2).mildRun trivial
        have hcount := MildRun.quiet
          (k1.modify p fun r => { r with status := .run }) p
          (f := fun r => { r with
            cpuTicks := add32 r.cpuTicks 1
            runCount := add32 r.runCount 1
            switchCount := add32 r.switchCount 1 }) rfl
        rw [modify_modify] at hcount
        refine (hset.trans hcount).trans (Retarget.mildRun ?_)
        exact ⟨rfl, rfl, rfl, rfl, rfl, Or.inl rfl, Or.inl rfl, pagingSwitchDirectory_eq _ _⟩
      · obtain rfl := Except.ok.inj h
        exact Retarget.mildRun ⟨rfl, rfl, rfl, rfl, rfl, Or.inl rfl, Or.inr (Or.inl rfl), _, rfl⟩

theorem scheduleEvent_mildRun {k k' : Kernel} (h : scheduleEvent k = .ok k') : MildRun k k' := by
  unfold scheduleEvent at h
  split at h
  · obtain rfl := Except.ok.inj h
    exact MildRun.refl k
  · obtain ⟨k1, hall, h⟩ := bind_eq_ok.mp h
    have hdec : Retarget k { k with pendingSchedulerTicks := sub32 k.pendingSchedulerTicks 1 } :=
      ⟨rfl, rfl, rfl, rfl, rfl, Or.inl rfl, Or.inl rfl, _, rfl⟩
    exact (hdec.mildRun.trans (deliverAll_mildRun hall)).trans (scheduleNextProcess_mildRun h)

theorem pause_mildRun (k : Kernel) (p : Slot) :
    MildRun k (if (k.processTable p).status = .run then
      k.modify p fun r => { r with status := .ready } else k) := by
  split
  · exact (KernelEffect.pause ‹_›).mildRun trivial
  · exact MildRun.refl k

theorem processYield_mildRun (k : Kernel) : MildRun k (processYield k) := by
  unfold processYield
  split
  · exact MildRun.refl k
  · rename_i p _
    split
    · exact MildRun.refl k
    · have hcount : ∀ k1 : Kernel, Retarget k1
          { k1 with totalContextSwitches := add32 k1.totalContextSwitches 1 } :=
        fun k1 => ⟨rfl, rfl, rfl, rfl, rfl, Or.inl rfl, Or.inl rfl, _, rfl⟩
      exact ((pause_mildRun k p).trans (hcount _).mildRun).trans (MildRun.quiet _ p rfl)

theorem processSwitchToKernelSpace_retarget (k : Kernel) :
    Retarget k (processSwitchToKernelSpace k) := by
  unfold processSwitchToKernelSpace
  split
  · exact ⟨rfl, rfl, rfl, rfl, rfl, Or.inl rfl, Or.inl rfl, _, rfl⟩
  · exact ⟨rfl, rfl, rfl, rfl, rfl, Or.inl rfl, Or.inl rfl, pagingSwitchDirectory_eq _ _⟩

theorem scheduleResume_mildRun (k : Kernel) (p : Slot) : MildRun k (scheduleResume k p) := by
  have hback : ∀ k1 : Kernel, Retarget k1
      { k1 with currentProcess := k1.kernelProcess, suspended := none } :=
    fun k1 => ⟨rfl, rfl, rfl, rfl, rfl, Or.inl rfl, Or.inr (Or.inl rfl), _, rfl⟩
  exact ((processSwitchToKernelSpace_retarget k).mildRun.trans (pause_mildRun _ p)).trans
    (hback _).mildRun

theorem yieldEvent_mildRun (k : Kernel) : MildRun k (yieldEvent k) := by
  unfold yieldEvent
  split
  · exact MildRun.refl k
  · exact (processYield_mildRun k).trans (scheduleResume_mildRun _ _)

end Kfs
