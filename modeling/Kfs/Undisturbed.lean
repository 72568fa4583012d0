import Kfs.Demos
import Kfs.ProcessIsolation

/-!
# What a call does to the other processes

The code of a process works with a part of its record, its program, and with
the bytes of its frames. `Undisturbed` says that a stretch of kernel code
changes neither, and that if it ends the process then with the exit code of a
fatal signal. Every call that creates, reaps, signals or runs some process
leaves the others undisturbed; signals leave even their target so.
-/

namespace Kfs

/-- The fields the code of a process reads and writes, and those that say
where its memory is. -/
def Process.program (r : Process) : Process :=
  { Process.zero with
    used := r.used
    pid := r.pid
    entry := r.entry
    memory := r.memory.layout
    runCount := r.runCount
    lastSocketValue := r.lastSocketValue
    runtimeState := r.runtimeState
    runtimeValue := r.runtimeValue
    runtimeArg0 := r.runtimeArg0
    runtimeArg1 := r.runtimeArg1 }

theorem program_field {r s : Process} (h : r.program = s.program) {α : Type} (g : Process → α)
    (hg : ∀ r : Process, g r.program = g r) : g r = g s := by
  rw [← hg r, ← hg s, h]

theorem program_core {r s : Process} (h : r.core = s.core) : r.program = s.program :=
  core_field Process.program (fun _ => rfl) h

/-- The exit codes of `SIGTERM` and `SIGKILL`. -/
def FatalCode (exitCode : Int) : Prop :=
  exitCode = 128 + processSignalTerm ∨ exitCode = 128 + processSignalKill

instance (exitCode : Int) : Decidable (FatalCode exitCode) := inferInstanceAs (Decidable (_ ∨ _))

/-- What a stretch of code does to the life of a process. -/
structure LivesOn (r r' : Process) : Prop where
  ended : r.status = .zombie → r'.status = .zombie ∧ r'.exitCode = r.exitCode
  killed : r'.status = .zombie → r.status = .zombie ∨ FatalCode r'.exitCode
  awake : r'.status = .waiting → r.status = .waiting

/-- The statuses that a process has before and after it waits. -/
def Status.active (s : Status) : Bool := s = .ready || s = .thread

/-- It keeps its status or goes on from one. -/
theorem LivesOn.of_eq {r r' : Process}
    (hstatus : r'.status = r.status ∨ r'.status.active = true ∧ r.status ≠ .zombie)
    (hexit : r'.exitCode = r.exitCode) : LivesOn r r' := by
  rcases hstatus with hsame | ⟨hactive, halive⟩
  · exact ⟨fun h => ⟨hsame.trans h, hexit⟩, fun h => Or.inl (hsame.symm.trans h),
      fun h => hsame.symm.trans h⟩
  · refine ⟨fun h => absurd h halive, fun h => ?_, fun h => ?_⟩
    · rw [h] at hactive
      cases hactive
    · rw [h] at hactive
      cases hactive

theorem LivesOn.refl (r : Process) : LivesOn r r := .of_eq (Or.inl rfl) rfl

theorem LivesOn.trans {r r' r'' : Process} (h : LivesOn r r') (h' : LivesOn r' r'') :
    LivesOn r r'' where
  ended hz := by
    obtain ⟨hz', hexit⟩ := h.ended hz
    obtain ⟨hz'', hexit'⟩ := h'.ended hz'
    exact ⟨hz'', hexit'.trans hexit⟩
  killed hz := by
    rcases h'.killed hz with hz' | hfatal
    · rw [(h'.ended hz').2]
      exact h.killed hz'
    · exact Or.inr hfatal
  awake hw := h.awake (h'.awake hw)

theorem LivesOn.core {r r' : Process} (h : r'.core = r.core) : LivesOn r r' :=
  .of_eq (Or.inl (core_status h)) (core_exitCode h)

structure Undisturbed (k k' : Kernel) (q : Slot) : Prop where
  program : (k'.processTable q).program = (k.processTable q).program
  lives : LivesOn (k.processTable q) (k'.processTable q)
  mem : ∀ x, x / 4096 ∈ (k.processTable q).memory.frames → k'.vm.mem x = k.vm.mem x

section Undisturbed

variable {k k' k'' : Kernel} {q : Slot}

theorem Undisturbed.refl (k : Kernel) (q : Slot) : Undisturbed k k q :=
  ⟨rfl, .refl _, fun _ _ => rfl⟩

theorem Undisturbed.used (h : Undisturbed k k' q) :
    (k'.processTable q).used = (k.processTable q).used :=
  program_field h.program Process.used fun _ => rfl

theorem Undisturbed.live (h : Undisturbed k k' q) : k'.Live q ↔ k.Live q := by
  unfold Kernel.Live
  rw [h.used]

theorem Undisturbed.layout (h : Undisturbed k k' q) :
    (k'.processTable q).memory.layout = (k.processTable q).memory.layout :=
  program_field h.program (fun r => r.memory.layout) fun _ => rfl

theorem Undisturbed.trans (h : Undisturbed k k' q) (h' : Undisturbed k' k'' q) :
    Undisturbed k k'' q := by
  refine ⟨h'.program.trans h.program, h.lives.trans h'.lives, fun x hx => ?_⟩
  refine (h'.mem x ?_).trans (h.mem x hx)
  rwa [frames_layout h.layout]

/-- A word in the frames of the process. -/
theorem Undisturbed.word (h : Undisturbed k k' q) {f : Nat}
    (hf : f ∈ (k.processTable q).memory.frames) {a : Nat} (ha : a = f * 4096) :
    load32 k'.vm.mem a = load32 k.vm.mem a := by
  refine load32_congr fun x hlo hhi => h.mem x ?_
  rwa [show x / 4096 = f by omega]

/-- Moving pointers. -/
theorem Undisturbed.table (htable : k'.processTable = k.processTable)
    (hmem : k'.vm.mem = k.vm.mem) : Undisturbed k k' q := by
  refine ⟨by rw [htable], ?_, fun x _ => by rw [hmem]⟩
  rw [htable]
  exact .refl _

/-- Assigning to another record, or to what is not part of the program. -/
theorem Undisturbed.modify (k : Kernel) (q p : Slot) {f : Process → Process}
    (hprogram : q = p → (f (k.processTable p)).program = (k.processTable p).program)
    (hlives : q = p → LivesOn (k.processTable p) (f (k.processTable p))) :
    Undisturbed k (k.modify p f) q := by
  by_cases hqp : q = p
  · subst hqp
    refine ⟨?_, ?_, fun _ _ => rfl⟩
    · rw [modify_self]
      exact hprogram rfl
    · rw [modify_self]
      exact hlives rfl
  · refine ⟨?_, ?_, fun _ _ => rfl⟩ <;> rw [modify_of_ne _ _ _ hqp]
    exact .refl _

theorem Undisturbed.modify_ne (k : Kernel) {q p : Slot} (hqp : q ≠ p) (f : Process → Process) :
    Undisturbed k (k.modify p f) q :=
  .modify k q p (fun heq => absurd heq hqp) fun heq => absurd heq hqp

/-- What neither ends a process nor changes its program. -/
theorem Undisturbed.assign (k : Kernel) (q p : Slot) {f : Process → Process}
    (hprogram : (f (k.processTable p)).program = (k.processTable p).program)
    (hstatus : (f (k.processTable p)).status = (k.processTable p).status
      ∨ (f (k.processTable p)).status.active = true ∧ (k.processTable p).status ≠ .zombie)
    (hexit : (f (k.processTable p)).exitCode = (k.processTable p).exitCode) :
    Undisturbed k (k.modify p f) q :=
  .modify k q p (fun _ => hprogram) fun _ => .of_eq hstatus hexit

end Undisturbed

/-! ## Exit and signals -/

section Calls

variable {k k' : Kernel} {q : Slot}

theorem processExit_undisturbed (k : Kernel) (p q : Slot) {exitCode : Int}
    (hfatal : q = p → FatalCode exitCode) : Undisturbed k (processExit k (some p) exitCode) q := by
  rcases processExit_cases k p exitCode with ⟨-, h⟩ | ⟨halive, -, ⟨h, -⟩ | ⟨s, hsp, -, hwait, h⟩⟩
  · rw [h]
    exact .refl k q
  all_goals
    have hzombie : Undisturbed k
        (k.modify p fun r => { r with exitCode := exitCode, status := .zombie }) q :=
      .modify k q p (fun _ => rfl) fun hq =>
        ⟨fun hz => absurd hz halive, fun _ => Or.inr (hfatal hq), fun hw => (by cases hw)⟩
    rw [h]
  · exact hzombie
  · refine hzombie.trans (.modify _ q s (fun _ => rfl) fun _ => .of_eq (Or.inr ⟨rfl, ?_⟩) rfl)
    rw [modify_of_ne _ _ _ hsp, hwait]
    exact fun heq => by cases heq

theorem processDefaultSignalHandler_undisturbed (k : Kernel) (p q : Slot) (signal : Int)
    (value : Nat) : Undisturbed k (processDefaultSignalHandler k p signal value) q := by
  have hlast : Undisturbed k (k.modify p fun r =>
      { r with lastSignal := toUInt32 signal, lastSignalValue := value }) q :=
    .assign k q p rfl (Or.inl rfl) rfl
  unfold processDefaultSignalHandler
  dsimp only
  split
  · next hsignal =>
      refine hlast.trans (processExit_undisturbed _ p q fun _ => ?_)
      exact hsignal.imp (congrArg (128 + ·)) (congrArg (128 + ·))
  · exact hlast

theorem deliverOne_undisturbed (k : Kernel) (p q : Slot) : Undisturbed k (deliverOne k p) q := by
  unfold deliverOne
  dsimp only
  split <;>
    exact (Undisturbed.assign k q p rfl (Or.inl rfl) rfl).trans
      (processDefaultSignalHandler_undisturbed _ p q _ _)

theorem deliverLoop_undisturbed (p q : Slot) : ∀ (fuel delivered : Nat) (k : Kernel),
    Undisturbed k (deliverLoop p fuel delivered k).2 q
  | 0, _, k => .refl k q
  | fuel + 1, delivered, k => by
      rw [deliverLoop]
      split
      · exact .refl k q
      · dsimp only
        split
        · exact deliverOne_undisturbed k p q
        · exact (deliverOne_undisturbed k p q).trans (deliverLoop_undisturbed p q fuel _ _)

theorem deliverProcessSignal_undisturbed (k : Kernel) (process : Option Slot) (q : Slot) :
    Undisturbed k (deliverProcessSignal k process).2 q := by
  cases process with
  | none => exact .refl k q
  | some p => exact deliverLoop_undisturbed p q 16 0 k

theorem deliverAll_undisturbed {fuel : Nat} {process : Option Slot}
    (h : deliverAll fuel process k = .ok k') : Undisturbed k k' q := by
  induction fuel generalizing process k with
  | zero => cases h
  | succ fuel ih =>
      cases process with
      | none =>
          obtain rfl := Except.ok.inj h
          exact .refl k q
      | some p =>
          simp only [deliverAll] at h
          refine Undisturbed.trans ?_ (ih h)
          split
          · exact deliverProcessSignal_undisturbed k (some p) q
          · exact .refl k q

theorem queueProcessSignal_undisturbed (k : Kernel) (process : Option Slot) (signal : Int)
    (value : Nat) (q : Slot) : Undisturbed k (queueProcessSignal k process signal value).2 q := by
  unfold queueProcessSignal
  cases process with
  | none => exact .refl k q
  | some p =>
      dsimp only
      split
      · exact .refl k q
      · dsimp only
        exact .assign k q p rfl (Or.inl rfl) rfl

theorem sendSignalToProcess_undisturbed {sender : Option Slot} {pid value : Nat} {signal : Int}
    {ok : Bool} (h : sendSignalToProcess k sender pid signal value = .ok (ok, k')) :
    Undisturbed k k' q := by
  obtain ⟨target, -, h⟩ := bind_eq_ok.mp h
  split at h
  · obtain rfl : (queueProcessSignal k target signal value).2 = k' :=
      congrArg Prod.snd (Except.ok.inj h)
    exact queueProcessSignal_undisturbed k target signal value q
  · obtain ⟨-, rfl⟩ := Prod.mk.inj (Except.ok.inj h)
    exact .refl _ q

/-! ## Sockets -/

theorem socketSend_undisturbed {sender : Option Slot} {pid value : Nat} {ok : Bool}
    (h : socketSend k sender pid value = .ok (ok, k')) : Undisturbed k k' q := by
  obtain ⟨target, -, h⟩ := bind_eq_ok.mp h
  cases target with
  | none =>
      obtain ⟨-, rfl⟩ := Prod.mk.inj (Except.ok.inj h)
      exact .refl _ q
  | some t =>
      dsimp only at h
      split at h
      · obtain ⟨-, rfl⟩ := Prod.mk.inj (Except.ok.inj h)
        exact .refl _ q
      · obtain rfl : (queueProcessSignal _ (some t) processSignalSocket value).2 = k' :=
          congrArg Prod.snd (Except.ok.inj h)
        exact (Undisturbed.assign k q t rfl (Or.inl rfl) rfl).trans
          (queueProcessSignal_undisturbed _ _ _ _ q)

/-! ## The heap and the scheduler -/

theorem processMmap_undisturbed (k : Kernel) (process : Option Slot) (size : Nat) (q : Slot) :
    Undisturbed k (processMmap k process size).2 q := by
  unfold processMmap processMemoryAlloc
  cases process with
  | none => exact .refl k q
  | some p =>
      dsimp only
      by_cases hsize : size = 0
      · simp only [if_pos hsize]
        exact .refl k q
      · simp only [if_neg hsize]
        split
        · next hfalse =>
            split at hfalse
            · obtain ⟨-, rfl⟩ := Prod.mk.inj hfalse
              exact .refl _ q
            · cases (Prod.mk.inj hfalse).1
        · next htrue =>
            split at htrue
            · cases (Prod.mk.inj htrue).1
            · obtain ⟨-, rfl⟩ := Prod.mk.inj htrue
              dsimp only
              exact .assign k q p rfl (Or.inl rfl) rfl

theorem pagingSwitchDirectory_mem (vm : Vm) (directory : Option Directory) :
    (pagingSwitchDirectory vm directory).mem = vm.mem := by
  obtain ⟨d, h⟩ := pagingSwitchDirectory_eq vm directory
  rw [h]

theorem schedulerTick_undisturbed (k : Kernel) (q : Slot) : Undisturbed k (schedulerTick k) q :=
  .table rfl rfl

theorem pause_undisturbed (k : Kernel) (p q : Slot) :
    Undisturbed k (if (k.processTable p).status = .run
      then k.modify p fun r => { r with status := .ready } else k) q := by
  split
  · next hrun =>
      refine Undisturbed.assign k q p rfl (Or.inr ⟨rfl, ?_⟩) rfl
      rw [hrun]
      exact fun heq => by cases heq
  · exact .refl k q

theorem processYield_undisturbed (k : Kernel) (q : Slot) : Undisturbed k (processYield k) q := by
  unfold processYield
  split
  · exact .refl k q
  · next p _ =>
      split
      · exact .refl k q
      · refine (pause_undisturbed k p q).trans ?_
        dsimp only
        generalize (if (k.processTable p).status = .run then
          k.modify p fun r => { r with status := .ready } else k) = k1
        have hcounted : Undisturbed k1
            { k1 with totalContextSwitches := add32 k1.totalContextSwitches 1 } q := .table rfl rfl
        exact hcounted.trans (.assign _ q p rfl (Or.inl rfl) rfl)

theorem processSwitchToKernelSpace_undisturbed (k : Kernel) (q : Slot) :
    Undisturbed k (processSwitchToKernelSpace k) q := by
  unfold processSwitchToKernelSpace
  split
  · exact .refl k q
  · exact .table rfl (pagingSwitchDirectory_mem _ _)

theorem scheduleResume_undisturbed (k : Kernel) (p q : Slot) :
    Undisturbed k (scheduleResume k p) q := by
  unfold scheduleResume
  dsimp only
  refine (processSwitchToKernelSpace_undisturbed k q).trans ?_
  exact (pause_undisturbed _ p q).trans (.table rfl rfl)

/-- `process_yield` and the rest of `schedule_next_process`. -/
theorem yieldFrom_undisturbed (k : Kernel) (p q : Slot) (loop : PendingLoop) :
    Undisturbed k (yieldFrom k p loop).1 q := by
  unfold yieldFrom
  split
  · exact .refl k q
  · exact (processYield_undisturbed k q).trans (scheduleResume_undisturbed _ p q)

/-- The switch to a process counts in its record. -/
theorem scheduleNextProcess_undisturbed (h : scheduleNextProcess k = .ok k') :
    (∀ q, k'.suspended ≠ some q → Undisturbed k k' q) := by
  intro q hq
  obtain ⟨picked, -, h⟩ := bind_eq_ok.mp h
  cases picked with
  | none =>
      obtain rfl := Except.ok.inj h
      exact .refl _ q
  | some p =>
      dsimp only at h
      have hpicked : Undisturbed k
          { k with schedulerCursor := some p, currentProcess := some p } q := .table rfl rfl
      have hdelivered := hpicked.trans (deliverProcessSignal_undisturbed _ (some p) q)
      split at h
      · obtain rfl := Except.ok.inj h
        have hqp : q ≠ p := fun heq => hq (heq ▸ rfl)
        exact hdelivered.trans ((Undisturbed.modify_ne _ hqp _).trans
          (.table rfl (pagingSwitchDirectory_mem _ _)))
      · obtain rfl := Except.ok.inj h
        exact hdelivered.trans (.table rfl rfl)

end Calls

end Kfs
