import Kfs.ProcessCore

/-!
# System calls

`kernel/src/syscall.c` with the table `syscall_init` fills; nothing registers
another handler. Arguments a handler ignores are left out. Every system call
is one call of the process interface with the current process as its subject
(`syscallDispatch_event`).
-/

namespace Kfs

/-- `SYSCALL_MAX_HANDLERS`. -/
def syscallMaxHandlers : Nat := 8

inductive SyscallHandler where
  | getMagic
  | fork
  | wait
  | exit
  | getuid
  | signal
  | kill
  | notImplemented
  deriving DecidableEq, Repr

/-- `syscall_table` after `syscall_init`. -/
def syscallTable : Nat → SyscallHandler
  | 0 => .getMagic
  | 1 => .fork
  | 2 => .wait
  | 3 => .exit
  | 4 => .getuid
  | 5 => .signal
  | 6 => .kill
  | _ => .notImplemented

/-- `process_getuid`. -/
def processGetuid (k : Kernel) (process : Option Slot) : Nat :=
  match process with
  | none => 0
  | some p => (k.processTable p).owner

def sysFork (k : Kernel) (pidHint : Nat) : Except Fault (Nat × Kernel) := do
  let source ← (if pidHint ≠ 0 then processGetByPid k pidHint else .ok k.currentProcess)
  match ← forkProcess k source with
  | (some child, k) => return ((k.processTable child).pid, k)
  | (none, k) => return (0xFFFFFFFF, k)

def sysWait (k : Kernel) (pid : Nat) : Except Fault (Nat × Kernel) := do
  let parent := match k.currentProcess with
    | none => k.kernelProcess
    | some p => some p
  match ← processWait k parent pid with
  | (.refused, k) => return (0xFFFFFFFF, k)
  | (.running, k) => return (0, k)
  | (.reaped _ exitCode, k) => return (toUInt32 exitCode, k)

def sysExit (k : Kernel) (exitCode : Nat) : Nat × Kernel :=
  (exitCode, processExit k k.currentProcess (toInt32 exitCode))

def sysGetuid (k : Kernel) : Nat := processGetuid k k.currentProcess

/-- What a call that returns `0` or `-1` tells the process. -/
def zeroOrMax (result : Bool × Kernel) : Nat × Kernel :=
  (if result.1 then 0 else 0xFFFFFFFF, result.2)

def sysSignal (k : Kernel) (pid signal value : Nat) : Except Fault (Nat × Kernel) :=
  (sendSignalToProcess k k.currentProcess pid (toInt32 signal) value).map zeroOrMax

/-- `kill_process` sends a signal with the value `0`. -/
def sysKill (k : Kernel) (pid signal : Nat) : Except Fault (Nat × Kernel) :=
  (sendSignalToProcess k k.currentProcess pid (toInt32 signal) 0).map zeroOrMax

def SyscallHandler.call (k : Kernel) (arg0 arg1 arg2 : Nat) :
    SyscallHandler → Except Fault (Nat × Kernel)
  | .getMagic => .ok (0x4B465334, k)
  | .fork => sysFork k arg0
  | .wait => sysWait k arg0
  | .exit => .ok (sysExit k arg0)
  | .getuid => .ok (sysGetuid k, k)
  | .signal => sysSignal k arg0 arg1 arg2
  | .kill => sysKill k arg0 arg1
  | .notImplemented => .ok (0xFFFFFFFF, k)

def syscallDispatch (k : Kernel) (number arg0 arg1 arg2 : Nat) : Except Fault (Nat × Kernel) :=
  if number ≥ syscallMaxHandlers then .ok (0xFFFFFFFF, k)
  else (syscallTable number).call k arg0 arg1 arg2

/-! ## The calls behind them -/

/-- The events of system calls. -/
def Event.bySyscall (k : Kernel) : Event → Prop
  | .fork _ => True
  | .wait parent _ => parent = k.creator
  | .exit process _ => process = k.currentProcess
  | .sendSignal sender .. => sender = k.currentProcess
  | _ => False

section Calls

variable {k k' : Kernel} {result : Nat}

theorem sysFork_event {pidHint : Nat} (h : sysFork k pidHint = .ok (result, k')) :
    ∃ source r, (Event.fork source).exec k = .ok (r, k') := by
  obtain ⟨source, -, h⟩ := bind_eq_ok.mp h
  obtain ⟨⟨child, k1⟩, hfork, h⟩ := bind_eq_ok.mp h
  refine ⟨source, .created child, map_eq_ok.mpr ⟨_, hfork, ?_⟩⟩
  cases child <;> exact congrArg (Prod.mk _) (Prod.mk.inj (Except.ok.inj h)).2

/-- `sys_wait` waits on behalf of the current process, and makes one word of
the result. -/
theorem sysWait_call {pid : Nat} (h : sysWait k pid = .ok (result, k')) :
    ∃ waited, processWait k k.creator pid = .ok (waited, k')
      ∧ result = match waited with
        | .refused => 0xFFFFFFFF
        | .running => 0
        | .reaped _ exitCode => toUInt32 exitCode := by
  obtain ⟨⟨waited, k1⟩, hwait, h⟩ := bind_eq_ok.mp h
  have hcreator : (match k.currentProcess with
      | none => k.kernelProcess
      | some p => some p) = k.creator := by
    unfold Kernel.creator
    cases k.currentProcess <;> rfl
  rw [hcreator] at hwait
  cases waited <;> obtain ⟨rfl, rfl⟩ := Prod.mk.inj (Except.ok.inj h) <;> exact ⟨_, hwait, rfl⟩

theorem sysWait_event {pid : Nat} (h : sysWait k pid = .ok (result, k')) :
    ∃ r, (Event.wait k.creator pid).exec k = .ok (r, k') := by
  obtain ⟨waited, hwait, -⟩ := sysWait_call h
  exact ⟨.waited waited, map_eq_ok.mpr ⟨_, hwait, rfl⟩⟩

theorem sendSignal_event {sender : Option Slot} {pid value : Nat} {signal : Int}
    (h : (sendSignalToProcess k sender pid signal value).map zeroOrMax = .ok (result, k')) :
    ∃ r, (Event.sendSignal sender pid signal value).exec k = .ok (r, k') := by
  obtain ⟨⟨ok, k1⟩, hsend, heq⟩ := map_eq_ok.mp h
  exact ⟨.sent ok, map_eq_ok.mpr ⟨_, hsend, congrArg (Prod.mk _) (Prod.mk.inj heq).2⟩⟩

/-- A system call changes nothing or is one event. -/
theorem syscallDispatch_event {number arg0 arg1 arg2 : Nat}
    (h : syscallDispatch k number arg0 arg1 arg2 = .ok (result, k')) :
    k' = k ∨ ∃ (e : Event) (r : Reply), e.bySyscall k ∧ e.exec k = .ok (r, k')
      ∧ ∀ process exitCode, e = .exit process exitCode → syscallTable number = .exit := by
  unfold syscallDispatch at h
  split at h
  · exact Or.inl (Prod.mk.inj (Except.ok.inj h)).2.symm
  · cases hhandler : syscallTable number with
    | getMagic | getuid | notImplemented =>
        rw [hhandler] at h
        exact Or.inl (Prod.mk.inj (Except.ok.inj h)).2.symm
    | fork =>
        rw [hhandler] at h
        obtain ⟨source, r, hexec⟩ := sysFork_event h
        exact Or.inr ⟨.fork source, r, trivial, hexec, fun _ _ heq => by cases heq⟩
    | wait =>
        rw [hhandler] at h
        obtain ⟨r, hexec⟩ := sysWait_event h
        exact Or.inr ⟨.wait k.creator arg0, r, rfl, hexec, fun _ _ heq => by cases heq⟩
    | exit =>
        rw [hhandler] at h
        obtain ⟨-, rfl⟩ := Prod.mk.inj (Except.ok.inj h)
        exact Or.inr ⟨.exit k.currentProcess (toInt32 arg0), .done, rfl, rfl, fun _ _ _ => rfl⟩
    | signal | kill =>
        rw [hhandler] at h
        obtain ⟨r, hexec⟩ := sendSignal_event h
        exact Or.inr ⟨.sendSignal k.currentProcess .., r, rfl, hexec, fun _ _ heq => by cases heq⟩

end Calls

end Kfs
