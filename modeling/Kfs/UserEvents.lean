import Kfs.ExecFn

/-!
# What processes do with their memory

Beside the calls of the system there are those that move the `heap_break` of
a process, `process_memory_alloc` and `process_mmap`, and the writes of a
process to its own pages, which end up in its own frames. Neither touches
anything the invariants of the system speak of (`SystemInv.user`).
-/

namespace Kfs

inductive UserEvent where
  | system (event : SystemEvent)
  | memoryAlloc (process : Option Slot) (size : Nat)
  | mmap (process : Option Slot) (size : Nat)
  | store (process : Slot) (address : Nat) (value : Byte)
  deriving DecidableEq

inductive UserReply where
  | system (reply : SystemReply)
  | allocated (ok : Bool)
  | mapped (address : Nat)
  | stored
  deriving DecidableEq

/-- Write one byte of physical memory. -/
def Vm.poke (vm : Vm) (address : Nat) (value : Byte) : Vm :=
  { vm with mem := store8 vm.mem address value }

def UserEvent.exec (s : System) : UserEvent → Except Fault (UserReply × System)
  | .system e => (e.exec s).map fun x => (.system x.1, x.2)
  | .memoryAlloc process size => .ok
      (.allocated (processMemoryAlloc s.1 process size).1,
        (processMemoryAlloc s.1 process size).2, s.2)
  | .mmap process size => .ok
      (.mapped (processMmap s.1 process size).1, (processMmap s.1 process size).2, s.2)
  | .store _ address value => .ok (.stored, { s.1 with vm := s.vm.poke address value }, s.2)

instance (m : ProcessMemory) (x : Nat) : Decidable (InPages m x) :=
  inferInstanceAs (Decidable (_ ∨ _ ∨ _))

instance (m : ProcessMemory) (x : Nat) : Decidable (OwnPage m x) :=
  inferInstanceAs (Decidable (_ ∨ _))

/-- Rounds of the scheduler as in `KernelStep`, sizes that are `uint32_t`,
and writes of live processes to pages of their own. -/
def UserEvent.Allowed (s : System) : UserEvent → Prop
  | .system e => e = .process .schedule → s.1.suspended = none
  | .memoryAlloc _ size => size < 4294967296
  | .mmap _ size => size < 4294967296
  | .store p address _ => s.1.Live p ∧ OwnPage (s.1.processTable p).memory address

instance (s : System) : (e : UserEvent) → Decidable (e.Allowed s)
  | .system e => inferInstanceAs (Decidable (e = .process .schedule → s.1.suspended = none))
  | .memoryAlloc _ _ => inferInstanceAs (Decidable (_ < _))
  | .mmap _ _ => inferInstanceAs (Decidable (_ < _))
  | .store _ _ _ => inferInstanceAs (Decidable (_ ∧ _))

def UserStep (s : System) (label : UserEvent × UserReply) (s' : System) : Prop :=
  label.1.Allowed s ∧ label.1.exec s = .ok (label.2, s')

/-- `UserStep` as a function. -/
def userExec (s : System) (e : UserEvent) : Option (UserReply × System) :=
  if e.Allowed s then (e.exec s).toOption else none

theorem userExec_step ⦃s : System⦄ ⦃e : UserEvent⦄ ⦃r : UserReply⦄ ⦃s' : System⦄
    (h : userExec s e = some (r, s')) : UserStep s (e, r) s' := by
  unfold userExec at h
  split at h
  · next hallowed => exact ⟨hallowed, eq_ok_of_toOption h⟩
  · cases h

/-! ## Steps -/

section Steps

variable {s s' : System} {r : UserReply}

theorem UserStep.system {e : SystemEvent} (h : UserStep s (.system e, r) s') :
    ∃ reply, r = .system reply ∧ SystemStep s (e, reply) s' := by
  obtain ⟨hallowed, hexec⟩ := h
  obtain ⟨⟨reply, t⟩, hcall, heq⟩ := map_eq_ok.mp hexec
  obtain ⟨rfl, rfl⟩ := Prod.mk.inj heq
  exact ⟨reply, rfl, hallowed, hcall⟩

theorem UserStep.memoryAlloc {process : Option Slot} {size : Nat}
    (h : UserStep s (.memoryAlloc process size, r) s') :
    size < 4294967296 ∧ r = .allocated (processMemoryAlloc s.1 process size).1
      ∧ s'.1 = (processMemoryAlloc s.1 process size).2 ∧ s'.2 = s.2 := by
  obtain ⟨hsize, hexec⟩ := h
  obtain ⟨rfl, rfl⟩ := Prod.mk.inj (Except.ok.inj hexec)
  exact ⟨hsize, rfl, rfl, rfl⟩

theorem UserStep.mmap {process : Option Slot} {size : Nat}
    (h : UserStep s (.mmap process size, r) s') :
    size < 4294967296 ∧ r = .mapped (processMmap s.1 process size).1
      ∧ s'.1 = (processMmap s.1 process size).2 ∧ s'.2 = s.2 := by
  obtain ⟨hsize, hexec⟩ := h
  obtain ⟨rfl, rfl⟩ := Prod.mk.inj (Except.ok.inj hexec)
  exact ⟨hsize, rfl, rfl, rfl⟩

theorem UserStep.store {p : Slot} {address : Nat} {value : Byte}
    (h : UserStep s (.store p address value, r) s') :
    s.1.Live p ∧ OwnPage (s.1.processTable p).memory address
      ∧ s'.1 = { s.1 with vm := s.vm.poke address value } ∧ s'.2 = s.2 := by
  obtain ⟨⟨hlive, hown⟩, hexec⟩ := h
  obtain ⟨-, rfl⟩ := Prod.mk.inj (Except.ok.inj hexec)
  exact ⟨hlive, hown, rfl, rfl⟩

end Steps

/-- What the calls do to the table: they move one `heap_break`. -/
theorem processMemoryAlloc_tame (k : Kernel) (process : Option Slot) (size : Nat) :
    Tame k (processMemoryAlloc k process size).2 := by
  unfold processMemoryAlloc
  cases process with
  | none => exact Tame.refl k
  | some p =>
      dsimp only
      split
      · exact Tame.refl k
      · split
        · exact Tame.refl k
        · dsimp only
          exact Tame.modify k rfl

theorem processMmap_snd (k : Kernel) (process : Option Slot) (size : Nat) :
    (processMmap k process size).2 = (processMemoryAlloc k process size).2 := by
  unfold processMmap
  cases process with
  | none => rfl
  | some p =>
      dsimp only
      split
      · next hzero => rw [processMemoryAlloc, if_pos hzero]
      · generalize processMemoryAlloc k (some p) size = result
        obtain ⟨ok, k1⟩ := result
        cases ok <;> rfl

/-! ## Careful runs -/

/-- The condition on the calls of the system. -/
def UserEvent.Careful (s : System) : UserEvent → Prop
  | .system e => e.Careful s
  | _ => True

instance (s : System) : (e : UserEvent) → Decidable (e.Careful s)
  | .system e => inferInstanceAs (Decidable (e.Careful s))
  | .memoryAlloc _ _ => .isTrue trivial
  | .mmap _ _ => .isTrue trivial
  | .store _ _ _ => .isTrue trivial

def CarefulUserStep (s : System) (label : UserEvent × UserReply) (s' : System) : Prop :=
  UserStep s label s' ∧ label.1.Careful s

/-- `CarefulUserStep` as a function. -/
def carefulUserExec (s : System) (e : UserEvent) : Option (UserReply × System) :=
  if e.Careful s then userExec s e else none

theorem carefulUserExec_step ⦃s : System⦄ ⦃e : UserEvent⦄ ⦃r : UserReply⦄ ⦃s' : System⦄
    (h : carefulUserExec s e = some (r, s')) : CarefulUserStep s (e, r) s' := by
  unfold carefulUserExec at h
  split at h
  · next hcareful => exact ⟨userExec_step h, hcareful⟩
  · cases h

section Invariant

variable {base : Finset Nat} {total : Nat} {s s' : System}

theorem Linkage.tame {k k' : Kernel} (h : Linkage k) (ht : Tame k k') : Linkage k' := by
  obtain ⟨l, kids, hl⟩ := h
  exact ⟨l, kids, hl.tame ht⟩

theorem SystemInv.tame (h : SystemInv base total s) (ht : Tame s.1 s'.1) (hsame : s'.2 = s.2) :
    SystemInv base total s' :=
  h.within (h.regions.tame ht fun _ => False) (h.linkage.tame ht) hsame

/-- A byte written to a page of a process. -/
theorem SystemInv.store {p : Slot} {address : Nat} {value : Byte} (h : SystemInv base total s)
    (hlive : s.1.Live p) (hown : OwnPage (s.1.processTable p).memory address)
    (hkernel : s'.1 = { s.1 with vm := s.vm.poke address value }) (hsame : s'.2 = s.2) :
    SystemInv base total s' := by
  have hout : Outcome (base ∪ allHeld s.vm) (base ∪ allHeld s.vm) total (fun _ => False) s.1
      s'.1 := by
    refine h.regions.written (fun q => by rw [hkernel]) (by rw [hkernel]; rfl)
      (by rw [hkernel]; rfl) (by rw [hkernel]; rfl) (fun x hx => ?_) _
    rw [hkernel]
    refine store8_outside ?_
    rintro rfl
    exact hx p hlive hown
  exact h.within hout (hkernel ▸ h.linkage.withVm _) hsame

/-- Nothing the processes do themselves gets in the way of the rest. -/
theorem SystemInv.user {label : UserEvent × UserReply} (h : SystemInv base total s)
    (hstep : CarefulUserStep s label s') : ∃ base', SystemInv base' total s' := by
  obtain ⟨e, r⟩ := label
  obtain ⟨hstep, hcareful⟩ := hstep
  cases e with
  | system e =>
      obtain ⟨reply, -, hsystem⟩ := hstep.system
      exact h.step ⟨hsystem, hcareful⟩
  | memoryAlloc process size =>
      obtain ⟨-, -, hkernel, hsame⟩ := hstep.memoryAlloc
      exact ⟨base, h.tame (hkernel ▸ processMemoryAlloc_tame s.1 process size) hsame⟩
  | mmap process size =>
      obtain ⟨-, -, hkernel, hsame⟩ := hstep.mmap
      rw [processMmap_snd] at hkernel
      exact ⟨base, h.tame (hkernel ▸ processMemoryAlloc_tame s.1 process size) hsame⟩
  | store p address value =>
      obtain ⟨hlive, hown, hkernel, hsame⟩ := hstep.store
      exact ⟨base, h.store hlive hown hkernel hsame⟩

end Invariant

theorem carefulUserRun_inv {vm : Vm} {heap : Heap} (hboot : Booted vm heap)
    {labels : List (UserEvent × UserReply)} {s : System}
    (hrun : Run CarefulUserStep (systemInit vm heap) labels s) :
    ∃ base, SystemInv base vm.pmm.totalFrames s := by
  refine hrun.invariant (I := fun s => ∃ base, SystemInv base vm.pmm.totalFrames s)
    ⟨_, hboot.ready.systemInv⟩ ?_
  rintro s label s' ⟨base, h⟩ hstep
  exact h.user hstep

end Kfs
