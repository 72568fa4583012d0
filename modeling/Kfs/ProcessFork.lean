import Kfs.ProcessHeap
import Kfs.ProcessTable

/-!
# What a fork copies

`fork_process` creates a child as any other process is created, and then
assigns to its record and copies three pages. With the frames of the two
apart the copies are what the source had when it was forked, and nothing else
is touched but the links that lead to the child (`carefulUserRun_fork`).
-/

namespace Kfs

/-! ## The fields -/

/-- What a child has from its source, and what it starts without. -/
structure Inherits (source child : Process) : Prop where
  status : child.status = .ready
  owner : child.owner = source.owner
  rights : child.rights = source.rights
  entry : child.entry = source.entry
  signalHandler : child.signalHandler = source.signalHandler
  lastSignal : child.lastSignal = source.lastSignal
  lastSignalValue : child.lastSignalValue = source.lastSignalValue
  runtimeState : child.runtimeState = source.runtimeState
  runtimeValue : child.runtimeValue = source.runtimeValue
  runtimeArg0 : child.runtimeArg0 = source.runtimeArg0
  runtimeArg1 : child.runtimeArg1 = source.runtimeArg1
  signals : child.signals.Empty
  sockets : child.processSocket.Empty
  heapBreak : sub32 child.memory.heapBreak child.memory.heapStart
    = sub32 source.memory.heapBreak source.memory.heapStart

theorem inheritFields_inherits {source child : Process} {heapBreak : Nat}
    (howner : child.owner = source.owner) (hentry : child.entry = source.entry)
    (hsignals : child.signals.Empty) (hsockets : child.processSocket.Empty)
    (hbreak : sub32 heapBreak child.memory.heapStart
      = sub32 source.memory.heapBreak source.memory.heapStart) :
    Inherits source (inheritFields source child heapBreak) :=
  ⟨rfl, howner, rfl, hentry, rfl, rfl, rfl, rfl, rfl, rfl, rfl, hsignals, hsockets, hbreak⟩

/-- The assignments of `fork_process` to a new record. -/
theorem inheritFrom_inherits {source child : Process} (howner : child.owner = source.owner)
    (hentry : child.entry = source.entry) (hsignals : child.signals.Empty)
    (hsockets : child.processSocket.Empty) (hstart : child.memory.heapStart < 4294967296) :
    Inherits source (inheritFrom source child) := by
  rw [inheritFrom]
  exact inheritFields_inherits howner hentry hsignals hsockets
    (sub32_add32 hstart (sub32_lt _ _))

/-! ## The pages -/

section Pages

variable {child source : ProcessMemory} {vm : Vm} {d1 d2 d3 s1 s2 s3 : Nat}

/-- The child has the bytes of the source. -/
structure SamePages (child source : ProcessMemory) (mem' mem : Mem) : Prop where
  data : ∀ i, i < 4096 → mem' (child.dataPage + i) = mem (source.dataPage + i)
  bss : ∀ i, i < 4096 → mem' (child.bssPage + i) = mem (source.bssPage + i)
  heap : ∀ i, i < 4096 → mem' (child.heapPage + i) = mem (source.heapPage + i)

/-- A copy leaves every other frame alone. -/
theorem memcpy_otherFrame {d s f i : Nat} {m : Mem} (hne : d ≠ f) (hi : i < 4096) :
    memcpy m (d * 4096) (s * 4096) 4096 (f * 4096 + i) = m (f * 4096 + i) :=
  memcpy_outside (by omega)

theorem memcpy_frame {d s i : Nat} {m : Mem} (hne : d ≠ s) (hi : i < 4096) :
    memcpy m (d * 4096) (s * 4096) 4096 (d * 4096 + i) = m (s * 4096 + i) :=
  memcpy_inside (by omega) hi

/-- Copies between six different frames. -/
theorem copyPages_same
    (hd : child.dataPage = d1 * 4096 ∧ child.bssPage = d2 * 4096 ∧ child.heapPage = d3 * 4096)
    (hs : source.dataPage = s1 * 4096 ∧ source.bssPage = s2 * 4096 ∧ source.heapPage = s3 * 4096)
    (hapart : [d1, d2, d3].Nodup) (hother : ∀ d ∈ [d1, d2, d3], ∀ s ∈ [s1, s2, s3], d ≠ s) :
    SamePages child source (copyPages child source vm).mem vm.mem := by
  obtain ⟨hd1, hd2, hd3⟩ := hd
  obtain ⟨hs1, hs2, hs3⟩ := hs
  simp only [List.nodup_cons, List.mem_cons, List.not_mem_nil, or_false, not_or,
    List.nodup_nil, not_false_eq_true, and_true] at hapart
  simp only [List.mem_cons, List.not_mem_nil, or_false, forall_eq_or_imp, forall_eq] at hother
  obtain ⟨⟨hd12, hd13⟩, hd23⟩ := hapart
  obtain ⟨⟨hds11, hds12, hds13⟩, ⟨-, hds22, hds23⟩, -, -, hds33⟩ := hother
  unfold copyPages
  dsimp only
  rw [hd1, hd2, hd3, hs1, hs2, hs3]
  refine ⟨fun i hi => ?_, fun i hi => ?_, fun i hi => ?_⟩
  · rw [hd1, hs1, memcpy_otherFrame (Ne.symm hd13) hi, memcpy_otherFrame (Ne.symm hd12) hi,
      memcpy_frame hds11 hi]
  · rw [hd2, hs2, memcpy_otherFrame (Ne.symm hd23) hi, memcpy_frame hds22 hi,
      memcpy_otherFrame hds12 hi]
  · rw [hd3, hs3, memcpy_frame hds33 hi, memcpy_otherFrame hds23 hi,
      memcpy_otherFrame hds13 hi]

theorem SamePages.congr {mem' mem mem0 : Mem} (h : SamePages child source mem' mem)
    (hsame : ∀ x, InPages source x → mem x = mem0 x) : SamePages child source mem' mem0 where
  data i hi := (h.data i hi).trans (hsame _ (Or.inl (by omega)))
  bss i hi := (h.bss i hi).trans (hsame _ (Or.inr (Or.inl (by omega))))
  heap i hi := (h.heap i hi).trans (hsame _ (Or.inr (Or.inr (by omega))))

/-- The pages of two processes that have no frame in common. -/
theorem SpaceAt.copyPages {vm0 : Vm} {c p : Slot} {b b' w w' start start' table table' : Nat}
    {frames frames' : List Nat} (hchild : SpaceAt vm c child b w start table frames)
    (hsource : SpaceAt vm0 p source b' w' start' table' frames')
    (hapart : Disjoint child.frames source.frames) :
    SamePages child source (copyPages child source vm).mem vm.mem := by
  have hmem := hchild.frames_eq.1
  have hmem' := hsource.frames_eq.1
  have hnodup := hchild.nodup
  obtain ⟨f1, f2, f3, f4, rfl, h1, h2, h3, -⟩ := hchild.pages
  obtain ⟨g1, g2, g3, g4, rfl, h1', h2', h3', -⟩ := hsource.pages
  refine copyPages_same ⟨h1, h2, h3⟩ ⟨h1', h2', h3'⟩ ?_ ?_
  · exact (List.nodup_cons.mp hnodup).2.sublist (by simp)
  · rintro d hd s hs rfl
    have hin : d ∈ child.frames := by
      rw [hmem, List.mem_toFinset]
      simp only [List.mem_cons, List.not_mem_nil, or_false] at hd ⊢
      tauto
    have hin' : d ∈ source.frames := by
      rw [hmem', List.mem_toFinset]
      simp only [List.mem_cons, List.not_mem_nil, or_false] at hs ⊢
      tauto
    exact Finset.disjoint_left.mp hapart hin hin'

end Pages

/-! ## The links -/

/-- A record is its core and its three links. -/
theorem core_ext {r s : Process} (hcore : r.core = s.core) (hnext : r.next = s.next)
    (hchildren : r.children = s.children) (hsibling : r.nextSibling = s.nextSibling) : r = s := by
  have hr : ∀ t : Process, t = { t.core with
      next := t.next, children := t.children, nextSibling := t.nextSibling } := fun _ => rfl
  rw [hr r, hr s, hcore, hnext, hchildren, hsibling]

/-- A record once the process `c` was created for `parent`: a link to it from
its parent, and one from the tail of the list. -/
def Process.linkedTo (c : Slot) (parent : Option Slot) (q : Slot) (r : Process) : Process :=
  { r with
    children := if parent = some q then some c else r.children
    next := if r.used = true ∧ r.next = none then some c else r.next }

section Links

variable {k k' : Kernel} {l xs : List Slot} {t : Slot} {kids : Slot → List Slot}

/-- The links of its source do not reach the child. -/
theorem inheritFrom_linkedTo (parent : Option Slot) (q : Slot) (source child : Process) :
    inheritFrom (source.linkedTo t parent q) child = inheritFrom source child := rfl

/-- The tail is the process without a successor. -/
theorem LinkInv.tail_iff (h : LinkInv k (xs ++ [t]) kids) (q : Slot) :
    (k.processTable q).used = true ∧ (k.processTable q).next = none ↔ q = t := by
  rw [← h.mem q, List.mem_append, List.mem_singleton]
  constructor
  · rintro ⟨hq | rfl, hnone⟩
    · have hsome := h.linked.next_isSome hq
      rw [Kernel.nextOf, hnone] at hsome
      cases hsome
    · rfl
  · rintro rfl
    exact ⟨Or.inr rfl, h.linked.next_last⟩

/-- A creation assigns to no record but the new one, except for the links. -/
theorem LinkInv.spawn_linked {parent : Option Slot} {owner base size : Nat}
    {function : Option ExecFn} {c : Slot} (h : LinkInv k l kids)
    (call : processCreateInternal k parent owner base function size = .ok (some c, k')) {q : Slot}
    (hq : q ≠ c) : k'.processTable q = (k.processTable q).linkedTo c parent q := by
  obtain ⟨-, -, vm, memory, table, head, -, heq, -, hcore⟩ := spawn_eq call
  have hkept : (k'.processTable q).core = (k.processTable q).core := by
    rw [heq]
    exact hcore q hq
  clear heq hcore vm memory table head
  obtain ⟨-, hunused, vm, memory, k1, -, hlink, rfl⟩ := processCreateInternal_some call
  have hc : ChildLinked k c parent (processLinkChild
      (k.withProcess c (freshProcess k.nextPid owner function memory) vm) parent c) :=
    processLinkChild_childLinked parent rfl rfl rfl
  obtain ⟨xs, t, rfl, -, hglobal⟩ := h.tail hunused hc
  have hk1 := Except.ok.inj (hlink.symm.trans hglobal)
  obtain ⟨-, -, hnext, hsibling⟩ := hc.other q hq
  have hchildren := hc.children q
  rw [if_neg hq] at hchildren
  generalize processLinkChild _ parent c = kc at *
  have hrecord : k1.processTable q = if q = t then { kc.processTable t with next := some c }
      else kc.processTable q := by
    rw [hk1, modify_apply]
  show k1.processTable q = _
  refine core_ext hkept ?_ ?_ ?_ <;> rw [hrecord]
  · by_cases hqt : q = t
    · rw [if_pos hqt]
      exact (if_pos ((h.tail_iff q).mpr hqt)).symm
    · rw [if_neg hqt, hnext]
      exact (if_neg fun htail => hqt ((h.tail_iff q).mp htail)).symm
  · split
    · next hqt => exact hqt ▸ hchildren
    · exact hchildren
  · split
    · next hqt => exact hqt ▸ hsibling
    · exact hsibling

end Links

/-! ## Forking -/

section Fork

variable {base : Finset Nat} {total n : Nat} {k k' : Kernel} {p c : Slot}

/-- How `fork_process` got to a child. -/
theorem forkProcess_some (h : forkProcess k (some p) = .ok (some c, k')) :
    ∃ k1, processCreateInternal k (some p) (k.processTable p).owner 0 (k.processTable p).entry
        (k.processTable p).memory.codeSize = .ok (some c, k1)
      ∧ k' = ({ k1 with
          vm := copyPages (k1.processTable c).memory (k1.processTable p).memory k1.vm }).modify c
            (inheritFrom (k1.processTable p)) := by
  unfold forkProcess at h
  dsimp only at h
  split at h
  · cases (Prod.mk.inj (Except.ok.inj h)).1
  · obtain ⟨⟨child, k1⟩, hcreate, h⟩ := bind_eq_ok.mp h
    cases child with
    | none => cases (Prod.mk.inj (Except.ok.inj h)).1
    | some child =>
        obtain ⟨hchild, hk⟩ := Prod.mk.inj (Except.ok.inj h)
        obtain rfl := Option.some.inj hchild
        exact ⟨k1, hcreate, hk.symm⟩

theorem inheritFields_layout (source child : Process) (heapBreak : Nat) :
    (inheritFields source child heapBreak).memory.layout = child.memory.layout := rfl

theorem inheritFrom_layout (source child : Process) :
    (inheritFrom source child).memory.layout = child.memory.layout := by
  rw [inheritFrom, inheritFields_layout]

/-- Whatever does not depend on the break. -/
theorem layout_field {α : Type} {m m' : ProcessMemory} (g : ProcessMemory → α)
    (hg : ∀ m, g m.layout = g m) (h : m'.layout = m.layout) : g m' = g m := by
  rw [← hg m', ← hg m, h]

theorem SamePages.layout {child child' source : ProcessMemory} {mem' mem : Mem}
    (h : SamePages child source mem' mem) (hlayout : child'.layout = child.layout) :
    SamePages child' source mem' mem := by
  have hdata := layout_field ProcessMemory.dataPage (fun _ => rfl) hlayout
  have hbss := layout_field ProcessMemory.bssPage (fun _ => rfl) hlayout
  have hheap := layout_field ProcessMemory.heapPage (fun _ => rfl) hlayout
  exact ⟨by rw [hdata]; exact h.data, by rw [hbss]; exact h.bss, by rw [hheap]; exact h.heap⟩

/-- `c` is a copy of `p`, and nothing else happened. -/
structure ForkCopies (k k' : Kernel) (p c : Slot) : Prop where
  free : (k.processTable c).used = false
  live : k'.Live c
  pid : ∀ q, (k.processTable q).used = true → (k'.processTable c).pid ≠ (k.processTable q).pid
  record : Inherits (k.processTable p) (k'.processTable c)
  pages : SamePages (k'.processTable c).memory (k.processTable p).memory k'.vm.mem k.vm.mem
  apart : Disjoint (k'.processTable c).memory.frames (k.processTable p).memory.frames
  others : ∀ q, q ≠ c → k'.processTable q = (k.processTable q).linkedTo c (some p) q
  kept : ∀ q, k.Live q → ∀ x, x / 4096 ∈ (k.processTable q).memory.frames →
    k'.vm.mem x = k.vm.mem x

theorem PidInv.fresh (h : PidInv n k) (hn : n < 4294967295) {q : Slot}
    (hq : (k.processTable q).used = true) : k.nextPid ≠ (k.processTable q).pid := by
  have hnext := h.next
  have hrange := h.range q hq
  omega

/-- With the frames accounted for, at a window the kernel does not use. -/
theorem Regions.fork {l : List Slot} {kids : Slot → List Slot} (h : Regions base total k)
    (hl : LinkInv k l kids) (hpid : PidInv n k) (hn : n < 4294967295) (hlive : k.Live p)
    (hfree : FreeWindow k.vm (baseOf 0 c)) (hfork : forkProcess k (some p) = .ok (some c, k')) :
    ForkCopies k k' p c := by
  obtain ⟨k1, hcreate, hk'⟩ := forkProcess_some hfork
  obtain ⟨w, start, table, frames, hspawned⟩ := h.spawned hcreate hfree
  obtain ⟨b, w', start', table', frames', hsource⟩ := h.spaces p hlive
  obtain ⟨hc, hunused, vm, memory, tab, head, hmap, heq, hnew, -⟩ := spawn_eq hcreate
  have hrecords := fun (q : Slot) (hq : q ≠ c) => hl.spawn_linked hcreate hq
  have hpc : p ≠ c := by
    rintro rfl
    rw [hlive.2] at hunused
    cases hunused
  have hmemory : (k1.processTable p).memory = (k.processTable p).memory := by
    rw [hrecords p hpc]
    rfl
  have hfresh : ∀ q, k.Live q →
      Disjoint (k1.processTable c).memory.frames (k.processTable q).memory.frames := fun q hq =>
    (Finset.disjoint_of_subset_left (h.used hq) hspawned.takes.fresh).symm
  have hkept : ∀ q, k.Live q → ∀ x, x / 4096 ∈ (k.processTable q).memory.frames →
      k1.vm.mem x = k.vm.mem x := fun q hq x hx =>
    hspawned.touches.mem x fun hin => Finset.disjoint_left.mp (hfresh q hq) hin hx
  have hself : k'.processTable c = inheritFrom (k1.processTable p) (k1.processTable c) := by
    rw [hk', modify_self]
  have hvm : k'.vm = copyPages (k1.processTable c).memory (k.processTable p).memory k1.vm := by
    rw [hk', ← hmemory]
    rfl
  have hother : ∀ q, q ≠ c → k'.processTable q = k1.processTable q := fun q hq => by
    rw [hk', modify_of_ne _ _ _ hq]
  obtain rfl : k1.processTable = tab := congrArg Kernel.processTable heq
  have hlayout : (k'.processTable c).memory.layout = (k1.processTable c).memory.layout := by
    rw [hself]
    exact inheritFrom_layout _ _
  have hpages : SamePages (k1.processTable c).memory (k.processTable p).memory k'.vm.mem
      k.vm.mem := by
    rw [hvm]
    exact (hspawned.space.copyPages hsource (hfresh p hlive)).congr fun x hx =>
      hkept p hlive x (hsource.inPages hx).1
  refine ⟨hunused, ⟨hc, ?_⟩, ?_, ?_, ?_, ?_, ?_, ?_⟩
  · rw [hself]
    exact core_used hnew
  · intro q hq
    rw [hself]
    show (k1.processTable c).pid ≠ _
    rw [core_pid hnew]
    exact hpid.fresh hn hq
  · rw [hself, hrecords p hpc, inheritFrom_linkedTo]
    have hheap : (k1.processTable c).memory = memory := core_memory hnew
    have hstart : (k1.processTable c).memory.heapStart < 4294967296 := by
      rw [hheap, (processMemoryMap_heap hmap).1.start]
      exact add32_lt _ _
    have hsignals : (k1.processTable c).signals = Process.zero.signals :=
      (core_field Process.signals (fun _ => rfl) hnew).trans rfl
    have hsockets : (k1.processTable c).processSocket = Process.zero.processSocket :=
      (core_field Process.processSocket (fun _ => rfl) hnew).trans rfl
    have howner : (k1.processTable c).owner = (k.processTable p).owner :=
      (core_field Process.owner (fun _ => rfl) hnew).trans rfl
    have hentry : (k1.processTable c).entry = (k.processTable p).entry :=
      (core_entry hnew).trans rfl
    refine inheritFrom_inherits howner hentry ?_ ?_ hstart
    · rw [hsignals]
      decide
    · rw [hsockets]
      decide
  · exact hpages.layout hlayout
  · rw [frames_layout hlayout]
    exact hfresh p hlive
  · intro q hq
    rw [hother q hq, hrecords q hq]
  · intro q hq x hx
    rw [hvm, copyPages_outside fun hin => Finset.disjoint_left.mp (hfresh q hq)
      (hspawned.space.inPages hin).1 hx]
    exact hkept q hq x hx

end Fork

/-! ## Runs -/

/-- The processes a call may create. -/
def UserEvent.creations : UserEvent → Nat
  | .system (.process e) => e.creations
  | _ => 0

def userCreations (labels : List (UserEvent × UserReply)) : Nat :=
  (labels.map fun label => label.1.creations).sum

theorem userCreations_append (labels : List (UserEvent × UserReply))
    (label : UserEvent × UserReply) :
    userCreations (labels ++ [label]) = userCreations labels + label.1.creations := by
  simp [userCreations]

section Pids

variable {n : Nat} {k k' : Kernel} {s s' : System}

theorem PidInv.tame (h : PidInv n k) (ht : Tame k k') : PidInv n k' :=
  h.shrink ht.nextPid fun q hq => ⟨(ht.used q).symm.trans hq, frame_pid (ht.frame q)⟩

theorem PidInv.withVm (h : PidInv n k) (vm : Vm) : PidInv n { k with vm := vm } :=
  h.shrink rfl fun _ hq => ⟨hq, rfl⟩

theorem PidInv.event {label : Event × Reply} (h : PidInv n k) (hl : Linkage k)
    (hstep : KernelStep k label k') (hn : n + label.1.creations < 4294967295) :
    ∃ n' ≤ n + label.1.creations, PidInv n' k' := by
  obtain ⟨effects, heffects, hshape⟩ := hl.performs hstep
  have hle := hshape.attempts_le
  obtain ⟨n', hn', hpid⟩ := h.effects hl (by omega) heffects
  exact ⟨n', by omega, hpid⟩

theorem PidInv.user {label : UserEvent × UserReply} (h : PidInv n s.1) (hl : Linkage s.1)
    (hstep : UserStep s label s') (hn : n + label.1.creations < 4294967295) :
    ∃ n' ≤ n + label.1.creations, PidInv n' s'.1 := by
  have hsame : PidInv n s'.1 → ∃ n' ≤ n + label.1.creations, PidInv n' s'.1 := fun h' =>
    ⟨n, Nat.le_add_right _ _, h'⟩
  obtain ⟨e, r⟩ := label
  cases e with
  | system e =>
      obtain ⟨reply, -, hsystem⟩ := hstep.system
      cases e with
      | process e =>
          obtain ⟨reply, -, hkernel, -⟩ := hsystem.process
          exact h.event hl hkernel hn
      | vmalloc size =>
          obtain ⟨-, -, -, hvm⟩ := hsystem.vmalloc
          exact hsame (hvm ▸ h.withVm _)
      | vfree q => exact hsame (hsystem.vfree.2 ▸ h.withVm _)
      | mapPage virt phys flags => exact hsame (hsystem.mapPage.2.1 ▸ h.withVm _)
  | memoryAlloc process size =>
      obtain ⟨-, -, hkernel, -⟩ := hstep.memoryAlloc
      exact hsame (h.tame (hkernel ▸ processMemoryAlloc_tame s.1 process size))
  | mmap process size =>
      obtain ⟨-, -, hkernel, -⟩ := hstep.mmap
      rw [processMmap_snd] at hkernel
      exact hsame (h.tame (hkernel ▸ processMemoryAlloc_tame s.1 process size))
  | store p address value =>
      obtain ⟨-, -, hkernel, -⟩ := hstep.store
      exact hsame (hkernel ▸ h.withVm _)

end Pids

/-- Pids are distinct along a careful run while the counter has not come
round. -/
theorem carefulUserRun_pids {vm : Vm} {heap : Heap} (hboot : Booted vm heap)
    {labels : List (UserEvent × UserReply)} {s : System}
    (hrun : Run CarefulUserStep (systemInit vm heap) labels s)
    (hc : userCreations labels < 4294967295) :
    ∃ n < 4294967295, PidInv n s.1 := by
  obtain ⟨-, hpids⟩ := hrun.invariant_trace (I := fun labels s =>
      (∃ base, SystemInv base vm.pmm.totalFrames s)
      ∧ (userCreations labels < 4294967295 → ∃ n ≤ userCreations labels, PidInv n s.1))
    ⟨⟨_, hboot.ready.systemInv⟩, fun _ => ⟨0, Nat.le_refl _, pidInv_processInit vm⟩⟩ (by
      rintro labels s1 label s2 ⟨⟨base, hinv⟩, ih⟩ hstep
      refine ⟨hinv.user hstep, fun hc => ?_⟩
      rw [userCreations_append] at hc ⊢
      obtain ⟨n, hn, hpid⟩ := ih (by omega)
      obtain ⟨n', hn', hpid'⟩ := hpid.user hinv.linkage hstep.1 (by omega)
      exact ⟨n', by omega, hpid'⟩)
  obtain ⟨n, hn, hpid⟩ := hpids hc
  exact ⟨n, by omega, hpid⟩

/-- In every careful run a fork that succeeds makes a copy of its source, and
does nothing else. -/
theorem carefulUserRun_fork {vm : Vm} {heap : Heap} (hboot : Booted vm heap)
    {labels : List (UserEvent × UserReply)} {s s' : System} {p c : Slot}
    (hrun : Run CarefulUserStep (systemInit vm heap) labels s)
    (hc : userCreations labels < 4294967295) (hlive : s.1.Live p)
    (hfork : CarefulUserStep s (.system (.process (.fork (some p))),
      .system (.reply (.created (some c)))) s') :
    ForkCopies s.1 s'.1 p c := by
  obtain ⟨base, hinv⟩ := carefulUserRun_inv hboot hrun
  obtain ⟨n, hn, hpid⟩ := carefulUserRun_pids hboot hrun hc
  obtain ⟨l, kids, hl⟩ := hinv.linkage
  obtain ⟨hstep, hcareful⟩ := hfork
  obtain ⟨reply, hreply, hsystem⟩ := hstep.system
  obtain rfl := UserReply.system.inj hreply
  obtain ⟨child, hchild, hcall⟩ := map_reply_eq_ok.mp hsystem.kernel.2
  obtain rfl := Reply.created.inj hchild
  exact hinv.regions.fork hl hpid hn hlive (hcareful Nat.one_ne_zero c) hcall

/-- A process that reserved memory and wrote to its pages is forked. -/
theorem carefulUserRun_fork_written :
    ∃ s s', Run CarefulUserStep (systemInit (machine 4096 2576) machineHeap)
        [(.system (.process (.createOwned 7 (some .demoCounterProcess) 4096)),
            .system (.reply (.created (some 1)))),
          (.mmap (some 1) 24, .mapped 0x02022000), (.store 1 0xA10004 9#8, .stored)] s
      ∧ CarefulUserStep s (.system (.process (.fork (some 1))),
        .system (.reply (.created (some 2)))) s'
      ∧ ForkCopies s.1 s'.1 1 2 := by
  obtain ⟨s, s', hrun, hrest, hlive⟩ := execRun_observe_two carefulUserExec_step
    (systemInit (machine 4096 2576) machineHeap)
    [.system (.process (.createOwned 7 (some .demoCounterProcess) 4096)), .mmap (some 1) 24,
      .store 1 0xA10004 9#8]
    [.system (.reply (.created (some 1))), .mapped 0x02022000, .stored]
    [.system (.process (.fork (some 1)))] [.system (.reply (.created (some 2)))]
    (fun s _ => s.1.Live 1) (by decide +kernel)
  obtain ⟨s1, hfork, hnil⟩ := Run.uncons hrest
  obtain rfl := hnil.eq_of_nil
  have hboot : Booted (machine 4096 2576) machineHeap :=
    rangeMachine_booted (by decide) (by decide) (by decide)
  exact ⟨s, _, hrun, hfork, carefulUserRun_fork hboot hrun (by decide) hlive hfork⟩

/-- Two processes in the identity map have the same table of the kernel for
their own. Each reap frees it; in between it has become the data page of a
third process, and the fork of that one gets it again. -/
theorem userRun_fork_shared :
    Booted (machine 4096 2576) machineHeap
      ∧ ∃ s s', Run UserStep (systemInit (machine 4096 2576) machineHeap)
        [(.system (.process (.execFn 0x00400000 none 0)), .system (.reply (.created (some 1)))),
          (.system (.process (.execFn 0x00404000 none 0)), .system (.reply (.created (some 2)))),
          (.system (.process (.exit (some 1) 0)), .system (.reply .done)),
          (.system (.process (.wait (some 0) 2)), .system (.reply (.waited (.reaped 1 0)))),
          (.system (.process (.createOwned 0 (some .demoCounterProcess) 4096)),
            .system (.reply (.created (some 1)))),
          (.system (.process (.exit (some 2) 0)), .system (.reply .done)),
          (.system (.process (.wait (some 0) 3)), .system (.reply (.waited (.reaped 2 0))))] s
        ∧ Run UserStep s [(.system (.process (.fork (some 1))),
          .system (.reply (.created (some 2))))] s'
        ∧ s.1.Live 1
        ∧ (s'.1.processTable 2).memory.dataPage = (s.1.processTable 1).memory.dataPage :=
  ⟨rangeMachine_booted (by decide) (by decide) (by decide),
    execRun_observe_two userExec_step (systemInit (machine 4096 2576) machineHeap)
      [.system (.process (.execFn 0x00400000 none 0)),
        .system (.process (.execFn 0x00404000 none 0)),
        .system (.process (.exit (some 1) 0)), .system (.process (.wait (some 0) 2)),
        .system (.process (.createOwned 0 (some .demoCounterProcess) 4096)),
        .system (.process (.exit (some 2) 0)), .system (.process (.wait (some 0) 3))]
      [.system (.reply (.created (some 1))), .system (.reply (.created (some 2))),
        .system (.reply .done), .system (.reply (.waited (.reaped 1 0))),
        .system (.reply (.created (some 1))),
        .system (.reply .done), .system (.reply (.waited (.reaped 2 0)))]
      [.system (.process (.fork (some 1)))] [.system (.reply (.created (some 2)))]
      (fun s s' => s.1.Live 1
        ∧ (s'.1.processTable 2).memory.dataPage = (s.1.processTable 1).memory.dataPage)
      (by decide +kernel)⟩

end Kfs
