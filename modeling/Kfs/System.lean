import Kfs.Boot
import Kfs.ProcessEvents
import Kfs.Vmalloc

/-!
# The system

The process interface, the allocator and `paging_map_page` on one machine.
A `SystemEvent` is one call of either, from any state, with arbitrary
arguments; the allocator works in the directory that is current.
-/

namespace Kfs

abbrev System := Kernel × Vmalloc

/-- The machine both work on. -/
def System.vm (s : System) : Vm := s.1.vm

inductive SystemEvent where
  | process (event : Event)
  | vmalloc (size : Nat)
  | vfree (p : Nat)
  | mapPage (virt phys flags : Nat)
  deriving DecidableEq

inductive SystemReply where
  | reply (reply : Reply)
  | address (p : Nat)
  | done
  deriving DecidableEq

def SystemEvent.exec (s : System) : SystemEvent → Except Fault (SystemReply × System)
  | .process event => (event.exec s.1).map fun x => (.reply x.1, x.2, s.2)
  | .vmalloc size => (Kfs.vmalloc s.vm s.2 size).map fun x =>
      (.address x.1, { s.1 with vm := x.2.1 }, x.2.2)
  | .vfree p => (Kfs.vfree s.vm s.2 p).map fun x => (.done, { s.1 with vm := x.1 }, x.2)
  | .mapPage virt phys flags => (pagingMapPage s.vm virt phys flags).map fun vm =>
      (.done, { s.1 with vm := vm }, s.2)

/-- As `KernelStep`, for the system. -/
def SystemStep (s : System) (label : SystemEvent × SystemReply) (s' : System) : Prop :=
  (label.1 = .process .schedule → s.1.suspended = none) ∧ label.1.exec s = .ok (label.2, s')

/-- The system when the first call comes. -/
def systemInit (vm : Vm) (heap : Heap) : System := (processInit vm, vmallocInit heap)

/-- `SystemStep` as a function. -/
def systemExec (s : System) (e : SystemEvent) : Option (SystemReply × System) :=
  if e = .process .schedule ∧ s.1.suspended ≠ none then none else (e.exec s).toOption

theorem systemExec_step ⦃s : System⦄ ⦃e : SystemEvent⦄ ⦃r : SystemReply⦄ ⦃s' : System⦄
    (h : systemExec s e = some (r, s')) : SystemStep s (e, r) s' := by
  unfold systemExec at h
  split at h
  · cases h
  · next hsched =>
      exact ⟨fun he => Decidable.not_not.mp fun hs => hsched ⟨he, hs⟩, eq_ok_of_toOption h⟩

/-! ## Steps -/

section Steps

variable {s s' : System} {r : SystemReply}

/-- A process event does not know of the allocator. -/
theorem SystemStep.process {e : Event} (h : SystemStep s (.process e, r) s') :
    ∃ reply, r = .reply reply ∧ KernelStep s.1 (e, reply) s'.1 ∧ s'.2 = s.2 := by
  obtain ⟨hsched, hexec⟩ := h
  obtain ⟨⟨reply, k⟩, hcall, heq⟩ := map_eq_ok.mp hexec
  obtain ⟨rfl, rfl⟩ := Prod.mk.inj heq
  exact ⟨reply, rfl, ⟨fun he => hsched (he ▸ rfl), hcall⟩, rfl⟩

theorem SystemStep.kernel {e : Event} {reply : Reply}
    (h : SystemStep s (.process e, .reply reply) s') : KernelStep s.1 (e, reply) s'.1 := by
  obtain ⟨reply', hreply, hkernel, -⟩ := h.process
  obtain rfl := SystemReply.reply.inj hreply
  exact hkernel

theorem SystemStep.vmalloc {size : Nat} (h : SystemStep s (.vmalloc size, r) s') :
    ∃ p, r = .address p ∧ Kfs.vmalloc s.vm s.2 size = .ok (p, s'.vm, s'.2)
      ∧ s'.1 = { s.1 with vm := s'.vm } := by
  obtain ⟨⟨p, vm, a⟩, hcall, heq⟩ := map_eq_ok.mp h.2
  obtain ⟨rfl, rfl⟩ := Prod.mk.inj heq
  exact ⟨p, rfl, hcall, rfl⟩

theorem SystemStep.vfree {p : Nat} (h : SystemStep s (.vfree p, r) s') :
    Kfs.vfree s.vm s.2 p = .ok (s'.vm, s'.2) ∧ s'.1 = { s.1 with vm := s'.vm } := by
  obtain ⟨⟨vm, a⟩, hcall, heq⟩ := map_eq_ok.mp h.2
  obtain ⟨-, rfl⟩ := Prod.mk.inj heq
  exact ⟨hcall, rfl⟩

theorem SystemStep.mapPage {virt phys flags : Nat}
    (h : SystemStep s (.mapPage virt phys flags, r) s') :
    pagingMapPage s.vm virt phys flags = .ok s'.vm ∧ s'.1 = { s.1 with vm := s'.vm }
      ∧ s'.2 = s.2 := by
  obtain ⟨vm, hcall, heq⟩ := map_eq_ok.mp h.2
  obtain ⟨-, rfl⟩ := Prod.mk.inj heq
  exact ⟨hcall, rfl, rfl⟩

end Steps

end Kfs
