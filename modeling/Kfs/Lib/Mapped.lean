import Kfs.Lib.Run

/-!
# Mapped addresses

The processor reads and writes memory through its page tables; an access to
an address they do not map is a page fault, which ends in a panic. `mapped`
tells which addresses are mapped, and `access` is the test the processor makes
for every access. A computation whose only way to fail is that test has
`OnlyPageFaults`; the rules follow it through sequences and branches.

A computation with the tests and the same one without `Agree` if the results
are the same; what is known of the result of the first part is used for the
second.
-/

namespace Kfs

def pageFault : Fault := .panic "Page fault"

/-- The `size` bytes at `a` are read or written. -/
def access (mapped : Nat → Bool) (a size : Nat) : Except Fault Unit :=
  if ∀ i < size, mapped (a + i) = true then .ok () else .error pageFault

section Access

variable {mapped : Nat → Bool} {a size : Nat}

theorem access_ok (h : ∀ i < size, mapped (a + i) = true) : access mapped a size = .ok () :=
  if_pos h

theorem access_unmapped (hsize : 0 < size) (h : mapped a = false) :
    access mapped a size = .error pageFault := by
  refine if_neg ?_
  intro hall
  have hfirst := hall 0 hsize
  rw [Nat.add_zero, h] at hfirst
  cases hfirst

end Access

section Faults

variable {α β : Type} {x : Except Fault α} {f : α → Except Fault β}

def OnlyPageFaults (x : Except Fault α) : Prop := ∀ fault, x = .error fault → fault = pageFault

theorem OnlyPageFaults.ok (a : α) : OnlyPageFaults (.ok a) := by
  rintro fault ⟨⟩

theorem OnlyPageFaults.access {mapped : Nat → Bool} {a size : Nat} :
    OnlyPageFaults (access mapped a size) := by
  intro fault h
  unfold Kfs.access at h
  split at h
  · cases h
  · exact (Except.error.inj h).symm

theorem OnlyPageFaults.bind (h : OnlyPageFaults x) (hf : ∀ a, OnlyPageFaults (f a)) :
    OnlyPageFaults (x >>= f) := by
  intro fault hfault
  cases x with
  | error e =>
      rw [bind_of_error rfl] at hfault
      exact h fault (congrArg Except.error (Except.error.inj hfault))
  | ok a =>
      rw [bind_of_ok rfl] at hfault
      exact hf a fault hfault

theorem OnlyPageFaults.ite {p : Prop} [Decidable p] {y : Except Fault α} (hx : OnlyPageFaults x)
    (hy : OnlyPageFaults y) : OnlyPageFaults (if p then x else y) := by
  split
  · exact hx
  · exact hy

end Faults

section Agree

variable {ε α β : Type} {x y : Except ε α} {f g : α → Except ε β} {P : α → Prop}

/-- Both end the same way, and a result has the property `P`. -/
def Agree (x y : Except ε α) (P : α → Prop) : Prop := x = y ∧ ∀ a, y = .ok a → P a

theorem Agree.refl (h : ∀ a, x = .ok a → P a) : Agree x x P := ⟨rfl, h⟩

theorem Agree.ok {a : α} (h : P a) : Agree (.ok a : Except ε α) (.ok a) P :=
  .refl fun _ heq => Except.ok.inj heq ▸ h

theorem Agree.error {e : ε} : Agree (.error e) (.error e) P := .refl fun _ heq => by cases heq

theorem Agree.bind {R : β → Prop} (h : Agree x y P) (hf : ∀ a, P a → Agree (f a) (g a) R) :
    Agree (x >>= f) (y >>= g) R := by
  obtain ⟨rfl, hP⟩ := h
  cases x with
  | error e => exact .error
  | ok a => exact hf a (hP a rfl)

end Agree

end Kfs
