import Kfs.PagingStable
import Kfs.ProcessMoves

/-!
# The context of a call

The context is the process that is current, the loaded directory and which
processes have the status `RUN`. Only `schedule_next_process` and
`process_yield` change it: every other call of the process interface leaves
the two pointers alone and gives no process that status.
-/

namespace Kfs

/-! ## Calls -/

structure SameContext (k k' : Kernel) : Prop where
  current : k'.currentProcess = k.currentProcess
  suspended : k'.suspended = k.suspended
  directory : k'.vm.currentDirectory = k.vm.currentDirectory
  run : ∀ q, (k'.processTable q).status = .run → (k.processTable q).status = .run

theorem SameContext.refl (k : Kernel) : SameContext k k := ⟨rfl, rfl, rfl, fun _ h => h⟩

theorem SameContext.trans {k k' k'' : Kernel} (h : SameContext k k') (h' : SameContext k' k'') :
    SameContext k k'' where
  current := h'.current.trans h.current
  suspended := h'.suspended.trans h.suspended
  directory := h'.directory.trans h.directory
  run q hq := h.run q (h'.run q hq)

/-- An assignment to a record that does not set `RUN`. -/
theorem SameContext.modify (k : Kernel) (p : Slot) {f : Process → Process}
    (hf : (f (k.processTable p)).status = .run → (k.processTable p).status = .run) :
    SameContext k (k.modify p f) := by
  refine ⟨rfl, rfl, rfl, ?_⟩
  intro q hq
  rw [modify_apply] at hq
  split at hq
  · next heq => exact heq ▸ hf hq
  · exact hq

section Calls

variable {k k' : Kernel}

theorem processRelease_sameContext {c : Slot} (hc : some c ≠ k.kernelProcess)
    (h : processRelease k c = .ok k') : SameContext k k' := by
  obtain ⟨table, head, rfl, hzero, hcore⟩ := processRelease_eq hc h
  refine ⟨rfl, rfl, (processReleaseMemory_stable _ _).current, ?_⟩
  intro q hq
  by_cases hqc : q = c
  · rw [hqc] at hq
    have hrun : (table c).status = .run := hq
    rw [hzero] at hrun
    cases hrun
  · exact (core_status (hcore q hqc)).symm.trans hq

theorem processCreateInternal_sameContext {parent p : Option Slot} {owner base size : Nat}
    {function : Option ExecFn} (hk : k.kernelProcess = some 0)
    (h : processCreateInternal k parent owner base function size = .ok (p, k')) :
    SameContext k k' := by
  cases p with
  | some p =>
      obtain ⟨-, -, vm, memory, table, head, hmap, rfl, hnew, hcore⟩ := spawn_eq h
      have hdirectory := (processMemoryMap_stable hmap).current
      refine ⟨rfl, rfl, hdirectory, ?_⟩
      intro q hq
      by_cases hqp : q = p
      · rw [hqp] at hq
        have hrun := (core_status hnew).symm.trans hq
        cases hrun
      · exact (core_status (hcore q hqp)).symm.trans hq
  | none =>
      rcases miss_eq hk h with rfl | ⟨p, vm, table, head, -, -, hmap, rfl, hzero, hcore⟩
      · exact SameContext.refl _
      · refine ⟨rfl, rfl, (processMemoryMap_stable hmap).current, ?_⟩
        intro q hq
        by_cases hqp : q = p
        · rw [hqp] at hq
          have hrun : (table p).status = .run := hq
          rw [hzero] at hrun
          cases hrun
        · exact (core_status (hcore q hqp)).symm.trans hq

theorem processExit_sameContext (k : Kernel) (process : Option Slot) (exitCode : Int) :
    SameContext k (processExit k process exitCode) := by
  cases process with
  | none => exact SameContext.refl k
  | some p =>
      rcases processExit_cases k p exitCode with ⟨-, h⟩ | ⟨-, -, ⟨h, -⟩ | ⟨q, -, -, -, h⟩⟩
      · rw [h]
        exact SameContext.refl k
      · rw [h]
        exact SameContext.modify k p fun hzombie => by cases hzombie
      · rw [h]
        exact (SameContext.modify k p fun hzombie => by cases hzombie).trans
          (SameContext.modify _ q fun hready => by cases hready)

theorem processDefaultSignalHandler_sameContext (k : Kernel) (p : Slot) (signal : Int)
    (value : Nat) : SameContext k (processDefaultSignalHandler k p signal value) := by
  have hlast := SameContext.modify k p
    (f := fun r => { r with lastSignal := toUInt32 signal, lastSignalValue := value }) fun h => h
  unfold processDefaultSignalHandler
  dsimp only
  split
  · exact hlast.trans (processExit_sameContext _ _ _)
  · exact hlast

theorem deliverOne_sameContext (k : Kernel) (p : Slot) : SameContext k (deliverOne k p) := by
  unfold deliverOne
  dsimp only
  split
  · exact (SameContext.modify k p fun h => h).trans
      (processDefaultSignalHandler_sameContext _ _ _ _)
  · exact (SameContext.modify k p fun h => h).trans
      (processDefaultSignalHandler_sameContext _ _ _ _)

/-- No move changes the context. -/
theorem Move.sameContext {m : MoveLabel} (hk : k.kernelProcess = some 0) (h : Move k m k') :
    SameContext k k' := by
  cases h with
  | create call => exact processCreateInternal_sameContext hk call
  | release hc call => exact processRelease_sameContext hc call
  | assign p _ _ _ hrun _ => exact SameContext.modify k p hrun
  | copy child source => exact ⟨rfl, rfl, by simp only [copyPages], fun _ h => h⟩
  | tick => exact ⟨rfl, rfl, rfl, fun _ h => h⟩
  | exit p exitCode => exact processExit_sameContext k (some p) exitCode
  | @deliver p hpending => exact deliverOne_sameContext k p
  | @queue p pending hroom => exact SameContext.modify k p fun h => h
  | @socket p f hf =>
      refine SameContext.modify k p ?_
      obtain ⟨s, v, heq⟩ := hf (k.processTable p)
      rw [heq]
      exact fun h => h

theorem Moves.sameContext {P : MoveLabel → Prop} (h : Moves P k k')
    (hk : k.kernelProcess = some 0) : SameContext k k' :=
  h.along hk (SameContext.refl k) SameContext.trans fun hk _ hmove => hmove.sameContext hk

end Calls

end Kfs
