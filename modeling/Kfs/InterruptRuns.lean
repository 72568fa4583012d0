import Kfs.Idt
import Kfs.Lib.Run

/-!
# Code that is interrupted

The processor runs code with its own memory and stack; interrupts come
between any two of its instructions, and so do the exceptions and system
calls that the code causes. For each the processor goes through the table, a
stub and `idt_handle_interrupt`.

`ProgramStep` is what the code sees of it, and all there is to see: timer and
keyboard are not there, a system call changes `eax`, and an exception with a
test handler skips the instruction. Every run of the machine is such a run
(`interruptRun_refines`).

A handler runs with interrupts off, so it is one step here. Without a handler
an exception is a panic, and no step.
-/

namespace Kfs

/-! ## The machine -/

/-- The processor as code with the memory `owned` sees it. What is below the
stack pointer is nobody's. -/
def Cpu.view (owned : Nat → Bool) (s : Cpu) : Cpu :=
  { s with mem := fun x => if owned x = true ∧ s.sp ≤ x then s.mem x else 0 }

/-- The handlers of the commands `div0` and `invop`. -/
def testHandler (vector : Byte) : Option InterruptHandler :=
  if vector = 0 then some .div0TestHandler
  else if vector = 6 then some .invopTestHandler
  else none

inductive InterruptAction where
  | code
  | register (vector : Byte)
  | unregister (vector : Byte)
  /-- The controller of the keyboard shows `scancode` meanwhile. -/
  | irq (line : Nat) (scancode : Byte)
  | exception (vector : Nat) (errorCode : Option (BitVec 32))
  | syscall

/-- The processor takes the interrupt in `s`, and returns from it to `s'`. -/
inductive InterruptTaken (t : StubTable) (owned : Nat → Bool) (s : Cpu) (k : Interrupts)
    (vector : Byte) (errorCode : Option (BitVec 32)) : Cpu → Interrupts → Prop where
  | taken {gate : Gate} {stub : Nat} {seen left : Frame} {s' : Cpu} {k' : Interrupts}
      (gate_eq : (k.entries vector).gate = some gate)
      (mem : stub ∈ isrVectors) (at_stub : t.address stub = gate.offset) (room : 76 ≤ s.sp)
      (pass : InterruptPass (fun x => owned x = true ∧ s.sp ≤ x) s stub errorCode gate.selector
        gate.offset seen left s')
      (call : idtHandleInterrupt seen k = .ok (left, k')) :
      InterruptTaken t owned s k vector errorCode s' k'

/-- The controller of the keyboard shows a byte. -/
def Interrupts.showing (k : Interrupts) (scancode : Byte) : Interrupts :=
  { k with ports := { k.ports with keyboardData := scancode } }

def Interrupts.taking (k : Interrupts) (line : Nat) : Interrupts :=
  { k with ports := k.ports.acknowledge line }

/-- The interrupt flag. -/
def eflagsInterrupt : BitVec 32 := 0x200

/-- `program` is what the code does, in terms of what it sees. -/
inductive InterruptStep (t : StubTable) (owned : Nat → Bool) (program : Cpu → Cpu → Prop) :
    Cpu × Interrupts → InterruptAction → Cpu × Interrupts → Prop where
  | code {s s' : Cpu} {k : Interrupts} (code : program (s.view owned) (s'.view owned)) :
      InterruptStep t owned program (s, k) .code (s', k)
  | register {s : Cpu} {k : Interrupts} {vector : Byte} {handler : InterruptHandler}
      (test : testHandler vector = some handler) :
      InterruptStep t owned program (s, k) (.register vector)
        (s, idtRegisterHandler k vector handler)
  | unregister {s : Cpu} {k : Interrupts} {vector : Byte} (test : (testHandler vector).isSome) :
      InterruptStep t owned program (s, k) (.unregister vector) (s, idtUnregisterHandler k vector)
  | irq {s s' : Cpu} {k k' : Interrupts} {line : Nat} {scancode : Byte}
      (enabled : s.eflags &&& eflagsInterrupt ≠ 0) (accepts : k.ports.accepts line)
      (taken : InterruptTaken t owned s ((k.showing scancode).taking line) (k.ports.vector line)
        none s' k') :
      InterruptStep t owned program (s, k) (.irq line scancode) (s', k')
  | exception {s s' : Cpu} {k k' : Interrupts} {vector : Nat} {errorCode : Option (BitVec 32)}
      (lt : vector < 32) (error : errorCode.isSome ↔ vector ∈ isrErr)
      (taken : InterruptTaken t owned s k (BitVec.ofNat 8 vector) errorCode s' k') :
      InterruptStep t owned program (s, k) (.exception vector errorCode) (s', k')
  | syscall {s s' : Cpu} {k k' : Interrupts}
      (taken : InterruptTaken t owned s k syscallVector none s' k') :
      InterruptStep t owned program (s, k) .syscall (s', k')

/-! ## What the code sees -/

inductive ProgramStep (program : Cpu → Cpu → Prop) :
    Cpu × Interrupts → InterruptAction → Cpu × Interrupts → Prop where
  | code {v v' : Cpu} {k : Interrupts} (code : program v v') :
      ProgramStep program (v, k) .code (v', k)
  | register {v : Cpu} {k : Interrupts} {vector : Byte} {handler : InterruptHandler}
      (test : testHandler vector = some handler) :
      ProgramStep program (v, k) (.register vector) (v, idtRegisterHandler k vector handler)
  | unregister {v : Cpu} {k : Interrupts} {vector : Byte} (test : (testHandler vector).isSome) :
      ProgramStep program (v, k) (.unregister vector) (v, idtUnregisterHandler k vector)
  | timer {v : Cpu} {k : Interrupts} {scancode : Byte} :
      ProgramStep program (v, k) (.irq 0 scancode) (v, timerInterrupt (k.showing scancode))
  | keyboard {v : Cpu} {k : Interrupts} {scancode : Byte} :
      ProgramStep program (v, k) (.irq 1 scancode)
        (v, { k.showing scancode with keyboard := keyboardHandler k.keyboard scancode })
  | exception {v : Cpu} {k : Interrupts} {vector : Nat} {errorCode : Option (BitVec 32)}
      (registered : (testHandler (BitVec.ofNat 8 vector)).isSome) :
      ProgramStep program (v, k) (.exception vector errorCode)
        ({ v with eip := v.eip + 2 },
          { k with exceptionTest := ⟨true, BitVec.ofNat 32 vector, v.eip⟩ })
  | syscall {v : Cpu} {k : Interrupts} {result : Nat} {kernel : Kernel}
      (call : syscallDispatch k.kernel (v.reg .eax).toNat (v.reg .ebx).toNat (v.reg .ecx).toNat
        (v.reg .edx).toNat = .ok (result, kernel)) :
      ProgramStep program (v, k) .syscall
        (v.set .eax (BitVec.ofNat 32 result), { k with kernel := kernel })

/-! ## The invariant -/

/-- The table has the stubs, the controllers let the lines 0 and 1 through
with none in service, and the handlers are in place. -/
structure Started (t : StubTable) (k : Interrupts) : Prop where
  entries : ∀ v : Byte, v.toNat ∈ isrVectors →
    (k.entries v).gate = some ⟨gdtKernelCodeSelector, t.address v.toNat⟩
  master : k.ports.master = ⟨0xF8, 0x20, 4, 1, 0, .mask⟩
  slave : k.ports.slave = ⟨0xFF, 0x28, 2, 1, 0, .mask⟩
  timer : k.handlers 32 = some .timerInterrupt
  keyboard : k.handlers 33 = some .keyboardInterrupt
  syscall : k.handlers syscallVector = some .syscallHandler
  exceptions : ∀ v : Byte, v.toNat < 32 → k.handlers v = none ∨ k.handlers v = testHandler v

theorem startInterrupts_started (t : StubTable) (k : Interrupts) :
    Started t (startInterrupts t k) := by
  have hports := startInterrupts_ports t k
  refine ⟨fun v hv => (idtInit_gate t k v).trans (if_pos hv), congrArg Ports.master hports,
    congrArg Ports.slave hports, rfl, rfl, rfl, fun v hv => Or.inl ?_⟩
  have hne : ∀ w : Byte, 32 ≤ w.toNat → v ≠ w := fun w hw heq => by
    rw [heq] at hv
    omega
  show Function.update (Function.update (Function.update (fun _ => none) _ _) _ _) _ _ v = none
  rw [Function.update_of_ne (hne _ (by decide)), Function.update_of_ne (hne _ (by decide)),
    Function.update_of_ne (hne _ (by decide))]

section Started

variable {t : StubTable} {owned : Nat → Bool} {program : Cpu → Cpu → Prop} {k k' : Interrupts}
  {s s' : Cpu}

/-- The lines of the timer and the keyboard are let through, and no other. -/
theorem Started.accepts_iff (h : Started t k) {line : Nat} :
    k.ports.accepts line ↔ line = 0 ∨ line = 1 := by
  unfold Ports.accepts Pic.accepts
  rw [h.master, h.slave]
  constructor
  · intro haccepts
    split at haccepts
    case isTrue hlt =>
      have hall : ∀ n : Fin 8, n.val ≠ 2 → (0xF8 : Byte).getLsbD n.val = false →
          n.val = 0 ∨ n.val = 1 := by decide
      exact hall ⟨line, hlt⟩ haccepts.2 haccepts.1.2.1
    case isFalse hge =>
      have hall : ∀ n : Fin 8, (0xFF : Byte).getLsbD n.val ≠ false := by decide
      exact absurd haccepts.2.1.2.1 (hall ⟨line - 8, by omega⟩)
  · rintro (rfl | rfl)
    · simp
    · simp

/-- Handlers in other places and other data do not matter. -/
theorem Started.of (h : Started t k) (hentries : k'.entries = k.entries)
    (hmaster : k'.ports.master = k.ports.master) (hslave : k'.ports.slave = k.ports.slave)
    (hhandlers : k'.handlers = k.handlers) : Started t k' := by
  refine ⟨?_, hmaster.trans h.master, hslave.trans h.slave, ?_, ?_, ?_, ?_⟩
  · rw [hentries]
    exact h.entries
  · rw [hhandlers]
    exact h.timer
  · rw [hhandlers]
    exact h.keyboard
  · rw [hhandlers]
    exact h.syscall
  · rw [hhandlers]
    exact h.exceptions

theorem testHandler_lt {v : Byte} (h : (testHandler v).isSome) : v.toNat < 32 := by
  unfold testHandler at h
  split at h
  case isTrue h0 =>
    rw [h0]
    decide
  case isFalse _ =>
    split at h
    case isTrue h6 =>
      rw [h6]
      decide
    case isFalse _ => cases h

/-- The shell registers and unregisters test handlers only. -/
theorem Started.update (h : Started t k) {vector : Byte} {handler : Option InterruptHandler}
    (htest : (testHandler vector).isSome)
    (hhandler : handler = none ∨ handler = testHandler vector) :
    Started t { k with handlers := Function.update k.handlers vector handler } := by
  have hlt := testHandler_lt htest
  have hne : ∀ w : Byte, 32 ≤ w.toNat → w ≠ vector := fun w hw heq => by
    rw [heq] at hw
    omega
  refine ⟨h.entries, h.master, h.slave, ?_, ?_, ?_, fun v hv => ?_⟩
  · exact (Function.update_of_ne (hne _ (by decide)) _ _).trans h.timer
  · exact (Function.update_of_ne (hne _ (by decide)) _ _).trans h.keyboard
  · exact (Function.update_of_ne (hne _ (by decide)) _ _).trans h.syscall
  · show Function.update k.handlers vector handler v = none
      ∨ Function.update k.handlers vector handler v = testHandler v
    by_cases heq : v = vector
    · rw [heq, Function.update_self]
      exact hhandler
    · rw [Function.update_of_ne heq]
      exact h.exceptions v hv

/-! ## The handlers -/

theorem intNo_toNat {n : Nat} (hn : n < 256) : (BitVec.ofNat 32 n &&& 0xFF).toNat = n := by
  have hmask : (0xFF : BitVec 32).toNat = 2 ^ 8 - 1 := by decide
  rw [BitVec.toNat_and, hmask, Nat.and_two_pow_sub_one_eq_mod, BitVec.toNat_ofNat]
  omega

/-- `idt_handle_interrupt` with the vector that the stub pushed. -/
theorem idtHandleInterrupt_eq {f : Frame} {n : Nat} {handler : InterruptHandler} (hn : n < 256)
    (hint : f.intNo = BitVec.ofNat 32 n) (hhandler : k.handlers (BitVec.ofNat 8 n) = some handler) :
    idtHandleInterrupt f k = (handler.call f k).map fun r =>
      (r.1, if 32 ≤ n ∧ n < 48 then { r.2 with ports := picSendEoi r.2.ports (n - 32) }
        else r.2) := by
  unfold idtHandleInterrupt irqBaseVector
  dsimp only
  rw [hint, intNo_toNat hn, hhandler]
  dsimp only
  cases handler.call f k with
  | error e => rfl
  | ok r =>
      rw [bind_of_ok rfl, map_of_ok rfl]
      by_cases h : 32 ≤ n ∧ n < 48
      · rw [if_pos h, if_pos h]
        rfl
      · rw [if_neg h, if_neg h]
        rfl

/-- Without a handler an exception is a panic. -/
theorem idtHandleInterrupt_panic {f : Frame} {n : Nat} (hn : n < 32)
    (hint : f.intNo = BitVec.ofNat 32 n) (hhandler : k.handlers (BitVec.ofNat 8 n) = none) :
    idtHandleInterrupt f k = .error (.panic (exceptionMessages.getD n "")) := by
  unfold idtHandleInterrupt
  dsimp only
  rw [hint, intNo_toNat (by omega), hhandler]
  dsimp only
  rw [if_pos hn]
  rfl

/-- The interrupted code goes on, and its memory is as it was. -/
theorem InterruptTaken.spec {vector : Byte} {errorCode : Option (BitVec 32)}
    (h : InterruptTaken t owned s k vector errorCode s' k')
    (hvector : vector.toNat ∈ isrVectors)
    (hgate : (k.entries vector).gate = some ⟨gdtKernelCodeSelector, t.address vector.toNat⟩)
    (herror : errorCode.isSome ↔ vector.toNat ∈ isrErr) :
    ∃ left, idtHandleInterrupt (Frame.save (s.view owned) (BitVec.ofNat 32 vector.toNat)
        (errorCode.getD 0)) k = .ok (left, k')
      ∧ s'.view owned = left.resume (s.view owned) := by
  obtain @⟨gate, stub, seen, left, s', k', gate_eq, mem, at_stub, room, pass, call⟩ := h
  obtain rfl := Option.some.inj (hgate.symm.trans gate_eq)
  obtain rfl := t.apart _ _ mem hvector at_stub
  obtain ⟨hseen, m, hback, hkept⟩ := pass.spec herror room fun x hx => hx.2
  refine ⟨left, ?_, ?_⟩
  · rw [← call, hseen]
    rfl
  · rw [hback]
    have hsp : (left.resume { s with mem := m }).sp = s.sp := rfl
    unfold Cpu.view
    rw [hsp]
    have hmem : (fun x => if owned x = true ∧ s.sp ≤ x then m x else 0)
        = fun x => if owned x = true ∧ s.sp ≤ x then s.mem x else 0 := funext fun x => by
      by_cases hx : owned x = true ∧ s.sp ≤ x
      · rw [if_pos hx, if_pos hx, hkept x hx]
      · rw [if_neg hx, if_neg hx]
    show ({ left.resume { s with mem := m } with
      mem := fun x => if owned x = true ∧ s.sp ≤ x then m x else 0 } : Cpu) = _
    rw [hmem]
    rfl

/-- An interrupt with a gate is taken whenever its call returns. -/
theorem InterruptTaken.exists_of_call {vector : Byte} {errorCode : Option (BitVec 32)}
    {left : Frame} (hvector : vector.toNat ∈ isrVectors)
    (hgate : (k.entries vector).gate = some ⟨gdtKernelCodeSelector, t.address vector.toNat⟩)
    (herror : errorCode.isSome ↔ vector.toNat ∈ isrErr) (hroom : 76 ≤ s.sp)
    (hcall : idtHandleInterrupt (Frame.save s (BitVec.ofNat 32 vector.toNat)
      (errorCode.getD 0)) k = .ok (left, k')) :
    ∃ s', InterruptTaken t owned s k vector errorCode s' k' := by
  obtain ⟨s', hpass⟩ : ∃ s', InterruptPass (fun x => owned x = true ∧ s.sp ≤ x) s vector.toNat
      errorCode gdtKernelCodeSelector (t.address vector.toNat) _ left s' :=
    InterruptPass.exists_left herror hroom (fun x hx => hx.2) _ _ left
  exact ⟨s', .taken hgate hvector rfl hroom hpass hcall⟩

/-! ## Steps -/

/-- An interrupt of a line whose handler leaves the structure alone. -/
theorem Started.irq (h : Started t k) {line : Nat} {scancode : Byte} {handler : InterruptHandler}
    (handle : Interrupts → Interrupts) (hline : line = 0 ∨ line = 1)
    (htaken : InterruptTaken t owned s ((k.showing scancode).taking line) (k.ports.vector line) none
      s' k')
    (hhandler : k.handlers (BitVec.ofNat 8 (32 + line)) = some handler)
    (hhandle : ∀ f k, handler.call f k = .ok (f, handle k))
    (hports : handle ((k.showing scancode).taking line) = (handle (k.showing scancode)).taking line)
    (hsame : (handle (k.showing scancode)).ports = (k.showing scancode).ports) :
    s'.view owned = s.view owned ∧ k' = handle (k.showing scancode) := by
  have hvector : k.ports.vector line = BitVec.ofNat 8 (32 + line) := by
    unfold Ports.vector
    rw [h.master]
    rcases hline with rfl | rfl <;> rfl
  have hnat : (BitVec.ofNat 8 (32 + line)).toNat = 32 + line := by
    rw [BitVec.toNat_ofNat]
    omega
  have hlist : 32 + line ∈ isrVectors ∧ 32 + line ∉ isrErr := by
    rcases hline with rfl | rfl <;> decide
  rw [hvector] at htaken
  obtain ⟨left, hcall, hview⟩ := htaken.spec (by rw [hnat]; exact hlist.1)
    (h.entries _ (by rw [hnat]; exact hlist.1)) (by rw [hnat]; simp [hlist.2])
  rw [hnat, idtHandleInterrupt_eq (k := (k.showing scancode).taking line) (n := 32 + line)
      (by omega) rfl hhandler, hhandle,
    map_of_ok rfl, if_pos (by omega), Nat.add_sub_cancel_left, hports] at hcall
  obtain ⟨rfl, rfl⟩ := Prod.mk.inj (Except.ok.inj hcall)
  have heoi : picSendEoi ((handle (k.showing scancode)).ports.acknowledge line) line
      = (handle (k.showing scancode)).ports := by
    rw [hsame]
    refine picSendEoi_acknowledge (by omega) ?_ ?_
    · show k.ports.master.inService = 0
      rw [h.master]
    · show k.ports.slave.inService = 0
      rw [h.slave]
  refine ⟨hview.trans (Frame.resume_save _ _ _), ?_⟩
  show ({ handle (k.showing scancode) with
    ports := picSendEoi ((handle (k.showing scancode)).ports.acknowledge line) line }
      : Interrupts) = _
  rw [heoi]

/-- Both test handlers do the same. -/
theorem Started.exception_handler (h : Started t k) {vector : Nat} {handler : InterruptHandler}
    (hlt : vector < 32) (hhandler : k.handlers (BitVec.ofNat 8 vector) = some handler) :
    testHandler (BitVec.ofNat 8 vector) = some handler
      ∧ ∀ f k, handler.call f k = .ok (exceptionTestHandler f k) := by
  have htest : testHandler (BitVec.ofNat 8 vector) = some handler := by
    have hbyte : (BitVec.ofNat 8 vector).toNat < 32 := by
      rw [BitVec.toNat_ofNat]
      omega
    rcases h.exceptions (BitVec.ofNat 8 vector) hbyte with hnone | htest
    · rw [hhandler] at hnone
      cases hnone
    · rw [← htest, hhandler]
  refine ⟨htest, fun f k => ?_⟩
  unfold testHandler at htest
  split at htest
  case isTrue _ =>
    obtain rfl := Option.some.inj htest
    rfl
  case isFalse _ =>
    split at htest
    case isTrue _ =>
      obtain rfl := Option.some.inj htest
      rfl
    case isFalse _ => cases htest

theorem Started.exception (h : Started t k) {vector : Nat} {errorCode : Option (BitVec 32)}
    (hlt : vector < 32) (herror : errorCode.isSome ↔ vector ∈ isrErr)
    (htaken : InterruptTaken t owned s k (BitVec.ofNat 8 vector) errorCode s' k') :
    (testHandler (BitVec.ofNat 8 vector)).isSome
      ∧ s'.view owned = { s.view owned with eip := s.eip + 2 }
      ∧ k' = { k with exceptionTest := ⟨true, BitVec.ofNat 32 vector, s.eip⟩ } := by
  have hnat : (BitVec.ofNat 8 vector).toNat = vector := by
    rw [BitVec.toNat_ofNat]
    omega
  have hmem : vector ∈ isrVectors := List.mem_append_left _ (List.mem_range.mpr (by omega))
  obtain ⟨left, hcall, hview⟩ := htaken.spec (by rwa [hnat]) (h.entries _ (by rwa [hnat]))
    (by rwa [hnat])
  rw [hnat] at hcall
  cases hhandler : k.handlers (BitVec.ofNat 8 vector) with
  | none =>
      rw [idtHandleInterrupt_panic hlt rfl hhandler] at hcall
      cases hcall
  | some handler =>
      obtain ⟨htest, hhandle⟩ := h.exception_handler hlt hhandler
      rw [idtHandleInterrupt_eq (by omega) rfl hhandler, hhandle, map_of_ok rfl,
        if_neg (by omega)] at hcall
      obtain ⟨rfl, rfl⟩ := Prod.mk.inj (Except.ok.inj hcall)
      refine ⟨by rw [htest]; rfl, hview.trans ?_, rfl⟩
      exact Frame.resume_eip _ _ _ _

theorem Started.syscall_taken (h : Started t k)
    (htaken : InterruptTaken t owned s k syscallVector none s' k') :
    ∃ result kernel, syscallDispatch k.kernel (s.reg .eax).toNat (s.reg .ebx).toNat
        (s.reg .ecx).toNat (s.reg .edx).toNat = .ok (result, kernel)
      ∧ s'.view owned = (s.view owned).set .eax (BitVec.ofNat 32 result)
      ∧ k' = { k with kernel := kernel } := by
  obtain ⟨left, hcall, hview⟩ := htaken.spec (by decide) (h.entries _ (by decide)) (by decide)
  rw [idtHandleInterrupt_eq (n := 128) (by omega) rfl h.syscall, map_eq_ok] at hcall
  obtain ⟨⟨f, k1⟩, hcall, heq⟩ := hcall
  obtain ⟨⟨result, kernel⟩, hdispatch, heq'⟩ := bind_eq_ok.mp hcall
  obtain ⟨rfl, rfl⟩ := Prod.mk.inj (Except.ok.inj heq')
  obtain ⟨rfl, rfl⟩ := Prod.mk.inj heq
  refine ⟨result, kernel, hdispatch, hview.trans ?_, rfl⟩
  exact Frame.resume_eax _ _ _ _

/-- One step of the machine is one step of what the code sees. -/
theorem Started.step (h : Started t k) {action : InterruptAction}
    (hstep : InterruptStep t owned program (s, k) action (s', k')) :
    ProgramStep program (s.view owned, k) action (s'.view owned, k') ∧ Started t k' := by
  cases hstep with
  | code code => exact ⟨.code code, h⟩
  | register test =>
      exact ⟨.register test, h.update (by rw [test]; rfl) (Or.inr test.symm)⟩
  | unregister test => exact ⟨.unregister test, h.update test (Or.inl rfl)⟩
  | @irq _ _ _ _ line scancode enabled accepts taken =>
      rcases h.accepts_iff.mp accepts with rfl | rfl
      · obtain ⟨hview, rfl⟩ := h.irq timerInterrupt (Or.inl rfl) taken h.timer
          (fun _ _ => rfl) rfl rfl
        rw [hview]
        exact ⟨.timer, h.of rfl rfl rfl rfl⟩
      · obtain ⟨hview, rfl⟩ := h.irq keyboardInterrupt (Or.inr rfl) taken h.keyboard
          (fun _ _ => rfl) rfl rfl
        rw [hview]
        exact ⟨.keyboard, h.of rfl rfl rfl rfl⟩
  | exception lt error taken =>
      obtain ⟨hregistered, hview, rfl⟩ := h.exception lt error taken
      rw [hview]
      exact ⟨.exception hregistered, h.of rfl rfl rfl rfl⟩
  | syscall taken =>
      obtain ⟨result, kernel, hcall, hview, rfl⟩ := h.syscall_taken taken
      rw [hview]
      exact ⟨.syscall hcall, h.of rfl rfl rfl rfl⟩

/-- No accepted interrupt is left unserved. -/
theorem Started.irq_served (h : Started t k) {line : Nat} (scancode : Byte)
    (henabled : s.eflags &&& eflagsInterrupt ≠ 0) (haccepts : k.ports.accepts line)
    (hroom : 76 ≤ s.sp) :
    ∃ x, InterruptStep t owned program (s, k) (.irq line scancode) x := by
  have hvector : k.ports.vector line = BitVec.ofNat 8 (32 + line) := by
    unfold Ports.vector
    rw [h.master]
    rcases h.accepts_iff.mp haccepts with rfl | rfl <;> rfl
  have hnat : (k.ports.vector line).toNat = 32 + line := by
    have := h.accepts_iff.mp haccepts
    rw [hvector, BitVec.toNat_ofNat]
    omega
  have hlist : 32 + line ∈ isrVectors ∧ 32 + line ∉ isrErr := by
    rcases h.accepts_iff.mp haccepts with rfl | rfl <;> decide
  have hhandler : ∃ (handler : InterruptHandler) (handle : Interrupts → Interrupts),
      k.handlers (BitVec.ofNat 8 (32 + line)) = some handler
        ∧ ∀ f k, handler.call f k = .ok (f, handle k) := by
    rcases h.accepts_iff.mp haccepts with rfl | rfl
    · exact ⟨_, timerInterrupt, h.timer, fun _ _ => rfl⟩
    · exact ⟨_, keyboardInterrupt, h.keyboard, fun _ _ => rfl⟩
  obtain ⟨handler, handle, hhandler, hhandle⟩ := hhandler
  have hcall := idtHandleInterrupt_eq (k := (k.showing scancode).taking line) (n := 32 + line)
    (f := Frame.save s (BitVec.ofNat 32 (32 + line)) 0)
    (by have := h.accepts_iff.mp haccepts; omega) rfl hhandler
  rw [hhandle, map_of_ok rfl, ← hnat] at hcall
  have hgate := h.entries (k.ports.vector line) (by rw [hnat]; exact hlist.1)
  have herror : (none : Option (BitVec 32)).isSome ↔ (k.ports.vector line).toNat ∈ isrErr := by
    rw [hnat]
    simp [hlist.2]
  obtain ⟨s', htaken⟩ : ∃ s', InterruptTaken t owned s ((k.showing scancode).taking line)
      (k.ports.vector line) none s' _ :=
    InterruptTaken.exists_of_call (by rw [hnat]; exact hlist.1) hgate herror hroom hcall
  exact ⟨_, .irq henabled haccepts htaken⟩

/-- No exception with a handler is left unserved. -/
theorem Started.exception_served (h : Started t k) {vector : Nat} {errorCode : Option (BitVec 32)}
    {handler : InterruptHandler} (hhandler : k.handlers (BitVec.ofNat 8 vector) = some handler)
    (hlt : vector < 32) (herror : errorCode.isSome ↔ vector ∈ isrErr) (hroom : 76 ≤ s.sp) :
    ∃ x, InterruptStep t owned program (s, k) (.exception vector errorCode) x := by
  have hnat : (BitVec.ofNat 8 vector).toNat = vector := by
    rw [BitVec.toNat_ofNat]
    omega
  have hmem : vector ∈ isrVectors := List.mem_append_left _ (List.mem_range.mpr (by omega))
  obtain ⟨-, hhandle⟩ := h.exception_handler hlt hhandler
  have hcall := idtHandleInterrupt_eq (n := vector)
    (f := Frame.save s (BitVec.ofNat 32 vector) (errorCode.getD 0)) (by omega) rfl hhandler
  rw [hhandle, map_of_ok rfl] at hcall
  obtain ⟨s', htaken⟩ : ∃ s', InterruptTaken t owned s k (BitVec.ofNat 8 vector) errorCode s' _ :=
    InterruptTaken.exists_of_call (by rwa [hnat]) (h.entries _ (by rwa [hnat])) (by rwa [hnat])
      hroom (by rw [hnat]; exact hcall)
  exact ⟨_, .exception hlt herror htaken⟩

/-- No system call that the kernel answers is left unserved. -/
theorem Started.syscall_served (h : Started t k) {result : Nat} {kernel : Kernel}
    (hdispatch : syscallDispatch k.kernel (s.reg .eax).toNat (s.reg .ebx).toNat
      (s.reg .ecx).toNat (s.reg .edx).toNat = .ok (result, kernel)) (hroom : 76 ≤ s.sp) :
    ∃ x, InterruptStep t owned program (s, k) .syscall x := by
  have hcall := idtHandleInterrupt_eq (n := 128) (f := Frame.save s (BitVec.ofNat 32 128) 0)
    (by omega) rfl h.syscall
  have hhandle : InterruptHandler.syscallHandler.call (Frame.save s (BitVec.ofNat 32 128) 0) k
      = .ok ({ Frame.save s (BitVec.ofNat 32 128) 0 with eax := BitVec.ofNat 32 result },
        { k with kernel := kernel }) := bind_of_ok hdispatch
  rw [hhandle, map_of_ok rfl] at hcall
  obtain ⟨s', htaken⟩ : ∃ s', InterruptTaken t owned s k syscallVector none s' _ :=
    InterruptTaken.exists_of_call (by decide) (h.entries _ (by decide)) (by decide) hroom hcall
  exact ⟨_, .syscall htaken⟩

end Started

/-! ## Runs -/

/-- From what `kernel_main` starts, every run of the machine is a run as the
code sees it. The controllers never hold back the timer or the keyboard, and
let nothing else through; where interrupts are on, either is served. -/
theorem interruptRun_refines {t : StubTable} {owned : Nat → Bool} {program : Cpu → Cpu → Prop}
    {s s' : Cpu} {k k' : Interrupts} {actions : List InterruptAction}
    (hrun : Run (InterruptStep t owned program) (s, startInterrupts t k) actions (s', k')) :
    Run (ProgramStep program) (s.view owned, startInterrupts t k) actions (s'.view owned, k')
      ∧ ∀ line, (k'.ports.accepts line ↔ line = 0 ∨ line = 1)
        ∧ (k'.ports.accepts line → s'.eflags &&& eflagsInterrupt ≠ 0 → 76 ≤ s'.sp → ∀ scancode,
          ∃ x, InterruptStep t owned program (s', k') (.irq line scancode) x) := by
  suffices hboth : Run (ProgramStep program) (s.view owned, startInterrupts t k) actions
      (s'.view owned, k') ∧ Started t k' from
    ⟨hboth.1, fun line => ⟨hboth.2.accepts_iff, fun haccepts henabled hroom scancode =>
      hboth.2.irq_served scancode henabled haccepts hroom⟩⟩
  refine hrun.invariant_trace (I := fun actions x =>
    Run (ProgramStep program) (s.view owned, startInterrupts t k) actions (x.1.view owned, x.2)
      ∧ Started t x.2) ⟨.nil, startInterrupts_started t k⟩ ?_
  rintro actions ⟨s1, k1⟩ action ⟨s2, k2⟩ ⟨hsees, hstarted⟩ hstep
  obtain ⟨hseen, hstarted'⟩ := hstarted.step hstep
  exact ⟨.snoc hsees hseen, hstarted'⟩

/-- An instruction, a tick of the timer, a division by zero with the test
handler in place, and `getuid`. -/
theorem interruptRun_refines_session : ∃ (t : StubTable) (s s' : Cpu) (k k' : Interrupts),
    Run (InterruptStep t (fun _ => true) fun v v' => v' = { v with eip := v.eip + 1 })
        (s, startInterrupts t k)
        [.code, .irq 0 0x1E, .register 0, .exception 0 none, .syscall] (s', k')
      ∧ Run (ProgramStep fun v v' => v' = { v with eip := v.eip + 1 })
        (s.view fun _ => true, startInterrupts t k)
        [.code, .irq 0 0x1E, .register 0, .exception 0 none, .syscall]
        (s'.view fun _ => true, k') := by
  have hvectors : ∀ v ∈ isrVectors, v < 256 := by decide
  let t : StubTable := ⟨fun v => BitVec.ofNat 32 v, fun v w hv hw heq => by
    have hnat := congrArg BitVec.toNat heq
    have hltv := hvectors v hv
    have hltw := hvectors w hw
    rw [BitVec.toNat_ofNat, BitVec.toNat_ofNat] at hnat
    omega⟩
  let p : Pic := ⟨0, 0, 0, 0, 0, .mask⟩
  let irq : Irq := ⟨⟨fun _ => none, fun _ => ⟨0, 0, 0⟩, 0, 0⟩, fun _ => 0, 0, 0⟩
  let k : Interrupts := ⟨fun _ => ⟨0, 0, 0, 0, 0⟩, fun _ => none, ⟨p, p, ⟨0, none⟩, 0⟩, 0, 0,
    ⟨irq, false, false⟩, processInit eightMegabytes, false, 0, 0⟩
  let s : Cpu := ⟨fun r => if r = .eax then 4 else 0x9000, fun _ => 0x10, 0x08, 0, 0x202,
    fun _ => 0⟩
  let program : Cpu → Cpu → Prop := fun v v' => v' = { v with eip := v.eip + 1 }
  have h0 := startInterrupts_started t k
  have hcode : InterruptStep t (fun _ => true) program (s, startInterrupts t k) .code
      ({ s with eip := s.eip + 1 }, startInterrupts t k) := .code rfl
  obtain ⟨⟨s2, k2⟩, hirq⟩ : ∃ x, InterruptStep t (fun _ => true) program
      ({ s with eip := s.eip + 1 }, startInterrupts t k) (.irq 0 0x1E) x :=
    h0.irq_served 0x1E (by decide) (h0.accepts_iff.mpr (Or.inl rfl)) (show 76 ≤ 0x9000 by omega)
  obtain ⟨hsees2, h2⟩ := h0.step hirq
  generalize hview2 : s2.view (fun _ => true) = v2 at hsees2
  cases hsees2
  let k2 := timerInterrupt ((startInterrupts t k).showing 0x1E)
  have hregister : InterruptStep t (fun _ => true) program (s2, k2) (.register 0)
      (s2, idtRegisterHandler k2 0 .div0TestHandler) := .register rfl
  have hregs2 : s2.reg = s.reg := (congrArg Cpu.reg hview2 :)
  have hroom : ∀ r : Cpu, r.reg = s.reg → 76 ≤ r.sp := fun r hr => by
    unfold Cpu.sp
    rw [hr]
    decide
  have h3 := (h2.step hregister).2
  obtain ⟨⟨s4, k4⟩, hexception⟩ : ∃ x, InterruptStep t (fun _ => true) program
      (s2, idtRegisterHandler k2 0 .div0TestHandler) (.exception 0 none) x :=
    h3.exception_served rfl (by decide) (by decide) (hroom s2 hregs2)
  obtain ⟨hsees4, h4⟩ := h3.step hexception
  generalize hview4 : s4.view (fun _ => true) = v4 at hsees4
  cases hsees4
  have hregs4 : s4.reg = s.reg := (congrArg Cpu.reg hview4 :).trans hregs2
  have hdispatch : syscallDispatch k2.kernel (s4.reg .eax).toNat (s4.reg .ebx).toNat
      (s4.reg .ecx).toNat (s4.reg .edx).toNat = .ok (0, k2.kernel) := by
    rw [hregs4]
    rfl
  obtain ⟨⟨s', k'⟩, hsyscall⟩ : ∃ x, InterruptStep t (fun _ => true) program (s4, _) .syscall x :=
    h4.syscall_served hdispatch (hroom s4 hregs4)
  have hrun := ((((Run.one hcode).snoc hirq).snoc hregister).snoc hexception).snoc hsyscall
  exact ⟨t, s, s', k, k', hrun, (interruptRun_refines hrun).1⟩

end Kfs
