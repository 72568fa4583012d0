import Kfs.InterruptStubs
import Kfs.Keyboard
import Kfs.Syscalls

/-!
# The interrupt table and the interrupt controllers

`kernel/src/idt.c`, `kernel/src/timer.c` and the handlers that other files
register: those of the keyboard, of the system calls and of the two commands
of the shell that cause an exception.

`Pic` and `Pit` are the devices as the kernel programs them. A controller
holds back a line that is masked, or behind a line in service; `0x20` takes
the line in service with the highest priority out of service. What the
kernel never writes to them does nothing here.
-/

namespace Kfs

/-! ## The table -/

/-- `struct idt_entry`. -/
structure IdtEntry where
  baseLow : BitVec 16
  selector : BitVec 16
  zero : BitVec 8
  flags : BitVec 8
  baseHigh : BitVec 16
  deriving DecidableEq, Repr

structure Gate where
  selector : BitVec 16
  offset : BitVec 32
  deriving DecidableEq, Repr

/-- What the processor reads from an entry: present, and a gate for
interrupts in code of 32 bits. -/
def IdtEntry.gate (e : IdtEntry) : Option Gate :=
  if e.flags &&& 0x9F = 0x8E then
    some ⟨e.selector, e.baseHigh.zeroExtend 32 <<< 16 ||| e.baseLow.zeroExtend 32⟩
  else none

abbrev IdtEntries := Byte → IdtEntry

def idtFlagInterruptGate : BitVec 8 := 0x8E
def idtFlagSyscallGate : BitVec 8 := 0xEE
def gdtKernelCodeSelector : BitVec 16 := 0x08

def idtSetGate (entries : IdtEntries) (vector : Byte) (base : BitVec 32) (selector : BitVec 16)
    (flags : BitVec 8) : IdtEntries :=
  Function.update entries vector
    { baseLow := (base &&& 0xFFFF).truncate 16
      selector := selector
      zero := 0
      flags := flags
      baseHigh := ((base >>> 16) &&& 0xFFFF).truncate 16 }

/-! ## The devices -/

/-- What the next byte for the data port of a controller is. -/
inductive PicData where
  | mask
  | offset (single icw4 : Bool)
  | cascade (icw4 : Bool)
  | icw4
  deriving DecidableEq, Repr

/-- An interrupt controller; bit `n` of `inService` is its line `n`. -/
structure Pic where
  mask : Byte
  offset : Byte
  cascade : Byte
  mode : Byte
  inService : Byte
  next : PicData
  deriving DecidableEq, Repr

def Pic.command (p : Pic) (v : Byte) : Pic :=
  if v &&& 0x10 ≠ 0 then
    { p with
      mask := 0
      inService := 0
      next := .offset (v &&& 0x02 ≠ 0) (v &&& 0x01 ≠ 0) }
  else if v = 0x20 then { p with inService := p.inService &&& (p.inService - 1) }
  else p

def Pic.data (p : Pic) (v : Byte) : Pic :=
  match p.next with
  | .mask => { p with mask := v }
  | .offset single icw4 =>
      { p with
        offset := v &&& 0xF8
        next := if single then (if icw4 then .icw4 else .mask) else .cascade icw4 }
  | .cascade icw4 => { p with cascade := v, next := if icw4 then .icw4 else .mask }
  | .icw4 => { p with mode := v, next := .mask }

/-- The counter of the timer is loaded in two bytes, the low one first. -/
structure Pit where
  reload : Nat
  low : Option Byte
  deriving DecidableEq, Repr

structure Ports where
  master : Pic
  slave : Pic
  pit : Pit
  keyboardData : Byte
  deriving DecidableEq, Repr

def pic1CommandPort : Nat := 0x20
def pic1DataPort : Nat := 0x21
def pic2CommandPort : Nat := 0xA0
def pic2DataPort : Nat := 0xA1
def pitChannel0Port : Nat := 0x40
def pitCommandPort : Nat := 0x43
def keyboardDataPort : Nat := 0x60

def inb (p : Ports) (port : Nat) : Byte :=
  if port = pic1DataPort then p.master.mask
  else if port = pic2DataPort then p.slave.mask
  else if port = keyboardDataPort then p.keyboardData
  else 0xFF

def outb (p : Ports) (port : Nat) (v : Byte) : Ports :=
  if port = pic1CommandPort then { p with master := p.master.command v }
  else if port = pic1DataPort then { p with master := p.master.data v }
  else if port = pic2CommandPort then { p with slave := p.slave.command v }
  else if port = pic2DataPort then { p with slave := p.slave.data v }
  else if port = pitCommandPort then { p with pit := { p.pit with low := none } }
  else if port = pitChannel0Port then
    match p.pit.low with
    | none => { p with pit := { p.pit with low := some v } }
    | some low => { p with pit := ⟨low.toNat + 256 * v.toNat, none⟩ }
  else p

/-- The line is not held back. -/
def Pic.accepts (p : Pic) (line : Nat) : Prop :=
  p.next = .mask ∧ p.mask.getLsbD line = false ∧ ∀ j ≤ line, p.inService.getLsbD j = false

/-- Line 2 is the slave's. -/
def Ports.accepts (p : Ports) (line : Nat) : Prop :=
  if line < 8 then p.master.accepts line ∧ line ≠ 2
  else line < 16 ∧ p.slave.accepts (line - 8) ∧ p.master.accepts 2

def Pic.acknowledge (p : Pic) (line : Nat) : Pic :=
  { p with inService := p.inService ||| (1 : Byte) <<< line }

/-- The processor takes the interrupt: the controllers put the line in
service and tell the vector. -/
def Ports.acknowledge (p : Ports) (line : Nat) : Ports :=
  if line < 8 then { p with master := p.master.acknowledge line }
  else { p with master := p.master.acknowledge 2, slave := p.slave.acknowledge (line - 8) }

def Ports.vector (p : Ports) (line : Nat) : Byte :=
  if line < 8 then p.master.offset + BitVec.ofNat 8 line
  else p.slave.offset + BitVec.ofNat 8 (line - 8)

/-! ## `pic_remap`, `pic_send_eoi` and `pic_clear_mask` -/

def picRemap (p : Ports) (masterOffset slaveOffset : Byte) : Ports :=
  let masterMask := inb p pic1DataPort
  let slaveMask := inb p pic2DataPort
  let p := outb p pic1CommandPort 0x11
  let p := outb p pic2CommandPort 0x11
  let p := outb p pic1DataPort masterOffset
  let p := outb p pic2DataPort slaveOffset
  let p := outb p pic1DataPort 4
  let p := outb p pic2DataPort 2
  let p := outb p pic1DataPort 0x01
  let p := outb p pic2DataPort 0x01
  let p := outb p pic1DataPort masterMask
  outb p pic2DataPort slaveMask

def picEoi : Byte := 0x20

def picSendEoi (p : Ports) (irq : Nat) : Ports :=
  let p := if irq ≥ 8 then outb p pic2CommandPort picEoi else p
  outb p pic1CommandPort picEoi

/-- The port with the mask of a line, and its bit there. -/
def picMaskPort (irq : Nat) : Nat × Nat :=
  if irq < 8 then (pic1DataPort, irq) else (pic2DataPort, irq - 8)

def picClearMask (p : Ports) (irq : Nat) : Ports :=
  let (port, irq) := picMaskPort irq
  outb p port (inb p port &&& ~~~((1 : Byte) <<< irq))

/-! ## The kernel's side -/

inductive InterruptHandler where
  | timerInterrupt
  | keyboardInterrupt
  | syscallHandler
  | div0TestHandler
  | invopTestHandler
  deriving DecidableEq, Repr

/-- `exception_test_caught`, `exception_test_vector` and
`exception_test_eip`. -/
structure ExceptionTest where
  caught : Bool
  vector : BitVec 32
  eip : BitVec 32

/-- What interrupts read and write. -/
structure Interrupts where
  entries : IdtEntries
  handlers : Byte → Option InterruptHandler
  ports : Ports
  pitTicks : Nat
  pitFrequency : Nat
  keyboard : Keyboard
  kernel : Kernel
  exceptionTest : ExceptionTest

def timerInterrupt (k : Interrupts) : Interrupts :=
  { k with
    pitTicks := add32 k.pitTicks 1
    kernel := schedulerTick k.kernel }

def keyboardInterrupt (k : Interrupts) : Interrupts :=
  { k with keyboard := keyboardHandler k.keyboard (inb k.ports keyboardDataPort) }

def syscallHandler (registers : Frame) (k : Interrupts) : Except Fault (Frame × Interrupts) := do
  let (result, kernel) ← syscallDispatch k.kernel registers.eax.toNat registers.ebx.toNat
    registers.ecx.toNat registers.edx.toNat
  return ({ registers with eax := BitVec.ofNat 32 result }, { k with kernel := kernel })

/-- The body of `div0_test_handler` and `invop_test_handler`: both
instructions have two bytes. -/
def exceptionTestHandler (registers : Frame) (k : Interrupts) : Frame × Interrupts :=
  ({ registers with eip := registers.eip + 2 },
    { k with exceptionTest := ⟨true, registers.intNo, registers.eip⟩ })

def InterruptHandler.call (registers : Frame) (k : Interrupts) :
    InterruptHandler → Except Fault (Frame × Interrupts)
  | .timerInterrupt => .ok (registers, Kfs.timerInterrupt k)
  | .keyboardInterrupt => .ok (registers, Kfs.keyboardInterrupt k)
  | .syscallHandler => Kfs.syscallHandler registers k
  | .div0TestHandler | .invopTestHandler => .ok (exceptionTestHandler registers k)

def exceptionMessages : List String :=
  ["Division by zero", "Debugger", "Non-maskable interrupt", "Breakpoint", "Overflow",
    "Bound range exceeded", "Invalid opcode", "Device not available", "Double fault",
    "Coprocessor segment overrun", "Invalid task state segment", "Segment not present",
    "Stack fault", "General protection fault", "Page fault", "Reserved exception", "Math fault",
    "Alignment check", "Machine check", "SIMD floating-point exception"]
    ++ List.replicate 12 "Reserved exception"

def irqBaseVector : Nat := 32

def idtHandleInterrupt (registers : Frame) (k : Interrupts) :
    Except Fault (Frame × Interrupts) := do
  let vector := (registers.intNo &&& 0xFF).toNat
  let (registers, k) ← match k.handlers (BitVec.ofNat 8 vector) with
    | some handler => handler.call registers k
    | none =>
        if vector < 32 then .error (.panic (exceptionMessages.getD vector ""))
        else .ok (registers, k)
  if irqBaseVector ≤ vector ∧ vector < irqBaseVector + 16 then
    return (registers, { k with ports := picSendEoi k.ports (vector - irqBaseVector) })
  return (registers, k)

def idtRegisterHandler (k : Interrupts) (vector : Byte) (handler : InterruptHandler) :
    Interrupts :=
  { k with handlers := Function.update k.handlers vector (some handler) }

def idtUnregisterHandler (k : Interrupts) (vector : Byte) : Interrupts :=
  { k with handlers := Function.update k.handlers vector none }

def syscallVector : Byte := 0x80

/-- `interrupt_stub_table` and `isr128`: where the linker put the stubs. -/
structure StubTable where
  address : Nat → BitVec 32
  apart : ∀ v w, v ∈ isrVectors → w ∈ isrVectors → address v = address w → v = w

def idtClearTables (k : Interrupts) : Interrupts :=
  { k with
    entries := fun _ => ⟨0, 0, 0, 0, 0⟩
    handlers := fun _ => none }

def idtInit (t : StubTable) (k : Interrupts) : Interrupts :=
  let k := idtClearTables k
  let entries := forRange 0 48 (fun vector entries =>
    idtSetGate entries (BitVec.ofNat 8 vector) (t.address vector) gdtKernelCodeSelector
      idtFlagInterruptGate) k.entries
  let entries := idtSetGate entries syscallVector (t.address 0x80) gdtKernelCodeSelector
    idtFlagSyscallGate
  let ports := picRemap k.ports (BitVec.ofNat 8 irqBaseVector) (BitVec.ofNat 8 (irqBaseVector + 8))
  let ports := outb ports pic1DataPort 0xF9
  { k with
    entries := entries
    ports := outb ports pic2DataPort 0xFF }

def pitBaseFrequency : Nat := 1193182

def timerInit (k : Interrupts) (frequency : Nat) : Interrupts :=
  let frequency := if frequency = 0 then 100 else frequency
  let divisor := pitBaseFrequency / frequency
  let divisor := if divisor = 0 then 1 else divisor
  let k := { k with pitFrequency := frequency }
  let k := idtRegisterHandler k (BitVec.ofNat 8 32) .timerInterrupt
  let ports := outb k.ports pitCommandPort 0x36
  let ports := outb ports pitChannel0Port (BitVec.ofNat 8 (divisor % 256))
  let ports := outb ports pitChannel0Port (BitVec.ofNat 8 (divisor / 256 % 256))
  { k with ports := picClearMask (picClearMask ports 0) 2 }

/-- `signals_init` and the queue of `init_keyboard`. -/
def Keyboard.start (s : Keyboard) : Keyboard := { s with irq := irqInit s.irq }

/-- What `kernel_main` does about interrupts before it enables them:
`idt_init`, `signals_init`, `syscall_init`, `timer_init(50)` and
`init_keyboard`. -/
def startInterrupts (t : StubTable) (k : Interrupts) : Interrupts :=
  let k := idtInit t k
  let k := idtRegisterHandler k syscallVector .syscallHandler
  let k := timerInit k 50
  let k := idtRegisterHandler { k with keyboard := k.keyboard.start } (BitVec.ofNat 8 33)
    .keyboardInterrupt
  { k with ports := picClearMask (picClearMask k.ports 1) 2 }

/-! ## What `kernel_main` starts -/

theorem halves (base : BitVec 32) :
    (BitVec.truncate 16 ((base >>> 16) &&& 0xFFFF)).zeroExtend 32 <<< 16
      ||| (BitVec.truncate 16 (base &&& 0xFFFF)).zeroExtend 32 = base := by
  have hlow : ∀ x : BitVec 32, (x &&& 0xFFFF).truncate 16 = x.truncate 16 := fun x => by
    have hones : (0xFFFF : BitVec 32).setWidth 16 = BitVec.allOnes 16 := rfl
    rw [BitVec.truncate, BitVec.setWidth_and, hones, BitVec.and_allOnes]
  rw [hlow, hlow]
  apply BitVec.eq_of_getLsbD_eq
  intro i hi
  by_cases hlow : i < 16
  · simp [hi, hlow]
  · have hhigh : i - 16 < 16 := by omega
    have hback : 16 + (i - 16) = i := by omega
    simp [hi, hlow, hhigh, hback]

theorem IdtEntry.gate_idtSetGate (entries : IdtEntries) (vector v : Byte) (base : BitVec 32)
    (selector : BitVec 16) {flags : BitVec 8} (hflags : flags &&& 0x9F = 0x8E) :
    (idtSetGate entries vector base selector flags v).gate
      = if v = vector then some ⟨selector, base⟩ else (entries v).gate := by
  unfold idtSetGate
  by_cases hv : v = vector
  · subst hv
    rw [Function.update_self, if_pos rfl, IdtEntry.gate, if_pos hflags]
    dsimp only
    rw [halves]
  · rw [Function.update_of_ne hv, if_neg hv]

/-- The vectors with a stub have a gate to it, and no other has a gate. -/
theorem idtInit_gate (t : StubTable) (k : Interrupts) (v : Byte) :
    ((idtInit t k).entries v).gate
      = if v.toNat ∈ isrVectors then some ⟨gdtKernelCodeSelector, t.address v.toNat⟩ else none := by
  have hloop := forRange_invariant
    (f := fun vector entries => idtSetGate entries (BitVec.ofNat 8 vector) (t.address vector)
      gdtKernelCodeSelector idtFlagInterruptGate)
    (s := (idtClearTables k).entries)
    (I := fun i entries => ∀ v : Byte, (entries v).gate
      = if v.toNat < i then some ⟨gdtKernelCodeSelector, t.address v.toNat⟩ else none)
    (Nat.zero_le 48)
    (fun v => by
      rw [if_neg (Nat.not_lt_zero _)]
      exact if_neg (show ¬(0 : Byte) &&& 0x9F = 0x8E by decide)) fun i entries _ hi ih v => by
      rw [IdtEntry.gate_idtSetGate _ _ _ _ _ (by decide), ih]
      by_cases hv : v = BitVec.ofNat 8 i
      · have hnat : v.toNat = i := by
          rw [hv, BitVec.toNat_ofNat]
          omega
        rw [if_pos hv, if_pos (by omega), hnat]
      · have hnat : v.toNat ≠ i := fun heq => hv (by
          rw [← heq, BitVec.ofNat_toNat, BitVec.setWidth_eq])
        rw [if_neg hv]
        by_cases hlt : v.toNat < i
        · rw [if_pos hlt, if_pos (by omega)]
        · rw [if_neg hlt, if_neg (by omega)]
  have hvectors : v.toNat ∈ isrVectors ↔ v.toNat < 48 ∨ v = syscallVector := by
    simp only [isrVectors, List.mem_append, List.mem_range, List.mem_singleton, syscallVector,
      BitVec.toNat_eq]
    rfl
  show (idtSetGate _ syscallVector (t.address 0x80) gdtKernelCodeSelector idtFlagSyscallGate v).gate
    = _
  rw [IdtEntry.gate_idtSetGate _ _ _ _ _ (by decide), hloop]
  by_cases hv : v = syscallVector
  · rw [if_pos hv, if_pos (hvectors.mpr (Or.inr hv)), hv]
    rfl
  · rw [if_neg hv]
    simp only [hvectors, hv, or_false]

theorem idtInit_ports (t : StubTable) (k : Interrupts) :
    (idtInit t k).ports = { k.ports with
      master := ⟨0xF9, 0x20, 4, 1, 0, .mask⟩
      slave := ⟨0xFF, 0x28, 2, 1, 0, .mask⟩ } := by
  rfl

/-- `divisor` of `timer_init`. -/
def timerDivisor (frequency : Nat) : Nat :=
  max 1 (pitBaseFrequency / if frequency = 0 then 100 else frequency)

/-- The counter has sixteen bits. -/
theorem timerInit_ports (k : Interrupts) (frequency : Nat) (h : k.ports.master.next = .mask) :
    (timerInit k frequency).ports = { k.ports with
      master := { k.ports.master with mask := k.ports.master.mask &&& 0xFA }
      pit := ⟨timerDivisor frequency % 65536, none⟩ } := by
  have hmax : ∀ d, (if d = 0 then 1 else d) = max 1 d := fun d => by
    split <;> omega
  have hdivisor : (if (pitBaseFrequency / if frequency = 0 then 100 else frequency) = 0 then 1
      else pitBaseFrequency / if frequency = 0 then 100 else frequency)
      = timerDivisor frequency := hmax _
  unfold timerInit
  dsimp only
  rw [hdivisor]
  generalize timerDivisor frequency = d
  have hload : d % 256 + 256 * (d / 256 % 256) = d % 65536 := by omega
  simp [idtRegisterHandler, outb, inb, pitCommandPort, pitChannel0Port, pic1CommandPort,
    pic1DataPort, pic2CommandPort, pic2DataPort, picClearMask, picMaskPort, Pic.data, h, hload,
    BitVec.and_assoc]

theorem startInterrupts_ports (t : StubTable) (k : Interrupts) :
    (startInterrupts t k).ports
      = { master := ⟨0xF8, 0x20, 4, 1, 0, .mask⟩
          slave := ⟨0xFF, 0x28, 2, 1, 0, .mask⟩
          pit := ⟨23863, none⟩
          keyboardData := k.ports.keyboardData } := by
  have htimer := timerInit_ports
    (idtRegisterHandler (idtInit t k) syscallVector .syscallHandler) 50 rfl
  unfold startInterrupts
  have hdivisor : timerDivisor 50 % 65536 = 23863 := by decide
  dsimp only [idtRegisterHandler] at htimer ⊢
  rw [htimer, idtInit_ports, hdivisor]
  simp [picClearMask, picMaskPort, outb, inb, pic1CommandPort, pic1DataPort, Pic.data]

/-! ## In service and out -/

theorem eoi_acknowledge {line : Nat} (h : line < 8) :
    ((0 : Byte) ||| (1 : Byte) <<< line) &&& (((0 : Byte) ||| (1 : Byte) <<< line) - 1) = 0 := by
  have hall : ∀ n : Fin 8, ((0 : Byte) ||| (1 : Byte) <<< n.val)
      &&& (((0 : Byte) ||| (1 : Byte) <<< n.val) - 1) = 0 := by
    decide
  exact hall ⟨line, h⟩

/-- The end of an interrupt takes its line out of service, with the slave's
line on the master. -/
theorem picSendEoi_acknowledge {p : Ports} {line : Nat} (hline : line < 16)
    (hmaster : p.master.inService = 0) (hslave : p.slave.inService = 0) :
    picSendEoi (p.acknowledge line) line = p := by
  have hdone : ∀ (c : Pic) (n : Nat), c.inService = 0 → n < 8 →
      (c.acknowledge n).command picEoi = c := fun c n hc hn => by
    have hzero := eoi_acknowledge hn
    unfold Pic.command Pic.acknowledge
    rw [if_neg (by decide), if_pos (show picEoi = 0x20 from rfl), hc]
    dsimp only
    rw [hzero, ← hc]
  unfold picSendEoi Ports.acknowledge
  by_cases h : line < 8
  · rw [if_pos h, if_neg (by omega)]
    show { p with master := (p.master.acknowledge line).command picEoi } = p
    rw [hdone _ _ hmaster h]
  · rw [if_neg h, if_pos (by omega)]
    show { p with
      master := (p.master.acknowledge 2).command picEoi
      slave := (p.slave.acknowledge (line - 8)).command picEoi } = p
    rw [hdone _ _ hmaster (by omega), hdone _ _ hslave (by omega)]

end Kfs
