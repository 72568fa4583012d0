import Kfs.Lib.Cpu
import Kfs.Lib.Run
import Kfs.Process

/-!
# `process_context_switch`

The code of `process_switch.asm`. It leaves in the one context what a return
to the caller would leave in the registers, and goes on with what the other
context holds. So a thread that calls it sees a call that returns, however
many other threads had the processor in between: the registers that a C
function has to keep are as they were, the stack pointer is behind the return
address, and the code goes on there.

The processor's memory is the one that the code sees. Contexts lie in the
kernel's memory, which all directories show alike; stacks need not.
-/

namespace Kfs

/-- `process_context_t`. -/
structure ContextRecord where
  ebx : BitVec 32
  esi : BitVec 32
  edi : BitVec 32
  ebp : BitVec 32
  esp : BitVec 32
  eip : BitVec 32
  deriving DecidableEq, Repr

def ContextRecord.words (c : ContextRecord) : List (BitVec 32) :=
  [c.ebx, c.esi, c.edi, c.ebp, c.esp, c.eip]

/-- `sizeof(process_context_t)`. -/
def contextSize : Nat := 24

def processContextSwitch : List Instr :=
  [.load .eax .esp 4, .load .edx .esp 8,
    .store .eax 0 .ebx, .store .eax 4 .esi, .store .eax 8 .edi, .store .eax 12 .ebp,
    .lea .ecx .esp 4, .store .eax 16 .ecx, .load .ecx .esp 0, .store .eax 20 .ecx,
    .load .ebx .edx 0, .load .esi .edx 4, .load .edi .edx 8, .load .ebp .edx 12,
    .load .esp .edx 16, .load .ecx .edx 20, .jmpReg .ecx]

/-- What a return to `eip` leaves in the registers that a C function keeps. -/
def Cpu.returning (s : Cpu) (eip : BitVec 32) : ContextRecord :=
  ⟨s.reg .ebx, s.reg .esi, s.reg .edi, s.reg .ebp, s.reg .esp + 4, eip⟩

/-- The code goes on with these registers. -/
def Cpu.resumed (s : Cpu) : ContextRecord :=
  ⟨s.reg .ebx, s.reg .esi, s.reg .edi, s.reg .ebp, s.reg .esp, s.eip⟩

section Switch

variable {s : Cpu} {ret src dst : BitVec 32} {ws : List (BitVec 32)} {c : ContextRecord}

theorem add_toNat {a : BitVec 32} {n : Nat} (h : a.toNat + n < 4294967296) :
    (a + BitVec.ofNat 32 n).toNat = a.toNat + n := by
  bv_omega

/-- Six words at once. -/
def putContext (m : Mem) (a : Nat) (c : ContextRecord) : Mem :=
  putWord (putWord (putWord (putWord (putWord (putWord m a c.ebx) (a + 4) c.esi) (a + 8) c.edi)
    (a + 12) c.ebp) (a + 16) c.esp) (a + 20) c.eip

theorem putContext_outside {m : Mem} {a x : Nat} (hx : x < a ∨ a + contextSize ≤ x) :
    putContext m a c x = m x := by
  unfold contextSize at hx
  unfold putContext
  rw [putWord_outside (by omega), putWord_outside (by omega), putWord_outside (by omega),
    putWord_outside (by omega), putWord_outside (by omega), putWord_outside (by omega)]

theorem putContext_words (m : Mem) (a : Nat) (c : ContextRecord) :
    Words (putContext m a c) a c.words := by
  unfold putContext
  refine ⟨?_, ?_, ?_, ?_, ?_, word_putWord _ _ _, trivial⟩
  · rw [word_putWord_apart (by omega), word_putWord_apart (by omega), word_putWord_apart (by omega),
      word_putWord_apart (by omega), word_putWord_apart (by omega), word_putWord]
  · rw [word_putWord_apart (by omega), word_putWord_apart (by omega), word_putWord_apart (by omega),
      word_putWord_apart (by omega), word_putWord]
  · rw [word_putWord_apart (by omega), word_putWord_apart (by omega), word_putWord_apart (by omega),
      word_putWord]
  · rw [word_putWord_apart (by omega), word_putWord_apart (by omega), word_putWord]
  · rw [word_putWord_apart (by omega), word_putWord]

/-- The instructions up to `mov [eax + 20], ecx`. -/
theorem execAll_save (hstack : s.Holds (ret :: src :: dst :: ws))
    (hsrc : src.toNat + contextSize ≤ 4294967296)
    (hapart : src.toNat + contextSize ≤ s.sp ∨ s.sp + 4 ≤ src.toNat) :
    execAll (processContextSwitch.take 10) s
      = { ((s.set .eax src).set .edx dst).set .ecx ret with
        mem := putContext s.mem src.toNat (s.returning ret) } := by
  unfold contextSize at hsrc hapart
  have hfits := hstack.fits
  simp only [List.length_cons] at hfits
  have hesp : ∀ n, n < 12 → (s.reg .esp + BitVec.ofNat 32 n).toNat = s.sp + n := fun n hn =>
    add_toNat (by unfold Cpu.sp at hfits; omega)
  have hfrom : ∀ n, n < 24 → (src + BitVec.ofNat 32 n).toNat = src.toNat + n := fun n hn =>
    add_toNat (by omega)
  obtain ⟨hret, hto, hnext, -⟩ := hstack.words
  have harg : word s.mem (s.reg .esp + 4).toNat = src := by
    rw [show (s.reg .esp + 4).toNat = s.sp + 4 from hesp 4 (by omega), hto]
  have harg' : word s.mem (s.reg .esp + 8).toNat = dst := by
    rw [show (s.reg .esp + 8).toNat = s.sp + 4 + 4 from hesp 8 (by omega), hnext]
  have htop : (s.reg .esp + 0).toNat = s.sp := hesp 0 (by omega)
  have h0 : (src + 0).toNat = src.toNat := hfrom 0 (by omega)
  have h4 : (src + 4).toNat = src.toNat + 4 := hfrom 4 (by omega)
  have h8 : (src + 8).toNat = src.toNat + 8 := hfrom 8 (by omega)
  have h12 : (src + 12).toNat = src.toNat + 12 := hfrom 12 (by omega)
  have h16 : (src + 16).toNat = src.toNat + 16 := hfrom 16 (by omega)
  have h20 : (src + 20).toNat = src.toNat + 20 := hfrom 20 (by omega)
  simp only [processContextSwitch, List.take_succ_cons, List.take_zero, execAll, List.foldl_cons,
    List.foldl_nil, Instr.exec, Cpu.set, Function.update_self, ne_eq, reduceCtorEq,
    not_false_eq_true, Function.update_of_ne, Function.update_idem]
  rw [harg, harg', htop, h0, h4, h8, h12, h16, h20]
  -- the return address is read between the stores
  rw [word_putWord_apart (by omega), word_putWord_apart (by omega), word_putWord_apart (by omega),
    word_putWord_apart (by omega), word_putWord_apart (by omega), hret]
  rfl

/-- The instructions from `mov ebx, [edx + 0]` on. -/
theorem execAll_restore (hdst : (s.reg .edx).toNat + contextSize ≤ 4294967296)
    (hwords : Words s.mem (s.reg .edx).toNat c.words) :
    (execAll (processContextSwitch.drop 10) s).resumed = c := by
  unfold contextSize at hdst
  have hat : ∀ n, n < 24 →
      (s.reg .edx + BitVec.ofNat 32 n).toNat = (s.reg .edx).toNat + n := fun n hn =>
    add_toNat (by omega)
  obtain ⟨hebx, hesi, hedi, hebp, hesp, heip, -⟩ := hwords
  have h0 : (s.reg .edx + 0).toNat = (s.reg .edx).toNat := hat 0 (by omega)
  have h4 : (s.reg .edx + 4).toNat = (s.reg .edx).toNat + 4 := hat 4 (by omega)
  have h8 : (s.reg .edx + 8).toNat = (s.reg .edx).toNat + 4 + 4 := hat 8 (by omega)
  have h12 : (s.reg .edx + 12).toNat = (s.reg .edx).toNat + 4 + 4 + 4 := hat 12 (by omega)
  have h16 : (s.reg .edx + 16).toNat = (s.reg .edx).toNat + 4 + 4 + 4 + 4 := hat 16 (by omega)
  have h20 : (s.reg .edx + 20).toNat = (s.reg .edx).toNat + 4 + 4 + 4 + 4 + 4 :=
    hat 20 (by omega)
  simp only [processContextSwitch, List.drop_succ_cons, List.drop_zero, execAll, List.foldl_cons,
    List.foldl_nil, Instr.exec, Cpu.set, Cpu.resumed, Function.update_self, ne_eq, reduceCtorEq,
    not_false_eq_true, Function.update_of_ne]
  rw [h0, h4, h8, h12, h16, h20, hebx, hesi, hedi, hebp, hesp, heip]

section

variable (hstack : s.Holds (ret :: src :: dst :: ws))
  (hsrc : src.toNat + contextSize ≤ 4294967296)
  (hapart : src.toNat + contextSize ≤ s.sp ∨ s.sp + 4 ≤ src.toNat)

include hstack hsrc hapart

theorem processContextSwitch_eq : execAll processContextSwitch s
    = execAll (processContextSwitch.drop 10) { ((s.set .eax src).set .edx dst).set .ecx ret with
        mem := putContext s.mem src.toNat (s.returning ret) } := by
  rw [← execAll_save hstack hsrc hapart, ← execAll_append, List.take_append_drop]

/-- A switch writes one context. -/
theorem processContextSwitch_mem :
    (execAll processContextSwitch s).mem = putContext s.mem src.toNat (s.returning ret) := by
  rw [processContextSwitch_eq hstack hsrc hapart]
  rfl

/-- A switch goes on with the other, which may be the same. -/
theorem processContextSwitch_resumed (hdst : dst.toNat + contextSize ≤ 4294967296)
    (hwords : Words (putContext s.mem src.toNat (s.returning ret)) dst.toNat c.words) :
    (execAll processContextSwitch s).resumed = c := by
  rw [processContextSwitch_eq hstack hsrc hapart]
  refine execAll_restore ?_ ?_ <;>
    · dsimp only
      rw [Cpu.set_of_ne (by decide), Cpu.set_self]
      assumption

end

end Switch

/-! ## Threads -/

/-- Where `scheduler_context` and the contexts of the processes are. -/
structure ContextTable where
  address : Option Slot → BitVec 32
  fits : ∀ i, (address i).toNat + contextSize ≤ 4294967296
  apart : ∀ i j, i ≠ j → (address i).toNat + contextSize ≤ (address j).toNat
    ∨ (address j).toNat + contextSize ≤ (address i).toNat

def ContextTable.block (t : ContextTable) (i : Option Slot) (x : Nat) : Prop :=
  (t.address i).toNat ≤ x ∧ x < (t.address i).toNat + contextSize

/-- `scheduler_context` in front of the array of the records, each `stride`
bytes long. -/
def arrayAddress (scheduler contexts stride : Nat) (i : Option Slot) : Nat :=
  i.elim scheduler fun p => contexts + p.val * stride

section Array

variable {scheduler contexts stride : Nat} (room : contextSize ≤ stride)
  (before : scheduler + contextSize ≤ contexts) (fits : contexts + 16 * stride < 4294967296)

include room before fits

theorem arrayAddress_fits (i : Option Slot) :
    arrayAddress scheduler contexts stride i + contextSize < 4294967296 := by
  cases i with
  | none => exact Nat.lt_of_le_of_lt before (by omega)
  | some p =>
      have hp : p.val * stride + stride ≤ 16 * stride := by
        rw [← Nat.succ_mul]
        exact Nat.mul_le_mul_right stride p.isLt
      show contexts + p.val * stride + contextSize < 4294967296
      omega

omit fits in
theorem arrayAddress_apart {i j : Option Slot} (hne : i ≠ j) :
    arrayAddress scheduler contexts stride i + contextSize
        ≤ arrayAddress scheduler contexts stride j
      ∨ arrayAddress scheduler contexts stride j + contextSize
        ≤ arrayAddress scheduler contexts stride i := by
  have hnext : ∀ {p q : Slot}, p.val < q.val →
      p.val * stride + contextSize ≤ q.val * stride := fun hlt => by
    have hle := Nat.mul_le_mul_right stride (Nat.succ_le_of_lt hlt)
    rw [Nat.succ_mul] at hle
    omega
  cases i with
  | none =>
      cases j with
      | none => exact absurd rfl hne
      | some q => exact Or.inl (before.trans (Nat.le_add_right _ _))
  | some p =>
      cases j with
      | none => exact Or.inr (before.trans (Nat.le_add_right _ _))
      | some q =>
          show contexts + p.val * stride + contextSize ≤ contexts + q.val * stride
            ∨ contexts + q.val * stride + contextSize ≤ contexts + p.val * stride
          rcases Nat.lt_or_gt_of_ne fun heq : p.val = q.val => hne (congrArg some (Fin.ext heq))
            with hlt | hlt
          · have := hnext hlt
            omega
          · have := hnext hlt
            omega

theorem arrayAddress_toNat (i : Option Slot) :
    (BitVec.ofNat 32 (arrayAddress scheduler contexts stride i)).toNat
      = arrayAddress scheduler contexts stride i := by
  have hfits := arrayAddress_fits room before fits i
  rw [BitVec.toNat_ofNat, Nat.mod_eq_of_lt (by omega)]

theorem ContextTable.exists_array : ∃ t : ContextTable,
    ∀ i, (t.address i).toNat = arrayAddress scheduler contexts stride i := by
  refine ⟨⟨fun i => BitVec.ofNat 32 (arrayAddress scheduler contexts stride i), fun i => ?_,
    fun i j hne => ?_⟩, arrayAddress_toNat room before fits⟩
  · rw [arrayAddress_toNat room before fits]
    exact Nat.le_of_lt (arrayAddress_fits room before fits i)
  · rw [arrayAddress_toNat room before fits, arrayAddress_toNat room before fits]
    exact arrayAddress_apart room before hne

end Array

/-- The processor and the context that belongs to the thread it runs. -/
structure Switching where
  cpu : Cpu
  current : Option Slot

inductive SwitchLabel where
  | code
  | write (p : Slot) (c : ContextRecord)
  | switch (next : Option Slot)

/-- What threads do: code of their own, which writes to no context; the
kernel's writing of a context when it makes or clears a record; and calls of
`process_context_switch`, with both contexts on the stack. -/
inductive SwitchStep (t : ContextTable) : Switching → SwitchLabel → Switching → Prop where
  | code {s s' : Cpu} {who : Option Slot} (kept : ∀ i x, t.block i x → s'.mem x = s.mem x) :
      SwitchStep t ⟨s, who⟩ .code ⟨s', who⟩
  | write {s s' : Cpu} {who : Option Slot} {p : Slot} {c : ContextRecord} (notSelf : who ≠ some p)
      (written : Words s'.mem (t.address (some p)).toNat c.words)
      (kept : ∀ i x, i ≠ some p → t.block i x → s'.mem x = s.mem x) :
      SwitchStep t ⟨s, who⟩ (.write p c) ⟨s', who⟩
  | switch {s : Cpu} {who next : Option Slot} {ret : BitVec 32} {ws : List (BitVec 32)}
      (stack : s.Holds (ret :: t.address who :: t.address next :: ws))
      (apart : (t.address who).toNat + contextSize ≤ s.sp ∨ s.sp + 4 ≤ (t.address who).toNat) :
      SwitchStep t ⟨s, who⟩ (.switch next) ⟨execAll processContextSwitch s, next⟩

/-- The context that a switch to thread `i` would go on with. -/
structure Switching.Parked (t : ContextTable) (s : Switching) (i : Option Slot)
    (c : ContextRecord) : Prop where
  away : s.current ≠ i
  words : Words s.cpu.mem (t.address i).toNat c.words

/-- The caller's side: the arguments and the return address. -/
def Cpu.callSwitch (s : Cpu) (ret src dst : BitVec 32) : Cpu := s.pushAll [dst, src, ret]

theorem Cpu.callSwitch_holds {s : Cpu} (ret src dst : BitVec 32) (hroom : 12 ≤ s.sp)
    (hsp : s.sp < 4294967296) : (s.callSwitch ret src dst).Holds [ret, src, dst] := by
  have hempty : s.Holds [] := ⟨trivial, by
    rw [List.length_nil]
    omega⟩
  exact hempty.pushAll hroom

theorem SwitchStep.ofCall (t : ContextTable) {s : Cpu} (ret : BitVec 32) {who : Option Slot}
    (next : Option Slot) (hroom : 12 ≤ s.sp) (hsp : s.sp < 4294967296)
    (hbelow : (t.address who).toNat + contextSize + 12 ≤ s.sp) :
    SwitchStep t ⟨s.callSwitch ret (t.address who) (t.address next), who⟩ (.switch next)
      ⟨execAll processContextSwitch (s.callSwitch ret (t.address who) (t.address next)), next⟩ := by
  have hpushed : (s.callSwitch ret (t.address who) (t.address next)).sp = s.sp - 12 :=
    Cpu.sp_pushAll (by simpa using hroom)
  exact .switch (Cpu.callSwitch_holds ret _ _ hroom hsp) (Or.inl (by omega))

/-- What neither runs nor rewrites a parked thread. -/
def SwitchLabel.leaves (i : Option Slot) : SwitchLabel → Prop
  | .code => True
  | .write p _ => some p ≠ i
  | .switch next => next ≠ i

section Threads

variable {t : ContextTable} {s s' s'' : Switching} {l : SwitchLabel} {i next : Option Slot}
  {c : ContextRecord}

theorem Switching.Parked.step (h : s.Parked t i c) (hstep : SwitchStep t s l s')
    (hleaves : l.leaves i) : s'.Parked t i c := by
  have hsame : ∀ {m : Mem}, (∀ x, t.block i x → m x = s.cpu.mem x) →
      Words m (t.address i).toNat c.words := fun hm =>
    h.words.congr fun x hlo hhi => hm x ⟨hlo, hhi⟩
  cases hstep with
  | code kept => exact ⟨h.away, hsame (kept i)⟩
  | write _ _ kept => exact ⟨h.away, hsame fun x => kept i x (Ne.symm hleaves)⟩
  | @switch s who next ret ws stack apart =>
      refine ⟨hleaves, hsame fun x hx => ?_⟩
      have hpart := t.apart who i h.away
      obtain ⟨hlo, hhi⟩ := hx
      rw [processContextSwitch_mem stack (t.fits who) apart]
      exact putContext_outside (by omega)

theorem Switching.Parked.run (h : s.Parked t i c) {labels : List SwitchLabel}
    (hrun : Run (SwitchStep t) s labels s') (hleaves : ∀ l ∈ labels, l.leaves i) :
    s'.Parked t i c := by
  refine hrun.invariant_trace (I := fun labels s' =>
    (∀ l ∈ labels, l.leaves i) → s'.Parked t i c) (fun _ => h) ?_ hleaves
  intro labels s1 l s2 ih hstep hall
  exact (ih fun l hl => hall l (List.mem_append_left _ hl)).step hstep (hall l (by simp))

/-- Away from a thread. -/
theorem SwitchStep.parks (h : SwitchStep t s (.switch next) s') (hne : next ≠ s.current) :
    s'.Parked t s.current (s.cpu.returning s.cpu.top) := by
  cases h with
  | @switch s who next ret ws stack apart =>
      refine ⟨hne, ?_⟩
      rw [processContextSwitch_mem stack (t.fits who) apart, stack.top]
      exact putContext_words _ _ _

/-- Back to a thread. -/
theorem Switching.Parked.resumed (h : s.Parked t next c)
    (hstep : SwitchStep t s (.switch next) s') : s'.cpu.resumed = c ∧ s'.current = next := by
  cases hstep with
  | @switch s who next ret ws stack apart =>
      refine ⟨processContextSwitch_resumed stack (t.fits who) apart (t.fits next) ?_, rfl⟩
      have hpart := t.apart who next h.away
      exact h.words.congr fun x hlo hhi => putContext_outside (by
        have : x < (t.address next).toNat + contextSize := hhi
        omega)

/-- The kernel has written a context. -/
theorem SwitchStep.written {p : Slot} (h : SwitchStep t s (.write p c) s') :
    s'.Parked t (some p) c := by
  cases h with
  | write notSelf written => exact ⟨notSelf, written⟩

end Threads

/-! ## The first switch to a process -/

/-- `process_initialize_context`; `bootstrap` is the address of
`process_bootstrap`. -/
def processInitializeContext (memory : ProcessMemory) (bootstrap : BitVec 32) : ContextRecord :=
  let stackPointer := (BitVec.ofNat 32 memory.stackTop - 16) &&& ~~~0x0F
  ⟨0, 0, 0, stackPointer, stackPointer, bootstrap⟩

/-- The stack pointer is sixteen bytes below the end of the stack page. -/
theorem processInitializeContext_stack {slot : Slot} {memory : ProcessMemory}
    (bootstrap : BitVec 32) (haligned : (layoutMemory slot memory).virtualBase % 4096 = 0)
    (hfits : (layoutMemory slot memory).virtualBase + 16384 < 4294967296) :
    (processInitializeContext (layoutMemory slot memory) bootstrap).esp.toNat
        = (layoutMemory slot memory).stackTop - 16
      ∧ (layoutMemory slot memory).stackBase + 4096 = (layoutMemory slot memory).stackTop := by
  generalize hbase : (layoutMemory slot memory).virtualBase = base at haligned hfits
  have hstackBase : (layoutMemory slot memory).stackBase = base + 12288 := by
    have hstart : (layoutMemory slot memory).stackBase
      = add32 (layoutMemory slot memory).virtualBase (4096 * 3) := rfl
    rw [hstart, hbase, add32_of_lt (by omega)]
  have hstackTop : (layoutMemory slot memory).stackTop = base + 16384 := by
    have htop : (layoutMemory slot memory).stackTop
      = add32 (layoutMemory slot memory).stackBase 4096 := rfl
    rw [htop, hstackBase, add32_of_lt (by omega)]
  refine ⟨?_, by omega⟩
  have hmask : (~~~0x0F : BitVec 32).toNat = 2 ^ 32 - 2 ^ 4 := by decide
  have hsub : (BitVec.ofNat 32 (base + 16384) - 16).toNat = base + 16368 := by bv_omega
  unfold processInitializeContext
  dsimp only
  rw [hstackTop, BitVec.toNat_and, hmask, hsub, and_highMask (by omega) (by omega)]
  omega

/-! ## Runs -/

/-- A switch away from a thread is for the thread a call that returns, and
what is behind the first switch to a process is what
`process_initialize_context` put there. -/
theorem switchRun_returns (t : ContextTable) {s s1 s2 s3 : Switching} {labels : List SwitchLabel}
    (hrun : Run (SwitchStep t) s1 labels s2) :
    (∀ next, SwitchStep t s (.switch next) s1 → next ≠ s.current →
        (∀ l ∈ labels, l.leaves s.current) → SwitchStep t s2 (.switch s.current) s3 →
        s3.cpu.resumed = s.cpu.returning s.cpu.top ∧ s3.current = s.current)
      ∧ ∀ (p : Slot) (memory : ProcessMemory) (bootstrap : BitVec 32),
        SwitchStep t s (.write p (processInitializeContext memory bootstrap)) s1 →
        (∀ l ∈ labels, l.leaves (some p)) → SwitchStep t s2 (.switch (some p)) s3 →
        s3.cpu.resumed = processInitializeContext memory bootstrap ∧ s3.current = some p :=
  ⟨fun _ hcall hne hleaves hback => ((hcall.parks hne).run hrun hleaves).resumed hback,
    fun _ _ _ hwrite hleaves hstart => (hwrite.written.run hrun hleaves).resumed hstart⟩

/-- The scheduler calls process 1, whose code calls back. -/
theorem switchRun_returns_once : ∃ (t : ContextTable) (s s1 s2 s3 : Switching),
    SwitchStep t s (.switch (some 1)) s1 ∧ SwitchStep t s2 (.switch none) s3
      ∧ s3.cpu.resumed = s.cpu.returning s.cpu.top ∧ s3.cpu.eip = 0xC0DE := by
  obtain ⟨t, ht⟩ : ∃ t : ContextTable, ∀ i, (t.address i).toNat + contextSize ≤ 0x2200 := by
    obtain ⟨t, ht⟩ : ∃ t : ContextTable, ∀ i,
        (t.address i).toNat = arrayAddress 0x1000 0x2000 32 i :=
      ContextTable.exists_array (by decide) (by decide) (by decide)
    refine ⟨t, fun i => ?_⟩
    rw [ht]
    cases i with
    | none => decide
    | some p =>
        have := p.isLt
        show 0x2000 + p.val * 32 + 24 ≤ 0x2200
        omega
  have hstep : ∀ (cpu : Cpu) ret who next, cpu.sp = 0x9000 → SwitchStep t
      ⟨cpu.callSwitch ret (t.address who) (t.address next), who⟩ (.switch next)
      ⟨execAll processContextSwitch (cpu.callSwitch ret (t.address who) (t.address next)), next⟩ :=
    fun _ ret who next hsp => .ofCall t ret next (by omega) (by omega) (by have := ht who; omega)
  let caller : Mem → Cpu := fun m =>
    ⟨fun r => if r = .esp then 0x9000 else 7, fun _ => 16, 8, 0, 2, m⟩
  have hsp : ∀ m, (caller m).sp = 0x9000 := fun _ => rfl
  have hroom : ∀ m, 12 ≤ (caller m).sp := fun m => by
    rw [hsp]
    omega
  have hcall := hstep (caller fun _ => 0) 0xC0DE none (some 1) (hsp _)
  generalize hs1 : execAll processContextSwitch _ = s1 at hcall
  have hcode : SwitchStep t ⟨s1, some 1⟩ .code ⟨(caller s1.mem).callSwitch 0xBEEF
      (t.address (some 1)) (t.address none), some 1⟩ :=
    .code fun i x hx => by
      obtain ⟨-, hhi⟩ := hx
      have hlow := ht i
      exact Cpu.pushAll_outside (by simpa using hroom _) (Or.inl (show x < 0x9000 - 12 by omega))
  have hback := hstep (caller s1.mem) 0xBEEF (some 1) none (hsp _)
  have hreturns := ((switchRun_returns t (Run.one hcode)).1 (some 1) hcall
    (fun heq => by cases heq) (by simp [SwitchLabel.leaves]) hback).1
  have htop : (((caller fun _ => 0).callSwitch 0xC0DE (t.address none)
      (t.address (some 1)))).top = 0xC0DE :=
    (Cpu.callSwitch_holds _ _ _ (hroom _) (by
      rw [hsp]
      omega)).top
  exact ⟨t, _, _, _, _, hcall, hback, hreturns,
    (congrArg ContextRecord.eip hreturns).trans htop⟩

end Kfs
