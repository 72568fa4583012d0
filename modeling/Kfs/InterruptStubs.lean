import Kfs.Lib.Cpu

/-!
# Interrupt stubs

The code of `interrupts.asm`. A stub brings the stack of an interrupt to one
shape, whether or not the processor has pushed an error code, and the common
stub saves the registers below it, so that a handler sees one structure,
`cpu_registers_t`. Behind the call the code takes the registers from there
again: the interrupted code goes on with what the structure holds then.

`isr_common_stub` is cut at its call; `InterruptCall` is what the stub may
expect from the C function, and `InterruptPass` an interrupt from the gate to
`iretd`.
-/

namespace Kfs

/-! ## The structure -/

/-- `cpu_registers_t`. -/
structure Frame where
  gs : BitVec 32
  fs : BitVec 32
  es : BitVec 32
  ds : BitVec 32
  edi : BitVec 32
  esi : BitVec 32
  ebp : BitVec 32
  esp : BitVec 32
  ebx : BitVec 32
  edx : BitVec 32
  ecx : BitVec 32
  eax : BitVec 32
  intNo : BitVec 32
  errCode : BitVec 32
  eip : BitVec 32
  cs : BitVec 32
  eflags : BitVec 32
  deriving DecidableEq, Repr

namespace Frame

def words (f : Frame) : List (BitVec 32) :=
  [f.gs, f.fs, f.es, f.ds, f.edi, f.esi, f.ebp, f.esp, f.ebx, f.edx, f.ecx, f.eax,
    f.intNo, f.errCode, f.eip, f.cs, f.eflags]

/-- The structure at `a`. -/
def read (m : Mem) (a : Nat) : Frame where
  gs := word m a
  fs := word m (a + 4)
  es := word m (a + 8)
  ds := word m (a + 12)
  edi := word m (a + 16)
  esi := word m (a + 20)
  ebp := word m (a + 24)
  esp := word m (a + 28)
  ebx := word m (a + 32)
  edx := word m (a + 36)
  ecx := word m (a + 40)
  eax := word m (a + 44)
  intNo := word m (a + 48)
  errCode := word m (a + 52)
  eip := word m (a + 56)
  cs := word m (a + 60)
  eflags := word m (a + 64)

theorem read_words {m : Mem} {a : Nat} {f : Frame} (h : Words m a f.words) : read m a = f := by
  simp only [words, Words, and_true, Nat.add_assoc, Nat.reduceAdd] at h
  obtain ⟨h0, h1, h2, h3, h4, h5, h6, h7, h8, h9, h10, h11, h12, h13, h14, h15, h16⟩ := h
  unfold read
  rw [h0, h1, h2, h3, h4, h5, h6, h7, h8, h9, h10, h11, h12, h13, h14, h15, h16]

/-- The general registers. -/
def reg (f : Frame) : Reg → BitVec 32
  | .eax => f.eax
  | .ecx => f.ecx
  | .edx => f.edx
  | .ebx => f.ebx
  | .esp => f.esp
  | .ebp => f.ebp
  | .esi => f.esi
  | .edi => f.edi

def seg (f : Frame) : Seg → BitVec 32
  | .ds => f.ds
  | .es => f.es
  | .fs => f.fs
  | .gs => f.gs

/-- The structure for code that is interrupted in `s`. -/
def save (s : Cpu) (vector errCode : BitVec 32) : Frame where
  gs := (s.seg .gs).zeroExtend 32
  fs := (s.seg .fs).zeroExtend 32
  es := (s.seg .es).zeroExtend 32
  ds := (s.seg .ds).zeroExtend 32
  edi := s.reg .edi
  esi := s.reg .esi
  ebp := s.reg .ebp
  esp := s.reg .esp - 20
  ebx := s.reg .ebx
  edx := s.reg .edx
  ecx := s.reg .ecx
  eax := s.reg .eax
  intNo := vector
  errCode := errCode
  eip := s.eip
  cs := s.cs.zeroExtend 32
  eflags := s.eflags

/-- Code goes on with the registers of the structure; `popa` leaves its `esp`
alone. -/
def resume (f : Frame) (s : Cpu) : Cpu where
  reg r := if r = .esp then s.reg .esp else f.reg r
  seg g := (f.seg g).truncate 16
  cs := f.cs.truncate 16
  eip := f.eip
  eflags := f.eflags
  mem := s.mem

end Frame

/-- Nothing is lost between `pusha` and `popa`. -/
theorem Frame.resume_save (s : Cpu) (vector errCode : BitVec 32) :
    (Frame.save s vector errCode).resume s = s := by
  have hhalf : ∀ v : BitVec 16, (v.zeroExtend 32).truncate 16 = v := fun v => by
    simp
  unfold Frame.resume Frame.save
  cases s
  simp only [hhalf, Cpu.mk.injEq, and_true]
  refine ⟨funext fun r => ?_, funext fun g => ?_⟩
  · cases r <;> rfl
  · cases g <;> exact hhalf _

/-- A handler has changed one field. -/
theorem Frame.resume_eax (s : Cpu) (vector errCode v : BitVec 32) :
    { Frame.save s vector errCode with eax := v }.resume s = s.set .eax v := by
  have hsaved := Frame.resume_save s vector errCode
  have hreg : ({ Frame.save s vector errCode with eax := v }.resume s).reg
      = Function.update s.reg .eax v := funext fun r => by
    cases r <;> rfl
  show { (Frame.save s vector errCode).resume s with
    reg := ({ Frame.save s vector errCode with eax := v }.resume s).reg } = s.set .eax v
  rw [hsaved, hreg]
  rfl

theorem Frame.resume_eip (s : Cpu) (vector errCode v : BitVec 32) :
    { Frame.save s vector errCode with eip := v }.resume s = { s with eip := v } := by
  have hsaved := Frame.resume_save s vector errCode
  show { (Frame.save s vector errCode).resume s with eip := v } = { s with eip := v }
  rw [hsaved]

/-! ## The code -/

/-- The stubs of `ISR_ERR`. -/
def isrErr : List Nat := [8, 10, 11, 12, 13, 14, 17, 30]

/-- `isr%1` up to its jump. -/
def isrStub (vector : Nat) : List Instr :=
  if vector ∈ isrErr then [.push (BitVec.ofNat 32 vector)]
  else [.push 0, .push (BitVec.ofNat 32 vector)]

/-- `isr_common_stub` up to its call. -/
def isrCommonSave : List Instr :=
  [.pusha, .pushSeg .ds, .pushSeg .es, .pushSeg .fs, .pushSeg .gs,
    .movAx 0x10, .movSeg .ds, .movSeg .es, .movSeg .fs, .movSeg .gs, .pushReg .esp]

/-- `isr_common_stub` behind its call. -/
def isrCommonRestore : List Instr :=
  [.addEsp 4, .popSeg .gs, .popSeg .fs, .popSeg .es, .popSeg .ds, .popa, .addEsp 8, .iretd]

/-- Vectors with a stub: the exceptions, the lines of the interrupt
controllers and the system calls. -/
def isrVectors : List Nat := List.range 48 ++ [0x80]

/-! ## In and out -/

section Stub

variable {s : Cpu} {f : Frame} {arg : BitVec 32} {ws : List (BitVec 32)}

theorem addEsp_spec (s : Cpu) (n : BitVec 32) : ((Instr.addEsp n).exec s).mem = s.mem
    ∧ ((Instr.addEsp n).exec s).seg = s.seg
    ∧ ((Instr.addEsp n).exec s).reg = Function.update s.reg .esp (s.reg .esp + n) :=
  ⟨rfl, rfl, rfl⟩

/-- The pops of the segment registers. -/
theorem execAll_popSegs {gs fs es ds : BitVec 32} (h : s.Holds (gs :: fs :: es :: ds :: ws))
    (hws : ws ≠ []) {s' : Cpu}
    (hs' : s' = execAll [.popSeg .gs, .popSeg .fs, .popSeg .es, .popSeg .ds] s) :
    s'.Holds ws ∧ s'.mem = s.mem ∧ s'.reg = Function.update s.reg .esp (s.reg .esp + 16)
      ∧ s'.seg = fun
        | .ds => ds.truncate 16
        | .es => es.truncate 16
        | .fs => fs.truncate 16
        | .gs => gs.truncate 16 := by
  obtain ⟨h1, hgs⟩ := h.popSeg (by simp) .gs
  obtain ⟨h2, hfs⟩ := h1.popSeg (by simp) .fs
  obtain ⟨h3, hes⟩ := h2.popSeg (by simp) .es
  obtain ⟨h4, hds⟩ := h3.popSeg hws .ds
  subst hs'
  refine ⟨h4, rfl, ?_, funext fun g => ?_⟩
  · simp only [execAll, List.foldl_cons, List.foldl_nil, Instr.exec, Cpu.popSeg, Cpu.drop, Cpu.set,
      Function.update_self, Function.update_idem, BitVec.add_assoc]
    rfl
  · show ((((s.popSeg .gs).popSeg .fs).popSeg .es).popSeg .ds).seg g = _
    rw [hds, hes, hfs, hgs]
    cases g <;> rfl

/-- `iretd` behind the vector and the error code. -/
theorem execAll_iretd {vector errCode eip cs eflags : BitVec 32}
    (h : s.Holds (vector :: errCode :: eip :: cs :: eflags :: ws)) :
    execAll [.addEsp 8, .iretd] s = { s with
      reg := Function.update s.reg .esp (s.reg .esp + 20)
      cs := cs.truncate 16
      eip := eip
      eflags := eflags } := by
  have hreg := (addEsp_spec s 8).2.2
  have h : s.Holds ([vector, errCode] ++ (eip :: cs :: eflags :: ws)) := h
  have hholds : ((Instr.addEsp 8).exec s).Holds (eip :: cs :: eflags :: ws) :=
    (h.drop (n := 8) rfl (by simp)).congr rfl rfl
  obtain ⟨hmem, hseg, -⟩ := addEsp_spec s 8
  rw [execAll_cons, execAll_cons]
  show (Instr.iretd).exec ((Instr.addEsp 8).exec s) = _
  generalize (Instr.addEsp 8).exec s = s' at hholds hreg hmem hseg
  obtain ⟨heip, hcs, heflags, -⟩ := hholds.words
  rw [hmem] at heip hcs heflags
  have heflags : word s.mem (s'.sp + 8) = eflags := heflags
  simp only [Instr.exec, Cpu.drop, Cpu.set, Cpu.top, hmem, heip, hcs, heflags, hseg, hreg,
    Function.update_self, Function.update_idem, BitVec.add_assoc]
  rfl

/-- `isr_common_stub` puts back what stands above its argument. -/
theorem execAll_isrCommonRestore (h : s.Holds (arg :: (f.words ++ ws))) :
    execAll isrCommonRestore s = f.resume { s with
      reg := Function.update s.reg .esp (s.reg .esp + 72) } := by
  have hsplit : isrCommonRestore = [.addEsp 4]
      ++ ([.popSeg .gs, .popSeg .fs, .popSeg .es, .popSeg .ds]
        ++ ([.popa] ++ [.addEsp 8, .iretd])) := rfl
  rw [hsplit, execAll_append, execAll_append, execAll_append]
  obtain ⟨hmem1, -, hreg1⟩ := addEsp_spec s 4
  have h1 : ((Instr.addEsp 4).exec s).Holds (f.words ++ ws) :=
    (h.tail (by simp [Frame.words])).congr rfl rfl
  have hone : ∀ (i : Instr) (s : Cpu), execAll [i] s = i.exec s := fun _ _ => rfl
  rw [hone, hone]
  generalize (Instr.addEsp 4).exec s = s1 at h1 hmem1 hreg1
  obtain ⟨h2, hmem2, hreg2, hseg2⟩ := execAll_popSegs h1 (by simp) rfl
  generalize execAll [.popSeg .gs, .popSeg .fs, .popSeg .es, .popSeg .ds] s1 = s2
    at h2 hmem2 hreg2 hseg2
  have h2 : s2.Holds ([f.edi, f.esi, f.ebp, f.esp, f.ebx, f.edx, f.ecx, f.eax]
    ++ (f.intNo :: f.errCode :: f.eip :: f.cs :: f.eflags :: ws)) := h2
  obtain ⟨h3, hpopped⟩ := h2.popRegs pushaOrder.reverse (by simp) rfl (by decide)
  rw [show Instr.popa.exec s2 = pushaOrder.reverse.foldl Cpu.popReg s2 from rfl]
  generalize pushaOrder.reverse.foldl Cpu.popReg s2 = s3 at h3 hpopped
  have hregs : ∀ r, r ≠ .esp → s3.reg r = f.reg r := fun r hr =>
    hpopped.values r _ (by cases r <;> simp [pushaOrder, Frame.reg]) hr
  have hesp : s3.reg .esp + 20 = s.reg .esp + 72 := by
    rw [hpopped.esp, hreg2, hreg1]
    simp only [Function.update_self, BitVec.add_assoc]
    rfl
  rw [execAll_iretd h3, hesp]
  unfold Frame.resume
  simp only [Cpu.mk.injEq, and_true, hpopped.mem, hmem2, hmem1, hpopped.seg, hseg2]
  refine ⟨funext fun r => ?_, funext fun g => ?_⟩
  · by_cases hr : r = .esp
    · subst hr
      simp
    · rw [Function.update_of_ne hr, if_neg hr, hregs r hr]
  · cases g <;> rfl

/-- Where the structure of an interrupt in `s` is. -/
def Frame.address (s : Cpu) : BitVec 32 := s.reg .esp - 68

theorem execAll_isrCommonSave (s : Cpu) :
    let saved := s.pushAll (pushaOrder.map s.reg
      ++ [Seg.ds, .es, .fs, .gs].map fun g => (s.seg g).zeroExtend 32)
    (execAll isrCommonSave s).mem = (saved.push (saved.reg .esp)).mem
      ∧ (execAll isrCommonSave s).reg .esp = (saved.push (saved.reg .esp)).reg .esp :=
  ⟨rfl, rfl⟩

section

variable {vector : Nat} {errorCode : Option (BitVec 32)}
  (herror : errorCode.isSome ↔ vector ∈ isrErr) (selector : BitVec 16) (offset : BitVec 32)

include herror

/-- With an error code of the processor's or of the stub's. -/
theorem execAll_isrStub :
    let t := execAll (isrStub vector) (s.enter selector offset errorCode)
    let pushed := s.pushAll
      [s.eflags, s.cs.zeroExtend 32, s.eip, errorCode.getD 0, BitVec.ofNat 32 vector]
    t.reg = pushed.reg ∧ t.seg = pushed.seg ∧ t.mem = pushed.mem := by
  cases errorCode with
  | none =>
      rw [isrStub, if_neg fun h => by cases herror.mpr h]
      exact ⟨rfl, rfl, rfl⟩
  | some e =>
      rw [isrStub, if_pos (herror.mp rfl)]
      exact ⟨rfl, rfl, rfl⟩

/-- On the stack are the structure and its address. -/
theorem execAll_isrSave :
    let t := execAll (isrStub vector ++ isrCommonSave) (s.enter selector offset errorCode)
    let frame := Frame.save s (BitVec.ofNat 32 vector) (errorCode.getD 0)
    let pushed := s.pushAll (frame.words.reverse ++ [Frame.address s])
    t.mem = pushed.mem ∧ t.reg .esp = pushed.reg .esp := by
  obtain ⟨hreg, hseg, hmem⟩ := execAll_isrStub (s := s) herror selector offset
  generalize hlow : [s.eflags, s.cs.zeroExtend 32, s.eip, errorCode.getD 0, BitVec.ofNat 32 vector]
    = low at hreg hseg hmem
  have hesp : (s.pushAll low).reg .esp = s.reg .esp - 20 := by
    rw [Cpu.esp_pushAll, ← hlow]
    rfl
  have hregs : pushaOrder.map (s.pushAll low).reg
      = [s.reg .eax, s.reg .ecx, s.reg .edx, s.reg .ebx, s.reg .esp - 20, s.reg .ebp, s.reg .esi,
        s.reg .edi] := by
    simp only [pushaOrder, List.map_cons, List.map_nil, hesp]
    simp [Cpu.reg_pushAll]
  have hwords : (Frame.save s (BitVec.ofNat 32 vector) (errorCode.getD 0)).words.reverse
      = low ++ (pushaOrder.map (s.pushAll low).reg
        ++ [Seg.ds, .es, .fs, .gs].map fun g => ((s.pushAll low).seg g).zeroExtend 32) := by
    rw [hregs, Cpu.pushAll_seg, ← hlow]
    rfl
  have haddress : (s.pushAll (Frame.save s (BitVec.ofNat 32 vector)
      (errorCode.getD 0)).words.reverse).reg .esp = Frame.address s := by
    rw [Cpu.esp_pushAll]
    rfl
  dsimp only
  rw [execAll_append, Cpu.pushAll_append s _ [Frame.address s], ← haddress, hwords,
    Cpu.pushAll_append s low]
  generalize execAll (isrStub vector) (s.enter selector offset errorCode) = t at hreg hseg hmem
  obtain ⟨hmem', hesp'⟩ := execAll_isrCommonSave t
  rw [hmem', hesp', hreg, hseg]
  obtain ⟨hmem1, hesp1⟩ := Cpu.pushAll_congr hmem (congrFun hreg .esp) _
  rw [hesp1]
  exact Cpu.pushAll_congr hmem1 hesp1 [_]

end

end Stub

/-! ## An interrupt -/

/-- What the stub relies on: the C function returns with the stack as it was,
and the memory `mine` of the interrupted code is left alone. To the structure
the function may do what it likes. -/
structure InterruptCall (mine : Nat → Prop) (called : Cpu) (left : Frame) (back : Cpu) : Prop where
  esp : back.reg .esp = called.reg .esp + 4
  frame : Words back.mem (word called.mem (called.sp + 4)).toNat left.words
  kept : ∀ x, mine x → back.mem x = called.mem x

/-- From the gate to `iretd`: the C function is called with a pointer to
`seen`, and leaves `left` there. -/
inductive InterruptPass (mine : Nat → Prop) (s : Cpu) (vector : Nat)
    (errorCode : Option (BitVec 32)) (selector : BitVec 16) (offset : BitVec 32) :
    Frame → Frame → Cpu → Prop where
  | pass {ret : BitVec 32} {called back : Cpu} {left : Frame}
      (save : called
        = (execAll (isrStub vector ++ isrCommonSave) (s.enter selector offset errorCode)).push ret)
      (call : InterruptCall mine called left back) :
      InterruptPass mine s vector errorCode selector offset
        (Frame.read called.mem (word called.mem (called.sp + 4)).toNat) left
        (execAll isrCommonRestore back)

section Pass

variable {mine : Nat → Prop} {s s' : Cpu} {vector : Nat} {errorCode : Option (BitVec 32)}
  {selector : BitVec 16} {offset : BitVec 32} {seen left : Frame}

/-- The state in which the C function is called. -/
theorem InterruptPass.called (herror : errorCode.isSome ↔ vector ∈ isrErr) (hroom : 76 ≤ s.sp)
    (selector : BitVec 16) (offset ret : BitVec 32) {called : Cpu}
    (hcalled : called
      = (execAll (isrStub vector ++ isrCommonSave) (s.enter selector offset errorCode)).push ret) :
    called.Holds (ret :: Frame.address s
        :: (Frame.save s (BitVec.ofNat 32 vector) (errorCode.getD 0)).words)
      ∧ called.reg .esp = s.reg .esp - 76 ∧ ∀ x, s.sp ≤ x → called.mem x = s.mem x := by
  obtain ⟨hmem, hesp⟩ := execAll_isrSave (s := s) herror selector offset
  generalize Frame.save s (BitVec.ofNat 32 vector) (errorCode.getD 0) = frame at hmem hesp ⊢
  generalize execAll (isrStub vector ++ isrCommonSave) (s.enter selector offset errorCode) = t
    at hcalled hmem hesp
  obtain ⟨hmem', hesp'⟩ := Cpu.pushAll_congr hmem hesp [ret]
  rw [← Cpu.pushAll_append] at hmem' hesp'
  have hempty : s.Holds [] := ⟨trivial, Nat.le_of_lt (s.reg .esp).isLt⟩
  have hroom : 4 * (frame.words.reverse ++ [Frame.address s] ++ [ret]).length ≤ s.sp := hroom
  have hholds := hempty.pushAll hroom
  have hlist : (frame.words.reverse ++ [Frame.address s] ++ [ret]).reverse ++ []
      = ret :: Frame.address s :: frame.words := by
    simp
  rw [hlist] at hholds
  subst hcalled
  refine ⟨hholds.congr hmem' hesp', hesp'.trans (Cpu.esp_pushAll _ _), fun x hx => ?_⟩
  exact (congrFun hmem' x).trans (Cpu.pushAll_outside hroom (Or.inr hx))

/-- The C function sees the registers of the interrupted code. -/
theorem InterruptPass.called_frame (herror : errorCode.isSome ↔ vector ∈ isrErr)
    (hroom : 76 ≤ s.sp) (selector : BitVec 16) (offset ret : BitVec 32) {called : Cpu}
    (hcalled : called
      = (execAll (isrStub vector ++ isrCommonSave) (s.enter selector offset errorCode)).push ret) :
    (word called.mem (called.sp + 4)).toNat = s.sp - 68
      ∧ Frame.read called.mem (s.sp - 68)
        = Frame.save s (BitVec.ofNat 32 vector) (errorCode.getD 0) := by
  obtain ⟨hholds, hesp, -⟩ := InterruptPass.called herror hroom selector offset ret hcalled
  have hsp : called.sp = s.sp - 76 := by
    unfold Cpu.sp at hroom ⊢
    rw [hesp]
    bv_omega
  have haddress : (Frame.address s).toNat = s.sp - 68 := by
    unfold Cpu.sp at hroom ⊢
    unfold Frame.address
    bv_omega
  obtain ⟨-, hpointer, hwords⟩ := hholds.words
  rw [hsp, show s.sp - 76 + 4 + 4 = s.sp - 68 by omega] at hwords
  exact ⟨by rw [hpointer, haddress], Frame.read_words hwords⟩

/-- The interrupted code's registers are what the C function sees, and it goes
on with what the C function leaves. -/
theorem InterruptPass.spec (h : InterruptPass mine s vector errorCode selector offset seen left s')
    (herror : errorCode.isSome ↔ vector ∈ isrErr) (hroom : 76 ≤ s.sp)
    (hmine : ∀ x, mine x → s.sp ≤ x) :
    seen = Frame.save s (BitVec.ofNat 32 vector) (errorCode.getD 0)
      ∧ ∃ m, s' = left.resume { s with mem := m } ∧ ∀ x, mine x → m x = s.mem x := by
  obtain @⟨ret, called, back, left, hsave, hcall⟩ := h
  obtain ⟨-, hesp, hkept⟩ := InterruptPass.called herror hroom selector offset ret hsave
  obtain ⟨hpointer, hread⟩ := InterruptPass.called_frame herror hroom selector offset ret hsave
  have hframe := hcall.frame
  rw [hpointer] at hframe ⊢
  refine ⟨hread, back.mem, ?_, fun x hx => ?_⟩
  · have hback : back.sp = s.sp - 72 := by
      have := hcall.esp
      unfold Cpu.sp at hroom ⊢
      rw [this, hesp]
      bv_omega
    have hrest : back.Holds (word back.mem back.sp :: (left.words ++ [])) := by
      refine ⟨⟨rfl, ?_⟩, ?_⟩
      · rw [List.append_nil, hback, show s.sp - 72 + 4 = s.sp - 68 by omega]
        exact hframe
      · have hlen : (word back.mem back.sp :: (left.words ++ [])).length = 18 := rfl
        have : s.sp < 4294967296 := (s.reg .esp).isLt
        rw [hlen, hback]
        omega
    have hesp' : back.reg .esp + 72 = s.reg .esp := by
      rw [hcall.esp, hesp]
      bv_omega
    rw [execAll_isrCommonRestore hrest, hesp']
    unfold Frame.resume
    simp
  · exact (hcall.kept x hx).trans (hkept x (hmine x hx))

/-- Whatever the C function is to leave in the structure, it can. -/
theorem InterruptPass.exists_left (herror : errorCode.isSome ↔ vector ∈ isrErr)
    (hroom : 76 ≤ s.sp) (hmine : ∀ x, mine x → s.sp ≤ x) (selector : BitVec 16)
    (offset : BitVec 32) (left : Frame) :
    ∃ s', InterruptPass mine s vector errorCode selector offset
      (Frame.save s (BitVec.ofNat 32 vector) (errorCode.getD 0)) left s' := by
  generalize hcalled : (execAll (isrStub vector ++ isrCommonSave)
    (s.enter selector offset errorCode)).push 0 = called
  obtain ⟨hpointer, hread⟩ :=
    InterruptPass.called_frame herror hroom selector offset 0 hcalled.symm
  -- the words of the structure, as if pushed on the stack of the interrupted code
  let t : Cpu := { s with mem := called.mem }
  have hlen : left.words.reverse.length = 17 := rfl
  have hroom' : 4 * left.words.reverse.length ≤ t.sp := by
    rw [hlen]
    exact Nat.le_trans (by decide) hroom
  have hempty : t.Holds [] := ⟨trivial, Nat.le_of_lt (s.reg .esp).isLt⟩
  have hwords := (hempty.pushAll hroom').words
  have hkept : ∀ x, mine x → (t.pushAll left.words.reverse).mem x = called.mem x := fun x hx =>
    Cpu.pushAll_outside hroom' (Or.inr (hmine x hx))
  rw [Cpu.sp_pushAll hroom', List.reverse_reverse, List.append_nil, hlen] at hwords
  generalize (t.pushAll left.words.reverse).mem = m at hwords hkept
  have hcall : InterruptCall mine called left ({ called with mem := m }.drop 4) := by
    refine ⟨Cpu.set_self _ _ _, ?_, hkept⟩
    rw [hpointer]
    exact hwords
  have hpass := InterruptPass.pass hcalled.symm hcall
  rw [hpointer, hread] at hpass
  exact ⟨_, hpass⟩

end Pass

end Kfs
