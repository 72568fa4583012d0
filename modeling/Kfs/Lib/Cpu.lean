import Mathlib.Logic.Function.Basic
import Kfs.Lib.Mem

/-!
# A processor and its stack

The instructions of the 32-bit x86 that save and restore registers: pushes
and pops, moves between registers and memory, jumps and returns. Code is a
list of them without branches, so `eip` matters only where a jump or a return
sets it. Called functions are not code here; whoever uses the library says
what they do to the processor.

`Words m a ws` says that the words `ws` stand in memory from `a` on, and
`Cpu.Holds` that they are on top of the stack. Pushes and pops are pushes and
pops of that list (`Cpu.Holds.push`, `Cpu.Holds.pop`), and a push writes
nothing but below the stack (`Cpu.pushAll_outside`).
-/

namespace Kfs

/-! ## Words in memory -/

/-- The word at `a`. -/
def word (m : Mem) (a : Nat) : BitVec 32 := BitVec.ofNat 32 (load32 m a)

def putWord (m : Mem) (a : Nat) (v : BitVec 32) : Mem := store32 m a v.toNat

def Words (m : Mem) (a : Nat) : List (BitVec 32) → Prop
  | [] => True
  | w :: ws => word m a = w ∧ Words m (a + 4) ws

section Words

variable {m m' : Mem} {a b : Nat} {v : BitVec 32} {ws : List (BitVec 32)}

theorem word_putWord (m : Mem) (a : Nat) (v : BitVec 32) : word (putWord m a v) a = v := by
  unfold word putWord
  rw [load32_store32 v.isLt]
  simp

theorem word_congr (h : ∀ x, a ≤ x → x < a + 4 → m' x = m x) : word m' a = word m a :=
  congrArg (BitVec.ofNat 32) (load32_congr h)

theorem putWord_outside {x : Nat} (h : x < a ∨ a + 4 ≤ x) : putWord m a v x = m x :=
  store32_outside h

theorem word_putWord_apart (h : b + 4 ≤ a ∨ a + 4 ≤ b) : word (putWord m a v) b = word m b :=
  word_congr fun _ _ _ => putWord_outside (by omega)

theorem Words.congr (h : Words m a ws)
    (hsame : ∀ x, a ≤ x → x < a + 4 * ws.length → m' x = m x) : Words m' a ws := by
  induction ws generalizing a with
  | nil => trivial
  | cons w ws ih =>
      rw [List.length_cons] at hsame
      exact ⟨(word_congr fun x hlo hhi => hsame x hlo (by omega)).trans h.1,
        ih h.2 fun x hlo hhi => hsame x (by omega) (by omega)⟩

theorem Words.append {vs : List (BitVec 32)} :
    Words m a (vs ++ ws) ↔ Words m a vs ∧ Words m (a + 4 * vs.length) ws := by
  induction vs generalizing a with
  | nil => simp [Words]
  | cons v vs ih =>
      rw [List.cons_append, Words, ih, Words, List.length_cons, and_assoc,
        show a + 4 + 4 * vs.length = a + 4 * (vs.length + 1) by omega]

end Words

/-! ## The processor -/

inductive Reg where
  | eax | ecx | edx | ebx | esp | ebp | esi | edi
  deriving DecidableEq, Repr

/-- The segment registers for data. -/
inductive Seg where
  | ds | es | fs | gs
  deriving DecidableEq, Repr

structure Cpu where
  reg : Reg → BitVec 32
  seg : Seg → BitVec 16
  cs : BitVec 16
  eip : BitVec 32
  eflags : BitVec 32
  mem : Mem

namespace Cpu

def sp (s : Cpu) : Nat := (s.reg .esp).toNat

def set (s : Cpu) (r : Reg) (v : BitVec 32) : Cpu := { s with reg := Function.update s.reg r v }

def push (s : Cpu) (v : BitVec 32) : Cpu :=
  { s with
    reg := Function.update s.reg .esp (s.reg .esp - 4)
    mem := putWord s.mem (s.reg .esp - 4).toNat v }

def pushAll (s : Cpu) (vs : List (BitVec 32)) : Cpu := vs.foldl push s

/-- The word on top of the stack. -/
def top (s : Cpu) : BitVec 32 := word s.mem s.sp

/-- Take `n` bytes off the stack. -/
def drop (s : Cpu) (n : BitVec 32) : Cpu := s.set .esp (s.reg .esp + n)

/-- A pop into `esp` by `popa` throws the word away. -/
def popReg (s : Cpu) (r : Reg) : Cpu :=
  if r = .esp then s.drop 4 else (s.drop 4).set r s.top

/-- A segment register takes the low half of the word. -/
def popSeg (s : Cpu) (g : Seg) : Cpu :=
  { s.drop 4 with seg := Function.update s.seg g (s.top.truncate 16) }

/-- The flags of an addition: carry, parity, adjust, zero, sign, overflow. -/
def addFlags (flags a b : BitVec 32) : BitVec 32 :=
  let sum := a + b
  let bit (position : Nat) (set : Bool) : BitVec 32 := if set then 1 <<< position else 0
  flags &&& ~~~0x8D5
    ||| bit 0 (decide (2 ^ 32 ≤ a.toNat + b.toNat))
    ||| bit 2 (((List.range 8).countP fun i => sum.getLsbD i) % 2 == 0)
    ||| bit 4 (decide (16 ≤ a.toNat % 16 + b.toNat % 16))
    ||| bit 6 (sum == 0)
    ||| bit 7 sum.msb
    ||| bit 11 (a.msb == b.msb && sum.msb != a.msb)

end Cpu

inductive Instr where
  | push (v : BitVec 32)
  | pushReg (r : Reg)
  | pushSeg (g : Seg)
  | pusha
  | popSeg (g : Seg)
  | popa
  /-- `mov ax, v` -/
  | movAx (v : BitVec 16)
  /-- `mov g, ax` -/
  | movSeg (g : Seg)
  /-- `mov r, [base + disp]` -/
  | load (r base : Reg) (disp : BitVec 32)
  /-- `mov [base + disp], r` -/
  | store (base : Reg) (disp : BitVec 32) (r : Reg)
  | lea (r base : Reg) (disp : BitVec 32)
  | addEsp (n : BitVec 32)
  | jmpReg (r : Reg)
  | iretd
  deriving DecidableEq

/-- `pusha`, last one first. -/
def pushaOrder : List Reg := [.eax, .ecx, .edx, .ebx, .esp, .ebp, .esi, .edi]

def Instr.exec : Instr → Cpu → Cpu
  | push v, s => s.push v
  | pushReg r, s => s.push (s.reg r)
  | pushSeg g, s => s.push ((s.seg g).zeroExtend 32)
  | pusha, s => s.pushAll (pushaOrder.map s.reg)
  | popSeg g, s => s.popSeg g
  | popa, s => pushaOrder.reverse.foldl Cpu.popReg s
  | movAx v, s => s.set .eax ((s.reg .eax &&& 0xFFFF0000) ||| v.zeroExtend 32)
  | movSeg g, s => { s with seg := Function.update s.seg g ((s.reg .eax).truncate 16) }
  | load r base disp, s => s.set r (word s.mem (s.reg base + disp).toNat)
  | store base disp r, s => { s with mem := putWord s.mem (s.reg base + disp).toNat (s.reg r) }
  | lea r base disp, s => s.set r (s.reg base + disp)
  | addEsp n, s => { s.drop n with eflags := Cpu.addFlags s.eflags (s.reg .esp) n }
  | jmpReg r, s => { s with eip := s.reg r }
  | iretd, s =>
      { s.drop 12 with
        eip := s.top
        cs := (word s.mem (s.sp + 4)).truncate 16
        eflags := word s.mem (s.sp + 8) }

/-- Through an interrupt gate: the flags, the return address and, for some
exceptions, an error code are pushed, and the flags for traps, interrupts,
nested tasks, resumption and the virtual mode are cleared. -/
def Cpu.enter (s : Cpu) (selector : BitVec 16) (offset : BitVec 32)
    (errorCode : Option (BitVec 32)) : Cpu :=
  { s.pushAll ([s.eflags, s.cs.zeroExtend 32, s.eip] ++ errorCode.toList) with
    cs := selector
    eip := offset
    eflags := s.eflags &&& ~~~0x34300 }

def execAll (code : List Instr) (s : Cpu) : Cpu := code.foldl (fun s i => i.exec s) s

theorem execAll_append (code code' : List Instr) (s : Cpu) :
    execAll (code ++ code') s = execAll code' (execAll code s) := List.foldl_append

theorem execAll_cons (i : Instr) (code : List Instr) (s : Cpu) :
    execAll (i :: code) s = execAll code (i.exec s) := rfl

/-! ## The stack -/

namespace Cpu

/-- The words `ws` are on top of the stack. -/
structure Holds (s : Cpu) (ws : List (BitVec 32)) : Prop where
  words : Words s.mem s.sp ws
  fits : s.sp + 4 * ws.length ≤ 4294967296

section Stack

variable {s : Cpu} {v : BitVec 32} {vs ws : List (BitVec 32)}

@[simp] theorem set_self (s : Cpu) (r : Reg) (v : BitVec 32) : (s.set r v).reg r = v :=
  Function.update_self _ _ _

theorem set_of_ne {r q : Reg} (h : q ≠ r) : (s.set r v).reg q = s.reg q :=
  Function.update_of_ne h _ _

theorem sp_push (h : 4 ≤ s.sp) : (s.push v).sp = s.sp - 4 := by
  unfold sp push
  dsimp only
  rw [Function.update_self]
  have : 4 ≤ (s.reg .esp).toNat := h
  bv_omega

theorem reg_push {r : Reg} (h : r ≠ .esp) : (s.push v).reg r = s.reg r :=
  Function.update_of_ne h _ _

theorem push_outside (h : 4 ≤ s.sp) {x : Nat} (hx : x < s.sp - 4 ∨ s.sp ≤ x) :
    (s.push v).mem x = s.mem x := by
  have hsp : (s.reg .esp - 4).toNat = s.sp - 4 := by
    have : 4 ≤ (s.reg .esp).toNat := h
    unfold sp
    bv_omega
  unfold push
  dsimp only
  rw [hsp]
  exact putWord_outside (by omega)

theorem Holds.push (h : s.Holds ws) (hroom : 4 ≤ s.sp) : (s.push v).Holds (v :: ws) := by
  have hsp := sp_push (v := v) hroom
  have hfits := h.fits
  refine ⟨⟨?_, ?_⟩, ?_⟩
  · exact word_putWord _ _ _
  · rw [hsp, show s.sp - 4 + 4 = s.sp by omega]
    exact h.words.congr fun x hlo _ => push_outside hroom (by omega)
  · rw [hsp, List.length_cons]
    omega

theorem pushAll_cons (s : Cpu) (v : BitVec 32) (vs : List (BitVec 32)) :
    s.pushAll (v :: vs) = (s.push v).pushAll vs := rfl

theorem sp_pushAll (h : 4 * vs.length ≤ s.sp) : (s.pushAll vs).sp = s.sp - 4 * vs.length := by
  induction vs generalizing s with
  | nil => rfl
  | cons v vs ih =>
      rw [List.length_cons] at h ⊢
      have hsp := sp_push (s := s) (v := v) (by omega)
      rw [pushAll_cons, ih (by omega), hsp]
      omega

theorem reg_pushAll {r : Reg} (h : r ≠ .esp) : (s.pushAll vs).reg r = s.reg r := by
  induction vs generalizing s with
  | nil => rfl
  | cons v vs ih => rw [pushAll_cons, ih, reg_push h]

theorem pushAll_outside (h : 4 * vs.length ≤ s.sp) {x : Nat}
    (hx : x < s.sp - 4 * vs.length ∨ s.sp ≤ x) : (s.pushAll vs).mem x = s.mem x := by
  induction vs generalizing s with
  | nil => rfl
  | cons v vs ih =>
      rw [List.length_cons] at h hx
      have hsp := sp_push (s := s) (v := v) (by omega)
      rw [pushAll_cons, ih (by omega) (by omega), push_outside (by omega) (by omega)]

theorem Holds.pushAll (h : s.Holds ws) (hroom : 4 * vs.length ≤ s.sp) :
    (s.pushAll vs).Holds (vs.reverse ++ ws) := by
  induction vs generalizing s ws with
  | nil => exact h
  | cons v vs ih =>
      rw [List.length_cons] at hroom
      have hsp := sp_push (s := s) (v := v) (by omega)
      rw [pushAll_cons, List.reverse_cons, List.append_assoc]
      exact ih (h.push (by omega)) (by omega)

theorem pushAll_append (s : Cpu) (vs ws : List (BitVec 32)) :
    s.pushAll (vs ++ ws) = (s.pushAll vs).pushAll ws := List.foldl_append

/-- Pushes use memory and `esp`. -/
theorem pushAll_congr {s' : Cpu} (hmem : s'.mem = s.mem) (hesp : s'.reg .esp = s.reg .esp)
    (vs : List (BitVec 32)) : (s'.pushAll vs).mem = (s.pushAll vs).mem
      ∧ (s'.pushAll vs).reg .esp = (s.pushAll vs).reg .esp := by
  induction vs generalizing s s' with
  | nil => exact ⟨hmem, hesp⟩
  | cons v vs ih =>
      have hmem1 : (s'.push v).mem = (s.push v).mem := by simp only [push, hmem, hesp]
      have hesp1 : (s'.push v).reg .esp = (s.push v).reg .esp := by
        simp only [push, hesp, Function.update_self]
      exact ih hmem1 hesp1

theorem esp_pushAll (s : Cpu) (vs : List (BitVec 32)) :
    (s.pushAll vs).reg .esp = s.reg .esp - BitVec.ofNat 32 (4 * vs.length) := by
  induction vs generalizing s with
  | nil => simp [pushAll]
  | cons v vs ih =>
      have hpush : (s.push v).reg .esp = s.reg .esp - 4 :=
        Function.update_self Reg.esp _ s.reg
      rw [pushAll_cons, ih, List.length_cons, hpush]
      bv_omega

/-- Everything but the stack. -/
@[simp] theorem pushAll_seg (s : Cpu) (vs : List (BitVec 32)) : (s.pushAll vs).seg = s.seg := by
  induction vs generalizing s with
  | nil => rfl
  | cons v vs ih => exact ih (s.push v)

theorem Holds.top (h : s.Holds (v :: ws)) : s.top = v := h.words.1

theorem sp_drop {n : BitVec 32} (h : s.sp + n.toNat < 4294967296) :
    (s.drop n).sp = s.sp + n.toNat := by
  unfold sp at h ⊢
  unfold drop
  rw [set_self]
  bv_omega

theorem Holds.drop {n : BitVec 32} (h : s.Holds (vs ++ ws)) (hn : n.toNat = 4 * vs.length)
    (hws : ws ≠ []) : (s.drop n).Holds ws := by
  have hfits := h.fits
  have hpos := List.length_pos_iff.mpr hws
  rw [List.length_append] at hfits
  have hsp := sp_drop (s := s) (n := n) (by omega)
  refine ⟨?_, by omega⟩
  rw [hsp, hn]
  exact (Words.append.mp h.words).2

/-! ## Pops -/

/-- The stack is `esp` and memory. -/
theorem Holds.congr {s' : Cpu} (h : s.Holds ws) (hmem : s'.mem = s.mem)
    (hesp : s'.reg .esp = s.reg .esp) : s'.Holds ws := by
  have hsp : s'.sp = s.sp := congrArg BitVec.toNat hesp
  refine ⟨?_, ?_⟩
  · rw [hmem, hsp]
    exact h.words
  · rw [hsp]
    exact h.fits

theorem Holds.tail (h : s.Holds (v :: ws)) (hws : ws ≠ []) : (s.drop 4).Holds ws := by
  have h : s.Holds ([v] ++ ws) := h
  exact h.drop rfl hws

theorem Holds.popSeg (h : s.Holds (v :: ws)) (hws : ws ≠ []) (g : Seg) :
    (s.popSeg g).Holds ws ∧ (s.popSeg g).seg = Function.update s.seg g (v.truncate 16) := by
  refine ⟨(h.tail hws).congr rfl rfl, ?_⟩
  rw [← h.top]
  rfl

/-- A pop moves nothing but its register and `esp`. -/
theorem popReg_frame (s : Cpu) (r : Reg) :
    (s.popReg r).mem = s.mem ∧ (s.popReg r).seg = s.seg
      ∧ (s.popReg r).reg .esp = s.reg .esp + 4 ∧
      ∀ q, q ≠ r → q ≠ .esp → (s.popReg r).reg q = s.reg q := by
  unfold popReg
  split
  case isTrue _ => exact ⟨rfl, rfl, set_self _ _ _, fun q _ hq => set_of_ne hq⟩
  case isFalse hr =>
    refine ⟨rfl, rfl, ?_, fun q hne hq => ?_⟩
    · rw [set_of_ne (Ne.symm hr)]
      exact set_self _ _ _
    · rw [set_of_ne hne]
      exact set_of_ne hq

theorem Holds.popReg (h : s.Holds (v :: ws)) (hws : ws ≠ []) (r : Reg) :
    (s.popReg r).Holds ws ∧ (r ≠ .esp → (s.popReg r).reg r = v) := by
  obtain ⟨hmem, -, hesp, -⟩ := popReg_frame s r
  refine ⟨(h.tail hws).congr hmem ?_, fun hr => ?_⟩
  · rw [hesp]
    exact (set_self _ _ _).symm
  · rw [Cpu.popReg, if_neg hr, set_self, h.top]

/-- The words `vs` were popped into the registers `rs`. -/
structure Popped (s : Cpu) (rs : List Reg) (vs : List (BitVec 32)) (s' : Cpu) : Prop where
  mem : s'.mem = s.mem
  seg : s'.seg = s.seg
  esp : s'.reg .esp = s.reg .esp + BitVec.ofNat 32 (4 * vs.length)
  kept : ∀ r, r ∉ rs → r ≠ .esp → s'.reg r = s.reg r
  values : ∀ r v, (r, v) ∈ rs.zip vs → r ≠ .esp → s'.reg r = v

theorem Holds.popRegs (rs : List Reg) (h : s.Holds (vs ++ ws)) (hws : ws ≠ [])
    (hlen : rs.length = vs.length) (hdup : rs.Nodup) :
    (rs.foldl Cpu.popReg s).Holds ws ∧ s.Popped rs vs (rs.foldl Cpu.popReg s) := by
  induction rs generalizing s vs with
  | nil =>
      obtain rfl : vs = [] := List.length_eq_zero_iff.mp hlen.symm
      exact ⟨h, rfl, rfl, by simp, fun _ _ _ => rfl, by simp⟩
  | cons r rs ih =>
      cases vs with
      | nil => cases hlen
      | cons v vs =>
          obtain ⟨hr, hdup⟩ := List.nodup_cons.mp hdup
          obtain ⟨hmem, hseg, hesp, hkept⟩ := popReg_frame s r
          have h : s.Holds (v :: (vs ++ ws)) := h
          obtain ⟨htail, hv⟩ := h.popReg (by simp [hws]) r
          obtain ⟨hholds, hpopped⟩ := ih htail (Nat.succ.inj hlen) hdup
          rw [List.foldl_cons]
          refine ⟨hholds, hpopped.mem.trans hmem, hpopped.seg.trans hseg, ?_, fun q hq hne => ?_,
            fun q w hq hne => ?_⟩
          · have hfour : (4 : BitVec 32) = BitVec.ofNat 32 4 := rfl
            rw [hpopped.esp, hesp, List.length_cons, BitVec.add_assoc, hfour, ← BitVec.ofNat_add,
              show 4 + 4 * vs.length = 4 * (vs.length + 1) by omega]
          · rw [List.mem_cons, not_or] at hq
            rw [hpopped.kept q hq.2 hne, hkept q hq.1 hne]
          · rw [List.zip_cons_cons, List.mem_cons] at hq
            rcases hq with heq | hq
            · obtain ⟨rfl, rfl⟩ := Prod.mk.inj heq
              rw [hpopped.kept q hr hne, hv hne]
            · exact hpopped.values q w hq hne

end Stack

end Cpu

end Kfs
