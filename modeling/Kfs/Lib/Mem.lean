import Mathlib.Data.Nat.Bitwise

/-!
# Byte-addressed memory

A memory is a function from addresses to bytes. `load32` and `store32` are
little-endian word accesses; `memset` and `memcpy` are the byte loops every
C module carries its own copy of.

Two kinds of lemma carry every proof over memory: a read sees the last
overlapping write, and a write leaves every address outside its range alone
(`store32_outside`, `memset_outside`, `memcpy_outside`). The second kind,
together with `load32_congr`, is how a structure laid out in memory survives
writes to a disjoint structure.
-/

namespace Kfs

abbrev Byte := BitVec 8

abbrev Mem := Nat → Byte

/-- The `uint32_t` at `a`. -/
def load32 (m : Mem) (a : Nat) : Nat :=
  (m a).toNat + 256 * (m (a + 1)).toNat + 65536 * (m (a + 2)).toNat
    + 16777216 * (m (a + 3)).toNat

def store8 (m : Mem) (a : Nat) (v : Byte) : Mem :=
  fun x => if x = a then v else m x

/-- Write the `uint32_t` `v` at `a`. -/
def store32 (m : Mem) (a v : Nat) : Mem := fun x =>
  if x = a then BitVec.ofNat 8 v
  else if x = a + 1 then BitVec.ofNat 8 (v / 256)
  else if x = a + 2 then BitVec.ofNat 8 (v / 65536)
  else if x = a + 3 then BitVec.ofNat 8 (v / 16777216)
  else m x

/-- `while (size--) *p++ = value`, from `a`. -/
def memset (m : Mem) (a : Nat) (value : Byte) (size : Nat) : Mem :=
  fun x => if a ≤ x ∧ x < a + size then value else m x

/-- `while (size-- > 0) *destination++ = *source++`. -/
def memcpy (m : Mem) (destination source : Nat) : Nat → Mem
  | 0 => m
  | size + 1 =>
      memcpy (store8 m destination (m source)) (destination + 1) (source + 1) size

theorem load32_lt (m : Mem) (a : Nat) : load32 m a < 4294967296 := by
  have h0 := (m a).isLt
  have h1 := (m (a + 1)).isLt
  have h2 := (m (a + 2)).isLt
  have h3 := (m (a + 3)).isLt
  unfold load32
  omega

/-! ## What a write leaves alone -/

theorem load32_congr {m m' : Mem} {a : Nat}
    (h : ∀ x, a ≤ x → x < a + 4 → m' x = m x) : load32 m' a = load32 m a := by
  unfold load32
  rw [h a (by omega) (by omega), h (a + 1) (by omega) (by omega),
    h (a + 2) (by omega) (by omega), h (a + 3) (by omega) (by omega)]

theorem store8_outside {m : Mem} {a x : Nat} {v : Byte} (h : x ≠ a) :
    store8 m a v x = m x := if_neg h

theorem store32_outside {m : Mem} {a v x : Nat} (h : x < a ∨ a + 4 ≤ x) :
    store32 m a v x = m x := by
  unfold store32
  rw [if_neg (by omega), if_neg (by omega), if_neg (by omega), if_neg (by omega)]

theorem memset_outside {m : Mem} {a size x : Nat} {v : Byte}
    (h : x < a ∨ a + size ≤ x) : memset m a v size x = m x :=
  if_neg (by omega)

theorem memcpy_outside {x size : Nat} {m : Mem} {d s : Nat} (h : x < d ∨ d + size ≤ x) :
    memcpy m d s size x = m x := by
  induction size generalizing m d s with
  | zero => rfl
  | succ size ih => rw [memcpy, ih (by omega), store8_outside (by omega)]

/-! ## What a read sees -/

@[simp] theorem store8_same (m : Mem) (a : Nat) (v : Byte) : store8 m a v a = v :=
  if_pos rfl

/-- A copy between ranges that do not overlap. -/
theorem memcpy_inside {size : Nat} {m : Mem} {d s i : Nat} (h : d + size ≤ s ∨ s + size ≤ d)
    (hi : i < size) : memcpy m d s size (d + i) = m (s + i) := by
  induction size generalizing m d s i with
  | zero => omega
  | succ size ih =>
      rw [memcpy]
      cases i with
      | zero => rw [memcpy_outside (by omega), Nat.add_zero, store8_same, Nat.add_zero]
      | succ i =>
          rw [show d + (i + 1) = d + 1 + i by omega, ih (by omega) (by omega),
            store8_outside (by omega), show s + 1 + i = s + (i + 1) by omega]

theorem load32_store32 {m : Mem} {a v : Nat} (hv : v < 4294967296) :
    load32 (store32 m a v) a = v := by
  have h0 : store32 m a v a = BitVec.ofNat 8 v := by simp [store32]
  have h1 : store32 m a v (a + 1) = BitVec.ofNat 8 (v / 256) := by simp [store32]
  have h2 : store32 m a v (a + 2) = BitVec.ofNat 8 (v / 65536) := by simp [store32]
  have h3 : store32 m a v (a + 3) = BitVec.ofNat 8 (v / 16777216) := by simp [store32]
  simp only [load32, h0, h1, h2, h3, BitVec.toNat_ofNat]
  omega

theorem load32_store32_apart {m : Mem} {a b v : Nat} (h : b + 4 ≤ a ∨ a + 4 ≤ b) :
    load32 (store32 m a v) b = load32 m b :=
  load32_congr fun _ _ _ => store32_outside (by omega)

theorem load32_store8_apart {m : Mem} {a b : Nat} {v : Byte} (h : b + 4 ≤ a ∨ a < b) :
    load32 (store8 m a v) b = load32 m b :=
  load32_congr fun _ _ _ => store8_outside (by omega)

theorem load32_memset_zero {m : Mem} {a size b : Nat} (hlo : a ≤ b)
    (hhi : b + 4 ≤ a + size) : load32 (memset m a 0 size) b = 0 := by
  have hz : ∀ x, b ≤ x → x < b + 4 → memset m a 0 size x = 0 :=
    fun x h1 h2 => if_pos (by omega)
  unfold load32
  rw [hz b (by omega) (by omega), hz (b + 1) (by omega) (by omega),
    hz (b + 2) (by omega) (by omega), hz (b + 3) (by omega) (by omega)]
  rfl

end Kfs
