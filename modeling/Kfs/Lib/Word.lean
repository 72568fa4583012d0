import Mathlib.Data.Nat.Bitwise

/-!
# 32-bit words as natural numbers

A `uint32_t` is a natural number below `2 ^ 32`, and every C operation that
can wrap is written with its wrap: `add32`, `sub32`, `mul32`. The literal
`4294967296` is spelled out so that `omega` sees it. The operations are
irreducible: unfolding one next to a variable would have Lean count down
from the literal, so proofs go through `add32_eq` and its siblings.

Masks are kept as the bitwise operations the code writes; `and_highMask`
turns the mask that clears the low `k` bits into division and
multiplication, which is the form the arithmetic of addresses uses.
-/

namespace Kfs

/-- `a + b` on `uint32_t`. -/
@[irreducible] def add32 (a b : Nat) : Nat := (a + b) % 4294967296

/-- `a - b` on `uint32_t`. -/
@[irreducible] def sub32 (a b : Nat) : Nat := (a + 4294967296 - b) % 4294967296

/-- `a * b` on `uint32_t`. -/
@[irreducible] def mul32 (a b : Nat) : Nat := (a * b) % 4294967296

/-- The conversion `(int)n` of a `uint32_t`. -/
def toInt32 (n : Nat) : Int :=
  if n % 4294967296 < 2147483648 then (n % 4294967296 : Nat)
  else ((n % 4294967296 : Nat) : Int) - 4294967296

/-- The conversion `(uint32_t)i` of an `int`. -/
def toUInt32 (i : Int) : Nat := (i % 4294967296).toNat

theorem add32_eq (a b : Nat) : add32 a b = (a + b) % 4294967296 := by
  unfold add32; rfl

theorem sub32_eq (a b : Nat) : sub32 a b = (a + 4294967296 - b) % 4294967296 := by
  unfold sub32; rfl

theorem mul32_eq (a b : Nat) : mul32 a b = (a * b) % 4294967296 := by
  unfold mul32; rfl

theorem add32_of_lt {a b : Nat} (h : a + b < 4294967296) : add32 a b = a + b := by
  rw [add32_eq]; omega

theorem sub32_of_le {a b : Nat} (hb : b ≤ a) (ha : a < 4294967296) :
    sub32 a b = a - b := by
  rw [sub32_eq]; omega

theorem add32_lt (a b : Nat) : add32 a b < 4294967296 := by
  rw [add32_eq]
  exact Nat.mod_lt _ (by omega)

theorem sub32_lt (a b : Nat) : sub32 a b < 4294967296 := by
  rw [sub32_eq]
  exact Nat.mod_lt _ (by omega)

/-- Moving by `b` and back to the start leaves `b`. -/
theorem sub32_add32 {a b : Nat} (ha : a < 4294967296) (hb : b < 4294967296) :
    sub32 (add32 a b) a = b := by
  rw [sub32_eq, add32_eq]
  omega

theorem toInt32_of_lt {n : Nat} (h : n < 2147483648) : toInt32 n = n := by
  unfold toInt32
  rw [Nat.mod_eq_of_lt (by omega), if_pos h]

theorem toUInt32_toInt32 (n : Nat) : toUInt32 (toInt32 n) = n % 4294967296 := by
  unfold toUInt32 toInt32
  split <;> omega

/-- Adding a signed increment: the sum, or the sum wrapped around from below
zero. -/
theorem add32_toUInt32 {a : Nat} {i : Int} (ha : a < 2147483648) (hlo : -2147483648 ≤ i)
    (hhi : i < 2147483648) :
    (add32 a (toUInt32 i) : Int) = if 0 ≤ a + i then a + i else a + i + 4294967296 := by
  rw [add32_eq, toUInt32]
  split
  · omega
  · omega

/-! ## Masks -/

theorem testBit_highMask {k w : Nat} (hkw : k ≤ w) (i : Nat) :
    (2 ^ w - 2 ^ k).testBit i = (decide (k ≤ i) && decide (i < w)) := by
  have hsplit : 2 ^ w - 2 ^ k = (2 ^ (w - k) - 1) <<< k := by
    rw [Nat.shiftLeft_eq, Nat.sub_mul, Nat.one_mul, ← Nat.pow_add, Nat.sub_add_cancel hkw]
  rw [hsplit, Nat.testBit_shiftLeft, Nat.testBit_two_pow_sub_one]
  by_cases hik : k ≤ i
  · simp only [hik, decide_true, Bool.true_and]
    congr 1
    exact propext ⟨fun h => by omega, fun h => by omega⟩
  · simp [hik]

/-- Clearing the low `k` bits of a `w`-bit number rounds it down to a
multiple of `2 ^ k`. -/
theorem and_highMask {k w n : Nat} (hkw : k ≤ w) (hn : n < 2 ^ w) :
    n &&& (2 ^ w - 2 ^ k) = n / 2 ^ k * 2 ^ k := by
  apply Nat.eq_of_testBit_eq
  intro i
  rw [Nat.testBit_and, testBit_highMask hkw, ← Nat.shiftLeft_eq, ← Nat.shiftRight_eq_div_pow,
    Nat.testBit_shiftLeft, Nat.testBit_shiftRight]
  by_cases hik : k ≤ i
  · by_cases hiw : i < w
    · simp [hik, hiw, Nat.add_sub_cancel' hik]
    · have hbig : n < 2 ^ i := Nat.lt_of_lt_of_le hn (Nat.pow_le_pow_right (by omega) (by omega))
      simp [hik, hiw, Nat.add_sub_cancel' hik, Nat.testBit_lt_two_pow hbig]
  · simp [hik]

/-- The `w = 32` instance for the mask `~7`. -/
theorem and_mask8 {n : Nat} (hn : n < 4294967296) : n &&& 0xFFFFFFF8 = n / 8 * 8 :=
  and_highMask (k := 3) (w := 32) (by omega) hn

/-- The `w = 32` instance for the mask `~4095`. -/
theorem and_mask4096 {n : Nat} (hn : n < 4294967296) :
    n &&& 0xFFFFF000 = n / 4096 * 4096 :=
  and_highMask (k := 12) (w := 32) (by omega) hn

end Kfs
