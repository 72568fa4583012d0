import Mathlib.Logic.Function.Basic
import Kfs.Lib.Mem

/-!
# Bit-packed sets

One bit per number, eight numbers per byte. The three operations are the C
expressions on `bitmap[i / 8]` and `1 << (i % 8)`; `testBit_setBit` and
`testBit_clearBit` say they are insertion into, removal from and membership
in a set of numbers, and `bitmap_ext` that a bitmap is determined by its
members. Nothing outside this file looks at bytes again, except the search
that skips a byte equal to `0xFF`, which is `byte_eq_allOnes`.
-/

namespace Kfs

abbrev Bitmap := Nat → Byte

/-- `bitmap[i / 8] |= (1 << (i % 8))`. -/
def setBit (b : Bitmap) (i : Nat) : Bitmap :=
  Function.update b (i / 8) (b (i / 8) ||| 1#8 <<< (i % 8))

/-- `bitmap[i / 8] &= ~(1 << (i % 8))`. -/
def clearBit (b : Bitmap) (i : Nat) : Bitmap :=
  Function.update b (i / 8) (b (i / 8) &&& ~~~(1#8 <<< (i % 8)))

/-- `(bitmap[i / 8] & (1 << (i % 8))) != 0`. -/
def testBit (b : Bitmap) (i : Nat) : Bool :=
  (b (i / 8) &&& 1#8 <<< (i % 8)) != 0#8

theorem getLsbD_oneShift {j k : Nat} (hk : k < 8) :
    (1#8 <<< k).getLsbD j = decide (j = k) := by
  rw [BitVec.getLsbD_shiftLeft, BitVec.getLsbD_one]
  by_cases hj : j = k
  · subst hj; simp [hk]
  · by_cases hlt : j < k
    · simp [hj, hlt]
    · have : j - k ≠ 0 := by omega
      simp [hj, this]

/-- `testBit` reads the bit `i % 8` of its byte. -/
theorem testBit_eq_getLsbD (b : Bitmap) (i : Nat) :
    testBit b i = (b (i / 8)).getLsbD (i % 8) := by
  have hk : i % 8 < 8 := Nat.mod_lt _ (by omega)
  unfold testBit
  cases hbit : (b (i / 8)).getLsbD (i % 8) with
  | true =>
      rw [bne_iff_ne]
      intro hzero
      have := congrArg (fun v => v.getLsbD (i % 8)) hzero
      simp [getLsbD_oneShift hk, hbit] at this
  | false =>
      rw [bne_eq_false_iff_eq]
      apply BitVec.eq_of_getLsbD_eq
      intro j _
      rw [BitVec.getLsbD_and, getLsbD_oneShift hk, BitVec.getLsbD_zero]
      by_cases hj : j = i % 8
      · rw [hj, hbit, Bool.false_and]
      · simp [hj]

/-- Two numbers name the same bit only if they are equal. -/
theorem div_mod_eight_inj {i j : Nat} (hd : i / 8 = j / 8) (hm : i % 8 = j % 8) : i = j := by
  omega

theorem testBit_setBit (b : Bitmap) (i j : Nat) :
    testBit (setBit b i) j = (decide (j = i) || testBit b j) := by
  simp only [testBit_eq_getLsbD, setBit, Function.update_apply]
  by_cases hd : j / 8 = i / 8
  · rw [if_pos hd, BitVec.getLsbD_or, getLsbD_oneShift (Nat.mod_lt _ (by omega)), hd,
      Bool.or_comm]
    congr 1
    exact decide_eq_decide.mpr ⟨fun h => div_mod_eight_inj hd h, fun h => by rw [h]⟩
  · have hne : j ≠ i := fun h => hd (by rw [h])
    rw [if_neg hd, decide_eq_false hne, Bool.false_or]

theorem testBit_clearBit (b : Bitmap) (i j : Nat) :
    testBit (clearBit b i) j = (!decide (j = i) && testBit b j) := by
  simp only [testBit_eq_getLsbD, clearBit, Function.update_apply]
  by_cases hd : j / 8 = i / 8
  · have hj : j % 8 < 8 := Nat.mod_lt _ (by omega)
    rw [if_pos hd, BitVec.getLsbD_and, BitVec.getLsbD_not,
      getLsbD_oneShift (Nat.mod_lt _ (by omega)), hd, Bool.and_comm, decide_eq_true hj,
      Bool.true_and]
    congr 2
    exact decide_eq_decide.mpr ⟨fun h => div_mod_eight_inj hd h, fun h => by rw [h]⟩
  · have hne : j ≠ i := fun h => hd (by rw [h])
    rw [if_neg hd, decide_eq_false hne, Bool.not_false, Bool.true_and]

/-- A bitmap is determined by its members. -/
theorem bitmap_ext {b b' : Bitmap} (h : ∀ i, testBit b i = testBit b' i) : b = b' := by
  funext n
  apply BitVec.eq_of_getLsbD_eq
  intro j hj
  have hbit := h (n * 8 + j)
  have hd : (n * 8 + j) / 8 = n := by omega
  have hm : (n * 8 + j) % 8 = j := by omega
  rw [testBit_eq_getLsbD, testBit_eq_getLsbD, hd, hm] at hbit
  exact hbit

/-- A byte is `0xFF` exactly when its eight numbers are all members. -/
theorem byte_eq_allOnes {b : Bitmap} {n : Nat} :
    b n = 0xFF#8 ↔ ∀ j < 8, testBit b (n * 8 + j) = true := by
  have hread : ∀ j < 8, testBit b (n * 8 + j) = (b n).getLsbD j := by
    intro j hj
    have hd : (n * 8 + j) / 8 = n := by omega
    have hm : (n * 8 + j) % 8 = j := by omega
    rw [testBit_eq_getLsbD, hd, hm]
  have hones : ∀ j < 8, (0xFF#8).getLsbD j = true := by decide
  constructor
  · intro h j hj
    rw [hread j hj, h, hones j hj]
  · intro h
    apply BitVec.eq_of_getLsbD_eq
    intro j hj
    rw [← hread j hj, h j hj, hones j hj]

theorem testBit_full (i : Nat) : testBit (fun _ => 0xFF#8) i = true := by
  have h := (byte_eq_allOnes (b := fun _ => 0xFF#8) (n := i / 8)).mp rfl (i % 8)
    (Nat.mod_lt _ (by omega))
  rwa [Nat.div_add_mod'] at h

end Kfs
