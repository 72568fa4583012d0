import Kfs.Lib.Checked
import Kfs.Lib.Mem
import Kfs.Lib.Word
import Mathlib.Data.Nat.Digits.Lemmas

/-!
# Numbers of the shell

`parse_uint`, `parse_hex`, `shell_print_hex` and `shell_print_dec` of
`kernel/src/shell.c`. A string is the list of its characters up to the
`'\0'`; what a function prints is the text it passes to `terminal_write`.

`shell_print_dec` fills a buffer of twelve bytes from the right. Its accesses
are tested, and it prints the digits of the number (`shellPrintDec_digits`);
from there on both round trips are about lists of digits.
-/

namespace Kfs

def charByte (c : Char) : Byte := BitVec.ofNat 8 c.toNat

/-- The bytes of a string constant. -/
def text (s : List Char) : List Byte := s.map charByte

/-! ## Parsing -/

/-- The loop of `parse_uint`. -/
def parseUintFrom (result : Nat) : List Byte → Nat
  | [] => result
  | c :: str =>
      if 48 ≤ c.toNat ∧ c.toNat ≤ 57 then
        parseUintFrom (add32 (mul32 result 10) (c.toNat - 48)) str
      else result

def parseUint (str : List Byte) : Nat := parseUintFrom 0 str

/-- `(result << 4) | digit`. -/
def shiftIn (result digit : Nat) : Nat := (result <<< 4) % 4294967296 ||| digit

/-- The loop of `parse_hex`. -/
def parseHexFrom (result : Nat) : List Byte → Nat
  | [] => result
  | c :: str =>
      if 48 ≤ c.toNat ∧ c.toNat ≤ 57 then parseHexFrom (shiftIn result (c.toNat - 48)) str
      else if 97 ≤ c.toNat ∧ c.toNat ≤ 102 then
        parseHexFrom (shiftIn result (c.toNat - 97 + 10)) str
      else if 65 ≤ c.toNat ∧ c.toNat ≤ 70 then
        parseHexFrom (shiftIn result (c.toNat - 65 + 10)) str
      else result

/-- `0x` or `0X` in front of the number. -/
def skipPrefix : List Byte → List Byte
  | zero :: x :: str =>
      if zero = charByte '0' ∧ (x = charByte 'x' ∨ x = charByte 'X') then str else zero :: x :: str
  | str => str

def parseHex (str : List Byte) : Nat := parseHexFrom 0 (skipPrefix str)

/-! ## Printing -/

/-- `hex_chars`. -/
def hexChars : List Byte :=
  text ['0', '1', '2', '3', '4', '5', '6', '7', '8', '9', 'A', 'B', 'C', 'D', 'E', 'F']

def hexChar (digit : Nat) : Byte := hexChars.getD digit 0#8

/-- The loop of `shell_print_hex`, from the last of `i` digits to the first. -/
def hexLoop : (i num : Nat) → (str : List Byte) → List Byte
  | 0, _, str => str
  | i + 1, num, str => hexLoop i (num >>> 4) (hexChar (num &&& 0xF) :: str)

def shellPrintHex (num : Nat) : List Byte := text ['0', 'x'] ++ hexLoop 8 num []

/-- The loop of `shell_print_dec`, where `k` is `i + 1`. -/
def printDecLoop : (k num : Nat) → (buf : Nat → Byte) → Option (Nat × (Nat → Byte))
  | 0, _, buf => some (0, buf)
  | k + 1, num, buf =>
      if num > 0 then
        (writeCell 12 buf k (BitVec.ofNat 8 (48 + num % 10))).bind (printDecLoop k (num / 10))
      else some (k + 1, buf)

/-- What `shell_print_dec` prints, or `none` if it accesses a byte outside
`buf`, whatever was in there. -/
def shellPrintDec (buf : Nat → Byte) (num : Nat) : Option (List Byte) :=
  if num = 0 then some (text ['0'])
  else
    (printDecLoop 11 num (Function.update buf 11 0#8)).bind fun (k, buf) =>
      readString 0#8 buf (12 - k) k

/-! ## Decimal -/

/-- The digits of a number, most significant first. -/
def decDigits (num : Nat) : List Nat := if num = 0 then [0] else (Nat.digits 10 num).reverse

def digitByte (digit : Nat) : Byte := BitVec.ofNat 8 (48 + digit)

theorem digitByte_toNat {d : Nat} (hd : d < 10) : (digitByte d).toNat = 48 + d := by
  rw [digitByte, BitVec.toNat_ofNat]
  omega

section Decimal

variable {k num : Nat} {buf : Nat → Byte} {s t : List Byte}

/-- The loop puts the digits in front of the string at `k`. -/
theorem printDecLoop_digits (hk : k < 12) (hnum : num < 10 ^ k)
    (hs : readString 0#8 buf (12 - k) k = some s) :
    ∃ k' buf', printDecLoop k num buf = some (k', buf')
      ∧ readString 0#8 buf' (12 - k') k'
        = some ((Nat.digits 10 num).reverse.map digitByte ++ s) := by
  induction k generalizing num buf s with
  | zero =>
      obtain rfl : num = 0 := by omega
      exact ⟨0, buf, rfl, hs⟩
  | succ k ih =>
      by_cases hpos : num > 0
      · have hdigit : digitByte (num % 10) ≠ 0#8 := by
          intro hzero
          have := congrArg BitVec.toNat hzero
          rw [digitByte_toNat (Nat.mod_lt _ (by omega))] at this
          simp at this
        have hstring : readString 0#8 (Function.update buf k (digitByte (num % 10))) (12 - k) k
            = some (digitByte (num % 10) :: s) := by
          have hself : Function.update buf k (digitByte (num % 10)) k = digitByte (num % 10) :=
            Function.update_self ..
          have hleft : 12 - k = 12 - (k + 1) + 1 := by omega
          rw [hleft, readString_cons (by rwa [hself])
            ((readString_update (Nat.lt_succ_self k) _).trans hs), hself]
        have hdiv : num / 10 < 10 ^ k :=
          Nat.div_lt_of_lt_mul (by rw [Nat.pow_succ] at hnum; omega)
        obtain ⟨k', buf', hloop, hread⟩ := ih (by omega) hdiv hstring
        refine ⟨k', buf', ?_, ?_⟩
        · rw [printDecLoop, if_pos hpos, writeCell_some buf (by omega), Option.bind_some]
          exact hloop
        · rw [hread, Nat.digits_def' (by omega) hpos, List.reverse_cons, List.map_append,
            List.append_assoc]
          rfl
      · obtain rfl : num = 0 := by omega
        exact ⟨k + 1, buf, rfl, hs⟩

/-- `shell_print_dec` stays in its buffer and prints the digits. -/
theorem shellPrintDec_digits (buf : Nat → Byte) (hnum : num < 4294967296) :
    shellPrintDec buf num = some ((decDigits num).map digitByte) := by
  unfold shellPrintDec decDigits
  by_cases hzero : num = 0
  · rw [if_pos hzero, if_pos hzero]
    rfl
  · rw [if_neg hzero, if_neg hzero]
    have hempty : readString 0#8 (Function.update buf 11 0#8) (12 - 11) 11 = some [] := by
      rw [readString, if_pos (Function.update_self ..)]
    obtain ⟨k, buf', hloop, hread⟩ := printDecLoop_digits (by omega)
      (show num < 10 ^ 11 by omega) hempty
    rw [hloop, Option.bind_some]
    exact hread.trans (by rw [List.append_nil])

theorem decDigits_lt {d : Nat} (h : d ∈ decDigits num) : d < 10 := by
  unfold decDigits at h
  split at h
  · obtain rfl := List.mem_singleton.mp h
    omega
  · exact Nat.digits_lt_base (by omega) (List.mem_reverse.mp h)

theorem decDigits_value (num : Nat) :
    (decDigits num).foldl (fun value d => value * 10 + d) 0 = num := by
  unfold decDigits
  split
  · next hzero => exact hzero.symm
  · rw [List.foldl_reverse]
    have hvalue := Nat.ofDigits_digits 10 num
    rw [Nat.ofDigits_eq_foldr] at hvalue
    refine Eq.trans ?_ hvalue
    congr 1
    funext d value
    rw [Nat.mul_comm, Nat.add_comm]
    rfl

theorem decDigits_head (hpos : num ≠ 0) : (decDigits num).head? ≠ some 0 := by
  unfold decDigits
  rw [if_neg hpos, List.head?_reverse,
    List.getLast?_eq_some_getLast (Nat.digits_ne_nil_iff_ne_zero.mpr hpos)]
  exact fun hlast => Nat.getLast_digit_ne_zero 10 hpos (Option.some.inj hlast)

/-- A number printed with a leading zero is zero. -/
theorem decDigits_zero (hhead : ((decDigits num).map digitByte).head? = some (charByte '0')) :
    num = 0 := by
  by_contra hpos
  rw [List.head?_map] at hhead
  obtain ⟨d, hd, hbyte⟩ := Option.map_eq_some_iff.mp hhead
  have hlt : d < 10 := decDigits_lt (List.mem_of_mem_head? hd)
  have hvalue : 48 + d = 48 := (digitByte_toNat hlt).symm.trans (congrArg BitVec.toNat hbyte)
  obtain rfl : d = 0 := by omega
  exact decDigits_head hpos hd

theorem decDigits_length (hnum : num < 4294967296) : (decDigits num).length ≤ 10 := by
  unfold decDigits
  split
  · exact Nat.le_of_ble_eq_true rfl
  · rw [List.length_reverse, Nat.digits_length_le_iff (by omega)]
    omega

/-- A string that does not go on with a decimal digit. -/
def NoDigit (t : List Byte) : Prop := ∀ c, t.head? = some c → ¬(48 ≤ c.toNat ∧ c.toNat ≤ 57)

theorem parseUintFrom_stop (ht : NoDigit t) (result : Nat) : parseUintFrom result t = result := by
  cases t with
  | nil => rfl
  | cons c t => exact if_neg (ht c rfl)

/-- Digits are accumulated modulo `2 ^ 32`. -/
theorem parseUintFrom_digits {ds : List Nat} (hds : ∀ d ∈ ds, d < 10) (ht : NoDigit t)
    (value : Nat) :
    parseUintFrom (value % 4294967296) (ds.map digitByte ++ t)
      = ds.foldl (fun value d => value * 10 + d) value % 4294967296 := by
  induction ds generalizing value with
  | nil => exact parseUintFrom_stop ht _
  | cons d ds ih =>
      have hd := hds d List.mem_cons_self
      have hnext : add32 (mul32 (value % 4294967296) 10) (48 + d - 48)
          = (value * 10 + d) % 4294967296 := by
        rw [mul32_eq, add32_eq]
        omega
      rw [List.map_cons, List.cons_append, parseUintFrom, digitByte_toNat hd, if_pos (by omega),
        hnext]
      exact ih (fun x hx => hds x (List.mem_cons_of_mem _ hx)) _

theorem parseUint_decDigits (hnum : num < 4294967296) (ht : NoDigit t) :
    parseUint ((decDigits num).map digitByte ++ t) = num := by
  have hds : ∀ d ∈ decDigits num, d < 10 := fun d hd => decDigits_lt hd
  have h := parseUintFrom_digits hds ht 0
  rw [decDigits_value, Nat.mod_eq_of_lt hnum] at h
  exact h

end Decimal

/-! ## Hexadecimal -/

section Hexadecimal

variable {num digit : Nat} {t : List Byte}

theorem shiftIn_eq (result : Nat) (hdigit : digit < 16) :
    shiftIn result digit = (result * 16 + digit) % 4294967296 := by
  have hshift : (result <<< 4) % 4294967296 = (result % 268435456) <<< 4 := by
    rw [Nat.shiftLeft_eq, Nat.shiftLeft_eq]
    omega
  rw [shiftIn, hshift, ← Nat.shiftLeft_add_eq_or_of_lt (show digit < 2 ^ 4 from hdigit),
    Nat.shiftLeft_eq]
  omega

theorem hexChar_toNat (hdigit : digit < 16) :
    (hexChar digit).toNat = if digit < 10 then 48 + digit else 55 + digit := by
  revert hdigit
  revert digit
  decide

theorem parseHexFrom_hexChar (result : Nat) (hdigit : digit < 16) :
    parseHexFrom result (hexChar digit :: t) = parseHexFrom (shiftIn result digit) t := by
  rw [parseHexFrom, hexChar_toNat hdigit]
  by_cases hten : digit < 10
  · rw [if_pos hten, if_pos (by omega), Nat.add_sub_cancel_left]
  · rw [if_neg hten, if_neg (by omega), if_neg (by omega), if_pos (by omega)]
    congr 2
    omega

/-- The printed digits, and then the rest of the string. -/
theorem hexLoop_append (i num : Nat) (str t : List Byte) :
    hexLoop i num str ++ t = hexLoop i num (str ++ t) := by
  induction i generalizing num str with
  | zero => rfl
  | succ i ih =>
      rw [hexLoop, ih]
      rfl

theorem parseHexFrom_hexLoop (i num value : Nat) (str : List Byte) :
    parseHexFrom (value % 4294967296) (hexLoop i num str)
      = parseHexFrom ((value * 16 ^ i + num % 16 ^ i) % 4294967296) str := by
  induction i generalizing num str with
  | zero =>
      rw [hexLoop, Nat.pow_zero, Nat.mul_one, Nat.mod_one, Nat.add_zero]
  | succ i ih =>
      have hand : num &&& 0xF = num % 16 := Nat.and_two_pow_sub_one_eq_mod num 4
      have hshift : num >>> 4 = num / 16 := Nat.shiftRight_eq_div_pow num 4
      have hmod : num % 16 ^ (i + 1) = num / 16 % 16 ^ i * 16 + num % 16 := by
        rw [Nat.pow_succ, Nat.mul_comm, Nat.mod_mul]
        omega
      rw [hexLoop, ih, hand, hshift, parseHexFrom_hexChar _ (Nat.mod_lt _ (by omega)),
        shiftIn_eq _ (Nat.mod_lt _ (by omega)), hmod]
      congr 1
      rw [Nat.pow_succ, ← Nat.mul_assoc]
      generalize value * 16 ^ i = a
      generalize num / 16 % 16 ^ i = b
      omega

/-- A string that does not go on with a hexadecimal digit. -/
def NoHexDigit (t : List Byte) : Prop :=
  ∀ c, t.head? = some c → ¬(48 ≤ c.toNat ∧ c.toNat ≤ 57) ∧ ¬(97 ≤ c.toNat ∧ c.toNat ≤ 102)
    ∧ ¬(65 ≤ c.toNat ∧ c.toNat ≤ 70)

theorem parseHexFrom_stop (ht : NoHexDigit t) (result : Nat) : parseHexFrom result t = result := by
  cases t with
  | nil => rfl
  | cons c t =>
      obtain ⟨h1, h2, h3⟩ := ht c rfl
      rw [parseHexFrom, if_neg h1, if_neg h2, if_neg h3]

theorem parseHexFrom_digits (hnum : num < 4294967296) (ht : NoHexDigit t) :
    parseHexFrom 0 (hexLoop 8 num [] ++ t) = num := by
  have h := parseHexFrom_hexLoop 8 num 0 t
  have hvalue : (0 * 16 ^ 8 + num % 16 ^ 8) % 4294967296 = num := by omega
  rw [hvalue, parseHexFrom_stop ht] at h
  rw [hexLoop_append]
  exact h

/-- A string with a prefix of its own. -/
def HasPrefix (str : List Byte) : Prop := skipPrefix str ≠ str

theorem skipPrefix_skips (str : List Byte) :
    skipPrefix (text ['0', 'x'] ++ str) = str ∧ skipPrefix (text ['0', 'X'] ++ str) = str := by
  have hx : text ['0', 'x'] ++ str = charByte '0' :: charByte 'x' :: str := rfl
  have hX : text ['0', 'X'] ++ str = charByte '0' :: charByte 'X' :: str := rfl
  constructor
  · rw [hx, skipPrefix, if_pos ⟨rfl, Or.inl rfl⟩]
  · rw [hX, skipPrefix, if_pos ⟨rfl, Or.inr rfl⟩]

/-- A prefix does not change the number. -/
theorem parseHex_skips {str : List Byte} (h : ¬HasPrefix str) :
    parseHex (text ['0', 'x'] ++ str) = parseHex str
      ∧ parseHex (text ['0', 'X'] ++ str) = parseHex str := by
  unfold parseHex
  rw [(skipPrefix_skips str).1, (skipPrefix_skips str).2, not_not.mp h]
  exact ⟨rfl, rfl⟩

/-- The second of two hexadecimal digits is no `x`. -/
theorem not_hasPrefix_hexChar {first second : Nat} (hsecond : second < 16) (str : List Byte) :
    ¬HasPrefix (hexChar first :: hexChar second :: str) := by
  have hx : hexChar second ≠ charByte 'x' ∧ hexChar second ≠ charByte 'X' := by
    revert hsecond
    revert second
    decide
  unfold HasPrefix
  rw [skipPrefix, if_neg fun h => h.2.elim hx.1 hx.2]
  exact not_not.mpr rfl

theorem hexLoop_noPrefix (num : Nat) (t : List Byte) : ¬HasPrefix (hexLoop 8 num [] ++ t) := by
  have hdigit : ∀ n : Nat, n &&& 0xF < 16 := fun n =>
    (Nat.and_two_pow_sub_one_eq_mod n 4).trans_lt (Nat.mod_lt n (by omega))
  rw [hexLoop_append]
  exact not_hasPrefix_hexChar (hdigit _) _

end Hexadecimal

/-! ## Round trips -/

/-- Whatever is in the buffer, `shell_print_dec` stays inside it and prints at
most ten digits, with a leading zero only for `0`. Both parsers give back the
printed number, with and without the prefix. -/
theorem shellPrint_parses (buf : Nat → Byte) (num : Nat) (hnum : num < 4294967296) :
    (∃ s, shellPrintDec buf num = some s ∧ s.length ≤ 10
      ∧ (s.head? = some (charByte '0') → s = text ['0'] ∧ num = 0)
      ∧ ∀ t, NoDigit t → parseUint (s ++ t) = num)
    ∧ (∀ t, NoHexDigit t → parseHex (shellPrintHex num ++ t) = num
      ∧ parseHex (hexLoop 8 num [] ++ t) = num)
    ∧ ∀ str, ¬HasPrefix str → parseHex (text ['0', 'x'] ++ str) = parseHex str
      ∧ parseHex (text ['0', 'X'] ++ str) = parseHex str := by
  refine ⟨⟨_, shellPrintDec_digits buf hnum, ?_, fun hhead => ?_, fun t ht => ?_⟩,
    fun t ht => ?_, fun str hstr => parseHex_skips hstr⟩
  · rw [List.length_map]
    exact decDigits_length hnum
  · have hzero : num = 0 := decDigits_zero hhead
    exact ⟨by rw [hzero]; rfl, hzero⟩
  · exact parseUint_decDigits hnum ht
  · have hdigits : parseHex (hexLoop 8 num [] ++ t) = num := by
      rw [parseHex, not_not.mp (hexLoop_noPrefix num t)]
      exact parseHexFrom_digits hnum ht
    refine ⟨?_, hdigits⟩
    rw [shellPrintHex, List.append_assoc, (parseHex_skips (hexLoop_noPrefix num t)).1]
    exact hdigits

theorem shellPrint_parses_largest :
    (∃ s, shellPrintDec (fun _ => 0xFF#8) 4294967295 = some s ∧ s.length ≤ 10
      ∧ (s.head? = some (charByte '0') → s = text ['0'] ∧ 4294967295 = 0)
      ∧ ∀ t, NoDigit t → parseUint (s ++ t) = 4294967295)
    ∧ (∀ t, NoHexDigit t → parseHex (shellPrintHex 4294967295 ++ t) = 4294967295
      ∧ parseHex (hexLoop 8 4294967295 [] ++ t) = 4294967295)
    ∧ ∀ str, ¬HasPrefix str → parseHex (text ['0', 'x'] ++ str) = parseHex str
      ∧ parseHex (text ['0', 'X'] ++ str) = parseHex str :=
  shellPrint_parses (fun _ => 0xFF#8) 4294967295 (by omega)

end Kfs
