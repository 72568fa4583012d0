import Kfs.ShellNumbers
import Mathlib.Data.List.Basic

/-!
# Hexdump

`shell_hexdump` of `kernel/src/shell.c` and its reader `parse_hexdump_bytes`
of `tools/test_kfs.py`, over the ASCII text that passes between them.

The reader finds the bytes of a line between the colon and the first `|`,
which is the one in front of the ASCII column: neither a digit nor padding is
a `|`. What it keeps of that part are the pairs of digits, and every printed
pair has a space on both sides, in a full line and in a short one.
-/

namespace Kfs

/-! ## The writer -/

def shellPrintByte (byte : Byte) : List Byte :=
  [hexChar ((byte.toNat >>> 4) &&& 0xF), hexChar (byte.toNat &&& 0xF)]

/-- `if (j == 7) terminal_putchar(' ')`. -/
def gapAfter (j : Nat) : List Byte := if j = 7 then text [' '] else []

section

variable (m : Mem) (addr size i : Nat)

/-- `ptr[i + j]`. -/
def dumpedByte (j : Nat) : Byte := m (add32 addr (add32 i j))

/-- The padding of a short line, where `k` is `16 - j`. -/
def padBytes : (k j : Nat) → List Byte
  | 0, _ => []
  | k + 1, j => text [' ', ' ', ' '] ++ gapAfter j ++ padBytes k (j + 1)

/-- The two loops over `j` that fill the hex column. -/
def hexColumn : (k j : Nat) → List Byte
  | 0, _ => []
  | k + 1, j =>
      if add32 i j < size then
        shellPrintByte (dumpedByte m addr i j) ++ text [' '] ++ gapAfter j ++ hexColumn k (j + 1)
      else padBytes (k + 1) j

/-- A `char` is signed. -/
def asciiChar (c : Byte) : Byte := if 32 ≤ c.toInt ∧ c.toInt < 127 then c else charByte '.'

def asciiColumn : (k j : Nat) → List Byte
  | 0, _ => []
  | k + 1, j =>
      if add32 i j < size then asciiChar (dumpedByte m addr i j) :: asciiColumn k (j + 1) else []

/-- One line, without the newline. -/
def hexdumpLine : List Byte :=
  shellPrintHex (add32 addr i) ++ text [':', ' '] ++ hexColumn m addr size i 16 0
    ++ text [' ', '|'] ++ asciiColumn m addr size i 16 0 ++ text ['|']

/-- The loop over the lines, or `none` when it has not ended after `fuel` tests. -/
def hexdumpLoop : (fuel i : Nat) → Option (List Byte)
  | 0, _ => none
  | fuel + 1, i =>
      if i < size then
        (hexdumpLoop fuel (add32 i 16)).map fun rest =>
          hexdumpLine m addr size i ++ text ['\n'] ++ rest
      else some []

/-- A dump has at most `size / 16 + 1` lines. -/
def shellHexdump : Option (List Byte) := hexdumpLoop m addr size (size / 16 + 2) 0

end

/-! ## The reader -/

/-- `clean_output`. -/
def cleanOutput (output : List Byte) : List Byte :=
  output.filter fun c => c ≠ 13#8 ∧ c ≠ 0#8

/-- What ends a line for `splitlines`, where `clean_output` has removed the
carriage returns. -/
def isLineBreak (c : Byte) : Bool := c.toNat ∈ [10, 11, 12, 13, 28, 29, 30]

/-- `splitlines`, with the line read so far. -/
def splitlinesFrom (line : List Byte) : List Byte → List (List Byte)
  | [] => if line = [] then [] else [line]
  | c :: output =>
      if isLineBreak c then line :: splitlinesFrom [] output
      else splitlinesFrom (line ++ [c]) output

def splitlines (output : List Byte) : List (List Byte) := splitlinesFrom [] output

/-- `[0-9A-Fa-f]`. -/
def isHexDigit (c : Byte) : Bool :=
  (48 ≤ c.toNat ∧ c.toNat ≤ 57) ∨ (65 ≤ c.toNat ∧ c.toNat ≤ 70)
    ∨ (97 ≤ c.toNat ∧ c.toNat ≤ 102)

/-- `\s`. -/
def isBlank (c : Byte) : Bool := c.toNat ∈ [9, 10, 11, 12, 13, 28, 29, 30, 31, 32]

/-- `\w`, the two sides of a `\b`. -/
def isWord (c : Byte) : Bool :=
  (48 ≤ c.toNat ∧ c.toNat ≤ 57) ∨ (65 ≤ c.toNat ∧ c.toNat ≤ 90) ∨ c.toNat = 95
    ∨ (97 ≤ c.toNat ∧ c.toNat ≤ 122)

/-- `0x[0-9A-Fa-f]+:\s*(.*?)\|` at the start of a string without newlines:
digits and blanks are taken as far as they go, since neither is followed by
one of its kind. -/
def matchDump : List Byte → Option (List Byte)
  | zero :: x :: rest =>
      if zero = charByte '0' ∧ x = charByte 'x' ∧ rest.takeWhile isHexDigit ≠ [] then
        match rest.dropWhile isHexDigit with
        | colon :: rest =>
            if colon = charByte ':' ∧ charByte '|' ∈ rest then
              some ((rest.dropWhile isBlank).takeWhile (· ≠ charByte '|'))
            else none
        | [] => none
      else none
  | _ => none

/-- `re.search` takes the first place where the pattern matches. -/
def searchDump : List Byte → Option (List Byte)
  | [] => none
  | c :: line => (matchDump (c :: line)).or (searchDump line)

/-- A digit of `int(token, 16)`. -/
def digitValue (c : Byte) : Nat :=
  if c.toNat ≤ 57 then c.toNat - 48 else if c.toNat ≤ 70 then c.toNat - 55 else c.toNat - 87

/-- `re.findall` with `\b[0-9A-Fa-f]{2}\b`, after a word character or not. -/
def findTokens : (afterWord : Bool) → List Byte → List Byte
  | afterWord, a :: b :: rest =>
      if afterWord = false ∧ isHexDigit a ∧ isHexDigit b ∧ rest.head?.any isWord = false then
        BitVec.ofNat 8 (digitValue a * 16 + digitValue b) :: findTokens true rest
      else findTokens (isWord a) (b :: rest)
  | _, _ => []

/-- What one line adds to the result. -/
def lineBytes (line : List Byte) : List Byte :=
  match searchDump line with
  | none => []
  | some group => findTokens false group

def parseHexdumpBytes (output : List Byte) : List Byte :=
  (splitlines (cleanOutput output)).flatMap lineBytes

/-! ## What is printed -/

/-- The `n` bytes from `a` on. -/
def memBytes (m : Mem) (a n : Nat) : List Byte := (List.range n).map fun k => m (a + k)

theorem memBytes_cons (m : Mem) (a n : Nat) :
    memBytes m a (n + 1) = m a :: memBytes m (a + 1) n := by
  unfold memBytes
  rw [List.range_succ_eq_map, List.map_cons, List.map_map]
  congr 1
  refine List.map_congr_left fun k _ => ?_
  rw [Function.comp_apply]
  congr 1
  omega

theorem memBytes_add (m : Mem) (a n k : Nat) :
    memBytes m a (n + k) = memBytes m a n ++ memBytes m (a + n) k := by
  unfold memBytes
  rw [List.range_add, List.map_append, List.map_map]
  congr 1
  refine List.map_congr_left fun j _ => ?_
  rw [Function.comp_apply, Nat.add_assoc]

def Printed (c : Byte) : Prop := 32 ≤ c.toNat ∧ c.toNat < 127

/-- A character of the hex column: a space or a digit. -/
def ColumnChar (c : Byte) : Prop := c = charByte ' ' ∨ ∃ d < 16, c = hexChar d

theorem and_fifteen_lt (n : Nat) : n &&& 0xF < 16 :=
  (Nat.and_two_pow_sub_one_eq_mod n 4).trans_lt (Nat.mod_lt n (by omega))

section

variable {m : Mem} {addr size i k j d num : Nat} {c b : Byte} {line rest str t : List Byte}

theorem hexChar_isHexDigit (hd : d < 16) : isHexDigit (hexChar d) = true := by
  revert hd
  revert d
  decide

theorem hexChar_not_blank (hd : d < 16) : isBlank (hexChar d) = false := by
  revert hd
  revert d
  decide

theorem hexChar_value (hd : d < 16) : digitValue (hexChar d) = d := by
  revert hd
  revert d
  decide

theorem ColumnChar.printed (h : ColumnChar c) : Printed c := by
  obtain rfl | ⟨d, hd, rfl⟩ := h
  · exact ⟨by decide, by decide⟩
  · unfold Printed
    rw [hexChar_toNat hd]
    split <;> omega

theorem ColumnChar.ne_bar (h : ColumnChar c) : c ≠ charByte '|' := by
  obtain rfl | ⟨d, hd, rfl⟩ := h
  · decide
  · intro hbar
    have hvalue : (hexChar d).toNat = 124 := congrArg BitVec.toNat hbar
    rw [hexChar_toNat hd] at hvalue
    split at hvalue <;> omega

theorem Printed.not_lineBreak (h : Printed c) : isLineBreak c = false := by
  obtain ⟨hlo, -⟩ := h
  unfold isLineBreak
  rw [decide_eq_false_iff_not]
  intro hmem
  simp only [List.mem_cons, List.not_mem_nil, or_false] at hmem
  omega

theorem asciiChar_printed (c : Byte) : Printed (asciiChar c) := by
  unfold asciiChar
  split
  · next h =>
      have hlt := c.isLt
      rw [BitVec.toInt_eq_toNat_cond] at h
      unfold Printed
      split at h <;> omega
  · exact ⟨by decide, by decide⟩

theorem mem_hexLoop (h : c ∈ hexLoop i num str) : c ∈ str ∨ ∃ d < 16, c = hexChar d := by
  induction i generalizing num str with
  | zero => exact Or.inl h
  | succ i ih =>
      obtain hstr | hdigit := ih h
      · obtain rfl | hstr := List.mem_cons.mp hstr
        · exact Or.inr ⟨_, and_fifteen_lt num, rfl⟩
        · exact Or.inl hstr
      · exact Or.inr hdigit

theorem hexLoop_digits (h : c ∈ hexLoop i num []) : ∃ d < 16, c = hexChar d :=
  (mem_hexLoop h).resolve_left List.not_mem_nil

theorem hexLoop_length (i num : Nat) (str : List Byte) :
    (hexLoop i num str).length = i + str.length := by
  induction i generalizing num str with
  | zero => exact (Nat.zero_add _).symm
  | succ i ih =>
      rw [hexLoop, ih, List.length_cons]
      omega

theorem mem_gapAfter (h : c ∈ gapAfter j) : ColumnChar c := by
  unfold gapAfter at h
  split at h
  · exact Or.inl (List.mem_singleton.mp h)
  · exact absurd h List.not_mem_nil

theorem mem_padBytes (h : c ∈ padBytes k j) : ColumnChar c := by
  induction k generalizing j with
  | zero => exact absurd h List.not_mem_nil
  | succ k ih =>
      rw [padBytes, List.mem_append, List.mem_append] at h
      obtain (hblank | hgap) | hrest := h
      · exact Or.inl (List.eq_of_mem_replicate (n := 3) hblank)
      · exact mem_gapAfter hgap
      · exact ih hrest

theorem mem_shellPrintByte (h : c ∈ shellPrintByte b) : ColumnChar c := by
  obtain rfl | h := List.mem_cons.mp h
  · exact Or.inr ⟨_, and_fifteen_lt _, rfl⟩
  · obtain rfl := List.mem_singleton.mp h
    exact Or.inr ⟨_, and_fifteen_lt _, rfl⟩

theorem mem_hexColumn (h : c ∈ hexColumn m addr size i k j) : ColumnChar c := by
  induction k generalizing j with
  | zero => exact absurd h List.not_mem_nil
  | succ k ih =>
      rw [hexColumn] at h
      split at h
      · rw [List.mem_append, List.mem_append, List.mem_append] at h
        obtain ((hbyte | hblank) | hgap) | hrest := h
        · exact mem_shellPrintByte hbyte
        · exact Or.inl (List.mem_singleton.mp hblank)
        · exact mem_gapAfter hgap
        · exact ih hrest
      · exact mem_padBytes h

theorem mem_asciiColumn (h : c ∈ asciiColumn m addr size i k j) : Printed c := by
  induction k generalizing j with
  | zero => exact absurd h List.not_mem_nil
  | succ k ih =>
      rw [asciiColumn] at h
      split at h
      · obtain rfl | hrest := List.mem_cons.mp h
        · exact asciiChar_printed _
        · exact ih hrest
      · exact absurd h List.not_mem_nil

/-- The characters of a constant, one by one. -/
theorem text_printed {s : List Char}
    (hs : (text s).all (fun c => decide (32 ≤ c.toNat ∧ c.toNat < 127)) = true) (h : c ∈ text s) :
    Printed c := by
  have hc : 32 ≤ c.toNat ∧ c.toNat < 127 := of_decide_eq_true (List.all_eq_true.mp hs c h)
  exact hc

theorem mem_hexdumpLine (h : c ∈ hexdumpLine m addr size i) : Printed c := by
  unfold hexdumpLine shellPrintHex at h
  simp only [List.mem_append] at h
  obtain (((((hzero | hdigit) | hcolon) | hhex) | hbar) | hascii) | hbar := h
  · exact text_printed (by decide) hzero
  · exact ColumnChar.printed (Or.inr (hexLoop_digits hdigit))
  · exact text_printed (by decide) hcolon
  · exact (mem_hexColumn hhex).printed
  · exact text_printed (by decide) hbar
  · exact mem_asciiColumn hascii
  · exact text_printed (by decide) hbar

/-! ## Reading a line -/

theorem findTokens_space (afterWord : Bool) (t : List Byte) :
    findTokens afterWord (charByte ' ' :: t) = findTokens false t := by
  cases t with
  | nil => rfl
  | cons b t => rw [findTokens, if_neg fun h => Bool.false_ne_true h.2.1]; rfl

theorem findTokens_gap (t : List Byte) :
    findTokens false (gapAfter j ++ t) = findTokens false t := by
  unfold gapAfter
  split
  · exact findTokens_space false t
  · rfl

theorem findTokens_pad (k j : Nat) (t : List Byte) :
    findTokens false (padBytes k j ++ t) = findTokens false t := by
  induction k generalizing j with
  | zero => rfl
  | succ k ih =>
      rw [padBytes, List.append_assoc, List.append_assoc]
      refine (findTokens_space false _).trans ((findTokens_space false _).trans
        ((findTokens_space false _).trans ?_))
      exact (findTokens_gap _).trans (ih (j + 1))

/-- A printed byte is read as one token. -/
theorem findTokens_byte (b : Byte) (t : List Byte) :
    findTokens false (shellPrintByte b ++ text [' '] ++ t) = b :: findTokens false t := by
  have hhi := and_fifteen_lt (b.toNat >>> 4)
  have hlo := and_fifteen_lt b.toNat
  have hvalue : BitVec.ofNat 8 (digitValue (hexChar ((b.toNat >>> 4) &&& 0xF)) * 16
      + digitValue (hexChar (b.toNat &&& 0xF))) = b := by
    rw [hexChar_value hhi, hexChar_value hlo]
    revert b
    decide
  show findTokens false (hexChar _ :: hexChar _ :: charByte ' ' :: t) = _
  rw [findTokens, if_pos ⟨rfl, hexChar_isHexDigit hhi, hexChar_isHexDigit hlo, rfl⟩,
    findTokens_space, hvalue]

theorem dumpedByte_eq (h : addr + (i + j) < 4294967296) :
    dumpedByte m addr i j = m (addr + (i + j)) := by
  have hij : i + j < 4294967296 := by omega
  rw [dumpedByte, add32_of_lt hij, add32_of_lt h]

/-- The hex column from position `j` on. -/
theorem findTokens_hexColumn (hsize : addr + size ≤ 4294967296) (hk : i + j + k < 4294967296)
    (t : List Byte) :
    findTokens false (hexColumn m addr size i k j ++ t)
      = memBytes m (addr + (i + j)) (min k (size - (i + j))) ++ findTokens false t := by
  induction k generalizing j with
  | zero => rw [Nat.zero_min]; rfl
  | succ k ih =>
      have hij : add32 i j = i + j := add32_of_lt (by omega)
      rw [hexColumn, hij]
      split
      · next hlt =>
          have hmin : min (k + 1) (size - (i + j)) = min k (size - (i + (j + 1))) + 1 := by omega
          have hnext : addr + (i + (j + 1)) = addr + (i + j) + 1 := by omega
          rw [List.append_assoc, List.append_assoc, findTokens_byte, findTokens_gap,
            ih (by omega), dumpedByte_eq (by omega), hmin, memBytes_cons, hnext]
          rfl
      · next hge =>
          have hmin : min (k + 1) (size - (i + j)) = 0 := by omega
          rw [findTokens_pad, hmin]
          rfl

theorem hexColumn_head (m : Mem) (addr : Nat) (hi : i < size) (hlt : i < 4294967296) :
    ∃ d < 16, ∃ t, hexColumn m addr size i 16 0 = hexChar d :: t := by
  have hi0 : add32 i 0 < size := by rwa [add32_of_lt (by omega)]
  rw [hexColumn, if_pos hi0]
  exact ⟨_, and_fifteen_lt _, _, rfl⟩

/-- The first bar of a line is the one in front of the ASCII column. -/
theorem matchDump_hexdumpLine (m : Mem) (addr : Nat) (hi : i < size) (hlt : i < 4294967296) :
    matchDump (hexdumpLine m addr size i)
      = some (hexColumn m addr size i 16 0 ++ text [' ']) := by
  obtain ⟨d, hd, tail, hhead⟩ := hexColumn_head m addr hi hlt
  generalize hdigits : hexLoop 8 (add32 addr i) [] = digits
  generalize hcolumn : hexColumn m addr size i 16 0 = column at hhead ⊢
  have hall : ∀ c ∈ digits, isHexDigit c = true := fun c hc => by
    obtain ⟨d, hd, rfl⟩ := hexLoop_digits (hdigits ▸ hc)
    exact hexChar_isHexDigit hd
  have hbar : ∀ c ∈ column, decide (c ≠ charByte '|') = true := fun c hc =>
    decide_eq_true (mem_hexColumn (hcolumn ▸ hc)).ne_bar
  have hline : hexdumpLine m addr size i = charByte '0' :: charByte 'x' :: (digits
      ++ charByte ':' :: charByte ' ' :: (column
        ++ charByte ' ' :: charByte '|' :: (asciiColumn m addr size i 16 0 ++ text ['|']))) := by
    rw [hexdumpLine, shellPrintHex, hdigits, hcolumn]
    simp only [List.append_assoc]
    rfl
  generalize asciiColumn m addr size i 16 0 ++ text ['|'] = rest at hline
  have htake : (digits ++ charByte ':' :: charByte ' ' :: (column
      ++ charByte ' ' :: charByte '|' :: rest)).takeWhile isHexDigit = digits := by
    rw [List.takeWhile_append_of_pos hall]
    exact List.append_nil digits
  have hdrop : (digits ++ charByte ':' :: charByte ' ' :: (column
      ++ charByte ' ' :: charByte '|' :: rest)).dropWhile isHexDigit
      = charByte ':' :: charByte ' ' :: (column ++ charByte ' ' :: charByte '|' :: rest) :=
    List.dropWhile_append_of_pos hall
  have hne : digits ≠ [] := fun hnil => by
    have hlength := hexLoop_length 8 (add32 addr i) []
    rw [hdigits, hnil] at hlength
    exact absurd hlength (by decide)
  have hblank : (charByte ' ' :: (column ++ charByte ' ' :: charByte '|' :: rest)).dropWhile isBlank
      = column ++ charByte ' ' :: charByte '|' :: rest := by
    rw [hhead, List.dropWhile_cons_of_pos rfl, List.cons_append,
      List.dropWhile_cons_of_neg (by rw [hexChar_not_blank hd]; exact Bool.false_ne_true)]
  have hmem : charByte '|' ∈ charByte ' ' :: (column ++ charByte ' ' :: charByte '|' :: rest) :=
    List.mem_cons_of_mem _ (List.mem_append_right _ (List.mem_cons_of_mem _ List.mem_cons_self))
  rw [hline, matchDump, htake, hdrop, if_pos ⟨rfl, rfl, hne⟩]
  show (if charByte ':' = charByte ':' ∧ _ then _ else _) = _
  rw [if_pos ⟨rfl, hmem⟩, hblank, List.takeWhile_append_of_pos hbar]
  rfl

theorem lineBytes_hexdumpLine (hi : i < size) (hfull : size + 16 ≤ 4294967296)
    (hsize : addr + size ≤ 4294967296) :
    lineBytes (hexdumpLine m addr size i) = memBytes m (addr + i) (min 16 (size - i)) := by
  have hsearch : searchDump (hexdumpLine m addr size i)
      = some (hexColumn m addr size i 16 0 ++ text [' ']) := by
    have hmatch := matchDump_hexdumpLine m addr hi (by omega)
    revert hmatch
    generalize hexdumpLine m addr size i = line
    intro hmatch
    cases line with
    | nil => exact absurd hmatch.symm (Option.some_ne_none _)
    | cons c line => rw [searchDump, hmatch]; rfl
  rw [lineBytes, hsearch]
  have hcolumn := findTokens_hexColumn (m := m) (i := i) (j := 0) (k := 16) hsize
    (by omega) (text [' '])
  rw [Nat.add_zero] at hcolumn
  exact hcolumn.trans (List.append_nil _)

/-! ## Reading the dump -/

/-- A printed line is read as one line. -/
theorem splitlinesFrom_line (hline : ∀ c ∈ line, Printed c) (before : List Byte) :
    splitlinesFrom before (line ++ text ['\n'] ++ rest)
      = (before ++ line) :: splitlinesFrom [] rest := by
  induction line generalizing before with
  | nil =>
      rw [List.append_nil]
      rfl
  | cons c line ih =>
      have hc := (hline c List.mem_cons_self).not_lineBreak
      rw [List.cons_append, List.cons_append, splitlinesFrom, if_neg (by rw [hc]; decide),
        ih fun x hx => hline x (List.mem_cons_of_mem _ hx), List.append_assoc]
      rfl

theorem parseHexdumpBytes_line (hline : ∀ c ∈ line, Printed c) :
    parseHexdumpBytes (line ++ text ['\n'] ++ rest)
      = lineBytes line ++ parseHexdumpBytes rest := by
  have hkeep : cleanOutput line = line := by
    refine List.filter_eq_self.mpr fun c hc => decide_eq_true ⟨fun h => ?_, fun h => ?_⟩ <;>
    · have hlo := (hline c hc).1
      rw [h] at hlo
      exact absurd hlo (by decide)
  have hclean : cleanOutput (line ++ text ['\n'] ++ rest)
      = line ++ text ['\n'] ++ cleanOutput rest := by
    unfold cleanOutput at hkeep ⊢
    rw [List.filter_append, List.filter_append, hkeep]
    rfl
  unfold parseHexdumpBytes splitlines
  rw [hclean, splitlinesFrom_line hline, List.flatMap_cons, List.nil_append]

theorem hexdumpLoop_parses (hfull : size + 16 ≤ 4294967296) (hsize : addr + size ≤ 4294967296)
    {fuel : Nat} (hfuel : size + 16 ≤ i + 16 * fuel) (hi : i < size + 16) :
    ∃ out, hexdumpLoop m addr size fuel i = some out
      ∧ parseHexdumpBytes out = memBytes m (addr + i) (size - i) := by
  induction fuel generalizing i with
  | zero => omega
  | succ fuel ih =>
      rw [hexdumpLoop]
      split
      · next hlt =>
          have hnext : add32 i 16 = i + 16 := add32_of_lt (by omega)
          obtain ⟨out, hloop, hparse⟩ := ih (i := i + 16) (by omega) (by omega)
          refine ⟨_, by rw [hnext, hloop]; rfl, ?_⟩
          rw [parseHexdumpBytes_line fun c hc => mem_hexdumpLine hc, hparse,
            lineBytes_hexdumpLine hlt hfull hsize]
          by_cases hlast : size - i ≤ 16
          · have hmin : min 16 (size - i) = size - i := by omega
            have hzero : size - (i + 16) = 0 := by omega
            rw [hmin, hzero]
            exact List.append_nil _
          · have hmin : min 16 (size - i) = 16 := by omega
            have hsplit : size - i = 16 + (size - (i + 16)) := by omega
            rw [hmin, hsplit, memBytes_add, Nat.add_assoc addr i 16]
      · next hge =>
          have hzero : size - i = 0 := by omega
          refine ⟨[], rfl, ?_⟩
          rw [hzero]
          rfl

end

/-- The text of a dump is read back as the bytes of memory, each once and in
order. -/
theorem shellHexdump_parses (m : Mem) (addr size : Nat) (hsize : size ≤ 512)
    (hend : addr + size ≤ 4294967296) :
    ∃ out, shellHexdump m addr size = some out
      ∧ parseHexdumpBytes out = (List.range size).map fun k => m (addr + k) := by
  have hfuel : size + 16 ≤ 0 + 16 * (size / 16 + 2) := by omega
  obtain ⟨out, hloop, hparse⟩ := hexdumpLoop_parses (m := m) (by omega) hend hfuel (by omega)
  exact ⟨out, hloop, hparse⟩

/-- A short last line full of bars. -/
theorem shellHexdump_parses_bars :
    ∃ out, shellHexdump (fun _ => charByte '|') 0xFFFFFFED 19 = some out
      ∧ parseHexdumpBytes out = (List.range 19).map fun _ => charByte '|' :=
  shellHexdump_parses (fun _ => charByte '|') 0xFFFFFFED 19 (by omega) (by omega)

end Kfs
