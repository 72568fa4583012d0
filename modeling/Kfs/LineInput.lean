import Kfs.Lib.Editor
import Kfs.Lib.Mem
import Kfs.TerminalScreen

/-!
# Reading a line

`keyboard_get_line` of `kernel/src/keyboard.c` and the read loop of
`shell_run` in `kernel/src/shell.c`. The input is the list of characters that
`keyboard_getchar` or `shell_getchar` will return; a call that runs out of
them is still waiting, and gives `none`.

Both loops keep a line in a buffer that grows and shrinks at its end
(`Typed`): every character is one step of `editLine`, or of `editBounded` for
the shell, which drops what does not fit.
-/

namespace Kfs

/-! ## The two loops -/

/-- The loop of `keyboard_get_line`, up to the `'\0'`. -/
def getLineLoop (buffer bufferSize : Nat) :
    List Byte → Mem → (position : Nat) → Option (Nat × Mem × List Byte)
  | [], m, position => if position + 1 < bufferSize then none else some (position, m, [])
  | c :: input, m, position =>
      if position + 1 < bufferSize then
        if c = charBackspace then
          getLineLoop buffer bufferSize input m
            (if position > 0 then position - 1 else position)
        else
          let m := store8 m (buffer + position) c
          let position := position + 1
          if c = charNewline then some (position, m, input)
          else getLineLoop buffer bufferSize input m position
      else some (position, m, c :: input)

/-- What `keyboard_get_line` returns, the memory and the characters that are
left; `buffer = 0` is `NULL`. -/
def keyboardGetLine (m : Mem) (buffer bufferSize : Nat) (input : List Byte) :
    Option (Int × Mem × List Byte) :=
  if buffer = 0 ∨ bufferSize = 0 then some (-1, m, input)
  else
    (getLineLoop buffer bufferSize input m 0).map fun (position, m, input) =>
      (position, store8 m (buffer + position) 0#8, input)

/-- `SHELL_BUFFER_SIZE`. -/
def shellBufferSize : Nat := 256

/-- The loop that reads a line in `shell_run`, with the terminal it echoes
to. -/
def shellReadLoop (buffer : Nat) :
    List Byte → Mem → Terminal → (pos : Nat) → Option (Nat × Mem × Terminal × List Byte)
  | [], _, _, _ => none
  | c :: input, m, t, pos =>
      if c = charBackspace then
        if pos > 0 then shellReadLoop buffer input m (t.terminalPutchar charBackspace) (pos - 1)
        else shellReadLoop buffer input m t pos
      else if c = charNewline then some (pos, m, t.terminalPutchar charNewline, input)
      else if pos < shellBufferSize - 1 then
        shellReadLoop buffer input (store8 m (buffer + pos) c) (t.terminalPutchar c) (pos + 1)
      else shellReadLoop buffer input m t pos

/-- From the prompt to `buffer[pos] = '\0'`. -/
def shellReadLine (m : Mem) (t : Terminal) (buffer : Nat) (input : List Byte) :
    Option (Nat × Mem × Terminal × List Byte) :=
  (shellReadLoop buffer input m t 0).map fun (pos, m, t, input) =>
    (pos, store8 m (buffer + pos) 0#8, t, input)

/-! ## The buffer -/

/-- The characters typed so far are at the start of the buffer, and nothing
outside its `size` bytes was written. -/
structure Typed (m0 : Mem) (buffer size : Nat) (chars : List Byte) (m : Mem) : Prop where
  cells : ∀ i (h : i < chars.length), m (buffer + i) = chars[i]
  outside : ∀ x, x < buffer ∨ buffer + size ≤ x → m x = m0 x

section Buffer

variable {m0 m : Mem} {buffer size : Nat} {line : List Byte}

theorem Typed.start : Typed m0 buffer size [] m0 := ⟨nofun, fun _ _ => rfl⟩

theorem Typed.push (h : Typed m0 buffer size line m) (c : Byte) (hroom : line.length < size) :
    Typed m0 buffer size (line ++ [c]) (store8 m (buffer + line.length) c) := by
  refine ⟨fun i hi => ?_, fun x hx => ?_⟩
  · rw [List.length_append, List.length_singleton] at hi
    by_cases hlast : i = line.length
    · subst hlast
      rw [List.getElem_concat_length rfl]
      exact if_pos rfl
    · have hold : i < line.length := by omega
      rw [store8_outside (by omega), List.getElem_append_left hold]
      exact h.cells i hold
  · rw [store8_outside (by omega)]
    exact h.outside x hx

theorem Typed.pop (h : Typed m0 buffer size line m) :
    Typed m0 buffer size line.dropLast m := by
  refine ⟨fun i hi => ?_, h.outside⟩
  rw [List.length_dropLast] at hi
  rw [List.getElem_dropLast]
  exact h.cells i (by omega)

/-- `buffer` is the string `line`. -/
structure LineIn (m0 : Mem) (buffer size : Nat) (line : List Byte) (m : Mem) : Prop
    extends Typed m0 buffer size line m where
  terminated : m (buffer + line.length) = 0#8

theorem Typed.terminate (h : Typed m0 buffer size line m) (hroom : line.length < size) :
    LineIn m0 buffer size line (store8 m (buffer + line.length) 0#8) := by
  refine ⟨⟨fun i hi => ?_, fun x hx => ?_⟩, if_pos rfl⟩
  · rw [store8_outside (by omega)]
    exact h.cells i hi
  · rw [store8_outside (by omega)]
    exact h.outside x hx

end Buffer

/-! ## `keyboard_get_line` -/

/-- A newline was appended, or the buffer is full. -/
def LineDone (size : Nat) (line : List Byte) : Prop :=
  line.getLast? = some charNewline ∨ size ≤ line.length + 1

section GetLine

variable {m0 m : Mem} {buffer size : Nat} {line input rest : List Byte}

theorem not_lineDone (h : ¬LineDone size line) : line.length + 1 < size :=
  Nat.lt_of_not_le fun hfull => h (Or.inr hfull)

theorem position_back (line : List Byte) :
    (if line.length > 0 then line.length - 1 else line.length) = line.dropLast.length := by
  rw [List.length_dropLast]
  split <;> omega

theorem getLineLoop_full (hfull : size ≤ line.length + 1) (rest : List Byte) (m : Mem) :
    getLineLoop buffer size rest m line.length = some (line.length, m, rest) := by
  cases rest with
  | nil => exact if_neg (by omega)
  | cons c rest => exact if_neg (by omega)

/-- The loop up to the character it stops after. -/
theorem getLineLoop_stops {consumed : List Byte} (rest : List Byte)
    (h : Typed m0 buffer size line m) (hroom : line.length < size) (hopen : charNewline ∉ line)
    (hstops : StopsAfter (editLine charBackspace) (LineDone size) line consumed) :
    ∃ m', getLineLoop buffer size (consumed ++ rest) m line.length
        = some ((consumed.foldl (editLine charBackspace) line).length, m', rest)
      ∧ Typed m0 buffer size (consumed.foldl (editLine charBackspace) line) m'
      ∧ (consumed.foldl (editLine charBackspace) line).length < size := by
  induction consumed generalizing line m with
  | nil =>
      have hfull : size ≤ line.length + 1 :=
        hstops.stops.resolve_left fun hlast => hopen (List.mem_of_getLast? hlast)
      exact ⟨m, getLineLoop_full hfull rest m, h, hroom⟩
  | cons c consumed ih =>
      obtain ⟨hline, htail⟩ := hstops.tail
      have hfits := not_lineDone hline
      rw [List.cons_append, getLineLoop, if_pos hfits, List.foldl_cons]
      by_cases hback : c = charBackspace
      · have hedit : editLine charBackspace line c = line.dropLast := if_pos hback
        rw [hedit] at htail ⊢
        rw [if_pos hback, position_back]
        refine ih h.pop ?_ (fun hin => hopen (List.dropLast_subset _ hin)) htail
        rw [List.length_dropLast]
        omega
      · have hedit : editLine charBackspace line c = line ++ [c] := if_neg hback
        rw [hedit] at htail ⊢
        rw [if_neg hback]
        have hpush := h.push c hroom
        have hlength : line.length + 1 = (line ++ [c]).length := by simp
        dsimp only
        by_cases hnewline : c = charNewline
        · have hdone : LineDone size (line ++ [c]) := Or.inl (by simp [hnewline])
          have hempty : consumed = [] := by
            by_contra hne
            exact htail.first [] List.nil_prefix (Ne.symm hne) hdone
          rw [if_pos hnewline, hempty, List.nil_append, hlength]
          exact ⟨_, rfl, hpush, hlength ▸ hfits⟩
        · rw [if_neg hnewline, hlength]
          refine ih hpush (hlength ▸ hfits) ?_ htail
          rw [List.mem_append, List.mem_singleton, not_or]
          exact ⟨hopen, Ne.symm hnewline⟩

/-- The loop waits while nothing stops it. -/
theorem getLineLoop_waits
    (hnever : ∀ before, before <+: input →
      ¬LineDone size (before.foldl (editLine charBackspace) line)) (m : Mem) :
    getLineLoop buffer size input m line.length = none := by
  induction input generalizing line m with
  | nil => exact if_pos (not_lineDone (hnever [] List.nil_prefix))
  | cons c input ih =>
      have hfits : line.length + 1 < size := not_lineDone (hnever [] List.nil_prefix)
      have htail : ∀ before, before <+: input → ¬LineDone size
          (before.foldl (editLine charBackspace) (editLine charBackspace line c)) :=
        fun before hb => hnever (c :: before) (List.cons_prefix_cons.mpr ⟨rfl, hb⟩)
      rw [getLineLoop, if_pos hfits]
      by_cases hback : c = charBackspace
      · have hedit : editLine charBackspace line c = line.dropLast := if_pos hback
        rw [if_pos hback, position_back]
        exact ih (hedit ▸ htail) m
      · have hedit : editLine charBackspace line c = line ++ [c] := if_neg hback
        have hnewline : c ≠ charNewline := by
          intro hnewline
          refine htail [] List.nil_prefix (Or.inl ?_)
          rw [List.foldl_nil, hedit, List.getLast?_concat, hnewline]
        have hlength : line.length + 1 = (line ++ [c]).length := by simp
        rw [if_neg hback]
        dsimp only
        rw [if_neg hnewline, hlength]
        exact ih (hedit ▸ htail) _

end GetLine

/-! ## The loop of the shell -/

section Shell

variable {m0 m : Mem} {t : Terminal} {buffer : Nat} {line input : List Byte}

/-- A line of input, which may be longer than the buffer. -/
theorem shellReadLoop_line (h : Typed m0 buffer shellBufferSize line m)
    (hroom : line.length ≤ shellBufferSize - 1) (hopen : charNewline ∉ input) (rest : List Byte) :
    ∃ m' t', shellReadLoop buffer (input ++ charNewline :: rest) m t line.length
        = some ((input.foldl (editBounded charBackspace (shellBufferSize - 1)) line).length, m', t',
          rest)
      ∧ Typed m0 buffer shellBufferSize
        (input.foldl (editBounded charBackspace (shellBufferSize - 1)) line) m'
      ∧ (input.foldl (editBounded charBackspace (shellBufferSize - 1)) line).length
        ≤ shellBufferSize - 1 := by
  induction input generalizing line m t with
  | nil =>
      rw [List.nil_append, shellReadLoop, if_neg (by decide), if_pos rfl]
      exact ⟨m, _, rfl, h, hroom⟩
  | cons c input ih =>
      obtain ⟨hc, hopen⟩ := not_or.mp (mt List.mem_cons.mpr hopen)
      have hlength : (editBounded charBackspace (shellBufferSize - 1) line c).length
          ≤ shellBufferSize - 1 := length_editBounded hroom
      rw [List.cons_append, shellReadLoop, List.foldl_cons]
      by_cases hback : c = charBackspace
      · have hedit : editBounded charBackspace (shellBufferSize - 1) line c = line.dropLast :=
          if_pos hback
        rw [if_pos hback]
        rw [hedit] at hlength ⊢
        by_cases hempty : line.length > 0
        · rw [if_pos hempty, ← List.length_dropLast]
          exact ih h.pop hlength hopen
        · obtain rfl : line = [] := List.length_eq_zero_iff.mp (by omega)
          rw [if_neg hempty]
          exact ih h hlength hopen
      · rw [if_neg hback, if_neg (Ne.symm hc)]
        by_cases hfits : line.length < shellBufferSize - 1
        · have hedit : editBounded charBackspace (shellBufferSize - 1) line c = line ++ [c] := by
            rw [editBounded, if_neg hback, if_pos hfits]
          have hnext : line.length + 1 = (line ++ [c]).length := by simp
          rw [if_pos hfits, hnext]
          rw [hedit] at hlength ⊢
          exact ih (h.push c (by omega)) hlength hopen
        · have hedit : editBounded charBackspace (shellBufferSize - 1) line c = line := by
            rw [editBounded, if_neg hback, if_neg hfits]
          rw [if_neg hfits]
          rw [hedit] at hlength ⊢
          exact ih h hlength hopen

theorem shellReadLoop_waits (hopen : charNewline ∉ input) (m : Mem) (t : Terminal) (pos : Nat) :
    shellReadLoop buffer input m t pos = none := by
  induction input generalizing m t pos with
  | nil => rfl
  | cons c input ih =>
      obtain ⟨hc, hopen⟩ := not_or.mp (mt List.mem_cons.mpr hopen)
      rw [shellReadLoop, if_neg (Ne.symm hc)]
      repeat' split
      all_goals exact ih hopen _ _ _

end Shell

/-! ## Lines -/

/-- The unbounded line. -/
def edited (input : List Byte) : List Byte := input.foldl (editLine charBackspace) []

/-- The line with room for 255 characters. -/
def editedBounded (input : List Byte) : List Byte :=
  input.foldl (editBounded charBackspace (shellBufferSize - 1)) []

/-- `keyboard_get_line` is done with the first part of the input. -/
def GetLineStops (size : Nat) (consumed : List Byte) : Prop :=
  StopsAfter (editLine charBackspace) (LineDone size) [] consumed

section Lines

variable {m : Mem} {buffer size : Nat}

theorem keyboardGetLine_eq (hbuffer : buffer ≠ 0) (hsize : 1 ≤ size) (input : List Byte) :
    keyboardGetLine m buffer size input = (getLineLoop buffer size input m 0).map
      fun (position, m, input) => (position, store8 m (buffer + position) 0#8, input) :=
  if_neg (by omega)

theorem keyboardGetLine_stops (hbuffer : buffer ≠ 0) (hsize : 1 ≤ size) {consumed : List Byte}
    (hstops : GetLineStops size consumed) (rest : List Byte) :
    ∃ m', keyboardGetLine m buffer size (consumed ++ rest)
        = some (((edited consumed).length : Int), m', rest)
      ∧ LineIn m buffer size (edited consumed) m' := by
  obtain ⟨m', hloop, htyped, hroom⟩ := getLineLoop_stops rest Typed.start hsize
    List.not_mem_nil hstops
  rw [keyboardGetLine_eq hbuffer hsize]
  refine ⟨store8 m' (buffer + (edited consumed).length) 0#8, ?_, htyped.terminate hroom⟩
  have hstart : getLineLoop buffer size (consumed ++ rest) m 0
      = some ((edited consumed).length, m', rest) := hloop
  rw [hstart]
  rfl

theorem shellReadLine_line (m : Mem) (buffer : Nat) (t : Terminal) {line : List Byte}
    (hopen : charNewline ∉ line) (rest : List Byte) :
    ∃ m' t', shellReadLine m t buffer (line ++ charNewline :: rest)
        = some ((editedBounded line).length, m', t', rest)
      ∧ LineIn m buffer shellBufferSize (editedBounded line) m' := by
  obtain ⟨m', t', hloop, htyped, hroom⟩ := shellReadLoop_line (t := t) Typed.start
    (Nat.zero_le _) hopen rest
  refine ⟨store8 m' (buffer + (editedBounded line).length) 0#8, t', ?_,
    htyped.terminate (Nat.lt_of_le_of_lt hroom (by decide))⟩
  have hstart : shellReadLoop buffer (line ++ charNewline :: rest) m t 0
      = some ((editedBounded line).length, m', t', rest) := hloop
  rw [shellReadLine, hstart]
  rfl

theorem keyboardGetLine_waits (hbuffer : buffer ≠ 0) (hsize : 1 ≤ size) {input : List Byte}
    (hnever : ∀ before, before <+: input → ¬LineDone size (edited before)) :
    keyboardGetLine m buffer size input = none := by
  have hloop : getLineLoop buffer size input m ([] : List Byte).length = none :=
    getLineLoop_waits hnever m
  rw [keyboardGetLine_eq hbuffer hsize]
  exact congrArg (Option.map _) hloop

/-- A line that leaves room in the buffer stops with its newline. -/
theorem getLineStops_newline {line : List Byte} (hopen : charNewline ∉ line)
    (hroom : ∀ before, before <+: line → (edited before).length + 1 < size) :
    GetLineStops size (line ++ [charNewline])
      ∧ edited (line ++ [charNewline]) = edited line ++ [charNewline] := by
  have hedit : edited (line ++ [charNewline]) = edited line ++ [charNewline] := by
    unfold edited
    rw [List.foldl_append]
    show editLine charBackspace (edited line) charNewline = _
    exact if_neg (by decide)
  refine ⟨⟨Or.inl ?_, fun before hbegins hne => ?_⟩, hedit⟩
  · show (edited (line ++ [charNewline])).getLast? = _
    rw [hedit, List.getLast?_concat]
  · have hbefore : before <+: line := (List.prefix_concat_iff.mp hbegins).resolve_left hne
    rintro (hlast | hfull)
    · rcases mem_foldl_editLine (List.mem_of_getLast? hlast) with hin | hin
      · exact (List.not_mem_nil hin).elim
      · exact hopen (hbefore.subset hin)
    · have hfull' : size ≤ (edited before).length + 1 := hfull
      have hlt := hroom before hbefore
      omega

/-- Both readers are the line editor: `keyboard_get_line` up to a newline or a
full buffer, the shell up to a newline it does not store, dropping what is
beyond 255 characters. On a line that leaves room in both buffers they read
the same. -/
theorem lineInput_edits (m : Mem) (t : Terminal) (hbuffer : buffer ≠ 0) (hsize : 1 ≤ size) :
    (∀ input,
      (∃ consumed rest m', input = consumed ++ rest ∧ GetLineStops size consumed
        ∧ keyboardGetLine m buffer size input = some (((edited consumed).length : Int), m', rest)
        ∧ LineIn m buffer size (edited consumed) m')
      ∨ (∀ before, before <+: input → ¬LineDone size (edited before))
        ∧ keyboardGetLine m buffer size input = none)
    ∧ (∀ input,
      (∃ line rest m' t', input = line ++ charNewline :: rest ∧ charNewline ∉ line
        ∧ shellReadLine m t buffer input = some ((editedBounded line).length, m', t', rest)
        ∧ LineIn m buffer shellBufferSize (editedBounded line) m')
      ∨ charNewline ∉ input ∧ shellReadLine m t buffer input = none)
    ∧ ∀ line rest, charNewline ∉ line →
      (∀ before, before <+: line → (edited before).length + 1 < size
        ∧ (edited before).length < shellBufferSize - 1) →
      ∃ m1 m2 t', keyboardGetLine m buffer size (line ++ charNewline :: rest)
          = some (((edited line ++ [charNewline]).length : Int), m1, rest)
        ∧ LineIn m buffer size (edited line ++ [charNewline]) m1
        ∧ shellReadLine m t buffer (line ++ charNewline :: rest)
          = some ((edited line).length, m2, t', rest)
        ∧ LineIn m buffer shellBufferSize (edited line) m2 := by
  refine ⟨fun input => ?_, fun input => ?_, fun line rest hopen hroom => ?_⟩
  · rcases stops_or_not (editLine charBackspace) (LineDone size) [] input with
      ⟨consumed, rest, rfl, hstops⟩ | hnever
    · obtain ⟨m', hcall, hline⟩ := keyboardGetLine_stops (m := m) hbuffer hsize hstops rest
      exact Or.inl ⟨consumed, rest, m', rfl, hstops, hcall, hline⟩
    · exact Or.inr ⟨hnever, keyboardGetLine_waits hbuffer hsize hnever⟩
  · by_cases hnewline : charNewline ∈ input
    · obtain ⟨line, rest, rfl, hopen⟩ := List.eq_append_cons_of_mem hnewline
      obtain ⟨m', t', hcall, hline⟩ := shellReadLine_line m buffer t hopen rest
      exact Or.inl ⟨line, rest, m', t', rfl, hopen, hcall, hline⟩
    · refine Or.inr ⟨hnewline, ?_⟩
      rw [shellReadLine, shellReadLoop_waits hnewline]
      rfl
  · obtain ⟨hstops, hedit⟩ := getLineStops_newline hopen fun before hb => (hroom before hb).1
    obtain ⟨m1, hcall, hline⟩ := keyboardGetLine_stops (m := m) hbuffer hsize hstops rest
    obtain ⟨m2, t', hshell, hline'⟩ := shellReadLine_line m buffer t hopen rest
    have hsame : editedBounded line = edited line :=
      foldl_editBounded fun before hb => (hroom before hb).2
    rw [hedit] at hcall hline
    rw [hsame] at hshell hline'
    rw [List.append_assoc] at hcall
    exact ⟨m1, m2, t', hcall, hline, hshell, hline'⟩

/-- `ab`, a backspace, `c` and a newline, into four bytes. -/
theorem lineInput_edits_four :
    ∃ m1 m2 t', keyboardGetLine (fun _ => 0#8) 0x1000 4
        [0x61#8, 0x62#8, charBackspace, 0x63#8, charNewline, 0x64#8] = some (3, m1, [0x64#8])
      ∧ LineIn (fun _ => 0#8) 0x1000 4 [0x61#8, 0x63#8, charNewline] m1
      ∧ shellReadLine (fun _ => 0#8) coldTerminal 0x1000
        [0x61#8, 0x62#8, charBackspace, 0x63#8, charNewline, 0x64#8]
        = some (2, m2, t', [0x64#8])
      ∧ LineIn (fun _ => 0#8) 0x1000 shellBufferSize [0x61#8, 0x63#8] m2 := by
  have hroom : ∀ before ∈ [0x61#8, 0x62#8, charBackspace, 0x63#8].inits,
      (edited before).length + 1 < 4 ∧ (edited before).length < shellBufferSize - 1 := by decide
  exact (lineInput_edits (fun _ => 0#8) coldTerminal (by decide) (by decide)).2.2
    [0x61#8, 0x62#8, charBackspace, 0x63#8] [0x64#8] (by decide)
    fun before hb => hroom before ((List.mem_inits _ _).mpr hb)

end Lines

end Kfs
