import Kfs.Lib.Tape
import Kfs.TerminalBounds

/-!
# The scrollback is the end of the tape

Text on an endless tape of 80 columns, and the 200 lines of `scroll_buffer`.
Scrolling the buffer drops its first line, so after `base` scrolls the buffer
holds the tape from line `base` on, with the cursor at the same place. It is
the tape's end because a line that comes in at the bottom is blank on both
sides: nothing is ever written behind the cursor.
-/

namespace Kfs

/-! ## The text on a tape -/

/-- The color that `terminal_initialize` sets. -/
def textColor : BitVec 8 := vgaEntryColor vgaColorWhite vgaColorBlack

def textBlank : VgaCell := vgaEntry charSpace textColor

def tapePutchar (tape : Tape VgaCell) (c : BitVec 8) : Tape VgaCell :=
  if c = charBackspace then tape.erase textBlank
  else if c = charNewline then tape.lineFeed vgaWidth
  else tape.put (vgaEntry c textColor)

def tapeText (text : List (BitVec 8)) : Tape VgaCell :=
  text.foldl tapePutchar (Tape.start textBlank)

namespace Terminal

/-! ## Scrolls of the buffer -/

/-- How often `terminal_scroll_buffer` runs while `c` is written. -/
def scrolls (t : Terminal) (c : BitVec 8) : Nat :=
  if c ≠ charBackspace ∧ (c = charNewline ∨ t.terminalColumn + 1 = vgaWidth)
      ∧ t.terminalRow + 1 = scrollbackLines then 1
  else 0

def scrollsOf (t : Terminal) : List (BitVec 8) → Nat
  | [] => 0
  | c :: text => t.scrolls c + (t.terminalPutchar c).scrollsOf text

/-- There is a cell before the cursor wherever a backspace is written. -/
def StaysInBuffer (t : Terminal) : List (BitVec 8) → Prop
  | [] => True
  | c :: text =>
      (c = charBackspace → ¬(t.terminalRow = 0 ∧ t.terminalColumn = 0))
        ∧ (t.terminalPutchar c).StaysInBuffer text

instance decidableStaysInBuffer (t : Terminal) :
    (text : List (BitVec 8)) → Decidable (t.StaysInBuffer text)
  | [] => inferInstanceAs (Decidable True)
  | c :: text =>
      have := decidableStaysInBuffer (t.terminalPutchar c) text
      inferInstanceAs (Decidable ((_ → ¬(_ ∧ _)) ∧ _))

/-! ## One character -/

/-- The buffer holds the tape from line `base` on. -/
structure Holds (base : Nat) (tape : Tape VgaCell) (t : Terminal) : Prop where
  color : t.terminalColor = textColor
  clean : tape.Clean textBlank
  cells : ∀ i, i < 16000 → t.scrollBuffer i = tape.cells (base * 80 + i)

/-- And the cursors are at the same place. -/
structure Follows (base : Nat) (tape : Tape VgaCell) (t : Terminal) : Prop
    extends Holds base tape t where
  cursor : tape.cursor = (base + t.terminalRow) * 80 + t.terminalColumn

section Character

variable {base : Nat} {tape : Tape VgaCell} {t : Terminal} {c : BitVec 8}

theorem snapBack_text (t : Terminal) :
    t.snapBack.scrollBuffer = t.scrollBuffer ∧ t.snapBack.terminalColor = t.terminalColor
      ∧ t.snapBack.terminalRow = t.terminalRow ∧ t.snapBack.terminalColumn = t.terminalColumn := by
  unfold snapBack
  split
  · exact ⟨rfl, rfl, rfl, rfl⟩
  · exact ⟨rfl, rfl, rfl, rfl⟩

theorem Follows.snapBack (h : Follows base tape t) : Follows base tape t.snapBack := by
  obtain ⟨hbuffer, hcolor, hrow, hcolumn⟩ := snapBack_text t
  exact ⟨⟨hcolor.trans h.color, h.clean, fun i hi => hbuffer ▸ h.cells i hi⟩,
    by rw [hrow, hcolumn]; exact h.cursor⟩

theorem terminalPutcharAt_text (t : Terminal) (c color : BitVec 8) (x y : Nat) :
    (t.terminalPutcharAt c color x y).scrollBuffer
        = Function.update t.scrollBuffer (y * vgaWidth + x) (vgaEntry c color)
      ∧ (t.terminalPutcharAt c color x y).terminalColor = t.terminalColor
      ∧ (t.terminalPutcharAt c color x y).terminalRow = t.terminalRow
      ∧ (t.terminalPutcharAt c color x y).terminalColumn = t.terminalColumn := by
  unfold terminalPutcharAt
  dsimp only
  split
  · split
    · exact ⟨rfl, rfl, rfl, rfl⟩
    · exact ⟨rfl, rfl, rfl, rfl⟩
  · exact ⟨rfl, rfl, rfl, rfl⟩

/-- A cell is written at the same place of both. -/
theorem Holds.put (h : Holds base tape t) {tape' : Tape VgaCell} {j : Nat} {v : VgaCell}
    (hclean : tape'.Clean textBlank)
    (hcells : tape'.cells = Function.update tape.cells (base * 80 + j) v) {t' : Terminal}
    (hbuffer : t'.scrollBuffer = Function.update t.scrollBuffer j v)
    (hcolor : t'.terminalColor = t.terminalColor) : Holds base tape' t' := by
  refine ⟨hcolor.trans h.color, hclean, fun i hi => ?_⟩
  rw [hbuffer, hcells]
  by_cases hij : i = j
  · rw [hij, Function.update_self, Function.update_self]
  · rw [Function.update_of_ne hij, Function.update_of_ne (by omega)]
    exact h.cells i hi

/-- The next line, on the tape and in the buffer. -/
theorem Holds.nextLine (h : Holds base tape t) {tape' : Tape VgaCell}
    (hcells : tape'.cells = tape.cells) (hclean : tape'.Clean textBlank)
    (hcursor : tape'.cursor = (base + t.terminalRow + 1) * 80) :
    Follows (base + if t.terminalRow + 1 = scrollbackLines then 1 else 0) tape' t.nextLine := by
  rw [nextLine_eq]
  split
  · next hfull =>
      have hrow' : t.terminalRow = 199 := Nat.succ_injective hfull
      have hblank : t.blank = textBlank := by rw [blank, h.color]; rfl
      rw [terminalScrollBuffer_eq]
      refine ⟨⟨h.color, hclean, fun i hi => ?_⟩, ?_⟩
      · show (if i < 15920 then t.scrollBuffer (i + 80) else if i < 16000 then t.blank
          else t.scrollBuffer i) = _
        by_cases hkept : i < 15920
        · rw [if_pos hkept, h.cells _ (by omega), hcells]
          exact congrArg _ (by omega)
        · rw [if_neg hkept, if_pos hi, hblank]
          exact (hclean _ (by omega)).symm
      · rw [hcursor, hrow']
        show _ = (base + 1 + 199) * 80 + 0
        omega
  · have hkept : ∀ i, i < 16000 → t.scrollBuffer i = tape'.cells (base * 80 + i) := fun i hi => by
      rw [hcells]
      exact h.cells i hi
    have hline : tape'.cursor = (base + (t.terminalRow + 1)) * 80 := by
      rw [hcursor, Nat.add_assoc]
    rw [Nat.add_zero]
    split
    · exact ⟨⟨h.color, hclean, hkept⟩, hline⟩
    · exact ⟨⟨h.color, hclean, hkept⟩, hline⟩

theorem Follows.updateCursor (h : Follows base tape t) : Follows base tape t.updateCursor :=
  ⟨⟨h.color, h.clean, h.cells⟩, h.cursor⟩

theorem Follows.backspace (h : Follows base tape t) (hrange : TerminalInRange t)
    (hinside : ¬(t.terminalRow = 0 ∧ t.terminalColumn = 0)) :
    Follows base (tape.erase textBlank) t.backspace := by
  have hcolumn := hrange.column
  have hcursor := h.cursor
  have hcolor : vgaEntry charSpace t.terminalColor = textBlank := by rw [h.color]; rfl
  -- the cursor once it is moved back
  have hback : ∀ u : Terminal, u.scrollBuffer = t.scrollBuffer → u.terminalColor = t.terminalColor →
      u.terminalRow * 80 + u.terminalColumn + 1 = t.terminalRow * 80 + t.terminalColumn →
      Follows base (tape.erase textBlank)
        (u.terminalPutcharAt charSpace u.terminalColor u.terminalColumn u.terminalRow) := by
    intro u hbuffer hsame hone
    obtain ⟨hput, hputColor, hputRow, hputColumn⟩ := terminalPutcharAt_text u charSpace
      u.terminalColor u.terminalColumn u.terminalRow
    have hspace : vgaEntry charSpace u.terminalColor = textBlank := hsame ▸ hcolor
    rw [hbuffer, hspace] at hput
    refine ⟨h.toHolds.put h.clean.erase ?_ hput (hputColor.trans hsame), ?_⟩
    · show Function.update tape.cells (tape.cursor - 1) textBlank = _
      congr 1
      unfold vgaWidth
      omega
    · rw [hputRow, hputColumn]
      show tape.cursor - 1 = _
      omega
  unfold Terminal.backspace
  dsimp only
  refine Follows.updateCursor ?_
  by_cases hcol : t.terminalColumn > 0
  · rw [if_pos hcol]
    refine hback { t with terminalColumn := t.terminalColumn - 1 } rfl rfl ?_
    show t.terminalRow * 80 + (t.terminalColumn - 1) + 1 = _
    omega
  · rw [if_neg hcol, if_pos (show t.terminalRow > 0 by omega)]
    refine hback { t with terminalRow := t.terminalRow - 1, terminalColumn := vgaWidth - 1 }
      rfl rfl ?_
    show (t.terminalRow - 1) * 80 + 79 + 1 = _
    omega

/-- One character on the tape and in the buffer. -/
theorem Follows.putchar (h : Follows base tape t) (hrange : TerminalInRange t)
    (hinside : c = charBackspace → ¬(t.terminalRow = 0 ∧ t.terminalColumn = 0)) :
    Follows (base + t.scrolls c) (tapePutchar tape c) (t.terminalPutchar c) := by
  obtain ⟨-, hsnapColor, hsnapRow, hsnapColumn⟩ := snapBack_text t
  have hscrolls : t.scrolls c = t.snapBack.scrolls c := by
    unfold scrolls
    rw [hsnapRow, hsnapColumn]
  rw [hscrolls]
  rw [← hsnapRow, ← hsnapColumn] at hinside
  unfold terminalPutchar
  have hsnap := h.snapBack
  obtain ⟨-, hrange, -⟩ := snapBackChecked_some hrange
  clear hscrolls hsnapColor hsnapRow hsnapColumn h
  generalize t.snapBack = t at hsnap hrange hinside ⊢
  have hcursor := hsnap.cursor
  have hcolumn : t.terminalColumn < 80 := hrange.column
  unfold tapePutchar scrolls
  dsimp only
  by_cases hback : c = charBackspace
  · rw [if_pos hback, if_pos hback, if_neg (fun hc => hc.1 hback), Nat.add_zero]
    exact hsnap.backspace hrange (hinside hback)
  rw [if_neg hback, if_neg hback]
  by_cases hline : c = charNewline
  · rw [if_pos hline, if_pos hline]
    have hcount : (c ≠ charBackspace ∧ (c = charNewline ∨ t.terminalColumn + 1 = vgaWidth)
        ∧ t.terminalRow + 1 = scrollbackLines) ↔ t.terminalRow + 1 = scrollbackLines :=
      ⟨fun hc => hc.2.2, fun hc => ⟨hback, Or.inl hline, hc⟩⟩
    rw [if_congr hcount rfl rfl]
    have hcells : (tape.lineFeed vgaWidth).cells = tape.cells := rfl
    have hclean : (tape.lineFeed vgaWidth).Clean textBlank :=
      hsnap.clean.lineFeed (Nat.zero_lt_succ 79)
    refine (hsnap.toHolds.nextLine hcells hclean ?_).updateCursor
    show (tape.cursor / 80 + 1) * 80 = _
    omega
  rw [if_neg hline, if_neg hline]
  obtain ⟨hput, hputColor, hputRow, hputColumn⟩ := terminalPutcharAt_text t c t.terminalColor
    t.terminalColumn t.terminalRow
  generalize t.terminalPutcharAt c t.terminalColor t.terminalColumn t.terminalRow = u
    at hput hputColor hputRow hputColumn ⊢
  rw [hsnap.color] at hput
  have hholds : Holds base (tape.put (vgaEntry c textColor))
      { u with terminalColumn := u.terminalColumn + 1 } := by
    refine hsnap.toHolds.put (hsnap.clean.put _) ?_ hput hputColor
    show Function.update tape.cells tape.cursor _ = _
    congr 1
    unfold vgaWidth
    omega
  refine Follows.updateCursor ?_
  by_cases hend : u.terminalColumn + 1 = vgaWidth
  · rw [if_pos hend]
    have hcount : (c ≠ charBackspace ∧ (c = charNewline ∨ t.terminalColumn + 1 = vgaWidth)
        ∧ t.terminalRow + 1 = scrollbackLines) ↔ u.terminalRow + 1 = scrollbackLines := by
      rw [hputRow, ← hputColumn]
      exact ⟨fun hc => hc.2.2, fun hc => ⟨hback, Or.inr hend, hc⟩⟩
    rw [if_congr hcount rfl rfl]
    refine hholds.nextLine rfl hholds.clean ?_
    show tape.cursor + 1 = (base + u.terminalRow + 1) * 80
    unfold vgaWidth at hend
    omega
  · rw [if_neg hend, if_neg (fun hc => hc.2.1.elim hline fun h => hend (hputColumn ▸ h)),
      Nat.add_zero]
    refine ⟨hholds, ?_⟩
    show tape.cursor + 1 = (base + u.terminalRow) * 80 + (u.terminalColumn + 1)
    omega

end Character

/-! ## Texts -/

section Text

variable {base : Nat} {tape : Tape VgaCell} {t : Terminal}

/-- What `terminal_write` writes. -/
theorem terminalWrite_eq (t : Terminal) (str : List (BitVec 8)) :
    t.terminalWrite str = (str.takeWhile (· != 0#8)).foldl terminalPutchar t := by
  induction str generalizing t with
  | nil => rfl
  | cons c str ih =>
      unfold terminalWrite
      by_cases hc : c = 0#8
      · rw [if_pos hc, List.takeWhile_cons_of_neg (by simpa using hc)]
        rfl
      · rw [if_neg hc, List.takeWhile_cons_of_pos (by simpa using hc), ih]
        rfl

theorem Follows.text {text : List (BitVec 8)} (h : Follows base tape t)
    (hrange : TerminalInRange t) (hinside : t.StaysInBuffer text) :
    Follows (base + t.scrollsOf text) (text.foldl tapePutchar tape)
      (text.foldl terminalPutchar t) := by
  induction text generalizing base tape t with
  | nil => exact h
  | cons c text ih =>
      obtain ⟨hfirst, hrest⟩ := hinside
      have hnext := ih (h.putchar hrange hfirst) (terminalPutcharChecked_some hrange c).2 hrest
      rw [Nat.add_assoc] at hnext
      exact hnext

theorem follows_initialize (t : Terminal) :
    Follows 0 (tapeText []) t.terminalInitialize := by
  rw [terminalInitialize_eq t rfl]
  refine Follows.updateCursor ⟨⟨rfl, Tape.clean_start, fun i hi => ?_⟩, rfl⟩
  exact if_pos hi

end Text

end Terminal

/-! ## Runs -/

/-- The characters a call writes. -/
def TerminalEvent.text : TerminalEvent → List (BitVec 8)
  | .putchar c => [c]
  | .write str => str.takeWhile (· != 0#8)
  | .scrollUp _ => []
  | .scrollDown _ => []

/-- A call, and how often it scrolls the buffer. No backspace is written at
the start of the buffer. -/
def TerminalTextStep (t : Terminal) (label : TerminalEvent × Nat) (t' : Terminal) : Prop :=
  TerminalStep t label.1 t' ∧ label.2 = t.scrollsOf label.1.text
    ∧ t.StaysInBuffer label.1.text

/-- The characters that were written. -/
def textOf (labels : List (TerminalEvent × Nat)) : List (BitVec 8) :=
  labels.flatMap fun label => label.1.text

/-- How often the buffer was scrolled. -/
def bufferScrolls (labels : List (TerminalEvent × Nat)) : Nat := (labels.map Prod.snd).sum

/-- `scroll_buffer` holds 200 lines of the tape from line `base` on. -/
structure Scrollback (base : Nat) (tape : Tape VgaCell) (t : Terminal) : Prop where
  rows : ∀ k x, k < scrollbackLines → x < vgaWidth →
    t.scrollBuffer (k * vgaWidth + x) = tape.cells ((base + k) * vgaWidth + x)
  row : t.terminalRow + base = tape.row vgaWidth
  column : t.terminalColumn = tape.column vgaWidth
  blank : ∀ i, t.terminalRow * vgaWidth + t.terminalColumn ≤ i → i < scrollbackLines * vgaWidth →
    t.scrollBuffer i = textBlank

theorem Terminal.Follows.scrollback {base : Nat} {tape : Tape VgaCell} {t : Terminal}
    (h : t.Follows base tape) (hrange : TerminalInRange t) : Scrollback base tape t := by
  have hcursor := h.cursor
  have hcolumn : t.terminalColumn < 80 := hrange.column
  refine ⟨fun k x hk hx => ?_, ?_, ?_, fun i hlo hhi => ?_⟩
  · unfold scrollbackLines at hk
    unfold vgaWidth at hx ⊢
    rw [h.cells _ (by omega)]
    exact congrArg _ (by omega)
  · show _ = tape.cursor / 80
    omega
  · show _ = tape.cursor % 80
    omega
  · rw [h.cells i hhi]
    refine h.clean _ ?_
    unfold vgaWidth at hlo
    omega

theorem Terminal.Follows.step {labels : List (TerminalEvent × Nat)} {label : TerminalEvent × Nat}
    {t t' : Terminal} (h : t.Follows (bufferScrolls labels) (tapeText (textOf labels)))
    (hrange : TerminalInRange t) (hstep : TerminalTextStep t label t') :
    t'.Follows (bufferScrolls (labels ++ [label])) (tapeText (textOf (labels ++ [label]))) := by
  obtain ⟨e, n⟩ := label
  obtain ⟨rfl, hscrolls, hinside⟩ := hstep
  dsimp only at hscrolls hinside ⊢
  have hbase : bufferScrolls (labels ++ [(e, n)]) = bufferScrolls labels + t.scrollsOf e.text := by
    simp [bufferScrolls, hscrolls]
  have htape : tapeText (textOf (labels ++ [(e, n)]))
      = e.text.foldl tapePutchar (tapeText (textOf labels)) := by
    simp [tapeText, textOf]
  rw [hbase, htape]
  have htext := h.text hrange hinside
  cases e with
  | putchar c => exact htext
  | write str =>
      show (t.terminalWrite str).Follows _ _
      rw [Terminal.terminalWrite_eq]
      exact htext
  | scrollUp lines => exact ⟨⟨htext.color, htext.clean, htext.cells⟩, htext.cursor⟩
  | scrollDown lines => exact ⟨⟨htext.color, htext.clean, htext.cells⟩, htext.cursor⟩

/-- Whatever is written, and however it is scrolled, the buffer is the tape
from the line on that the buffer was scrolled to. -/
theorem terminalRun_scrollback {t t' : Terminal} {labels : List (TerminalEvent × Nat)}
    (hrun : Run TerminalTextStep t.terminalInitialize labels t') :
    Scrollback (bufferScrolls labels) (tapeText (textOf labels)) t' := by
  obtain ⟨hrange, hfollows⟩ := hrun.invariant_trace (I := fun labels t =>
      TerminalInRange t ∧ t.Follows (bufferScrolls labels) (tapeText (textOf labels)))
    ⟨Terminal.terminalInitialize_inRange t, Terminal.follows_initialize t⟩
    fun {_ _ label _} h hstep => by
      refine ⟨?_, h.2.step h.1 hstep⟩
      obtain ⟨rfl, -, -⟩ := hstep
      exact (h.1.checked label.1).2
  exact hfollows.scrollback hrange

/-- 201 lines, the last of which is written over after a scroll back. -/
theorem terminalRun_scrollback_long :
    ∃ t, Run TerminalTextStep coldTerminal.terminalInitialize
        [(.write (List.replicate 201 charNewline), 2), (.scrollUp 5, 0), (.putchar 0x41#8, 0),
          (.write [charBackspace, 0x42#8], 0)] t
      ∧ Scrollback 2 (tapeText (List.replicate 201 charNewline
        ++ [0x41#8, charBackspace, 0x42#8])) t := by
  have hrun : Run TerminalTextStep coldTerminal.terminalInitialize
      [(.write (List.replicate 201 charNewline), 2), (.scrollUp 5, 0), (.putchar 0x41#8, 0),
        (.write [charBackspace, 0x42#8], 0)] _ :=
    (((Run.nil.snoc ⟨rfl, by decide +kernel, by decide +kernel⟩).snoc
      ⟨rfl, rfl, trivial⟩).snoc ⟨rfl, by decide +kernel, by decide +kernel⟩).snoc
      ⟨rfl, by decide +kernel, by decide +kernel⟩
  have h := terminalRun_scrollback hrun
  have htext : textOf [(.write (List.replicate 201 charNewline), 2), (.scrollUp 5, 0),
      (.putchar 0x41#8, 0), (.write [charBackspace, 0x42#8], 0)]
      = List.replicate 201 charNewline ++ [0x41#8, charBackspace, 0x42#8] := by decide +kernel
  rw [htext] at h
  exact ⟨_, hrun, h⟩

end Kfs
