import Kfs.Lib.Checked
import Kfs.TerminalScreen

/-!
# Indices of the terminal

The functions of `Terminal` once more, with every access to `scroll_buffer`
and to the VGA memory tested against the size of its array, and the position
that `update_cursor` sends to the controller against the size of the screen.
In every state the terminal gets into no test fails, whatever is written next
and however far it is scrolled (`terminalRun_indices`).

Row and column alone keep the buffer indices in range; the window needs that
it is never scrolled back past line 0 (`TerminalInRange`).
-/

namespace Kfs

namespace Terminal

/-! ## Checked functions -/

/-- The size of `scroll_buffer`. -/
def bufferCells : Nat := scrollbackLines * vgaWidth

/-- The size of the screen. -/
def screenCells : Nat := vgaHeight * vgaWidth

/-- `pos` in `update_cursor`. -/
def cursorPosition (t : Terminal) : Nat :=
  if t.scrollOffset ≠ 0 then vgaHeight * vgaWidth
  else (t.terminalRow - t.displayStart) * vgaWidth + t.terminalColumn

def updateCursorChecked (t : Terminal) : Option Terminal :=
  let pos :=
    if t.scrollOffset ≠ 0 then vgaHeight * vgaWidth
    else
      let visibleRow := t.terminalRow - t.displayStart
      visibleRow * vgaWidth + t.terminalColumn
  if pos ≤ screenCells then some { t with cursor := BitVec.ofNat 16 pos } else none

def terminalScrollBufferChecked (t : Terminal) : Option Terminal :=
  (forRangeM 0 ((scrollbackLines - 1) * vgaWidth)
    (fun i b => (readCell bufferCells b (i + vgaWidth)).bind (writeCell bufferCells b i))
    t.scrollBuffer).bind fun buffer =>
  (forRangeM 0 vgaWidth
    (fun x b => writeCell bufferCells b ((scrollbackLines - 1) * vgaWidth + x) t.blank)
    buffer).bind fun buffer =>
  some { t with scrollBuffer := buffer, terminalRow := scrollbackLines - 1 }

def vgaScrollChecked (t : Terminal) : Option Terminal :=
  (forRangeM 1 vgaHeight (fun y b =>
    forRangeM 0 vgaWidth
      (fun x b => (readCell screenCells b (y * vgaWidth + x)).bind
        (writeCell screenCells b ((y - 1) * vgaWidth + x))) b) t.vgaMemory).bind fun vga =>
  (forRangeM 0 vgaWidth
    (fun x b => writeCell screenCells b ((vgaHeight - 1) * vgaWidth + x) t.blank) vga).bind
    fun vga =>
  some { t with vgaMemory := vga }

def terminalInitializeChecked (t : Terminal) : Option Terminal :=
  let t := { t with
    terminalRow := 0
    terminalColumn := 0
    scrollOffset := 0
    terminalColor := vgaEntryColor vgaColorWhite vgaColorBlack }
  (forRangeM 0 (scrollbackLines * vgaWidth)
    (fun i b => writeCell bufferCells b i t.blank) t.scrollBuffer).bind fun buffer =>
  (forRangeM 0 (vgaHeight * vgaWidth)
    (fun i b => writeCell screenCells b i t.blank) t.vgaMemory).bind fun vga =>
  { t with scrollBuffer := buffer, vgaMemory := vga }.updateCursorChecked

def terminalPutcharAtChecked (t : Terminal) (c color : BitVec 8) (x y : Nat) : Option Terminal :=
  (writeCell bufferCells t.scrollBuffer (y * vgaWidth + x) (vgaEntry c color)).bind fun buffer =>
  let t := { t with scrollBuffer := buffer }
  if t.scrollOffset = 0 then
    let ds := t.displayStart
    if y ≥ ds ∧ y < ds + vgaHeight then
      (writeCell screenCells t.vgaMemory ((y - ds) * vgaWidth + x) (vgaEntry c color)).bind
        fun vga => some { t with vgaMemory := vga }
    else some t
  else some t

def terminalRefreshDisplayChecked (t : Terminal) : Option Terminal :=
  let ds := t.displayStart
  let ds := if ds ≥ t.scrollOffset then ds - t.scrollOffset else 0
  (forRangeM 0 vgaHeight (fun y b =>
    forRangeM 0 vgaWidth
      (fun x b => (readCell bufferCells t.scrollBuffer ((ds + y) * vgaWidth + x)).bind
        (writeCell screenCells b (y * vgaWidth + x))) b) t.vgaMemory).bind fun vga =>
  { t with vgaMemory := vga }.updateCursorChecked

def snapBackChecked (t : Terminal) : Option Terminal :=
  if t.scrollOffset ≠ 0 then { t with scrollOffset := 0 }.terminalRefreshDisplayChecked
  else some t

def nextLineChecked (t : Terminal) : Option Terminal :=
  let t := { t with terminalColumn := 0 }
  let oldDs := t.displayStart
  let t := { t with terminalRow := t.terminalRow + 1 }
  if t.terminalRow = scrollbackLines then
    t.terminalScrollBufferChecked.bind terminalRefreshDisplayChecked
  else if t.displayStart ≠ oldDs then t.vgaScrollChecked
  else some t

def backspaceChecked (t : Terminal) : Option Terminal :=
  let t :=
    if t.terminalColumn > 0 then { t with terminalColumn := t.terminalColumn - 1 }
    else if t.terminalRow > 0 then
      { t with terminalRow := t.terminalRow - 1, terminalColumn := vgaWidth - 1 }
    else t
  (t.terminalPutcharAtChecked charSpace t.terminalColor t.terminalColumn t.terminalRow).bind
    updateCursorChecked

def terminalPutcharChecked (t : Terminal) (c : BitVec 8) : Option Terminal :=
  t.snapBackChecked.bind fun t =>
  if c = charBackspace then t.backspaceChecked
  else if c = charNewline then t.nextLineChecked.bind updateCursorChecked
  else
    (t.terminalPutcharAtChecked c t.terminalColor t.terminalColumn t.terminalRow).bind fun t =>
    let t := { t with terminalColumn := t.terminalColumn + 1 }
    (if t.terminalColumn = vgaWidth then t.nextLineChecked else some t).bind updateCursorChecked

def terminalWriteChecked (t : Terminal) : List (BitVec 8) → Option Terminal
  | [] => some t
  | c :: str =>
      if c = 0#8 then some t else (t.terminalPutcharChecked c).bind (terminalWriteChecked · str)

def terminalScrollUpChecked (t : Terminal) (lines : Nat) : Option Terminal :=
  let maxOffset :=
    if t.terminalRow ≥ vgaHeight then t.terminalRow - vgaHeight + 1 else 0
  let offset := add32 t.scrollOffset lines
  { t with
    scrollOffset := if offset > maxOffset then maxOffset else offset
  }.terminalRefreshDisplayChecked

def terminalScrollDownChecked (t : Terminal) (lines : Nat) : Option Terminal :=
  { t with
    scrollOffset :=
      if t.scrollOffset ≥ lines then t.scrollOffset - lines else 0 }.terminalRefreshDisplayChecked

end Terminal

/-! ## The invariant -/

structure TerminalInRange (t : Terminal) : Prop where
  row : t.terminalRow < scrollbackLines
  column : t.terminalColumn < vgaWidth
  offset : t.scrollOffset ≤ t.displayStart

namespace Terminal

variable {t : Terminal}

section Pieces

theorem cursorPosition_le (hcolumn : t.terminalColumn ≤ vgaWidth) :
    t.cursorPosition ≤ screenCells := by
  unfold cursorPosition screenCells
  rw [displayStart_eq]
  unfold vgaHeight vgaWidth at *
  split <;> omega

theorem updateCursorChecked_some (hcolumn : t.terminalColumn ≤ vgaWidth) :
    t.updateCursorChecked = some t.updateCursor :=
  if_pos (cursorPosition_le hcolumn)

theorem terminalScrollBufferChecked_some (t : Terminal) :
    t.terminalScrollBufferChecked = some t.terminalScrollBuffer := by
  unfold terminalScrollBufferChecked
  rw [forRangeM_some (f := fun i b => Function.update b i (b (i + vgaWidth))) (fun i _ hi b => by
      unfold scrollbackLines vgaWidth at *
      unfold bufferCells scrollbackLines vgaWidth
      exact readCell_writeCell b b (by omega) (by omega)), Option.bind_some,
    forRangeM_some (fun x _ hx b => by
      unfold vgaWidth at hx
      refine writeCell_some b ?_ t.blank
      unfold bufferCells scrollbackLines vgaWidth
      omega), Option.bind_some]
  rfl

theorem vgaScrollChecked_some (t : Terminal) : t.vgaScrollChecked = some t.vgaScroll := by
  unfold vgaScrollChecked
  rw [forRangeM_some (f := fun y b => forRange 0 vgaWidth (fun x b =>
      Function.update b ((y - 1) * vgaWidth + x) (b (y * vgaWidth + x))) b)
    (fun y _ hy b => by
      refine forRangeM_some (fun x _ hx b => ?_) b
      unfold vgaWidth at hx
      unfold vgaHeight at hy
      unfold screenCells vgaHeight vgaWidth
      exact readCell_writeCell b b (by omega) (by omega)), Option.bind_some,
    forRangeM_some (fun x _ hx b => by
      unfold vgaWidth at hx
      refine writeCell_some b ?_ t.blank
      unfold screenCells vgaHeight vgaWidth
      omega), Option.bind_some]
  rfl

theorem terminalInitializeChecked_some (t : Terminal) :
    t.terminalInitializeChecked = some t.terminalInitialize := by
  unfold terminalInitializeChecked
  dsimp only
  have hbuffer : ∀ i, 0 ≤ i → i < scrollbackLines * vgaWidth → ∀ b : Nat → VgaCell, ∀ v,
      writeCell bufferCells b i v = some (Function.update b i v) :=
    fun i _ hi b v => writeCell_some b hi v
  have hscreen : ∀ i, 0 ≤ i → i < vgaHeight * vgaWidth → ∀ b : Nat → VgaCell, ∀ v,
      writeCell screenCells b i v = some (Function.update b i v) :=
    fun i _ hi b v => writeCell_some b hi v
  rw [forRangeM_some (fun i hlo hi b => hbuffer i hlo hi b _), Option.bind_some,
    forRangeM_some (fun i hlo hi b => hscreen i hlo hi b _), Option.bind_some,
    updateCursorChecked_some (Nat.zero_le _)]
  rfl

theorem terminalPutcharAtChecked_some {x y : Nat} (hy : y < scrollbackLines) (hx : x < vgaWidth)
    (c color : BitVec 8) :
    t.terminalPutcharAtChecked c color x y = some (t.terminalPutcharAt c color x y) := by
  unfold terminalPutcharAtChecked terminalPutcharAt
  have hbuffer : y * vgaWidth + x < bufferCells := by
    unfold scrollbackLines at hy
    unfold vgaWidth at hx
    unfold bufferCells scrollbackLines vgaWidth
    omega
  rw [writeCell_some _ hbuffer, Option.bind_some]
  dsimp only
  split
  · split
    · next hshown =>
        have hline := Nat.sub_lt_left_of_lt_add hshown.1 hshown.2
        rw [writeCell_some _ (by
          generalize y - _ = line at hline ⊢
          unfold vgaHeight at hline
          unfold vgaWidth at hx
          unfold screenCells vgaHeight vgaWidth
          omega), Option.bind_some]
    · rfl
  · rfl

theorem terminalRefreshDisplayChecked_some (hrow : t.terminalRow < scrollbackLines)
    (hcolumn : t.terminalColumn ≤ vgaWidth) :
    t.terminalRefreshDisplayChecked = some t.terminalRefreshDisplay := by
  unfold terminalRefreshDisplayChecked
  dsimp only
  have hstart : (if t.displayStart ≥ t.scrollOffset then t.displayStart - t.scrollOffset else 0)
      + vgaHeight ≤ scrollbackLines := by
    rw [displayStart_eq]
    unfold scrollbackLines at hrow ⊢
    unfold vgaHeight
    split <;> omega
  rw [forRangeM_some (f := fun y b => forRange 0 vgaWidth (fun x b =>
      Function.update b (y * vgaWidth + x) (t.scrollBuffer
        (((if t.displayStart ≥ t.scrollOffset then t.displayStart - t.scrollOffset else 0) + y)
          * vgaWidth + x))) b)
    (fun y _ hy b => by
      refine forRangeM_some (fun x _ hx b => ?_) b
      generalize (if t.displayStart ≥ t.scrollOffset then t.displayStart - t.scrollOffset else 0)
        = ds at hstart ⊢
      unfold vgaHeight scrollbackLines at *
      unfold vgaWidth at hx
      unfold bufferCells screenCells scrollbackLines vgaHeight vgaWidth
      exact readCell_writeCell b t.scrollBuffer (by omega) (by omega)), Option.bind_some]
  exact updateCursorChecked_some hcolumn

end Pieces

/-! ## Operations -/

theorem snapBackChecked_some (h : TerminalInRange t) :
    t.snapBackChecked = some t.snapBack ∧ TerminalInRange t.snapBack
      ∧ t.snapBack.scrollOffset = 0 := by
  unfold snapBackChecked snapBack
  split
  · exact ⟨terminalRefreshDisplayChecked_some h.row (Nat.le_of_lt h.column),
      ⟨h.row, h.column, Nat.zero_le _⟩, rfl⟩
  · next hlive => exact ⟨rfl, h, Decidable.not_not.mp hlive⟩

theorem nextLineChecked_some (hrow : t.terminalRow < scrollbackLines) (hlive : t.scrollOffset = 0) :
    t.nextLineChecked = some t.nextLine ∧ TerminalInRange t.nextLine := by
  have hzero : 0 < vgaWidth := Nat.zero_lt_succ 79
  have hlive' : ∀ n, t.scrollOffset ≤ n := fun n => hlive ▸ Nat.zero_le n
  unfold nextLineChecked nextLine
  dsimp only
  split
  · rw [terminalScrollBufferChecked_some, Option.bind_some]
    exact ⟨terminalRefreshDisplayChecked_some (Nat.lt_succ_self 199) (Nat.le_of_lt hzero),
      Nat.lt_succ_self 199, hzero, hlive' _⟩
  · next hfull =>
      have hroom : t.terminalRow + 1 < scrollbackLines := by omega
      split
      · exact ⟨vgaScrollChecked_some _, hroom, hzero, hlive' _⟩
      · exact ⟨rfl, hroom, hzero, hlive' _⟩

theorem terminalPutcharAt_inRange (h : TerminalInRange t) (c color : BitVec 8) (x y : Nat) :
    TerminalInRange (t.terminalPutcharAt c color x y)
      ∧ (t.terminalPutcharAt c color x y).scrollOffset = t.scrollOffset := by
  unfold terminalPutcharAt
  dsimp only
  split
  · split
    · exact ⟨⟨h.row, h.column, h.offset⟩, rfl⟩
    · exact ⟨⟨h.row, h.column, h.offset⟩, rfl⟩
  · exact ⟨⟨h.row, h.column, h.offset⟩, rfl⟩

/-- Erasing the cell at `row` and `column`. -/
theorem eraseChecked_some (h : TerminalInRange t) :
    ((t.terminalPutcharAtChecked charSpace t.terminalColor t.terminalColumn t.terminalRow).bind
        updateCursorChecked
      = some (t.terminalPutcharAt charSpace t.terminalColor t.terminalColumn
          t.terminalRow).updateCursor)
      ∧ TerminalInRange (t.terminalPutcharAt charSpace t.terminalColor t.terminalColumn
          t.terminalRow).updateCursor := by
  obtain ⟨hput, -⟩ := terminalPutcharAt_inRange h charSpace t.terminalColor t.terminalColumn
    t.terminalRow
  rw [terminalPutcharAtChecked_some h.row h.column, Option.bind_some,
    updateCursorChecked_some (Nat.le_of_lt hput.column)]
  exact ⟨rfl, hput.row, hput.column, hput.offset⟩

theorem backspaceChecked_some (h : TerminalInRange t) (hlive : t.scrollOffset = 0) :
    t.backspaceChecked = some t.backspace ∧ TerminalInRange t.backspace := by
  have hrow := h.row
  have hcolumn := h.column
  unfold backspaceChecked backspace
  dsimp only
  refine eraseChecked_some ?_
  split
  · exact ⟨hrow, Nat.lt_of_le_of_lt (Nat.sub_le _ _) hcolumn, h.offset⟩
  · split
    · exact ⟨Nat.lt_of_le_of_lt (Nat.sub_le _ _) hrow, Nat.lt_succ_self 79,
        hlive ▸ Nat.zero_le _⟩
    · exact h

theorem terminalPutcharChecked_some (h : TerminalInRange t) (c : BitVec 8) :
    t.terminalPutcharChecked c = some (t.terminalPutchar c)
      ∧ TerminalInRange (t.terminalPutchar c) := by
  obtain ⟨hsnap, h, hlive⟩ := snapBackChecked_some h
  unfold terminalPutcharChecked terminalPutchar
  rw [hsnap, Option.bind_some]
  generalize t.snapBack = t at h hlive ⊢
  dsimp only
  split
  · exact backspaceChecked_some h hlive
  split
  · obtain ⟨hnext, h'⟩ := nextLineChecked_some h.row hlive
    rw [hnext, Option.bind_some, updateCursorChecked_some (Nat.le_of_lt h'.column)]
    exact ⟨rfl, h'.row, h'.column, h'.offset⟩
  · rw [terminalPutcharAtChecked_some h.row h.column, Option.bind_some]
    obtain ⟨hput, hlive'⟩ := terminalPutcharAt_inRange h c t.terminalColor t.terminalColumn
      t.terminalRow
    rw [hlive] at hlive'
    generalize t.terminalPutcharAt c t.terminalColor t.terminalColumn t.terminalRow = u
      at hput hlive' ⊢
    split
    · obtain ⟨hnext, h'⟩ := nextLineChecked_some
        (t := { u with terminalColumn := u.terminalColumn + 1 }) hput.row hlive'
      rw [hnext, Option.bind_some, updateCursorChecked_some (Nat.le_of_lt h'.column)]
      exact ⟨rfl, h'.row, h'.column, h'.offset⟩
    · next hinside =>
        have hcolumn : u.terminalColumn + 1 < vgaWidth :=
          Nat.lt_of_le_of_ne hput.column hinside
        rw [Option.bind_some, updateCursorChecked_some (Nat.le_of_lt hcolumn)]
        exact ⟨rfl, hput.row, hcolumn, hput.offset⟩

theorem terminalWriteChecked_some {str : List (BitVec 8)} (h : TerminalInRange t) :
    t.terminalWriteChecked str = some (t.terminalWrite str)
      ∧ TerminalInRange (t.terminalWrite str) := by
  induction str generalizing t with
  | nil => exact ⟨rfl, h⟩
  | cons c str ih =>
      obtain ⟨hput, h'⟩ := terminalPutcharChecked_some h c
      unfold terminalWriteChecked terminalWrite
      split
      · exact ⟨rfl, h⟩
      · rw [hput, Option.bind_some]
        exact ih h'

theorem terminalScrollUpChecked_some (h : TerminalInRange t) (lines : Nat) :
    t.terminalScrollUpChecked lines = some (t.terminalScrollUp lines)
      ∧ TerminalInRange (t.terminalScrollUp lines) := by
  refine ⟨terminalRefreshDisplayChecked_some h.row (Nat.le_of_lt h.column), h.row, h.column, ?_⟩
  show (if add32 t.scrollOffset lines > t.displayStart then t.displayStart
    else add32 t.scrollOffset lines) ≤ t.displayStart
  split <;> omega

theorem terminalScrollDownChecked_some (h : TerminalInRange t) (lines : Nat) :
    t.terminalScrollDownChecked lines = some (t.terminalScrollDown lines)
      ∧ TerminalInRange (t.terminalScrollDown lines) := by
  have hoffset := h.offset
  refine ⟨terminalRefreshDisplayChecked_some h.row (Nat.le_of_lt h.column), h.row, h.column, ?_⟩
  show (if t.scrollOffset ≥ lines then t.scrollOffset - lines else 0) ≤ t.displayStart
  split <;> omega

theorem terminalInitialize_inRange (t : Terminal) : TerminalInRange t.terminalInitialize :=
  ⟨Nat.zero_lt_succ 199, Nat.zero_lt_succ 79, Nat.zero_le _⟩

end Terminal

/-! ## Runs -/

def TerminalEvent.checked (t : Terminal) : TerminalEvent → Option Terminal
  | .putchar c => t.terminalPutcharChecked c
  | .write str => t.terminalWriteChecked str
  | .scrollUp lines => t.terminalScrollUpChecked lines
  | .scrollDown lines => t.terminalScrollDownChecked lines

theorem TerminalInRange.checked {t : Terminal} (h : TerminalInRange t) (e : TerminalEvent) :
    e.checked t = some (e.exec t) ∧ TerminalInRange (e.exec t) := by
  cases e with
  | putchar c => exact Terminal.terminalPutcharChecked_some h c
  | write str => exact Terminal.terminalWriteChecked_some h
  | scrollUp lines => exact Terminal.terminalScrollUpChecked_some h lines
  | scrollDown lines => exact Terminal.terminalScrollDownChecked_some h lines

theorem terminalRun_inRange {t t' : Terminal} {es : List TerminalEvent}
    (hrun : Run TerminalStep t.terminalInitialize es t') : TerminalInRange t' :=
  hrun.invariant (I := TerminalInRange) (Terminal.terminalInitialize_inRange t)
    fun {_ e _} h hstep => by
      obtain rfl := hstep
      exact (h.checked e).2

/-- In every state of a run the variables are in range, so is the position of
the cursor, and no access that comes next is outside its array. -/
theorem terminalRun_indices {t t' : Terminal} {es : List TerminalEvent}
    (hrun : Run TerminalStep t.terminalInitialize es t') :
    t'.terminalRow < 200 ∧ t'.terminalColumn < 80
      ∧ t'.scrollOffset ≤ t'.displayStart ∧ t'.displayStart ≤ 175
      ∧ t'.cursorPosition ≤ 25 * 80
      ∧ t.terminalInitializeChecked = some t.terminalInitialize
      ∧ ∀ e : TerminalEvent, e.checked t' = some (e.exec t') := by
  have h := terminalRun_inRange hrun
  have hrow : t'.terminalRow < 200 := h.row
  refine ⟨hrow, h.column, h.offset, ?_, Terminal.cursorPosition_le (Nat.le_of_lt h.column),
    Terminal.terminalInitializeChecked_some t, fun e => (h.checked e).1⟩
  rw [Terminal.displayStart_eq]
  omega

/-- Scrolled back past the start of the text, by a sum that wraps. -/
theorem terminalRun_indices_back :
    ∃ t, Run TerminalStep coldTerminal.terminalInitialize
        [.write (List.replicate 30 charNewline), .scrollUp 3, .scrollUp 4294967295] t
      ∧ t.scrollOffset = 2 ∧ t.displayStart = 6
      ∧ (TerminalEvent.putchar charBackspace).checked t
        = some ((TerminalEvent.putchar charBackspace).exec t) := by
  have hrun : Run TerminalStep coldTerminal.terminalInitialize
      [.write (List.replicate 30 charNewline), .scrollUp 3, .scrollUp 4294967295] _ :=
    ((Run.nil.snoc rfl).snoc rfl).snoc rfl
  exact ⟨_, hrun, by decide +kernel, by decide +kernel,
    (terminalRun_indices hrun).2.2.2.2.2.2 _⟩

end Kfs
