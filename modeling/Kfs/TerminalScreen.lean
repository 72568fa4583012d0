import Kfs.Terminal

/-!
# What the screen shows

The screen is coherent if it shows the 25 lines of the buffer that a redraw
would show. Writing at the cursor patches the one cell that changes, and a
line feed scrolls the screen with the window, as long as the line it uncovers
is blank: no cell at the cursor or after it has been written. A backspace at
the start of a line moves the window up by a line once the text is past the
first screen, and nothing redraws it.
-/

namespace Kfs

namespace Terminal

/-! ## The loops -/

section Loops

variable (t : Terminal)

theorem terminalScrollBuffer_eq :
    t.terminalScrollBuffer = { t with
      scrollBuffer := fun i =>
        if i < 15920 then t.scrollBuffer (i + 80) else if i < 16000 then t.blank
        else t.scrollBuffer i
      terminalRow := 199 } := by
  unfold terminalScrollBuffer
  dsimp only
  rw [forRange_move (d := 0) (s := vgaWidth) (Nat.zero_le _) (fun i => (Nat.zero_add i).symm)
      fun i => Nat.add_comm i _,
    forRange_fill (d := (scrollbackLines - 1) * vgaWidth) _ fun _ => rfl]
  congr 1
  funext i
  unfold scrollbackLines vgaWidth
  by_cases hi : i < 15920
  · rw [if_neg (by omega), if_pos (by omega), if_pos hi, Nat.sub_zero, Nat.add_comm]
  · rw [if_neg hi]
    by_cases hlast : i < 16000
    · rw [if_pos (by omega), if_pos hlast]
    · rw [if_neg (by omega), if_neg (by omega), if_neg hlast]

theorem vgaScroll_eq :
    t.vgaScroll = { t with
      vgaMemory := fun i =>
        if i < 1920 then t.vgaMemory (i + 80) else if i < 2000 then t.blank
        else t.vgaMemory i } := by
  have hrows : forRange 1 vgaHeight (fun y b => forRange 0 vgaWidth (fun x b =>
      Function.update b ((y - 1) * vgaWidth + x) (b (y * vgaWidth + x))) b) t.vgaMemory
      = fun i => if i < 1920 then t.vgaMemory (i + 80) else t.vgaMemory i := by
    refine forRange_invariant (I := fun y b => b = fun i =>
      if i < (y - 1) * 80 then t.vgaMemory (i + 80) else t.vgaMemory i) (by decide) ?_ ?_
    · funext i
      rw [if_neg (by omega)]
    · rintro y b hlo - rfl
      rw [forRange_move (d := (y - 1) * vgaWidth) (s := y * vgaWidth)
        (Nat.mul_le_mul_right _ (Nat.sub_le y 1)) (fun _ => rfl) fun _ => rfl]
      funext i
      unfold vgaWidth
      by_cases hrow : (y - 1) * 80 ≤ i ∧ i < (y - 1) * 80 + 80
      · rw [if_pos hrow, if_neg (by omega), if_pos (by omega)]
        exact congrArg _ (by omega)
      · rw [if_neg hrow]
        exact if_congr (by omega) rfl rfl
  unfold vgaScroll
  dsimp only
  rw [hrows, forRange_fill (d := (vgaHeight - 1) * vgaWidth) _ fun _ => rfl]
  congr 1
  funext i
  unfold vgaHeight vgaWidth
  by_cases hi : i < 1920
  · rw [if_neg (by omega), if_pos hi, if_pos hi]
  · rw [if_neg hi, if_neg hi]
    exact if_congr (by omega) rfl rfl

theorem terminalRefreshDisplay_eq (hoffset : t.scrollOffset ≤ t.displayStart) :
    t.terminalRefreshDisplay = { t with
      vgaMemory := fun i =>
        if i < 2000 then t.scrollBuffer ((t.displayStart - t.scrollOffset) * 80 + i)
        else t.vgaMemory i }.updateCursor := by
  unfold terminalRefreshDisplay
  dsimp only
  rw [if_pos hoffset]
  generalize t.displayStart - t.scrollOffset = ds
  congr 2
  refine forRange_invariant (I := fun y b => b = fun i =>
    if i < y * 80 then t.scrollBuffer (ds * 80 + i) else t.vgaMemory i) (by decide) ?_ ?_
  · funext i
    rw [if_neg (by omega)]
  · rintro y b - - rfl
    rw [forRange_copy (d := y * vgaWidth) (s := (ds + y) * vgaWidth) _ (fun _ => rfl) fun _ => rfl]
    funext i
    unfold vgaWidth
    by_cases hrow : y * 80 ≤ i ∧ i < y * 80 + 80
    · rw [if_pos hrow, if_pos (by omega)]
      exact congrArg _ (by omega)
    · rw [if_neg hrow]
      exact if_congr (by omega) rfl rfl

theorem terminalInitialize_eq {color : BitVec 8}
    (hcolor : color = vgaEntryColor vgaColorWhite vgaColorBlack) :
    t.terminalInitialize = { t with
      scrollBuffer := fun i => if i < 16000 then vgaEntry charSpace color else t.scrollBuffer i
      vgaMemory := fun i => if i < 2000 then vgaEntry charSpace color else t.vgaMemory i
      terminalRow := 0
      terminalColumn := 0
      terminalColor := color
      scrollOffset := 0 }.updateCursor := by
  subst hcolor
  unfold terminalInitialize
  dsimp only
  rw [forRange_fill (d := 0) _ fun i => (Nat.zero_add i).symm,
    forRange_fill (d := 0) _ fun i => (Nat.zero_add i).symm]
  simp only [Nat.zero_le, true_and, Nat.zero_add]
  rfl

end Loops

/-! ## The invariant -/

theorem displayStart_eq (t : Terminal) : t.displayStart = t.terminalRow - 24 := by
  unfold displayStart vgaHeight
  split <;> omega

/-- The cell of the buffer that a redraw shows in line `y` and column `x`. -/
def shown (t : Terminal) (y x : Nat) : VgaCell :=
  t.scrollBuffer ((t.displayStart - t.scrollOffset + y) * vgaWidth + x)

/-- The screen shows what a redraw would show. -/
def Coherent (t : Terminal) : Prop :=
  ∀ y x, y < vgaHeight → x < vgaWidth → t.vgaMemory (y * vgaWidth + x) = t.shown y x

/-- No cell from `i` on has been written. -/
def BlankFrom (t : Terminal) (i : Nat) : Prop :=
  ∀ j, i ≤ j → j < scrollbackLines * vgaWidth → t.scrollBuffer j = t.blank

end Terminal

/-- The state between two calls. -/
structure TerminalOk (t : Terminal) : Prop where
  row : t.terminalRow < scrollbackLines
  column : t.terminalColumn < vgaWidth
  offset : t.scrollOffset ≤ t.displayStart
  fresh : t.BlankFrom (t.terminalRow * vgaWidth + t.terminalColumn)
  coherent : t.Coherent

namespace Terminal

variable {t : Terminal}

theorem Coherent.updateCursor (h : t.Coherent) : t.updateCursor.Coherent := h

end Terminal

theorem TerminalOk.updateCursor {t : Terminal} (h : TerminalOk t) : TerminalOk t.updateCursor :=
  ⟨h.row, h.column, h.offset, h.fresh, h.coherent⟩

namespace Terminal

variable {t : Terminal}

theorem terminalInitialize_ok (t : Terminal) : TerminalOk t.terminalInitialize := by
  rw [terminalInitialize_eq t rfl]
  refine TerminalOk.updateCursor ⟨Nat.zero_lt_succ _, Nat.zero_lt_succ _, Nat.zero_le _, ?_, ?_⟩
  · intro j _ hj
    exact if_pos hj
  · intro y x hy hx
    unfold vgaHeight at hy
    unfold vgaWidth at hx
    have hscreen : y * 80 + x < 2000 := by omega
    have hbuffer : (0 + y) * 80 + x < 16000 := by omega
    exact (if_pos hscreen).trans (if_pos hbuffer).symm

theorem terminalRefreshDisplay_coherent (hoffset : t.scrollOffset ≤ t.displayStart) :
    t.terminalRefreshDisplay.Coherent := by
  rw [terminalRefreshDisplay_eq t hoffset]
  refine Coherent.updateCursor ?_
  intro y x hy hx
  unfold vgaHeight at hy
  unfold vgaWidth at hx ⊢
  show (if _ then _ else _) = t.scrollBuffer ((t.displayStart - t.scrollOffset + y) * 80 + x)
  rw [if_pos (by omega)]
  exact congrArg _ (by omega)

theorem terminalRefreshDisplay_ok (hrow : t.terminalRow < scrollbackLines)
    (hcolumn : t.terminalColumn < vgaWidth) (hoffset : t.scrollOffset ≤ t.displayStart)
    (hfresh : t.BlankFrom (t.terminalRow * vgaWidth + t.terminalColumn)) :
    TerminalOk t.terminalRefreshDisplay := by
  have hcoherent := terminalRefreshDisplay_coherent hoffset
  rw [terminalRefreshDisplay_eq t hoffset] at hcoherent ⊢
  exact ⟨hrow, hcolumn, hoffset, hfresh, hcoherent⟩

/-! ## Writing a character -/

theorem terminalPutcharAt_live (hlive : t.scrollOffset = 0) (c color : BitVec 8) (x y : Nat) :
    t.terminalPutcharAt c color x y = { t with
      scrollBuffer := Function.update t.scrollBuffer (y * vgaWidth + x) (vgaEntry c color)
      vgaMemory :=
        if y ≥ t.displayStart ∧ y < t.displayStart + vgaHeight then
          Function.update t.vgaMemory ((y - t.displayStart) * vgaWidth + x) (vgaEntry c color)
        else t.vgaMemory } := by
  unfold terminalPutcharAt
  dsimp only
  rw [if_pos hlive]
  show (if y ≥ t.displayStart ∧ y < t.displayStart + vgaHeight then _ else _) = _
  split
  · rfl
  · rfl

theorem Coherent.terminalPutcharAt (h : t.Coherent) (hlive : t.scrollOffset = 0)
    {c color : BitVec 8} {x y : Nat} (hx : x < vgaWidth) :
    (t.terminalPutcharAt c color x y).Coherent := by
  intro y' x' hy' hx'
  have hcell := h y' x' hy' hx'
  unfold shown at hcell
  rw [terminalPutcharAt_live hlive]
  unfold shown
  show (if y ≥ t.displayStart ∧ y < t.displayStart + vgaHeight then _ else _ : Nat → VgaCell)
      (y' * vgaWidth + x')
    = Function.update t.scrollBuffer (y * vgaWidth + x) _
      ((t.displayStart - t.scrollOffset + y') * vgaWidth + x')
  rw [hlive, Nat.sub_zero] at hcell ⊢
  unfold vgaWidth at *
  unfold vgaHeight at *
  by_cases hat : t.displayStart + y' = y ∧ x' = x
  · obtain ⟨rfl, rfl⟩ := hat
    rw [if_pos (by omega), Nat.add_sub_cancel_left, Function.update_self, Function.update_self]
  · rw [Function.update_of_ne (a := (t.displayStart + y') * 80 + x') (by omega)]
    split
    · rw [Function.update_of_ne (by omega)]
      exact hcell
    · exact hcell

/-! ## Moving to the next line -/

/-- The cursor at the start of the next line. -/
def lineFeed (t : Terminal) : Terminal :=
  { t with terminalColumn := 0, terminalRow := t.terminalRow + 1 }

theorem nextLine_eq (t : Terminal) :
    t.nextLine =
      if t.terminalRow + 1 = scrollbackLines then
        t.lineFeed.terminalScrollBuffer.terminalRefreshDisplay
      else if t.lineFeed.displayStart ≠ t.displayStart then t.lineFeed.vgaScroll
      else t.lineFeed := rfl

theorem nextLine_full (hlive : t.scrollOffset = 0) :
    TerminalOk t.lineFeed.terminalScrollBuffer.terminalRefreshDisplay := by
  rw [terminalScrollBuffer_eq]
  refine terminalRefreshDisplay_ok (Nat.lt_succ_self 199) (Nat.zero_lt_succ 79)
    (hlive ▸ Nat.zero_le _) ?_
  intro j hlo hhi
  have hlo' : 199 * 80 + 0 ≤ j := hlo
  have hhi' : j < 200 * 80 := hhi
  have hlast : ¬j < 15920 := by omega
  exact (if_neg hlast).trans (if_pos hhi')

/-- The window moves down by a line, or it is the first screen. -/
theorem nextLine_window (hrow : t.terminalRow + 1 < scrollbackLines) (hlive : t.scrollOffset = 0)
    (hfresh : t.BlankFrom ((t.terminalRow + 1) * vgaWidth)) (h : t.Coherent) :
    TerminalOk (if t.lineFeed.displayStart ≠ t.displayStart then t.lineFeed.vgaScroll
      else t.lineFeed) := by
  split
  · next hmoves =>
      rw [vgaScroll_eq]
      refine ⟨hrow, Nat.zero_lt_succ 79, hlive ▸ Nat.zero_le _, hfresh, ?_⟩
      intro y x hy hx
      rw [displayStart_eq, displayStart_eq] at hmoves
      have hmoves' : t.terminalRow + 1 - 24 ≠ t.terminalRow - 24 := hmoves
      show (if y * vgaWidth + x < 1920 then t.vgaMemory (y * vgaWidth + x + 80)
          else if y * vgaWidth + x < 2000 then t.blank else t.vgaMemory (y * vgaWidth + x))
        = t.scrollBuffer ((t.lineFeed.displayStart - t.scrollOffset + y) * vgaWidth + x)
      rw [displayStart_eq, hlive, Nat.sub_zero]
      show _ = t.scrollBuffer ((t.terminalRow + 1 - 24 + y) * vgaWidth + x)
      unfold vgaWidth at *
      unfold vgaHeight at hy
      unfold scrollbackLines at hrow
      by_cases hlast : y = 24
      · -- the line that comes into view
        rw [if_neg (by omega), if_pos (by omega)]
        refine (hfresh _ (by omega) ?_).symm
        unfold scrollbackLines vgaWidth
        omega
      · have hcell := h (y + 1) x (by unfold vgaHeight; omega) hx
        unfold shown vgaWidth at hcell
        rw [displayStart_eq, hlive, Nat.sub_zero] at hcell
        rw [if_pos (by omega), show y * 80 + x + 80 = (y + 1) * 80 + x by omega, hcell]
        exact congrArg _ (by omega)
  · next hstays =>
      refine ⟨hrow, Nat.zero_lt_succ 79, hlive ▸ Nat.zero_le _, hfresh, ?_⟩
      intro y x hy hx
      have hcell := h y x hy hx
      unfold shown at hcell ⊢
      rw [Decidable.not_not.mp hstays]
      exact hcell

theorem nextLine_ok (hrow : t.terminalRow < scrollbackLines) (hlive : t.scrollOffset = 0)
    (hfresh : t.BlankFrom ((t.terminalRow + 1) * vgaWidth)) (h : t.Coherent) :
    TerminalOk t.nextLine := by
  rw [nextLine_eq]
  by_cases hfull : t.terminalRow + 1 = scrollbackLines
  · rw [if_pos hfull]
    exact nextLine_full hlive
  · rw [if_neg hfull]
    exact nextLine_window (by omega) hlive hfresh h

/-! ## Characters -/

/-- A backspace moves the window up if it starts in column 0 past the first
screen. -/
def StaysInWindow (t : Terminal) (c : BitVec 8) : Prop :=
  c = charBackspace → t.terminalColumn = 0 → t.terminalRow < vgaHeight

instance (t : Terminal) (c : BitVec 8) : Decidable (t.StaysInWindow c) :=
  inferInstanceAs (Decidable (_ → _ → _))

theorem BlankFrom.mono {i j : Nat} (h : t.BlankFrom i) (hij : i ≤ j) : t.BlankFrom j :=
  fun k hk => h k (hij.trans hk)

/-- Erasing the cell before the cursor. -/
theorem erase_ok (h : TerminalOk t) (hlive : t.scrollOffset = 0) {row column : Nat}
    (hcolumn : column < vgaWidth) (hrow : row < scrollbackLines)
    (hback : t.terminalRow * vgaWidth + t.terminalColumn ≤ row * vgaWidth + column + 1)
    (hwindow : row - 24 = t.terminalRow - 24) :
    TerminalOk ({ t with terminalRow := row, terminalColumn := column }.terminalPutcharAt charSpace
      t.terminalColor column row).updateCursor := by
  have hcoherent : Coherent { t with terminalRow := row, terminalColumn := column } := by
    intro y x hy hx
    have hcell := h.coherent y x hy hx
    unfold shown at hcell ⊢
    rw [displayStart_eq] at hcell ⊢
    show t.vgaMemory _ = t.scrollBuffer ((row - 24 - t.scrollOffset + y) * vgaWidth + x)
    rw [hwindow]
    exact hcell
  have hput : Coherent ({ t with terminalRow := row, terminalColumn := column }.terminalPutcharAt
      charSpace t.terminalColor column row) := hcoherent.terminalPutcharAt hlive hcolumn
  refine TerminalOk.updateCursor ?_
  rw [terminalPutcharAt_live (t := { t with terminalRow := row, terminalColumn := column }) hlive]
    at hput ⊢
  refine ⟨hrow, hcolumn, hlive ▸ Nat.zero_le _, ?_, hput⟩
  intro j hlo hhi
  show Function.update t.scrollBuffer (row * vgaWidth + column) _ j = _
  by_cases hj : j = row * vgaWidth + column
  · rw [hj, Function.update_self]
    rfl
  · rw [Function.update_of_ne hj]
    have hlo' : row * vgaWidth + column ≤ j := hlo
    exact h.fresh j (by unfold vgaWidth at *; omega) hhi

theorem backspace_ok (h : TerminalOk t) (hlive : t.scrollOffset = 0)
    (hstays : t.terminalColumn = 0 → t.terminalRow < vgaHeight) : TerminalOk t.backspace := by
  have hrow := h.row
  have hcolumn := h.column
  unfold backspace
  unfold vgaHeight at hstays
  by_cases hinside : t.terminalColumn > 0
  · rw [if_pos hinside]
    exact erase_ok h hlive (by omega) hrow (by omega) rfl
  rw [if_neg hinside]
  by_cases hup : t.terminalRow > 0
  · rw [if_pos hup]
    refine erase_ok h hlive (by decide) (by omega) ?_ (by omega)
    unfold vgaWidth
    omega
  · rw [if_neg hup]
    exact erase_ok h hlive hcolumn hrow (by omega) rfl

theorem snapBack_ok (h : TerminalOk t) :
    TerminalOk t.snapBack ∧ t.snapBack.scrollOffset = 0
      ∧ t.snapBack.terminalRow = t.terminalRow ∧ t.snapBack.terminalColumn = t.terminalColumn := by
  unfold snapBack
  split
  · have hoffset : { t with scrollOffset := 0 }.scrollOffset
        ≤ { t with scrollOffset := 0 }.displayStart := Nat.zero_le _
    refine ⟨terminalRefreshDisplay_ok h.row h.column hoffset h.fresh, ?_⟩
    rw [terminalRefreshDisplay_eq _ hoffset]
    exact ⟨rfl, rfl, rfl⟩
  · next hlive => exact ⟨h, Decidable.not_not.mp hlive, rfl, rfl⟩

/-- A character at the cursor, which may end the line. -/
theorem putChar_ok (h : TerminalOk t) (hlive : t.scrollOffset = 0) (c : BitVec 8) :
    TerminalOk
      (let t := t.terminalPutcharAt c t.terminalColor t.terminalColumn t.terminalRow
       let t := { t with terminalColumn := t.terminalColumn + 1 }
       if t.terminalColumn = vgaWidth then t.nextLine else t) := by
  have hput : (t.terminalPutcharAt c t.terminalColor t.terminalColumn t.terminalRow).Coherent :=
    h.coherent.terminalPutcharAt hlive h.column
  have hcolumn := h.column
  rw [terminalPutcharAt_live hlive] at hput ⊢
  have hfresh : ∀ j, t.terminalRow * vgaWidth + t.terminalColumn + 1 ≤ j →
      j < scrollbackLines * vgaWidth →
      Function.update t.scrollBuffer (t.terminalRow * vgaWidth + t.terminalColumn)
        (vgaEntry c t.terminalColor) j = t.blank := by
    intro j hlo hhi
    rw [Function.update_of_ne (by omega)]
    exact h.fresh j (by omega) hhi
  dsimp only
  by_cases hend : t.terminalColumn + 1 = vgaWidth
  · rw [if_pos hend]
    refine nextLine_ok h.row hlive ?_ hput
    intro j hlo hhi
    refine hfresh j ?_ hhi
    have hlo' : (t.terminalRow + 1) * vgaWidth ≤ j := hlo
    rw [Nat.add_mul] at hlo'
    omega
  · rw [if_neg hend]
    have hcolumn : t.terminalColumn + 1 < vgaWidth := by omega
    exact ⟨h.row, hcolumn, hlive ▸ Nat.zero_le _, hfresh, hput⟩

theorem terminalPutchar_ok (h : TerminalOk t) {c : BitVec 8} (hstays : t.StaysInWindow c) :
    TerminalOk (t.terminalPutchar c) := by
  obtain ⟨hsnap, hlive, hrow, hcolumn⟩ := snapBack_ok h
  unfold terminalPutchar
  dsimp only
  split
  · next hc =>
      refine backspace_ok hsnap hlive ?_
      rw [hrow, hcolumn]
      exact hstays hc
  · split
    · refine (nextLine_ok hsnap.row hlive (hsnap.fresh.mono ?_) hsnap.coherent).updateCursor
      have hcol := hsnap.column
      rw [Nat.add_mul]
      omega
    · exact (putChar_ok hsnap hlive c).updateCursor

/-- `StaysInWindow` for each character, in the state it finds. -/
def WriteStaysInWindow (t : Terminal) : List (BitVec 8) → Prop
  | [] => True
  | c :: str =>
      c = 0#8 ∨ t.StaysInWindow c ∧ (t.terminalPutchar c).WriteStaysInWindow str

instance decidableWriteStaysInWindow (t : Terminal) :
    (str : List (BitVec 8)) → Decidable (t.WriteStaysInWindow str)
  | [] => inferInstanceAs (Decidable True)
  | c :: str =>
      have := decidableWriteStaysInWindow (t.terminalPutchar c) str
      inferInstanceAs (Decidable (_ ∨ _ ∧ _))

theorem terminalWrite_ok {str : List (BitVec 8)} (h : TerminalOk t)
    (hstays : t.WriteStaysInWindow str) : TerminalOk (t.terminalWrite str) := by
  induction str generalizing t with
  | nil => exact h
  | cons c str ih =>
      unfold terminalWrite
      split
      · exact h
      · next hc =>
          obtain ⟨hfirst, hrest⟩ := hstays.resolve_left hc
          exact ih (terminalPutchar_ok h hfirst) hrest

theorem terminalScrollUp_ok (h : TerminalOk t) (lines : Nat) :
    TerminalOk (t.terminalScrollUp lines) := by
  unfold terminalScrollUp
  refine terminalRefreshDisplay_ok h.row h.column ?_ h.fresh
  show (if add32 t.scrollOffset lines > t.displayStart then t.displayStart
    else add32 t.scrollOffset lines) ≤ t.displayStart
  split <;> omega

theorem terminalScrollDown_ok (h : TerminalOk t) (lines : Nat) :
    TerminalOk (t.terminalScrollDown lines) := by
  have hoffset := h.offset
  unfold terminalScrollDown
  refine terminalRefreshDisplay_ok h.row h.column ?_ h.fresh
  show (if t.scrollOffset ≥ lines then t.scrollOffset - lines else 0) ≤ t.displayStart
  split <;> omega

end Terminal

/-! ## Runs -/

inductive TerminalEvent where
  | putchar (c : BitVec 8)
  | write (str : List (BitVec 8))
  | scrollUp (lines : Nat)
  | scrollDown (lines : Nat)

def TerminalEvent.exec (t : Terminal) : TerminalEvent → Terminal
  | .putchar c => t.terminalPutchar c
  | .write str => t.terminalWrite str
  | .scrollUp lines => t.terminalScrollUp lines
  | .scrollDown lines => t.terminalScrollDown lines

def TerminalEvent.StaysInWindow (t : Terminal) : TerminalEvent → Prop
  | .putchar c => t.StaysInWindow c
  | .write str => t.WriteStaysInWindow str
  | .scrollUp _ => True
  | .scrollDown _ => True

instance (t : Terminal) : (e : TerminalEvent) → Decidable (e.StaysInWindow t)
  | .putchar _ => inferInstanceAs (Decidable (Terminal.StaysInWindow _ _))
  | .write _ => inferInstanceAs (Decidable (Terminal.WriteStaysInWindow _ _))
  | .scrollUp _ => inferInstanceAs (Decidable True)
  | .scrollDown _ => inferInstanceAs (Decidable True)

def TerminalStep (t : Terminal) (e : TerminalEvent) (t' : Terminal) : Prop := e.exec t = t'

def TerminalStepInWindow (t : Terminal) (e : TerminalEvent) (t' : Terminal) : Prop :=
  TerminalStep t e t' ∧ e.StaysInWindow t

theorem TerminalOk.step {t t' : Terminal} {e : TerminalEvent} (h : TerminalOk t)
    (hstep : TerminalStepInWindow t e t') : TerminalOk t' := by
  obtain ⟨rfl, hstays⟩ := hstep
  cases e with
  | putchar c => exact Terminal.terminalPutchar_ok h hstays
  | write str => exact Terminal.terminalWrite_ok h hstays
  | scrollUp lines => exact Terminal.terminalScrollUp_ok h lines
  | scrollDown lines => exact Terminal.terminalScrollDown_ok h lines

/-- A terminal before `terminal_initialize`. -/
def coldTerminal : Terminal where
  scrollBuffer := fun _ => 0#16
  vgaMemory := fun _ => 0#16
  terminalRow := 0
  terminalColumn := 0
  terminalColor := 0#8
  scrollOffset := 0
  cursor := 0#16

/-- The screen is coherent in every state of a run in which no backspace moves
the window up. -/
theorem terminalRun_coherent {t t' : Terminal} {es : List TerminalEvent}
    (hrun : Run TerminalStepInWindow t.terminalInitialize es t') :
    t'.scrollOffset ≤ t'.displayStart ∧ t'.Coherent := by
  have h : TerminalOk t' := hrun.invariant (I := TerminalOk)
    (Terminal.terminalInitialize_ok t) fun h hstep => h.step hstep
  exact ⟨h.offset, h.coherent⟩

/-- Text past the first screen, scrolled back by three lines. -/
theorem terminalRun_coherent_back :
    ∃ t, Run TerminalStepInWindow coldTerminal.terminalInitialize
        [.write (0x41#8 :: List.replicate 30 charNewline ++ [0x42#8, charBackspace]),
          .scrollUp 3] t
      ∧ t.scrollOffset = 3 ∧ t.scrollOffset ≤ t.displayStart ∧ t.Coherent := by
  have hrun : Run TerminalStepInWindow coldTerminal.terminalInitialize
      [.write (0x41#8 :: List.replicate 30 charNewline ++ [0x42#8, charBackspace]),
        .scrollUp 3] _ :=
    (Run.nil.snoc ⟨rfl, by decide +kernel⟩).snoc ⟨rfl, trivial⟩
  exact ⟨_, hrun, by decide +kernel, terminalRun_coherent hrun⟩

/-- A backspace at the start of line 25: the window moves up to line 0, where
`A` is, and the screen does not. -/
theorem terminalRun_coherent_fails :
    ∃ t t', Run TerminalStep (Terminal.terminalInitialize t)
        [.write (0x41#8 :: List.replicate 25 charNewline), .putchar charBackspace] t'
      ∧ ¬t'.Coherent := by
  refine ⟨coldTerminal, _, (Run.nil.snoc rfl).snoc rfl, ?_⟩
  intro hcoherent
  have hcell := hcoherent 0 0 (by decide) (by decide)
  rw [Terminal.terminalInitialize_eq _ rfl] at hcell
  revert hcell
  decide +kernel

end Kfs
