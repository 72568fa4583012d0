import Kfs.Lib.Cells
import Kfs.Lib.Word

/-!
# The terminal

The console of `kernel/src/main.c`: a buffer of 200 lines and the VGA text
memory, which shows 25 of them. The cursor is in the buffer. While the view
is live, the VGA memory shows the lines up to the cursor's and is patched as
characters come in; a view that is scrolled back is redrawn as a whole.

The copy that `terminal_putchar` sends to the serial port is left out.
-/

namespace Kfs

/-- A character with its color byte, `uint16_t`. -/
abbrev VgaCell := BitVec 16

/-- `VGA_WIDTH`. -/
def vgaWidth : Nat := 80

/-- `VGA_HEIGHT`. -/
def vgaHeight : Nat := 25

/-- `SCROLLBACK_LINES`. -/
def scrollbackLines : Nat := 200

/-- `VGA_COLOR_BLACK`. -/
def vgaColorBlack : BitVec 8 := 0#8

/-- `VGA_COLOR_WHITE`. -/
def vgaColorWhite : BitVec 8 := 15#8

def vgaEntryColor (fg bg : BitVec 8) : BitVec 8 := fg ||| bg <<< 4

def vgaEntry (uc color : BitVec 8) : VgaCell := uc.setWidth 16 ||| color.setWidth 16 <<< 8

/-- `' '`. -/
def charSpace : BitVec 8 := 0x20#8

/-- `'\b'`. -/
def charBackspace : BitVec 8 := 0x08#8

/-- `'\n'`. -/
def charNewline : BitVec 8 := 0x0A#8

/-- The variables of `main.c`, the VGA memory and the cursor register of the
VGA controller. -/
structure Terminal where
  scrollBuffer : Nat → VgaCell
  vgaMemory : Nat → VgaCell
  terminalRow : Nat
  terminalColumn : Nat
  terminalColor : BitVec 8
  scrollOffset : Nat
  cursor : BitVec 16

namespace Terminal

def displayStart (t : Terminal) : Nat :=
  if t.terminalRow ≥ vgaHeight then t.terminalRow - vgaHeight + 1 else 0

def updateCursor (t : Terminal) : Terminal :=
  let pos :=
    if t.scrollOffset ≠ 0 then vgaHeight * vgaWidth
    else
      let visibleRow := t.terminalRow - t.displayStart
      visibleRow * vgaWidth + t.terminalColumn
  { t with cursor := BitVec.ofNat 16 pos }

def blank (t : Terminal) : VgaCell := vgaEntry charSpace t.terminalColor

def terminalScrollBuffer (t : Terminal) : Terminal :=
  let buffer := forRange 0 ((scrollbackLines - 1) * vgaWidth)
    (fun i b => Function.update b i (b (i + vgaWidth))) t.scrollBuffer
  let buffer := forRange 0 vgaWidth
    (fun x b => Function.update b ((scrollbackLines - 1) * vgaWidth + x) t.blank) buffer
  { t with scrollBuffer := buffer, terminalRow := scrollbackLines - 1 }

def vgaScroll (t : Terminal) : Terminal :=
  let vga := forRange 1 vgaHeight (fun y b =>
    forRange 0 vgaWidth
      (fun x b => Function.update b ((y - 1) * vgaWidth + x) (b (y * vgaWidth + x))) b) t.vgaMemory
  let vga := forRange 0 vgaWidth
    (fun x b => Function.update b ((vgaHeight - 1) * vgaWidth + x) t.blank) vga
  { t with vgaMemory := vga }

def terminalInitialize (t : Terminal) : Terminal :=
  let t := { t with
    terminalRow := 0
    terminalColumn := 0
    scrollOffset := 0
    terminalColor := vgaEntryColor vgaColorWhite vgaColorBlack }
  let t := { t with
    scrollBuffer := forRange 0 (scrollbackLines * vgaWidth)
      (fun i b => Function.update b i t.blank) t.scrollBuffer
    vgaMemory := forRange 0 (vgaHeight * vgaWidth)
      (fun i b => Function.update b i t.blank) t.vgaMemory }
  t.updateCursor

def terminalPutcharAt (t : Terminal) (c color : BitVec 8) (x y : Nat) : Terminal :=
  let t := { t with
    scrollBuffer := Function.update t.scrollBuffer (y * vgaWidth + x) (vgaEntry c color) }
  if t.scrollOffset = 0 then
    let ds := t.displayStart
    if y ≥ ds ∧ y < ds + vgaHeight then
      { t with
        vgaMemory := Function.update t.vgaMemory ((y - ds) * vgaWidth + x) (vgaEntry c color) }
    else t
  else t

def terminalRefreshDisplay (t : Terminal) : Terminal :=
  let ds := t.displayStart
  let ds := if ds ≥ t.scrollOffset then ds - t.scrollOffset else 0
  let vga := forRange 0 vgaHeight (fun y b =>
    forRange 0 vgaWidth
      (fun x b =>
        Function.update b (y * vgaWidth + x) (t.scrollBuffer ((ds + y) * vgaWidth + x))) b)
    t.vgaMemory
  { t with vgaMemory := vga }.updateCursor

/-- Snap back to the live view. -/
def snapBack (t : Terminal) : Terminal :=
  if t.scrollOffset ≠ 0 then { t with scrollOffset := 0 }.terminalRefreshDisplay else t

/-- To the start of the next line, on a newline and at the end of a line. -/
def nextLine (t : Terminal) : Terminal :=
  let t := { t with terminalColumn := 0 }
  let oldDs := t.displayStart
  let t := { t with terminalRow := t.terminalRow + 1 }
  if t.terminalRow = scrollbackLines then t.terminalScrollBuffer.terminalRefreshDisplay
  else if t.displayStart ≠ oldDs then t.vgaScroll
  else t

/-- The branch of `'\b'`. -/
def backspace (t : Terminal) : Terminal :=
  let t :=
    if t.terminalColumn > 0 then { t with terminalColumn := t.terminalColumn - 1 }
    else if t.terminalRow > 0 then
      { t with terminalRow := t.terminalRow - 1, terminalColumn := vgaWidth - 1 }
    else t
  (t.terminalPutcharAt charSpace t.terminalColor t.terminalColumn t.terminalRow).updateCursor

def terminalPutchar (t : Terminal) (c : BitVec 8) : Terminal :=
  let t := t.snapBack
  if c = charBackspace then t.backspace
  else if c = charNewline then t.nextLine.updateCursor
  else
    let t := t.terminalPutcharAt c t.terminalColor t.terminalColumn t.terminalRow
    let t := { t with terminalColumn := t.terminalColumn + 1 }
    let t := if t.terminalColumn = vgaWidth then t.nextLine else t
    t.updateCursor

/-- The characters of `str` up to the first `'\0'`. -/
def terminalWrite (t : Terminal) : List (BitVec 8) → Terminal
  | [] => t
  | c :: str => if c = 0#8 then t else (t.terminalPutchar c).terminalWrite str

def terminalScrollUp (t : Terminal) (lines : Nat) : Terminal :=
  let maxOffset :=
    if t.terminalRow ≥ vgaHeight then t.terminalRow - vgaHeight + 1 else 0
  let offset := add32 t.scrollOffset lines
  { t with scrollOffset := if offset > maxOffset then maxOffset else offset }.terminalRefreshDisplay

def terminalScrollDown (t : Terminal) (lines : Nat) : Terminal :=
  { t with
    scrollOffset :=
      if t.scrollOffset ≥ lines then t.scrollOffset - lines else 0 }.terminalRefreshDisplay

end Terminal

end Kfs
