import Kfs.IrqRings
import Kfs.Lib.Mem
import Kfs.Lib.Transducer

/-!
# The keyboard interrupt

`keyboard_handler` of `kernel/src/keyboard.c`: one scancode byte is read from
the controller, the flags `shift_held` and `extended_prefix` are brought up to
date, and a key that was pressed goes to the queue and is reported as a
signal. A run interleaves interrupts with `keyboard_try_read_char`; the ring
has room at every interrupt (`KeyboardStep`).
-/

namespace Kfs

/-! ## Tables -/

def keyPageUp : Nat := 0x80
def keyPageDown : Nat := 0x81
def keyArrowUp : Nat := 0x82
def keyArrowDown : Nat := 0x83

/-- `KERNEL_SIGNAL_KEYBOARD`. -/
def kernelSignalKeyboard : Int := 2

def scancodeToAscii : List Nat :=
  ['\x00', '\x00', '1', '2', '3', '4', '5', '6', '7', '8', '9', '0', '-', '=', '\x08',
    '\x09', 'q', 'w', 'e', 'r', 't', 'y', 'u', 'i', 'o', 'p', '[', ']', '\x0a',
    '\x00', 'a', 's', 'd', 'f', 'g', 'h', 'j', 'k', 'l', ';', '\x27', '\x60',
    '\x00', '\x5c', 'z', 'x', 'c', 'v', 'b', 'n', 'm', ',', '.', '/', '\x00',
    '*', '\x00', ' '].map Char.toNat

def scancodeToAsciiShift : List Nat :=
  ['\x00', '\x00', '!', '@', '#', '$', '%', '^', '&', '*', '(', ')', '_', '+', '\x08',
    '\x09', 'Q', 'W', 'E', 'R', 'T', 'Y', 'U', 'I', 'O', 'P', '\x7b', '\x7d', '\x0a',
    '\x00', 'A', 'S', 'D', 'F', 'G', 'H', 'J', 'K', 'L', ':', '\x22', '\x7e',
    '\x00', '|', 'Z', 'X', 'C', 'V', 'B', 'N', 'M', '<', '>', '?', '\x00',
    '*', '\x00', ' '].map Char.toNat

/-- The `switch` on the second byte of an extended key. -/
def extendedKey (scancode : Byte) : Nat :=
  match scancode.toNat with
  | 0x48 => keyArrowUp
  | 0x50 => keyArrowDown
  | 0x49 => keyPageUp
  | 0x51 => keyPageDown
  | _ => 0

/-! ## The handler -/

/-- `shiftHeld` and `extendedPrefix` are flags in the source. -/
structure Keyboard where
  irq : Irq
  shiftHeld : Bool
  extendedPrefix : Bool

/-- `keyboard_queue_char(key)`, then `schedule_signal`. -/
def Keyboard.press (s : Keyboard) (key : Nat) : Keyboard :=
  { s with irq :=
    { signals := (scheduleSignal s.irq.signals kernelSignalKeyboard key 0).2
      keyboard := (keyboardQueueChar s.irq.keyboard key).2 } }

def keyboardHandler (s : Keyboard) (scancode : Byte) : Keyboard :=
  if scancode = 0x2A ∨ scancode = 0x36 then { s with shiftHeld := true }
  else if scancode = 0xAA ∨ scancode = 0xB6 then { s with shiftHeld := false }
  else if scancode = 0xE0 then { s with extendedPrefix := true }
  else if s.extendedPrefix then
    let s := { s with extendedPrefix := false }
    if scancode &&& 0x80 ≠ 0 then s
    else
      let key := extendedKey scancode
      if key ≠ 0 then s.press key else s
  else if scancode &&& 0x80 ≠ 0 ∨ scancodeToAscii.length ≤ scancode.toNat then s
  else
    let table := if s.shiftHeld then scancodeToAsciiShift else scancodeToAscii
    let c := table.getD scancode.toNat 0
    if c ≠ 0 then s.press c else s

/-! ## Runs -/

inductive KeyboardEvent where
  | scancode (byte : Byte)
  | tryReadChar (outChar : Bool)
  deriving DecidableEq

/-- The character that was read, if any. -/
abbrev KeyboardReply := Option Nat

def KeyboardEvent.exec (s : Keyboard) : KeyboardEvent → KeyboardReply × Keyboard
  | .scancode byte => (none, keyboardHandler s byte)
  | .tryReadChar outChar =>
      let (c, keyboard) := keyboardTryReadChar s.irq.keyboard outChar
      (c, { s with irq := { s.irq with keyboard := keyboard } })

def KeyboardStep (s : Keyboard) (label : KeyboardEvent × KeyboardReply) (s' : Keyboard) : Prop :=
  ((∃ byte, label.1 = .scancode byte) → ¬s.irq.keyboard.Full) ∧ label.1.exec s = (label.2, s')

/-- After boot: the flags are zero, and `init_keyboard` empties the queue. -/
def keyboardInit (s : Irq) : Keyboard where
  irq := irqInit s
  shiftHeld := false
  extendedPrefix := false

/-- The bytes the controller sent. -/
def scancodesOf (labels : List (KeyboardEvent × KeyboardReply)) : List Byte :=
  labels.filterMap fun
    | (.scancode byte, _) => some byte
    | _ => none

/-- The characters that were read. -/
def keysRead (labels : List (KeyboardEvent × KeyboardReply)) : List Nat :=
  labels.filterMap Prod.snd

/-! ## What the handler decides -/

/-- A key code as a list; `0` is none. -/
def keyList (key : Nat) : List Nat := if key = 0 then [] else [key]

/-- What a byte behind a prefix stands for. -/
def extendedKeys (scancode : Byte) : List Nat :=
  if scancode &&& 0x80 ≠ 0 then [] else keyList (extendedKey scancode)

/-- What a byte stands for in the tables. -/
def plainKeys (shift : Bool) (scancode : Byte) : List Nat :=
  if scancode &&& 0x80 ≠ 0 ∨ scancodeToAscii.length ≤ scancode.toNat then []
  else keyList ((if shift then scancodeToAsciiShift else scancodeToAscii).getD scancode.toNat 0)

/-- The flags of the handler, and what it queues. -/
structure HandlerFlags where
  shiftHeld : Bool
  extendedPrefix : Bool

def HandlerFlags.step (f : HandlerFlags) (scancode : Byte) : HandlerFlags × List Nat :=
  if scancode = 0x2A ∨ scancode = 0x36 then ({ f with shiftHeld := true }, [])
  else if scancode = 0xAA ∨ scancode = 0xB6 then ({ f with shiftHeld := false }, [])
  else if scancode = 0xE0 then ({ f with extendedPrefix := true }, [])
  else if f.extendedPrefix then ({ f with extendedPrefix := false }, extendedKeys scancode)
  else (f, plainKeys f.shiftHeld scancode)

def Keyboard.flags (s : Keyboard) : HandlerFlags := ⟨s.shiftHeld, s.extendedPrefix⟩

section Handler

variable {s s' : Keyboard}

theorem press_contents (hfull : ¬s.irq.keyboard.Full) (key : Nat) :
    (s.press key).irq.keyboard.contents = s.irq.keyboard.contents ++ [key] := by
  show (keyboardQueueChar s.irq.keyboard key).2.contents = _
  rw [keyboardQueueChar, if_neg hfull]
  exact Ring.contents_put hfull key

/-- The handler queues what the flags and the byte decide. -/
theorem keyboardHandler_spec (hfull : ¬s.irq.keyboard.Full) (scancode : Byte) :
    (keyboardHandler s scancode).flags = (s.flags.step scancode).1
      ∧ (keyboardHandler s scancode).irq.keyboard.contents
        = s.irq.keyboard.contents ++ (s.flags.step scancode).2 := by
  unfold keyboardHandler HandlerFlags.step
  split
  · exact ⟨rfl, (List.append_nil _).symm⟩
  split
  · exact ⟨rfl, (List.append_nil _).symm⟩
  split
  · exact ⟨rfl, (List.append_nil _).symm⟩
  by_cases hbegins : s.extendedPrefix = true
  · rw [if_pos hbegins, if_pos (show s.flags.extendedPrefix = true from hbegins)]
    dsimp only
    unfold extendedKeys
    split
    · exact ⟨rfl, (List.append_nil _).symm⟩
    · unfold keyList
      by_cases hkey : extendedKey scancode = 0
      · rw [if_neg (not_not.mpr hkey), if_pos hkey]
        exact ⟨rfl, (List.append_nil _).symm⟩
      · rw [if_pos hkey, if_neg hkey]
        exact ⟨rfl, press_contents (s := { s with extendedPrefix := false }) hfull _⟩
  · rw [if_neg hbegins, if_neg (show ¬s.flags.extendedPrefix = true from hbegins)]
    unfold plainKeys
    split
    · exact ⟨rfl, (List.append_nil _).symm⟩
    · show _ = s.flags ∧ _ = _ ++ keyList
        ((if s.shiftHeld = true then scancodeToAsciiShift else scancodeToAscii).getD
          scancode.toNat 0)
      dsimp only
      unfold keyList
      generalize (if s.shiftHeld = true then scancodeToAsciiShift else scancodeToAscii).getD
        scancode.toNat 0 = c
      by_cases hc : c = 0
      · rw [if_neg (not_not.mpr hc), if_pos hc]
        exact ⟨rfl, (List.append_nil _).symm⟩
      · rw [if_pos hc, if_neg hc]
        exact ⟨rfl, press_contents hfull c⟩

theorem scancodesOf_append (labels : List (KeyboardEvent × KeyboardReply))
    (label : KeyboardEvent × KeyboardReply) :
    scancodesOf (labels ++ [label]) = scancodesOf labels ++ scancodesOf [label] :=
  List.filterMap_append

theorem keysRead_append (labels : List (KeyboardEvent × KeyboardReply))
    (label : KeyboardEvent × KeyboardReply) :
    keysRead (labels ++ [label]) = keysRead labels ++ keysRead [label] :=
  List.filterMap_append

/-- What was read, and then what is queued, is what the handler decided. -/
structure KeyboardInv (labels : List (KeyboardEvent × KeyboardReply)) (s : Keyboard) : Prop where
  flags : s.flags = stateAfter HandlerFlags.step ⟨false, false⟩ (scancodesOf labels)
  keys : keysRead labels ++ s.irq.keyboard.contents
    = transduce HandlerFlags.step ⟨false, false⟩ (scancodesOf labels)

theorem KeyboardInv.step {labels : List (KeyboardEvent × KeyboardReply)}
    {label : KeyboardEvent × KeyboardReply} (h : KeyboardInv labels s)
    (hstep : KeyboardStep s label s') : KeyboardInv (labels ++ [label]) s' := by
  obtain ⟨e, r⟩ := label
  obtain ⟨hroom, hexec⟩ := hstep
  cases e with
  | scancode byte =>
      obtain ⟨rfl, rfl⟩ := Prod.mk.inj hexec
      obtain ⟨hflags, hcontents⟩ := keyboardHandler_spec (hroom ⟨byte, rfl⟩) byte
      have hbytes : scancodesOf (labels ++ [(.scancode byte, none)])
          = scancodesOf labels ++ [byte] := scancodesOf_append labels _
      have hkeys : keysRead (labels ++ [(.scancode byte, none)]) = keysRead labels :=
        (keysRead_append labels _).trans (List.append_nil _)
      refine ⟨?_, ?_⟩
      · rw [hbytes, stateAfter_snoc, ← h.flags, hflags]
      · rw [hbytes, transduce_snoc, ← h.keys, hkeys, hcontents, List.append_assoc, writes,
          ← h.flags]
  | tryReadChar outChar =>
      have hbytes : scancodesOf (labels ++ [(.tryReadChar outChar, r)]) = scancodesOf labels :=
        (scancodesOf_append labels _).trans (List.append_nil _)
      rcases keyboardTryReadChar_cases s.irq.keyboard outChar with he | ⟨hempty, he⟩
      · simp only [KeyboardEvent.exec, he, Prod.mk.injEq] at hexec
        obtain ⟨rfl, rfl⟩ := hexec
        have hkeys : keysRead (labels ++ [(.tryReadChar outChar, none)]) = keysRead labels :=
          (keysRead_append labels _).trans (List.append_nil _)
        exact ⟨by rw [hbytes]; exact h.flags, by rw [hbytes, hkeys]; exact h.keys⟩
      · simp only [KeyboardEvent.exec, he, Prod.mk.injEq] at hexec
        obtain ⟨rfl, rfl⟩ := hexec
        have hkeys : keysRead (labels ++ [(.tryReadChar outChar, some s.irq.keyboard.front)])
            = keysRead labels ++ [s.irq.keyboard.front] := keysRead_append labels _
        refine ⟨by rw [hbytes]; exact h.flags, ?_⟩
        rw [hbytes, hkeys, ← h.keys, Ring.contents_drop hempty, List.append_assoc]
        rfl

theorem keyboardRun_inv {s0 : Irq} {labels : List (KeyboardEvent × KeyboardReply)}
    (hrun : Run KeyboardStep (keyboardInit s0) labels s) : KeyboardInv labels s := by
  have hempty : (keyboardInit s0).irq.keyboard.contents = [] := Ring.contents_eq_nil rfl
  have hinit : KeyboardInv [] (keyboardInit s0) := ⟨rfl, by rw [hempty]; rfl⟩
  exact hrun.invariant_trace hinit fun h hstep => h.step hstep

end Handler

end Kfs
