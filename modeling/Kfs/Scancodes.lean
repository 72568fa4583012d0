import Kfs.Keyboard

/-!
# The keyboard protocol

`Decoder` is what the bytes of the controller mean: a prefix belongs to the
byte behind it, and shift is active while one of its two keys is down. The
handler looks at the four codes of the shift keys before it looks at the
prefix, and has one flag for the two keys. Its prefix is therefore the last
byte that is not such a code (`PendingPrefix`), and its shift the last code
that is one (`LastShiftMake`). Where that makes a difference to the key that
comes next, and only there, it queues something else (`keyboardRun_decodes`).
-/

namespace Kfs

/-! ## The protocol -/

structure Decoder where
  extended : Bool
  left : Bool
  right : Bool

/-- At least one of the two shift keys is down. -/
def Decoder.shift (d : Decoder) : Bool := d.left || d.right

def Decoder.step (d : Decoder) (byte : Byte) : Decoder × List Nat :=
  if byte = 0xE0 then ({ d with extended := true }, [])
  else if d.extended then ({ d with extended := false }, extendedKeys byte)
  else if byte = 0x2A then ({ d with left := true }, [])
  else if byte = 0xAA then ({ d with left := false }, [])
  else if byte = 0x36 then ({ d with right := true }, [])
  else if byte = 0xB6 then ({ d with right := false }, [])
  else (d, plainKeys d.shift byte)

def Decoder.init : Decoder := ⟨false, false, false⟩

def HandlerFlags.init : HandlerFlags := ⟨false, false⟩

/-- The keys that the bytes stand for. -/
def decode (bytes : List Byte) : List Nat := transduce Decoder.step .init bytes

/-! ## What the handler takes a byte for -/

/-- A code of a shift key, prefixed or not. -/
def IsShiftCode (byte : Byte) : Bool :=
  byte = 0x2A ∨ byte = 0x36 ∨ byte = 0xAA ∨ byte = 0xB6

/-- The last byte is a prefix. -/
def Prefixed (bytes : List Byte) : Prop := bytes.getLast? = some 0xE0

/-- The last byte that is no code of a shift key is a prefix. -/
def PendingPrefix (bytes : List Byte) : Prop :=
  Prefixed (bytes.filter fun byte => !IsShiftCode byte)

/-- The last code of a shift key is a make code. -/
def LastShiftMake (bytes : List Byte) : Prop :=
  (bytes.filter IsShiftCode).getLast? = some 0x2A
    ∨ (bytes.filter IsShiftCode).getLast? = some 0x36

/-- A shift key is down. -/
def ShiftDown (bytes : List Byte) : Prop := (stateAfter Decoder.step .init bytes).shift = true

/-- A key that means something, with a prefix or without. -/
def VisibleKey (key : Byte) : Prop := extendedKeys key ≠ [] ∨ plainKeys false key ≠ []

/-- A key with two characters. -/
def TwoCharacters (key : Byte) : Prop := plainKeys true key ≠ plainKeys false key

/-- Behind these bytes the handler takes `key` for what it is. -/
structure Legible (before : List Byte) (key : Byte) : Prop where
  fresh : PendingPrefix before → ¬Prefixed before → ¬VisibleKey key
  shift : ¬PendingPrefix before → TwoCharacters key → (LastShiftMake before ↔ ShiftDown before)

/-! ## Keys -/

theorem quiet_keys {key : Byte} (h : key = 0xE0 ∨ IsShiftCode key = true) :
    extendedKeys key = [] ∧ ∀ shift, plainKeys shift key = [] := by
  have hcodes : key ∈ ([0xE0, 0x2A, 0x36, 0xAA, 0xB6] : List Byte) := by
    rcases h with rfl | h
    · exact List.mem_cons_self
    · simpa [IsShiftCode] using Or.inr h
  revert key
  decide

theorem extendedKeys_or_plainKeys (key : Byte) (shift : Bool) :
    extendedKeys key = [] ∨ plainKeys shift key = [] := by
  revert key shift
  decide

theorem plainKeys_length (key : Byte) (shift : Bool) :
    (plainKeys shift key).length = (plainKeys false key).length := by
  revert key shift
  decide

/-- Special keys are above ASCII, and the tables are ASCII. -/
theorem keys_special (key : Byte) :
    (∀ c ∈ extendedKeys key, 0x80 ≤ c) ∧ ∀ shift, ∀ c ∈ plainKeys shift key, ¬0x80 ≤ c := by
  revert key
  decide

/-! ## One byte -/

section Byte

variable {f : HandlerFlags} {d : Decoder} {key : Byte}

theorem HandlerFlags.step_quiet (h : key = 0xE0 ∨ IsShiftCode key = true) :
    (f.step key).2 = [] := by
  obtain ⟨hextended, hplain⟩ := quiet_keys h
  unfold HandlerFlags.step
  repeat' split
  · rfl
  · rfl
  · rfl
  · exact hextended
  · exact hplain _

theorem Decoder.step_quiet (h : key = 0xE0 ∨ IsShiftCode key = true) :
    (d.step key).2 = [] := by
  obtain ⟨hextended, hplain⟩ := quiet_keys h
  unfold Decoder.step
  repeat' split
  · rfl
  · exact hextended
  · rfl
  · rfl
  · rfl
  · rfl
  · exact hplain _

theorem not_quiet (h : ¬(key = 0xE0 ∨ IsShiftCode key = true)) :
    key ≠ 0xE0 ∧ key ≠ 0x2A ∧ key ≠ 0x36 ∧ key ≠ 0xAA ∧ key ≠ 0xB6 := by
  simpa [IsShiftCode] using h

theorem HandlerFlags.step_key (h : ¬(key = 0xE0 ∨ IsShiftCode key = true)) :
    f.step key = ({ f with extendedPrefix := false },
      if f.extendedPrefix then extendedKeys key else plainKeys f.shiftHeld key) := by
  obtain ⟨h1, h2, h3, h4, h5⟩ := not_quiet h
  unfold HandlerFlags.step
  rw [if_neg (not_or.mpr ⟨h2, h3⟩), if_neg (not_or.mpr ⟨h4, h5⟩), if_neg h1]
  obtain ⟨shiftHeld, extendedPrefix⟩ := f
  cases extendedPrefix <;> rfl

theorem Decoder.step_key (h : ¬(key = 0xE0 ∨ IsShiftCode key = true)) :
    d.step key = ({ d with extended := false },
      if d.extended then extendedKeys key else plainKeys d.shift key) := by
  obtain ⟨h1, h2, h3, h4, h5⟩ := not_quiet h
  unfold Decoder.step
  rw [if_neg h1, if_neg h2, if_neg h4, if_neg h3, if_neg h5]
  obtain ⟨extended, left, right⟩ := d
  cases extended <;> rfl

theorem Decoder.step_extended : (d.step key).1.extended = decide (key = 0xE0) := by
  unfold Decoder.step
  by_cases hbegins : key = 0xE0
  · rw [if_pos hbegins, decide_eq_true hbegins]
  · rw [if_neg hbegins, decide_eq_false hbegins]
    obtain ⟨extended, left, right⟩ := d
    cases extended
    · repeat' split
      all_goals rfl
    · rfl

theorem HandlerFlags.step_shiftCode (h : IsShiftCode key = true) :
    (f.step key).1.extendedPrefix = f.extendedPrefix
      ∧ ((f.step key).1.shiftHeld = true ↔ key = 0x2A ∨ key = 0x36) := by
  have hcodes : key = 0x2A ∨ key = 0x36 ∨ key = 0xAA ∨ key = 0xB6 := of_decide_eq_true h
  rcases hcodes with rfl | rfl | rfl | rfl
  · exact ⟨rfl, fun _ => Or.inl rfl, fun _ => rfl⟩
  · exact ⟨rfl, fun _ => Or.inr rfl, fun _ => rfl⟩
  · exact ⟨rfl, fun h => (nomatch h), fun h => absurd h (by decide)⟩
  · exact ⟨rfl, fun h => (nomatch h), fun h => absurd h (by decide)⟩

theorem HandlerFlags.step_prefix : f.step 0xE0 = ({ f with extendedPrefix := true }, []) := rfl

theorem HandlerFlags.step_other (h : ¬IsShiftCode key = true) :
    (f.step key).1.extendedPrefix = decide (key = 0xE0)
      ∧ (f.step key).1.shiftHeld = f.shiftHeld := by
  by_cases hbegins : key = 0xE0
  · rw [hbegins, HandlerFlags.step_prefix]
    exact ⟨rfl, rfl⟩
  · rw [HandlerFlags.step_key (not_or.mpr ⟨hbegins, h⟩), decide_eq_false hbegins]
    exact ⟨rfl, rfl⟩

/-- When the two machines write the same, with a prefix of the protocol
always one of the handler. -/
theorem step_eq_iff (hext : d.extended = true → f.extendedPrefix = true) :
    (d.step key).2 = (f.step key).2
      ↔ (f.extendedPrefix = true → ¬d.extended = true → ¬VisibleKey key)
        ∧ (¬f.extendedPrefix = true → TwoCharacters key →
          (f.shiftHeld = true ↔ d.shift = true)) := by
  by_cases hquiet : key = 0xE0 ∨ IsShiftCode key = true
  · obtain ⟨hextended, hplain⟩ := quiet_keys hquiet
    rw [HandlerFlags.step_quiet hquiet, Decoder.step_quiet hquiet]
    simp [VisibleKey, TwoCharacters, hextended, hplain]
  · rw [HandlerFlags.step_key hquiet, Decoder.step_key hquiet]
    dsimp only
    by_cases hd : d.extended = true
    · rw [if_pos hd, if_pos (hext hd)]
      exact ⟨fun _ => ⟨fun _ h => absurd hd h, fun h => absurd (hext hd) h⟩, fun _ => rfl⟩
    · rw [if_neg hd]
      by_cases hf : f.extendedPrefix = true
      · rw [if_pos hf]
        have hone := extendedKeys_or_plainKeys key d.shift
        have hnil : plainKeys d.shift key = [] ↔ plainKeys false key = [] := by
          rw [← List.length_eq_zero_iff, ← List.length_eq_zero_iff, plainKeys_length key d.shift]
        have hinvisible : ¬VisibleKey key ↔ extendedKeys key = [] ∧ plainKeys d.shift key = [] := by
          rw [VisibleKey, not_or, not_not, not_not, hnil]
        constructor
        · intro heq
          refine ⟨fun _ _ => hinvisible.mpr ?_, fun h => absurd hf h⟩
          rcases hone with hone | hone
          · exact ⟨hone, heq.trans hone⟩
          · exact ⟨heq.symm.trans hone, hone⟩
        · rintro ⟨hfresh, -⟩
          obtain ⟨hextended, hplain⟩ := hinvisible.mp (hfresh hf hd)
          rw [hextended, hplain]
      · rw [if_neg hf]
        constructor
        · intro heq
          refine ⟨fun h => absurd h hf, fun _ htwo => ?_⟩
          cases hshift : f.shiftHeld <;> cases hshift' : d.shift <;> rw [hshift, hshift'] at heq
          · exact absurd heq htwo
          · exact absurd heq.symm htwo
        · rintro ⟨-, hsame⟩
          by_cases htwo : TwoCharacters key
          · rw [Bool.eq_iff_iff.mpr (hsame hf htwo)]
          · have hkeys := not_not.mp htwo
            cases f.shiftHeld <;> cases d.shift
            · rfl
            · exact hkeys
            · exact hkeys.symm
            · rfl

/-- The decoder writes special keys only where the handler does, and the
handler characters only where the decoder does. -/
theorem step_countP (hext : d.extended = true → f.extendedPrefix = true) :
    (d.step key).2.countP (fun c => decide (0x80 ≤ c))
        ≤ (f.step key).2.countP (fun c => decide (0x80 ≤ c))
      ∧ (f.step key).2.countP (fun c => !decide (0x80 ≤ c))
        ≤ (d.step key).2.countP fun c => !decide (0x80 ≤ c) := by
  by_cases hquiet : key = 0xE0 ∨ IsShiftCode key = true
  · rw [HandlerFlags.step_quiet hquiet, Decoder.step_quiet hquiet]
    exact ⟨Nat.le_refl _, Nat.le_refl _⟩
  · obtain ⟨hspecial, hplain⟩ := keys_special key
    have hnone : ∀ shift, (plainKeys shift key).countP (fun c => decide (0x80 ≤ c)) = 0 :=
      fun shift => List.countP_eq_zero.mpr fun c hc => by simpa using hplain shift c hc
    have hall : ∀ shift, (plainKeys shift key).countP (fun c => !decide (0x80 ≤ c))
        = (plainKeys false key).length := fun shift => by
      rw [← plainKeys_length key shift]
      exact List.countP_eq_length.mpr fun c hc => by simpa using hplain shift c hc
    rw [HandlerFlags.step_key hquiet, Decoder.step_key hquiet]
    dsimp only
    by_cases hd : d.extended = true
    · rw [if_pos hd, if_pos (hext hd)]
      exact ⟨Nat.le_refl _, Nat.le_refl _⟩
    · rw [if_neg hd, hnone]
      refine ⟨Nat.zero_le _, ?_⟩
      split
      · rw [List.countP_eq_zero.mpr fun c hc => by simpa using hspecial c hc]
        exact Nat.zero_le _
      · rw [hall, hall]

end Byte

/-! ## What the flags are -/

section Flags

variable (bytes : List Byte)

theorem decoder_extended :
    (stateAfter Decoder.step .init bytes).extended = true ↔ Prefixed bytes := by
  induction bytes using List.reverseRecOn with
  | nil => simp [Decoder.init, Prefixed]
  | append_singleton bytes byte ih =>
      rw [stateAfter_snoc, Prefixed, List.getLast?_concat, Option.some.injEq,
        Decoder.step_extended, decide_eq_true_iff]

theorem handler_extendedPrefix :
    (stateAfter HandlerFlags.step .init bytes).extendedPrefix = true ↔ PendingPrefix bytes := by
  induction bytes using List.reverseRecOn with
  | nil => simp [HandlerFlags.init, PendingPrefix, Prefixed]
  | append_singleton bytes byte ih =>
      unfold PendingPrefix Prefixed at ih ⊢
      rw [stateAfter_snoc, List.filter_append]
      by_cases hcode : IsShiftCode byte = true
      · have hnone : [byte].filter (fun byte => !IsShiftCode byte) = [] := by simp [hcode]
        rw [hnone, List.append_nil, ← ih, (HandlerFlags.step_shiftCode hcode).1]
      · have hself : [byte].filter (fun byte => !IsShiftCode byte) = [byte] := by simp [hcode]
        rw [hself, List.getLast?_concat, Option.some.injEq, (HandlerFlags.step_other hcode).1,
          decide_eq_true_iff]

theorem handler_shiftHeld :
    (stateAfter HandlerFlags.step .init bytes).shiftHeld = true ↔ LastShiftMake bytes := by
  induction bytes using List.reverseRecOn with
  | nil => simp [HandlerFlags.init, LastShiftMake]
  | append_singleton bytes byte ih =>
      unfold LastShiftMake at ih ⊢
      rw [stateAfter_snoc, List.filter_append]
      by_cases hcode : IsShiftCode byte = true
      · have hself : [byte].filter IsShiftCode = [byte] := by simp [hcode]
        rw [hself, List.getLast?_concat, Option.some.injEq, Option.some.injEq,
          (HandlerFlags.step_shiftCode hcode).2]
      · have hnone : [byte].filter IsShiftCode = [] := by simp [hcode]
        rw [hnone, List.append_nil, ← ih, (HandlerFlags.step_other hcode).2]

end Flags

/-! ## Streams -/

theorem prefix_pending {bytes : List Byte} (h : Prefixed bytes) : PendingPrefix bytes := by
  obtain ⟨init, rfl⟩ := List.getLast?_eq_some_iff.mp h
  unfold PendingPrefix Prefixed
  rw [List.filter_append]
  exact List.getLast?_concat

theorem decoder_imp_handler (before : List Byte)
    (h : (stateAfter Decoder.step .init before).extended = true) :
    (stateAfter HandlerFlags.step .init before).extendedPrefix = true :=
  (handler_extendedPrefix before).mpr (prefix_pending ((decoder_extended before).mp h))

theorem writes_eq_iff (before : List Byte) (key : Byte) :
    writes Decoder.step .init before key = writes HandlerFlags.step .init before key
      ↔ Legible before key := by
  unfold writes
  rw [step_eq_iff (decoder_imp_handler before), handler_extendedPrefix, decoder_extended,
    handler_shiftHeld]
  exact ⟨fun h => ⟨h.1, h.2⟩, fun h => ⟨h.fresh, h.shift⟩⟩

/-- The handler queues the keys of the protocol if and only if it takes every
byte for what it is. -/
theorem decode_eq_iff (bytes : List Byte) :
    decode bytes = transduce HandlerFlags.step .init bytes
      ↔ ∀ before key, before ++ [key] <+: bytes → Legible before key := by
  unfold decode
  rw [transduce_eq_iff (fun before key => (step_countP (decoder_imp_handler before)).1)
    fun before key => (step_countP (decoder_imp_handler before)).2]
  exact forall_congr' fun before => forall_congr' fun key =>
    imp_congr_right fun _ => writes_eq_iff before key

/-- Along every run in which the ring has room, the characters are those of
the protocol if and only if every byte of the stream is legible. -/
theorem keyboardRun_decodes {s0 : Irq} {labels : List (KeyboardEvent × KeyboardReply)}
    {s : Keyboard} (hrun : Run KeyboardStep (keyboardInit s0) labels s) :
    keysRead labels ++ s.irq.keyboard.contents = decode (scancodesOf labels)
      ↔ ∀ before key, before ++ [key] <+: scancodesOf labels → Legible before key := by
  rw [(keyboardRun_inv hrun).keys, ← decode_eq_iff]
  exact eq_comm

/-- `KeyboardStep` as a function. -/
def keyboardExec (s : Keyboard) (e : KeyboardEvent) : Option (KeyboardReply × Keyboard) :=
  match e with
  | .scancode _ => if s.irq.keyboard.Full then none else some (e.exec s)
  | .tryReadChar _ => some (e.exec s)

theorem keyboardExec_step ⦃s : Keyboard⦄ ⦃e : KeyboardEvent⦄ ⦃r : KeyboardReply⦄ ⦃s' : Keyboard⦄
    (h : keyboardExec s e = some (r, s')) : KeyboardStep s (e, r) s' := by
  cases e with
  | scancode byte =>
      unfold keyboardExec at h
      dsimp only at h
      split at h
      · cases h
      · next hroom => exact ⟨fun _ => hroom, Option.some.inj h⟩
  | tryReadChar outChar =>
      exact ⟨fun ⟨_, heq⟩ => (nomatch heq), Option.some.inj h⟩

/-- Shift and `a`, then an arrow key without the codes of a shift key. -/
theorem keyboardRun_decodes_arrow :
    ∃ s0 s labels, Run KeyboardStep (keyboardInit s0) labels s
      ∧ scancodesOf labels = [0x2A, 0x1E, 0x9E, 0xAA, 0xE0, 0x48, 0xE0, 0xC8]
      ∧ keysRead labels = [65] ∧ s.irq.keyboard.contents = [keyArrowUp]
      ∧ ∀ before key, before ++ [key] <+: scancodesOf labels → Legible before key := by
  let s0 : Irq :=
    { signals := { signalHandlers := fun _ => none, pending := ⟨fun _ => ⟨0, 0, 0⟩, 5, 9⟩ }
      keyboard := ⟨fun _ => 0, 3, 1⟩ }
  obtain ⟨s, hrun, hqueued⟩ := execRun_observe keyboardExec_step (keyboardInit s0)
    [.scancode 0x2A, .scancode 0x1E, .tryReadChar true, .scancode 0x9E, .scancode 0xAA,
      .scancode 0xE0, .scancode 0x48, .scancode 0xE0, .scancode 0xC8]
    [none, none, some 65, none, none, none, none, none, none]
    (fun s => s.irq.keyboard.contents = [keyArrowUp]) (by decide +kernel)
  refine ⟨s0, s, _, hrun, by decide, by decide, hqueued, (keyboardRun_decodes hrun).mp ?_⟩
  rw [hqueued]
  decide

/-- An arrow key with the codes of a shift key around it, as controllers send
them, and then `a`. The prefix of the last of these codes is still pending
when `a` comes. -/
theorem keyboardRun_lost :
    ∃ s0 s labels, Run KeyboardStep (keyboardInit s0) labels s
      ∧ scancodesOf labels
        = [0xE0, 0x2A, 0xE0, 0x48, 0xE0, 0xC8, 0xE0, 0xAA, 0x1E, 0x9E]
      ∧ keysRead labels ++ s.irq.keyboard.contents = [keyArrowUp]
      ∧ decode (scancodesOf labels) = [keyArrowUp, 97] := by
  let s0 : Irq :=
    { signals := { signalHandlers := fun _ => none, pending := ⟨fun _ => ⟨0, 0, 0⟩, 0, 0⟩ }
      keyboard := ⟨fun _ => 0, 0, 0⟩ }
  obtain ⟨s, hrun, hqueued⟩ := execRun_observe keyboardExec_step (keyboardInit s0)
    [.scancode 0xE0, .scancode 0x2A, .scancode 0xE0, .scancode 0x48, .scancode 0xE0,
      .scancode 0xC8, .scancode 0xE0, .scancode 0xAA, .scancode 0x1E, .scancode 0x9E]
    [none, none, none, none, none, none, none, none, none, none]
    (fun s => s.irq.keyboard.contents = [keyArrowUp]) (by decide +kernel)
  exact ⟨s0, s, _, hrun, by decide, hqueued, by decide⟩

end Kfs
