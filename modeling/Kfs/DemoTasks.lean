import Kfs.DemoThreads

/-!
# What a demo has done so far

`CounterWork`, `ReceiverWork` and `SenderWork` tie the thread of a process to
its record and to the words in its memory. `busy` says that the process has
the processor: then the switch to it is counted already and what it does with
it is still to come.
-/

namespace Kfs

/-- The thread of a counter after `n` rounds. -/
inductive CounterAt (r : Process) : Nat → Thread → Prop where
  | bootstrap : CounterAt r 0 .bootstrap
  | counting {n : Nat} (pos : 0 < n) (within : r.runtimeArg0 + n ≤ r.runtimeArg1) :
      CounterAt r n (.counting (r.runtimeArg0 + n) n r.runtimeArg1)
  | spinning (exitCode : r.exitCode = toInt32 (max r.runtimeArg0 r.runtimeArg1)) :
      CounterAt r (r.runtimeArg1 - r.runtimeArg0) .spinning

/-- Both copies of the two numbers. -/
structure CounterShows (k : Kernel) (q : Slot) (n : Nat) : Prop where
  value : (k.processTable q).runtimeValue = (k.processTable q).runtimeArg0 + n
  state : (k.processTable q).runtimeState = n
  data : k.ownWord q 0 = (k.processTable q).runtimeArg0 + n
  bss : k.ownWord q 1 = n

structure CounterWork (k : Kernel) (q : Slot) (busy : Bool) (thread : Thread) (n : Nat) :
    Prop where
  entry : (k.processTable q).entry = some .demoCounterProcess
  arg0 : (k.processTable q).runtimeArg0 < 4294967296
  arg1 : (k.processTable q).runtimeArg1 < 4294967296
  place : CounterAt (k.processTable q) n thread
  shows : 0 < n → CounterShows k q n
  runCount : (k.processTable q).runCount = if busy ∨ thread = .spinning then add32 n 1 else n

structure ReceiverWork (k : Kernel) (q : Slot) (thread : Thread) : Prop where
  entry : (k.processTable q).entry = some .demoSocketReceiverProcess
  place : thread = .bootstrap ∨ thread = .receiving ∨ thread = .spinning
  exitCode : thread = .spinning → (k.processTable q).exitCode
    = toInt32 ((k.processTable q).lastSocketValue &&& 0xFFFF)
  data : thread = .spinning → k.ownWord q 0 = (k.processTable q).lastSocketValue

structure SenderWork (k : Kernel) (q : Slot) (thread : Thread) : Prop where
  entry : (k.processTable q).entry = some .demoSocketSenderProcess
  arg1 : (k.processTable q).runtimeArg1 < 4294967296
  place : thread = .bootstrap ∨ thread = .sending ∨ thread = .spinning
  exitCode : thread = .spinning → (k.processTable q).exitCode = 0
  state : thread = .spinning → (k.processTable q).runtimeState = 1

inductive Work (k : Kernel) (q : Slot) (busy : Bool) (thread : Thread) : Prop where
  | counter {n : Nat} (work : CounterWork k q busy thread n)
  | receiver (work : ReceiverWork k q thread)
  | sender (work : SenderWork k q thread)

/-- A process is a zombie because it came to its end or by a fatal signal. -/
structure Task (k : Kernel) (q : Slot) (busy : Bool) (thread : Thread) : Prop where
  work : Work k q busy thread
  ended : (k.processTable q).status = .zombie →
    thread = .spinning ∨ FatalCode (k.processTable q).exitCode
  spins : thread = .spinning → (k.processTable q).status = .zombie
  alive : busy = true → (k.processTable q).status ≠ .zombie
  awake : (k.processTable q).status ≠ .waiting

section Tasks

variable {k k' : Kernel} {q : Slot} {busy : Bool} {thread : Thread}

/-! ## While other code runs -/

theorem CounterAt.congr {r r' : Process} {n : Nat} (h : CounterAt r n thread)
    (harg0 : r'.runtimeArg0 = r.runtimeArg0) (harg1 : r'.runtimeArg1 = r.runtimeArg1)
    (hexit : thread = .spinning → r'.exitCode = r.exitCode) : CounterAt r' n thread := by
  cases h with
  | bootstrap => exact .bootstrap
  | counting pos within =>
      rw [← harg0, ← harg1] at within ⊢
      exact .counting pos within
  | spinning hcode =>
      rw [← harg0, ← harg1] at hcode ⊢
      exact .spinning ((hexit rfl).trans hcode)

theorem CounterAt.bound {r : Process} {n : Nat} (h : CounterAt r n thread) :
    n ≤ r.runtimeArg1 - r.runtimeArg0 := by
  cases h <;> omega

theorem CounterAt.end_spinning {r : Process} {n : Nat} (h : CounterAt r n thread)
    (hspin : thread = .spinning) :
    r.exitCode = toInt32 (max r.runtimeArg0 r.runtimeArg1)
      ∧ n = r.runtimeArg1 - r.runtimeArg0 := by
  cases h with
  | spinning hexit => exact ⟨hexit, rfl⟩
  | _ => cases hspin

/-- The fields and words that the work of a process shows in. -/
structure SameWork (k k' : Kernel) (q : Slot) (thread : Thread) : Prop where
  entry : (k'.processTable q).entry = (k.processTable q).entry
  lastSocketValue : (k'.processTable q).lastSocketValue = (k.processTable q).lastSocketValue
  state : (k'.processTable q).runtimeState = (k.processTable q).runtimeState
  value : (k'.processTable q).runtimeValue = (k.processTable q).runtimeValue
  arg0 : (k'.processTable q).runtimeArg0 = (k.processTable q).runtimeArg0
  arg1 : (k'.processTable q).runtimeArg1 = (k.processTable q).runtimeArg1
  words : ∀ j, k'.ownWord q j = k.ownWord q j
  exitCode : thread = .spinning → (k'.processTable q).exitCode = (k.processTable q).exitCode

theorem Work.same {busy' : Bool} (h : Work k q busy thread) (hsame : SameWork k k' q thread)
    (hrun : ∀ n, (k.processTable q).runCount
        = (if busy ∨ thread = .spinning then add32 n 1 else n) →
      (k'.processTable q).runCount
        = if busy' ∨ thread = .spinning then add32 n 1 else n) : Work k' q busy' thread := by
  cases h with
  | @counter n work =>
      refine .counter (n := n) ⟨hsame.entry.trans work.entry, hsame.arg0 ▸ work.arg0,
        hsame.arg1 ▸ work.arg1, work.place.congr hsame.arg0 hsame.arg1 hsame.exitCode,
        fun hpos => ?_, hrun n work.runCount⟩
      obtain ⟨hvalue, hstate, hdata, hbss⟩ := work.shows hpos
      exact ⟨by rw [hsame.value, hsame.arg0, hvalue], hsame.state.trans hstate,
        by rw [hsame.words, hsame.arg0, hdata], (hsame.words 1).trans hbss⟩
  | receiver work =>
      refine .receiver ⟨hsame.entry.trans work.entry, work.place, fun hspin => ?_, fun hspin => ?_⟩
      · rw [hsame.exitCode hspin, hsame.lastSocketValue]
        exact work.exitCode hspin
      · rw [hsame.words, hsame.lastSocketValue]
        exact work.data hspin
  | sender work =>
      exact .sender ⟨hsame.entry.trans work.entry, hsame.arg1 ▸ work.arg1, work.place,
        fun hspin => (hsame.exitCode hspin).trans (work.exitCode hspin),
        fun hspin => hsame.state.trans (work.state hspin)⟩

theorem Undisturbed.sameWork (h : Undisturbed k k' q) (hspaced : Spaced k) (hlive : k.Live q)
    (hspins : thread = .spinning → (k.processTable q).status = .zombie) :
    SameWork k k' q thread := by
  have hfield {α : Type} (g : Process → α) (hg : ∀ r : Process, g r.program = g r) :=
    program_field h.program g hg
  exact ⟨hfield Process.entry fun _ => rfl, hfield Process.lastSocketValue fun _ => rfl,
    hfield Process.runtimeState fun _ => rfl, hfield Process.runtimeValue fun _ => rfl,
    hfield Process.runtimeArg0 fun _ => rfl, hfield Process.runtimeArg1 fun _ => rfl,
    h.ownWord hspaced hlive, fun hspin => (h.lives.ended (hspins hspin)).2⟩

theorem Task.kept (h : Task k q busy thread) (hkept : Undisturbed k k' q) (hspaced : Spaced k)
    (hlive : k.Live q) (halive : busy = true → (k'.processTable q).status ≠ .zombie) :
    Task k' q busy thread := by
  have hrun : (k'.processTable q).runCount = (k.processTable q).runCount :=
    program_field hkept.program Process.runCount fun _ => rfl
  refine ⟨h.work.same (hkept.sameWork hspaced hlive h.spins) fun n hn => hrun.trans hn,
    fun hz => ?_, fun hspin => (hkept.lives.ended (h.spins hspin)).1, halive,
    fun hwaits => h.awake (hkept.lives.awake hwaits)⟩
  rcases hkept.lives.killed hz with hzombie | hfatal
  · rw [(hkept.lives.ended hzombie).2]
    exact h.ended hzombie
  · exact Or.inr hfatal

/-- The switch to the process. -/
theorem Task.dispatched (h : Task k q false thread) (hsame : SameWork k k' q thread)
    (hrun : (k'.processTable q).runCount = add32 (k.processTable q).runCount 1)
    (halive : (k.processTable q).status ≠ .zombie) (hstatus : (k'.processTable q).status = .run) :
    Task k' q true thread := by
  have hnot : thread ≠ .spinning := fun hspin => halive (h.spins hspin)
  have hlive : (k'.processTable q).status ≠ .zombie := by
    rw [hstatus]
    exact fun heq => by cases heq
  refine ⟨h.work.same hsame fun n hn => ?_, fun hz => absurd hz hlive,
    fun hspin => absurd hspin hnot, fun _ => hlive, fun hwaits => ?_⟩
  · rw [if_neg (by simp [hnot])] at hn
    rw [if_pos (by simp), hrun, hn]
  · rw [hstatus] at hwaits
    cases hwaits

/-! ## A new process -/

theorem Task.started {e : Event} {r : Reply} (hshell : e.byShell)
    (hunstarted : Unstarted (k'.processTable q)) (hstarts : Starts k k' q (e, r))
    (hsource : ∀ s, k.Live s → ∃ busy thread, Task k s busy thread) :
    Task k' q false .bootstrap := by
  have hready : (k'.processTable q).status ≠ .zombie := by
    rw [hunstarted.status]
    exact fun heq => by cases heq
  refine ⟨?_, fun hz => absurd hz hready, fun hspin => (by cases hspin), fun _ => hready,
    fun hwaits => (by rw [hunstarted.status] at hwaits; cases hwaits)⟩
  have hcounter : (k'.processTable q).entry = some .demoCounterProcess →
      (k'.processTable q).runtimeArg0 < 4294967296 → (k'.processTable q).runtimeArg1 < 4294967296 →
      Work k' q false .bootstrap := fun hentry h0 h1 =>
    .counter (n := 0) ⟨hentry, h0, h1, .bootstrap, fun hpos => absurd hpos (by omega),
      by simp [hunstarted.runCount]⟩
  have hreceiver : (k'.processTable q).entry = some .demoSocketReceiverProcess →
      Work k' q false .bootstrap := fun hentry =>
    .receiver ⟨hentry, Or.inl rfl, fun hspin => (by cases hspin), fun hspin => (by cases hspin)⟩
  have hsender : (k'.processTable q).entry = some .demoSocketSenderProcess →
      (k'.processTable q).runtimeArg1 < 4294967296 → Work k' q false .bootstrap := fun hentry h1 =>
    .sender ⟨hentry, h1, Or.inl rfl, fun hspin => (by cases hspin), fun hspin => (by cases hspin)⟩
  cases hstarts with
  | counter entry arg0 arg1 => exact hcounter entry (arg0 ▸ hshell.1) (arg1 ▸ hshell.2)
  | receiver entry => exact hreceiver entry
  | sender entry arg0 arg1 =>
      refine hsender entry ?_
      rw [arg1]
      exact hshell
  | @fork source live entry arg0 arg1 =>
      obtain ⟨busy, thread, htask⟩ := hsource source live
      cases htask.work with
      | counter work =>
          exact hcounter (entry.trans work.entry) (arg0 ▸ work.arg0) (arg1 ▸ work.arg1)
      | receiver work => exact hreceiver (entry.trans work.entry)
      | sender work => exact hsender (entry.trans work.entry) (arg1 ▸ work.arg1)

/-! ## The process itself -/

/-- Values get into sockets by senders only, and only into the socket they
are for. -/
def SocketFlow (k k' : Kernel) (p : Slot) : Prop :=
  ∀ t, ∀ v ∈ (k'.processTable t).processSocket.contents,
    v ∈ (k.processTable t).processSocket.contents
      ∨ ((k.processTable p).entry = some .demoSocketSenderProcess
        ∧ (k.processTable t).pid = (k.processTable p).runtimeArg0
        ∧ v = (k.processTable p).runtimeArg1)

theorem SocketFlow.same {p : Slot} (h : SameSockets k k') : SocketFlow k k' p := fun t _ hv =>
  Or.inl (h t ▸ hv)

/-- Nobody takes values from the socket of `t`. -/
def Held (k k' : Kernel) (t : Slot) : Prop :=
  (k.processTable t).processSocket.contents <+: (k'.processTable t).processSocket.contents

theorem Held.same {t : Slot}
    (h : (k'.processTable t).processSocket = (k.processTable t).processSocket) : Held k k' t := by
  unfold Held
  rw [h]

theorem SendsTo.held {p t : Slot}
    (h : (k'.processTable t).processSocket = (k.processTable t).processSocket
      ∨ SendsTo k k' p t) : Held k k' t := by
  rcases h with hsame | ⟨-, -, hroom, hput⟩
  · exact .same hsame
  · unfold Held
    rw [hput, Ring.contents_put hroom]
    exact List.prefix_append _ _

/-- What the code of a process does not assign to. -/
structure SameJob (r r' : Process) : Prop where
  pid : r'.pid = r.pid
  entry : r'.entry = r.entry
  arg0 : r'.runtimeArg0 = r.runtimeArg0
  arg1 : r'.runtimeArg1 = r.runtimeArg1

theorem SameJob.refl (r : Process) : SameJob r r := ⟨rfl, rfl, rfl, rfl⟩

theorem SameJob.trans {r r' r'' : Process} (h : SameJob r r') (h' : SameJob r' r'') :
    SameJob r r'' :=
  ⟨h'.pid.trans h.pid, h'.entry.trans h.entry, h'.arg0.trans h.arg0, h'.arg1.trans h.arg1⟩

theorem SameJob.program {r r' s : Process} (h : r'.program = s.program) (hs : SameJob r s) :
    SameJob r r' := by
  have hfield {α : Type} (g : Process → α) (hg : ∀ r : Process, g r.program = g r) :=
    program_field h g hg
  exact hs.trans ⟨hfield Process.pid fun _ => rfl, hfield Process.entry fun _ => rfl,
    hfield Process.runtimeArg0 fun _ => rfl, hfield Process.runtimeArg1 fun _ => rfl⟩

theorem Undisturbed.sameJob (h : Undisturbed k k' q) :
    SameJob (k.processTable q) (k'.processTable q) := .program h.program (.refl _)

/-- The code of process `p` up to its next `process_yield`. -/
structure Turn (k k' : Kernel) (p : Slot) (thread : Thread) : Prop where
  ran : Ran k k' p
  task : Task k' p false thread
  flow : SocketFlow k k' p
  held : ∀ t, t ≠ p → Held k k' t
  job : SameJob (k.processTable p) (k'.processTable p)

theorem CounterRound.shows {counter iterations : Nat} {p : Slot}
    (h : CounterRound k k' p counter iterations)
    (hcounter : counter = (k.processTable p).runtimeArg0 + iterations) :
    CounterShows k' p iterations := by
  have hrecord := h.record
  exact ⟨by rw [hrecord]; exact hcounter, by rw [hrecord], by rw [h.data, hrecord]; exact hcounter,
    h.bss⟩

/-- A counter after `n` rounds makes one more or ends. -/
theorem CounterWork.outcome {p : Slot} {n : Nat} (h : CounterWork k p true thread n)
    (htask : Task k p true thread) (hrunning : Running k p) :
    ((k.processTable p).runtimeArg0 + n < (k.processTable p).runtimeArg1 ∧ ∃ k',
        runThread k p thread = .ok (k', .counting ((k.processTable p).runtimeArg0 + (n + 1)) (n + 1)
          (k.processTable p).runtimeArg1)
        ∧ CounterRound k k' p ((k.processTable p).runtimeArg0 + (n + 1)) (n + 1))
      ∨ (n = (k.processTable p).runtimeArg1 - (k.processTable p).runtimeArg0 ∧ ∃ k',
        runThread k p thread = .ok (k', .spinning) ∧ Ran k k' p
        ∧ Exited k k' p (toInt32 ((k.processTable p).runtimeArg0 + n)) ∧ SameSockets k k') := by
  have hplace := h.place
  have hcode : runThread k p thread = demoCounterLoop k p ((k.processTable p).runtimeArg0 + n) n
      (k.processTable p).runtimeArg1 := by
    generalize hr : k.processTable p = r at hplace
    cases hplace with
    | bootstrap =>
        show processBootstrap k = _
        unfold processBootstrap
        rw [hrunning.context.current]
        dsimp only
        rw [if_neg hrunning.notKernel, h.entry, hr]
        rfl
    | counting pos within => rfl
    | spinning _ => exact absurd (htask.spins rfl) (htask.alive rfl)
  have hbound := hplace.bound
  rw [hcode]
  by_cases hlt : (k.processTable p).runtimeArg0 + n < (k.processTable p).runtimeArg1
  · obtain ⟨k', heq, hround⟩ := demoCounterLoop_round hrunning n hlt h.arg1
    have harg1 := h.arg1
    have hadd : add32 n 1 = n + 1 := add32_of_lt (by omega)
    rw [hadd] at heq hround
    exact Or.inl ⟨hlt, k', heq, hround⟩
  · exact Or.inr ⟨by omega, demoCounterLoop_exit hrunning (htask.alive rfl) n
      (Nat.le_of_not_lt hlt)⟩

theorem CounterWork.run {p : Slot} {n : Nat} (h : CounterWork k p true thread n)
    (htask : Task k p true thread) (hrunning : Running k p) :
    ∃ k' thread', runThread k p thread = .ok (k', thread') ∧ Turn k k' p thread' := by
  have halive := htask.alive rfl
  have harg1 := h.arg1
  have hcount : (k.processTable p).runCount = add32 n 1 := h.runCount.trans (if_pos (Or.inl rfl))
  rcases h.outcome htask hrunning with
    ⟨hlt, k', heq, hround⟩ | ⟨hn, k', heq, hran, hexited, hsockets⟩
  · have hrecord := hround.record
    refine ⟨k', _, heq, hround.ran, ⟨.counter (n := n + 1) ⟨?_, ?_, ?_, ?_, fun _ => ?_, ?_⟩,
      fun hz => absurd hz ?_, fun hspin => (by cases hspin), fun hbusy => (by cases hbusy), ?_⟩,
      .same hround.sockets, fun t _ => .same (hround.sockets t),
      by rw [hrecord]; exact ⟨rfl, rfl, rfl, rfl⟩⟩
    · rw [hrecord]
      exact h.entry
    · rw [hrecord]
      exact h.arg0
    · rw [hrecord]
      exact harg1
    · have hplace : CounterAt (k'.processTable p) (n + 1) (.counting
          ((k'.processTable p).runtimeArg0 + (n + 1)) (n + 1) (k'.processTable p).runtimeArg1) :=
        .counting (by omega) (by rw [hrecord]; exact hlt)
      rw [hrecord] at hplace ⊢
      exact hplace
    · exact hround.shows rfl
    · rw [if_neg (by simp), hrecord]
      exact hcount.trans (add32_of_lt (by omega))
    · rw [hrecord]
      exact halive
    · rw [hrecord]
      exact htask.awake
  · have hfield {α : Type} (g : Process → α) (hg : ∀ r : Process, g r.program = g r) :=
      program_field hexited.program g hg
    have harg0' := hfield Process.runtimeArg0 fun _ => rfl
    have harg1' := hfield Process.runtimeArg1 fun _ => rfl
    refine ⟨k', _, heq, hran, ⟨.counter (n := n) ⟨(hfield Process.entry fun _ => rfl).trans h.entry,
      harg0' ▸ h.arg0, harg1' ▸ harg1, ?_, fun hpos => ?_, ?_⟩, fun _ => Or.inl rfl,
      fun _ => hexited.status, fun hbusy => (by cases hbusy), ?_⟩, .same hsockets,
      fun t _ => .same (hsockets t), .program hexited.program (.refl _)⟩
    · have hplace : CounterAt (k'.processTable p) ((k'.processTable p).runtimeArg1
          - (k'.processTable p).runtimeArg0) .spinning := by
        refine .spinning ?_
        rw [hexited.exitCode, harg0', harg1']
        exact congrArg toInt32 (by omega)
      rwa [harg0', harg1', ← hn] at hplace
    · obtain ⟨hvalue, hstate, hdata, hbss⟩ := h.shows hpos
      exact ⟨by rw [harg0', hfield Process.runtimeValue fun _ => rfl, hvalue],
        (hfield Process.runtimeState fun _ => rfl).trans hstate,
        by rw [hexited.ownWord, harg0', hdata], (hexited.ownWord 1).trans hbss⟩
    · rw [if_pos (Or.inr rfl), hfield Process.runCount fun _ => rfl]
      exact hcount
    · rw [hexited.status]
      exact fun heq => by cases heq

/-- The receiver waits for a value or takes one. -/
theorem ReceiverWork.outcome {p : Slot} (h : ReceiverWork k p thread) (htask : Task k p true thread)
    (hrunning : Running k p)
    (hsmall : ∀ v ∈ (k.processTable p).processSocket.contents, v < 4294967296) :
    ((k.processTable p).processSocket.Empty ∧ runThread k p thread = .ok (k, .receiving))
      ∨ ∃ k', runThread k p thread = .ok (k', .spinning)
        ∧ Received k k' p (k.processTable p).processSocket.front := by
  have halive := htask.alive rfl
  have hcode : runThread k p thread = demoSocketReceiverLoop k p := by
    rcases h.place with rfl | rfl | rfl
    · show processBootstrap k = _
      unfold processBootstrap
      rw [hrunning.context.current]
      dsimp only
      rw [if_neg hrunning.notKernel, h.entry]
    · rfl
    · exact absurd (htask.spins rfl) halive
  rw [hcode]
  by_cases hempty : (k.processTable p).processSocket.Empty
  · exact Or.inl ⟨hempty, demoSocketReceiverLoop_waits hempty⟩
  · have hfront : (k.processTable p).processSocket.front
        ∈ (k.processTable p).processSocket.contents := by
      rw [Ring.contents_drop hempty]
      exact List.mem_cons_self
    exact Or.inr (demoSocketReceiverLoop_receives hrunning halive hempty rfl (hsmall _ hfront))

theorem Received.field {p : Slot} {value : Nat} (h : Received k k' p value) {α : Type}
    (g : Process → α) (hg : ∀ r : Process, g r.program = g r) :
    g (k'.processTable p) = g { (k.processTable p).program with lastSocketValue := value } := by
  rw [← hg, h.program]

theorem ReceiverWork.run {p : Slot} (h : ReceiverWork k p thread) (htask : Task k p true thread)
    (hrunning : Running k p)
    (hsmall : ∀ v ∈ (k.processTable p).processSocket.contents, v < 4294967296) :
    ∃ k' thread', runThread k p thread = .ok (k', thread') ∧ Turn k k' p thread' := by
  have halive := htask.alive rfl
  rcases h.outcome htask hrunning hsmall with ⟨hempty, heq⟩ | ⟨k', heq, hreceived⟩
  · exact ⟨k, _, heq, hrunning.refl, ⟨.receiver ⟨h.entry,
      Or.inr (Or.inl rfl), fun hspin => (by cases hspin), fun hspin => (by cases hspin)⟩,
      fun hz => absurd hz halive, fun hspin => (by cases hspin), fun hbusy => (by cases hbusy),
      htask.awake⟩, .same (SameSockets.refl k), fun _ _ => .same rfl, .refl _⟩
  · have hlast : (k'.processTable p).lastSocketValue = (k.processTable p).processSocket.front :=
      hreceived.field Process.lastSocketValue fun _ => rfl
    refine ⟨k', _, heq, hreceived.ran, ⟨.receiver
      ⟨(hreceived.field Process.entry fun _ => rfl).trans h.entry,
      Or.inr (Or.inr rfl), fun _ => ?_, fun _ => ?_⟩, fun _ => Or.inl rfl,
      fun _ => hreceived.status, fun hbusy => (by cases hbusy),
      fun hwaits => (by rw [hreceived.status] at hwaits; cases hwaits)⟩, fun t v hv => Or.inl ?_,
      fun t ht => .same (hreceived.sockets t ht),
      ⟨hreceived.field Process.pid fun _ => rfl, hreceived.field Process.entry fun _ => rfl,
        hreceived.field Process.runtimeArg0 fun _ => rfl,
        hreceived.field Process.runtimeArg1 fun _ => rfl⟩⟩
    · rw [hlast]
      exact hreceived.exitCode
    · rw [hlast]
      exact hreceived.data
    · by_cases ht : t = p
      · subst ht
        rw [hreceived.socket] at hv
        rw [Ring.contents_drop hreceived.pending]
        exact List.mem_cons_of_mem _ hv
      · rwa [hreceived.sockets t ht] at hv

theorem SendsTo.flow {p t : Slot}
    (hentry : (k.processTable p).entry = some .demoSocketSenderProcess)
    (h : (k'.processTable t).processSocket = (k.processTable t).processSocket
      ∨ SendsTo k k' p t) {v : Nat} (hv : v ∈ (k'.processTable t).processSocket.contents) :
    v ∈ (k.processTable t).processSocket.contents
      ∨ ((k.processTable p).entry = some .demoSocketSenderProcess
        ∧ (k.processTable t).pid = (k.processTable p).runtimeArg0
        ∧ v = (k.processTable p).runtimeArg1) := by
  rcases h with hsame | ⟨-, hpid, hroom, hput⟩
  · exact Or.inl (hsame ▸ hv)
  · rw [hput, Ring.contents_put hroom, List.mem_append, List.mem_singleton] at hv
    exact hv.imp_right fun hv => ⟨hentry, hpid, hv⟩

/-- The sender tries again or delivers its value. -/
theorem SenderWork.outcome {p : Slot} (h : SenderWork k p thread) (htask : Task k p true thread)
    (hrunning : Running k p) :
    ∃ k', (runThread k p thread = .ok (k', .sending) ∧ SendRound k k' p)
      ∨ (runThread k p thread = .ok (k', .spinning) ∧ Sent k k' p) := by
  have halive := htask.alive rfl
  have hcode : runThread k p thread = demoSocketSenderLoop k p := by
    rcases h.place with rfl | rfl | rfl
    · show processBootstrap k = _
      unfold processBootstrap
      rw [hrunning.context.current]
      dsimp only
      rw [if_neg hrunning.notKernel, h.entry]
    · rfl
    · exact absurd (htask.spins rfl) halive
  rw [hcode]
  exact demoSocketSenderLoop_ran hrunning halive

theorem SenderWork.run {p : Slot} (h : SenderWork k p thread) (htask : Task k p true thread)
    (hrunning : Running k p) :
    ∃ k' thread', runThread k p thread = .ok (k', thread') ∧ Turn k k' p thread' := by
  have halive := htask.alive rfl
  obtain ⟨k', ⟨heq, hround⟩ | ⟨heq, hsent⟩⟩ := h.outcome htask hrunning
  · have hfield {α : Type} (g : Process → α) (hg : ∀ r : Process, g r.program = g r) :=
      program_field hround.kept.program g hg
    have hlive : (k'.processTable p).status ≠ .zombie := hround.status ▸ halive
    exact ⟨k', _, heq, hround.ran, ⟨.sender ⟨(hfield Process.entry fun _ => rfl).trans h.entry,
      (hfield Process.runtimeArg1 fun _ => rfl) ▸ h.arg1, Or.inr (Or.inl rfl),
      fun hspin => (by cases hspin), fun hspin => (by cases hspin)⟩,
      fun hz => absurd hz hlive, fun hspin => (by cases hspin), fun hbusy => (by cases hbusy),
      hround.status ▸ htask.awake⟩, fun t v hv => SendsTo.flow h.entry (hround.sockets t) hv,
      fun t _ => SendsTo.held (hround.sockets t), hround.kept.sameJob⟩
  · have hfield {α : Type} (g : Process → α) (hg : ∀ r : Process, g r.program = g r) :
        g (k'.processTable p) = g { (k.processTable p).program with runtimeState := 1 } := by
      rw [← hg, hsent.program]
    exact ⟨k', _, heq, hsent.ran, ⟨.sender ⟨(hfield Process.entry fun _ => rfl).trans h.entry,
      (hfield Process.runtimeArg1 fun _ => rfl) ▸ h.arg1, Or.inr (Or.inr rfl),
      fun _ => hsent.exitCode, fun _ => hfield Process.runtimeState fun _ => rfl⟩,
      fun _ => Or.inl rfl, fun _ => hsent.status, fun hbusy => (by cases hbusy),
      fun hwaits => (by rw [hsent.status] at hwaits; cases hwaits)⟩,
      fun t v hv => SendsTo.flow h.entry (hsent.sockets t) hv,
      fun t _ => SendsTo.held (hsent.sockets t),
      ⟨hfield Process.pid fun _ => rfl, hfield Process.entry fun _ => rfl,
        hfield Process.runtimeArg0 fun _ => rfl, hfield Process.runtimeArg1 fun _ => rfl⟩⟩

/-- Whatever demo has the processor runs to its next `process_yield`. -/
theorem Task.turn {p : Slot} (h : Task k p true thread) (hrunning : Running k p)
    (hsmall : ∀ v ∈ (k.processTable p).processSocket.contents, v < 4294967296) :
    ∃ k' thread', runThread k p thread = .ok (k', thread') ∧ Turn k k' p thread' := by
  cases h.work with
  | counter work => exact work.run h hrunning
  | receiver work => exact work.run h hrunning hsmall
  | sender work => exact work.run h hrunning

end Tasks

end Kfs
