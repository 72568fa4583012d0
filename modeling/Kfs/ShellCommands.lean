import Kfs.LineInput
import Kfs.ShellNumbers

/-!
# The commands of the shell

The branches of `shell_run` in `kernel/src/shell.c` and what they read from
the line. A branch tests the line with `strcmp` for a command without
arguments, and with `strncmp` for the start of one with arguments; the
branches stand in `commandTable` in the order of the source, each with the
command it reads from what follows.

No line passes two tests (`commandTable_apart`), so the order of the
branches does not matter, and a command that is written as the shell writes
numbers is read back (`shellCommand_render`). What a command does is
elsewhere.
-/

namespace Kfs

/-! ## Strings -/

/-- `strcmp`; behind the end of a list is the zero byte. -/
def strcmp : List Byte → List Byte → Int
  | [], s2 => -((s2.headD 0).toNat : Int)
  | c :: s1, s2 =>
      if c ≠ 0 ∧ c = s2.headD 0 then strcmp s1 s2.tail
      else (c.toNat : Int) - ((s2.headD 0).toNat : Int)

def strncmp : List Byte → List Byte → Nat → Int
  | _, _, 0 => 0
  | [], s2, _ + 1 => -((s2.headD 0).toNat : Int)
  | c :: s1, s2, n + 1 =>
      if c ≠ 0 ∧ c = s2.headD 0 then strncmp s1 s2.tail n
      else (c.toNat : Int) - ((s2.headD 0).toNat : Int)

def space : Byte := charByte ' '

def skipSpaces (str : List Byte) : List Byte := str.dropWhile (· = space)

/-- `while (*args && *args != ' ') args++;` -/
def skipWord (str : List Byte) : List Byte := str.dropWhile (· ≠ space)

/-! ## Commands -/

inductive ShellCommand where
  | help
  | echo (str : List Byte)
  | clear
  | ls
  | meminfo
  | alloc (size : Nat)
  | free
  | kheap
  | vmap
  | panic
  | hexdump (addr size : Nat)
  | peek (addr : Nat)
  | poke (addr value : Nat)
  | stack
  | pagedir
  | idt
  | signals
  | sigtest
  | syscall
  | procs
  | execdemo
  | sched (ticks : Nat)
  /-- `none` is `shell_last_demo_pid`. -/
  | forkdemo (pid : Option Nat)
  | waitproc (pid : Nat)
  | killproc (pid : Nat) (signal : Int)
  | sigproc (pid : Nat) (signal : Int) (value : Nat)
  | getuid (pid : Nat)
  | mmapproc (pid size : Nat)
  | sockdemo
  | pagetest
  | pageperm
  | pmmtest
  | vmtest
  | heaptest
  | div0
  | invop
  | segreg
  | int3
  | reboot
  | exit
  /-- The line lacks an argument, and the text with the usage is printed. -/
  | usage (str : List Byte)
  /-- `Command not found.` -/
  | notFound
  | empty
  deriving DecidableEq

/-- `PROCESS_SIGNAL_TERM`, with which `killproc` starts. -/
def killprocSignal : Int := 15

def readHexdump (args : List Byte) : ShellCommand :=
  let rest := skipWord args
  let size := if rest.head? = some space ∧ parseUint rest.tail > 0 then parseUint rest.tail else 64
  .hexdump (parseHex args) (if size > 512 then 512 else size)

def readPoke (args : List Byte) : ShellCommand :=
  let rest := skipWord args
  if rest.head? = some space then .poke (parseHex args) (parseHex rest.tail)
  else .usage (text ['p', 'o', 'k', 'e', ' ', 'A', 'D', 'D', 'R', ' ', 'V', 'A', 'L', 'U', 'E'])

def readForkdemo (args : List Byte) : ShellCommand :=
  let args := skipSpaces args
  .forkdemo (if args ≠ [] then some (parseUint args) else none)

def readKillproc (args : List Byte) : ShellCommand :=
  let rest := skipWord args
  .killproc (parseUint args)
    (if rest.head? = some space then toInt32 (parseUint (skipSpaces rest)) else killprocSignal)

def readSigproc (args : List Byte) : ShellCommand :=
  let rest := skipWord args
  if rest.head? = some space then
    let signal := skipSpaces rest
    let rest := skipWord signal
    .sigproc (parseUint args) (toInt32 (parseUint signal))
      (if rest.head? = some space then parseHex (skipSpaces rest) else 0)
  else
    .usage (text ['s', 'i', 'g', 'p', 'r', 'o', 'c', ' ', 'P', 'I', 'D', ' ', 'S', 'I', 'G', ' ',
      '[', 'V', 'A', 'L', ']'])

def readMmapproc (args : List Byte) : ShellCommand :=
  let rest := skipWord args
  if rest.head? = some space then .mmapproc (parseUint args) (parseUint (skipSpaces rest))
  else
    .usage (text ['m', 'm', 'a', 'p', 'p', 'r', 'o', 'c', ' ', 'P', 'I', 'D', ' ', 'S', 'I', 'Z',
      'E'])

/-- `alloc` and `sched` do nothing for zero. -/
def orUsage (command : Nat → ShellCommand) (usage : List Char) (args : List Byte) : ShellCommand :=
  if parseUint args = 0 then .usage (text usage) else command (parseUint args)

/-- A branch: `strcmp` where `exact` is true. -/
structure CommandBranch where
  keyword : List Byte
  exact : Bool
  read : List Byte → ShellCommand

def plain (keyword : List Char) (command : ShellCommand) : CommandBranch :=
  ⟨text keyword, true, fun _ => command⟩

def withArgs (keyword : List Char) (read : List Byte → ShellCommand) : CommandBranch :=
  ⟨text keyword, false, read⟩

def CommandBranch.accepts (b : CommandBranch) (buffer : List Byte) : Bool :=
  if b.exact then strcmp buffer b.keyword == 0
  else strncmp buffer b.keyword b.keyword.length == 0

def commandTable : List CommandBranch :=
  [plain ['h', 'e', 'l', 'p'] .help,
    withArgs ['e', 'c', 'h', 'o', ' '] .echo,
    plain ['c', 'l', 'e', 'a', 'r'] .clear,
    plain ['l', 's'] .ls,
    plain ['m', 'e', 'm', 'i', 'n', 'f', 'o'] .meminfo,
    withArgs ['a', 'l', 'l', 'o', 'c', ' ']
      (orUsage .alloc ['a', 'l', 'l', 'o', 'c', ' ', 'S', 'I', 'Z', 'E', ' ', '(', 'i', 'n', ' ',
        'b', 'y', 't', 'e', 's', ')']),
    plain ['f', 'r', 'e', 'e'] .free,
    plain ['k', 'h', 'e', 'a', 'p'] .kheap,
    plain ['v', 'm', 'a', 'p'] .vmap,
    plain ['p', 'a', 'n', 'i', 'c'] .panic,
    withArgs ['h', 'e', 'x', 'd', 'u', 'm', 'p', ' '] readHexdump,
    withArgs ['p', 'e', 'e', 'k', ' '] fun args => .peek (parseHex args),
    withArgs ['p', 'o', 'k', 'e', ' '] readPoke,
    plain ['s', 't', 'a', 'c', 'k'] .stack,
    plain ['p', 'a', 'g', 'e', 'd', 'i', 'r'] .pagedir,
    plain ['i', 'd', 't'] .idt,
    plain ['s', 'i', 'g', 'n', 'a', 'l', 's'] .signals,
    plain ['s', 'i', 'g', 't', 'e', 's', 't'] .sigtest,
    plain ['s', 'y', 's', 'c', 'a', 'l', 'l'] .syscall,
    plain ['p', 'r', 'o', 'c', 's'] .procs,
    plain ['e', 'x', 'e', 'c', 'd', 'e', 'm', 'o'] .execdemo,
    withArgs ['s', 'c', 'h', 'e', 'd', ' ']
      (orUsage .sched ['s', 'c', 'h', 'e', 'd', ' ', 'T', 'I', 'C', 'K', 'S']),
    withArgs ['f', 'o', 'r', 'k', 'd', 'e', 'm', 'o'] readForkdemo,
    withArgs ['w', 'a', 'i', 't', 'p', 'r', 'o', 'c', ' '] fun args => .waitproc (parseUint args),
    withArgs ['k', 'i', 'l', 'l', 'p', 'r', 'o', 'c', ' '] readKillproc,
    withArgs ['s', 'i', 'g', 'p', 'r', 'o', 'c', ' '] readSigproc,
    withArgs ['g', 'e', 't', 'u', 'i', 'd', ' '] fun args => .getuid (parseUint args),
    withArgs ['m', 'm', 'a', 'p', 'p', 'r', 'o', 'c', ' '] readMmapproc,
    plain ['s', 'o', 'c', 'k', 'd', 'e', 'm', 'o'] .sockdemo,
    plain ['p', 'a', 'g', 'e', 't', 'e', 's', 't'] .pagetest,
    plain ['p', 'a', 'g', 'e', 'p', 'e', 'r', 'm'] .pageperm,
    plain ['p', 'm', 'm', 't', 'e', 's', 't'] .pmmtest,
    plain ['v', 'm', 't', 'e', 's', 't'] .vmtest,
    plain ['h', 'e', 'a', 'p', 't', 'e', 's', 't'] .heaptest,
    plain ['d', 'i', 'v', '0'] .div0,
    plain ['i', 'n', 'v', 'o', 'p'] .invop,
    plain ['s', 'e', 'g', 'r', 'e', 'g'] .segreg,
    plain ['i', 'n', 't', '3'] .int3,
    plain ['r', 'e', 'b', 'o', 'o', 't'] .reboot,
    plain ['e', 'x', 'i', 't'] .exit]

/-- The first branch that accepts the line; the rest of it is its argument. -/
def readCommand (table : List CommandBranch) (buffer : List Byte) : ShellCommand :=
  match table.find? (·.accepts buffer) with
  | some b => b.read (buffer.drop b.keyword.length)
  | none => if buffer ≠ [] then .notFound else .empty

def shellCommand (buffer : List Byte) : ShellCommand := readCommand commandTable buffer

/-! ## The tests -/

/-- What a C function sees of the bytes. -/
def cString : List Byte → List Byte
  | [] => []
  | c :: str => if c = 0 then [] else c :: cString str

theorem toNat_sub_eq_zero (c d : Byte) : (c.toNat : Int) - (d.toNat : Int) = 0 ↔ c = d := by
  rw [sub_eq_zero, Int.natCast_inj, BitVec.toNat_eq]

theorem neg_toNat_eq_zero (c : Byte) : -(c.toNat : Int) = 0 ↔ c = 0 := by
  rw [neg_eq_zero, Int.natCast_eq_zero, BitVec.toNat_eq]
  rfl

theorem strcmp_eq_zero {s1 s2 : List Byte} (hs2 : 0 ∉ s2) : strcmp s1 s2 = 0 ↔ cString s1 = s2 := by
  induction s1 generalizing s2 with
  | nil =>
      rw [strcmp, neg_toNat_eq_zero]
      cases s2 with
      | nil => exact ⟨fun _ => rfl, fun _ => rfl⟩
      | cons k s2 =>
          have hk : k ≠ 0 := fun heq => hs2 (heq ▸ List.mem_cons_self)
          exact ⟨fun h => absurd h hk, fun h => by cases h⟩
  | cons c s1 ih =>
      rw [strcmp, cString]
      cases s2 with
      | nil =>
          rw [if_neg fun h => h.1 h.2, toNat_sub_eq_zero, List.headD_nil]
          constructor
          · rintro rfl
            rfl
          · intro h
            by_contra hc
            rw [if_neg hc] at h
            cases h
      | cons k s2 =>
          have hk : k ≠ 0 := fun heq => hs2 (heq ▸ List.mem_cons_self)
          rw [List.headD_cons, List.tail_cons]
          by_cases hc : c = k
          · rw [hc, if_pos ⟨hk, rfl⟩, if_neg hk, List.cons.injEq,
              ih fun hmem => hs2 (List.mem_cons_of_mem _ hmem)]
            exact (and_iff_right rfl).symm
          · rw [if_neg fun h => hc h.2, toNat_sub_eq_zero]
            refine ⟨fun h => absurd h hc, fun h => ?_⟩
            split at h
            · cases h
            · exact (List.cons.inj h).1

theorem strncmp_eq_zero {s1 s2 : List Byte} (hs2 : 0 ∉ s2) :
    strncmp s1 s2 s2.length = 0 ↔ s2 <+: cString s1 := by
  induction s2 generalizing s1 with
  | nil => exact ⟨fun _ => List.nil_prefix, fun _ => by cases s1 <;> rfl⟩
  | cons k s2 ih =>
      have hk : k ≠ 0 := fun heq => hs2 (heq ▸ List.mem_cons_self)
      cases s1 with
      | nil =>
          rw [List.length_cons, strncmp, neg_toNat_eq_zero]
          exact ⟨fun h => absurd h hk, fun h => by simp [cString] at h⟩
      | cons c s1 =>
          rw [List.length_cons, strncmp, cString, List.headD_cons, List.tail_cons]
          by_cases hc : c = k
          · rw [hc, if_pos ⟨hk, rfl⟩, if_neg hk, List.cons_prefix_cons,
              ih fun hmem => hs2 (List.mem_cons_of_mem _ hmem)]
            exact (and_iff_right rfl).symm
          · rw [if_neg fun h => hc h.2, toNat_sub_eq_zero]
            refine ⟨fun h => absurd h hc, fun h => ?_⟩
            split at h
            · cases List.eq_nil_of_prefix_nil h
            · exact (List.cons_prefix_cons.mp h).1.symm

/-- No line passes the tests of both. -/
def CommandBranch.apart (b b' : CommandBranch) : Bool :=
  match b.exact, b'.exact with
  | true, true => b.keyword != b'.keyword
  | true, false => !b'.keyword.isPrefixOf b.keyword
  | false, true => !b.keyword.isPrefixOf b'.keyword
  | false, false => !b.keyword.isPrefixOf b'.keyword && !b'.keyword.isPrefixOf b.keyword

theorem commandTable_apart : commandTable.Pairwise fun b b' => b.apart b' = true := by
  decide +kernel

theorem commandTable_nonzero : ∀ b ∈ commandTable, 0 ∉ b.keyword := by
  decide +kernel

section Table

variable {b b' : CommandBranch} {buffer : List Byte}

theorem CommandBranch.accepts_iff (hb : 0 ∉ b.keyword) : b.accepts buffer = true
    ↔ if b.exact then cString buffer = b.keyword else b.keyword <+: cString buffer := by
  unfold CommandBranch.accepts
  cases b.exact with
  | true => simpa using strcmp_eq_zero hb
  | false => simpa using strncmp_eq_zero hb

theorem CommandBranch.apart_accepts (hb : 0 ∉ b.keyword) (hb' : 0 ∉ b'.keyword)
    (hapart : b.apart b' = true) : ¬(b.accepts buffer = true ∧ b'.accepts buffer = true) := by
  rintro ⟨h, h'⟩
  rw [CommandBranch.accepts_iff hb] at h
  rw [CommandBranch.accepts_iff hb'] at h'
  have hnot : ∀ k k' : List Byte, (!k.isPrefixOf k') = true → ¬k <+: k' := fun k k' h hle => by
    rw [List.isPrefixOf_iff_prefix.mpr hle] at h
    cases h
  unfold CommandBranch.apart at hapart
  cases hexact : b.exact <;> cases hexact' : b'.exact <;>
    simp only [hexact, hexact', if_true, Bool.false_eq_true, if_false] at h h' hapart
  · obtain ⟨hno, hno'⟩ := Bool.and_eq_true_iff.mp hapart
    rcases List.prefix_or_prefix_of_prefix h h' with hle | hle
    · exact hnot _ _ hno hle
    · exact hnot _ _ hno' hle
  · exact hnot _ _ hapart (h' ▸ h)
  · exact hnot _ _ hapart (h ▸ h')
  · rw [h] at h'
    rw [h', bne_self_eq_false] at hapart
    cases hapart

/-- No line is for two branches. -/
theorem commandTable_accepts (buffer : List Byte) : commandTable.Pairwise fun b b' =>
    ¬(b.accepts buffer = true ∧ b'.accepts buffer = true) :=
  commandTable_apart.imp_of_mem fun hb hb' hapart =>
    CommandBranch.apart_accepts (commandTable_nonzero _ hb) (commandTable_nonzero _ hb') hapart

/-- The first branch that accepts the line is the only one. -/
theorem find_eq_some {table : List CommandBranch}
    (hpair : table.Pairwise fun b b' => ¬(b.accepts buffer = true ∧ b'.accepts buffer = true))
    (hmem : b ∈ table) (haccepts : b.accepts buffer = true) :
    table.find? (·.accepts buffer) = some b := by
  induction table with
  | nil => cases hmem
  | cons c table ih =>
      obtain ⟨hc, hpair⟩ := List.pairwise_cons.mp hpair
      rcases List.mem_cons.mp hmem with rfl | hmem
      · exact List.find?_cons_of_pos haccepts
      · have hnot : ¬c.accepts buffer = true := fun h => hc b hmem ⟨h, haccepts⟩
        exact (List.find?_cons_of_neg (p := (CommandBranch.accepts · buffer)) hnot).trans
          (ih hpair hmem)

theorem shellCommand_eq (hmem : b ∈ commandTable) (haccepts : b.accepts buffer = true) :
    shellCommand buffer = b.read (buffer.drop b.keyword.length) := by
  unfold shellCommand readCommand
  rw [find_eq_some (commandTable_accepts buffer) hmem haccepts]

/-- Another order of the branches reads the same commands. -/
theorem readCommand_perm {table : List CommandBranch} (hperm : table.Perm commandTable)
    (buffer : List Byte) : readCommand table buffer = shellCommand buffer := by
  have hpair : table.Pairwise fun b b' => ¬(b.accepts buffer = true ∧ b'.accepts buffer = true) :=
    hperm.symm.pairwise (commandTable_accepts buffer) fun h h' => h ⟨h'.2, h'.1⟩
  unfold readCommand shellCommand
  cases hfind : table.find? (·.accepts buffer) with
  | none =>
      have hnone : commandTable.find? (·.accepts buffer) = none :=
        List.find?_eq_none.mpr fun b hb => List.find?_eq_none.mp hfind b (hperm.mem_iff.mpr hb)
      rw [readCommand, hnone]
  | some b =>
      have hb := List.find?_some hfind
      rw [readCommand, find_eq_some (commandTable_accepts buffer)
        (hperm.mem_iff.mp (List.mem_of_find?_eq_some hfind)) hb]

end Table

/-! ## Lines that are written -/

/-- What `shell_print_dec` prints. -/
def decimal (num : Nat) : List Byte := (decDigits num).map digitByte

/-- The line for a command. -/
def ShellCommand.render : ShellCommand → List Byte
  | .help => text ['h', 'e', 'l', 'p']
  | .echo str => text ['e', 'c', 'h', 'o', ' '] ++ str
  | .clear => text ['c', 'l', 'e', 'a', 'r']
  | .ls => text ['l', 's']
  | .meminfo => text ['m', 'e', 'm', 'i', 'n', 'f', 'o']
  | .alloc size => text ['a', 'l', 'l', 'o', 'c', ' '] ++ decimal size
  | .free => text ['f', 'r', 'e', 'e']
  | .kheap => text ['k', 'h', 'e', 'a', 'p']
  | .vmap => text ['v', 'm', 'a', 'p']
  | .panic => text ['p', 'a', 'n', 'i', 'c']
  | .hexdump addr size =>
      text ['h', 'e', 'x', 'd', 'u', 'm', 'p', ' '] ++ (shellPrintHex addr ++ space :: decimal size)
  | .peek addr => text ['p', 'e', 'e', 'k', ' '] ++ shellPrintHex addr
  | .poke addr value =>
      text ['p', 'o', 'k', 'e', ' '] ++ (shellPrintHex addr ++ space :: shellPrintHex value)
  | .stack => text ['s', 't', 'a', 'c', 'k']
  | .pagedir => text ['p', 'a', 'g', 'e', 'd', 'i', 'r']
  | .idt => text ['i', 'd', 't']
  | .signals => text ['s', 'i', 'g', 'n', 'a', 'l', 's']
  | .sigtest => text ['s', 'i', 'g', 't', 'e', 's', 't']
  | .syscall => text ['s', 'y', 's', 'c', 'a', 'l', 'l']
  | .procs => text ['p', 'r', 'o', 'c', 's']
  | .execdemo => text ['e', 'x', 'e', 'c', 'd', 'e', 'm', 'o']
  | .sched ticks => text ['s', 'c', 'h', 'e', 'd', ' '] ++ decimal ticks
  | .forkdemo none => text ['f', 'o', 'r', 'k', 'd', 'e', 'm', 'o']
  | .forkdemo (some pid) => text ['f', 'o', 'r', 'k', 'd', 'e', 'm', 'o'] ++ space :: decimal pid
  | .waitproc pid => text ['w', 'a', 'i', 't', 'p', 'r', 'o', 'c', ' '] ++ decimal pid
  | .killproc pid signal =>
      text ['k', 'i', 'l', 'l', 'p', 'r', 'o', 'c', ' ']
        ++ (decimal pid ++ space :: decimal (toUInt32 signal))
  | .sigproc pid signal value =>
      text ['s', 'i', 'g', 'p', 'r', 'o', 'c', ' ']
        ++ (decimal pid ++ space :: (decimal (toUInt32 signal) ++ space :: shellPrintHex value))
  | .getuid pid => text ['g', 'e', 't', 'u', 'i', 'd', ' '] ++ decimal pid
  | .mmapproc pid size =>
      text ['m', 'm', 'a', 'p', 'p', 'r', 'o', 'c', ' '] ++ (decimal pid ++ space :: decimal size)
  | .sockdemo => text ['s', 'o', 'c', 'k', 'd', 'e', 'm', 'o']
  | .pagetest => text ['p', 'a', 'g', 'e', 't', 'e', 's', 't']
  | .pageperm => text ['p', 'a', 'g', 'e', 'p', 'e', 'r', 'm']
  | .pmmtest => text ['p', 'm', 'm', 't', 'e', 's', 't']
  | .vmtest => text ['v', 'm', 't', 'e', 's', 't']
  | .heaptest => text ['h', 'e', 'a', 'p', 't', 'e', 's', 't']
  | .div0 => text ['d', 'i', 'v', '0']
  | .invop => text ['i', 'n', 'v', 'o', 'p']
  | .segreg => text ['s', 'e', 'g', 'r', 'e', 'g']
  | .int3 => text ['i', 'n', 't', '3']
  | .reboot => text ['r', 'e', 'b', 'o', 'o', 't']
  | .exit => text ['e', 'x', 'i', 't']
  | .usage _ | .notFound | .empty => []

/-- The numbers fit, and a line can say it. -/
def ShellCommand.Writable : ShellCommand → Prop
  | .echo str => 0 ∉ str
  | .alloc num | .sched num => 0 < num ∧ num < 4294967296
  | .hexdump addr size => addr < 4294967296 ∧ 0 < size ∧ size ≤ 512
  | .peek num | .waitproc num | .getuid num => num < 4294967296
  | .forkdemo pid => ∀ p ∈ pid, p < 4294967296
  | .poke addr num | .mmapproc addr num => addr < 4294967296 ∧ num < 4294967296
  | .killproc pid signal => pid < 4294967296 ∧ -2147483648 ≤ signal ∧ signal < 2147483648
  | .sigproc pid signal value =>
      pid < 4294967296 ∧ (-2147483648 ≤ signal ∧ signal < 2147483648) ∧ value < 4294967296
  | .usage _ | .notFound | .empty => False
  | _ => True

section Words

variable {num : Nat} {t w : List Byte}

/-- Nothing of a printed number is a space or the end of the string. -/
theorem decimal_noSpace {c : Byte} (h : c ∈ decimal num) : c ≠ space ∧ c ≠ 0 := by
  obtain ⟨d, hd, rfl⟩ := List.mem_map.mp h
  have hall : ∀ d : Fin 10, digitByte d.val ≠ space ∧ digitByte d.val ≠ 0 := by decide
  exact hall ⟨d, decDigits_lt hd⟩

theorem hexLoop_noSpace (i num : Nat) {str : List Byte} (hstr : ∀ c ∈ str, c ≠ space ∧ c ≠ 0) :
    ∀ c ∈ hexLoop i num str, c ≠ space ∧ c ≠ 0 := by
  induction i generalizing num str with
  | zero => exact hstr
  | succ i ih =>
      refine ih _ fun c hc => ?_
      rcases List.mem_cons.mp hc with rfl | hc
      · have hlt : num &&& 0xF < 16 :=
          (Nat.and_two_pow_sub_one_eq_mod num 4).trans_lt (Nat.mod_lt num (by omega))
        have hall : ∀ d : Fin 16, hexChar d.val ≠ space ∧ hexChar d.val ≠ 0 := by decide
        exact hall ⟨_, hlt⟩
      · exact hstr c hc

theorem shellPrintHex_noSpace {c : Byte} (h : c ∈ shellPrintHex num) : c ≠ space ∧ c ≠ 0 := by
  rcases List.mem_append.mp h with h | h
  · have hall : ∀ c ∈ text ['0', 'x'], c ≠ space ∧ c ≠ 0 := by decide
    exact hall c h
  · exact hexLoop_noSpace 8 num (fun _ hc => absurd hc List.not_mem_nil) c h

theorem noDigit_nil : NoDigit [] := fun _ h => by cases h

theorem noDigit_space (t : List Byte) : NoDigit (space :: t) := by
  intro c hc
  obtain rfl := Option.some.inj hc
  decide

theorem noHexDigit_nil : NoHexDigit [] := fun _ h => by cases h

theorem noHexDigit_space (t : List Byte) : NoHexDigit (space :: t) := by
  intro c hc
  obtain rfl := Option.some.inj hc
  decide

theorem parseUint_decimal (hnum : num < 4294967296) : parseUint (decimal num) = num := by
  have h := parseUint_decDigits hnum noDigit_nil
  rwa [List.append_nil] at h

theorem parseUint_decimal_space (hnum : num < 4294967296) (t : List Byte) :
    parseUint (decimal num ++ space :: t) = num :=
  parseUint_decDigits hnum (noDigit_space t)

theorem parseHex_shellPrintHex (hnum : num < 4294967296) (ht : NoHexDigit t) :
    parseHex (shellPrintHex num ++ t) = num := by
  rw [shellPrintHex, List.append_assoc, (parseHex_skips (hexLoop_noPrefix num t)).1, parseHex,
    not_not.mp (hexLoop_noPrefix num t)]
  exact parseHexFrom_digits hnum ht

theorem parseHex_shellPrintHex_end (hnum : num < 4294967296) :
    parseHex (shellPrintHex num) = num := by
  have h := parseHex_shellPrintHex hnum noHexDigit_nil
  rwa [List.append_nil] at h

theorem skipWord_space (hw : ∀ c ∈ w, c ≠ space) (t : List Byte) :
    skipWord (w ++ space :: t) = space :: t := by
  induction w with
  | nil => exact List.dropWhile_cons_of_neg (by simp)
  | cons c w ih =>
      have hc := hw c List.mem_cons_self
      exact (List.dropWhile_cons_of_pos (by simpa using hc)).trans
        (ih fun d hd => hw d (List.mem_cons_of_mem _ hd))

theorem decimal_ne_nil (num : Nat) : decimal num ≠ [] := by
  intro hnil
  have hdigits : decDigits num = [] := List.map_eq_nil_iff.mp hnil
  have hvalue := decDigits_value num
  unfold decDigits at hdigits
  split at hdigits
  case isTrue _ => cases hdigits
  case isFalse hnum =>
    rw [decDigits, if_neg hnum, hdigits] at hvalue
    exact hnum hvalue.symm

theorem skipSpaces_decimal (num : Nat) (t : List Byte) :
    skipSpaces (space :: (decimal num ++ t)) = decimal num ++ t := by
  obtain ⟨c, w, hcw⟩ := List.exists_cons_of_ne_nil (decimal_ne_nil num)
  have hc : c ≠ space := (decimal_noSpace (hcw ▸ List.mem_cons_self)).1
  rw [hcw]
  exact (List.dropWhile_cons_of_pos (by simp)).trans
    (List.dropWhile_cons_of_neg (by simpa using hc))

theorem skipSpaces_shellPrintHex (num : Nat) :
    skipSpaces (space :: shellPrintHex num) = shellPrintHex num :=
  (List.dropWhile_cons_of_pos (by simp)).trans
    (List.dropWhile_cons_of_neg (by simp [space]; decide))

end Words

section Dispatch

variable {keyword : List Char} {command : ShellCommand} {read : List Byte → ShellCommand}

theorem cString_append {str : List Byte} (h : 0 ∉ str) (rest : List Byte) :
    cString (str ++ rest) = str ++ cString rest := by
  induction str with
  | nil => rfl
  | cons c str ih =>
      have hc : c ≠ 0 := fun heq => h (heq ▸ List.mem_cons_self)
      rw [List.cons_append, cString, if_neg hc, ih fun hmem => h (List.mem_cons_of_mem _ hmem),
        List.cons_append]

theorem shellCommand_plain (i : Nat) (h : commandTable[i]? = some (plain keyword command)) :
    shellCommand (text keyword) = command := by
  have hmem := List.mem_of_getElem? h
  have hzero := commandTable_nonzero _ hmem
  refine (shellCommand_eq hmem ((CommandBranch.accepts_iff hzero).mpr ?_)).trans rfl
  have happend := cString_append hzero []
  rw [List.append_nil, cString, List.append_nil] at happend
  exact happend

theorem shellCommand_withArgs (i : Nat) (h : commandTable[i]? = some (withArgs keyword read))
    (args : List Byte) : shellCommand (text keyword ++ args) = read args := by
  have hmem := List.mem_of_getElem? h
  have hzero := commandTable_nonzero _ hmem
  have haccepts : (withArgs keyword read).accepts (text keyword ++ args) = true := by
    refine (CommandBranch.accepts_iff hzero).mpr ?_
    have happend : cString (text keyword ++ args) = text keyword ++ cString args :=
      cString_append hzero args
    rw [happend]
    exact List.prefix_append _ _
  rw [shellCommand_eq hmem haccepts]
  exact congrArg read (List.drop_left' rfl)

end Dispatch

theorem toInt32_toUInt32 {i : Int} (h : -2147483648 ≤ i ∧ i < 2147483648) :
    toInt32 (toUInt32 i) = i := by
  unfold toInt32 toUInt32
  split <;> omega

theorem toUInt32_lt (i : Int) : toUInt32 i < 4294967296 := by
  unfold toUInt32
  omega

/-- A written command is read back. -/
theorem shellCommand_render {c : ShellCommand} (hc : c.Writable) : shellCommand c.render = c := by
  have hword : ∀ num, ∀ c ∈ decimal num, c ≠ space := fun _ _ h => (decimal_noSpace h).1
  have hhex : ∀ num, ∀ c ∈ shellPrintHex num, c ≠ space := fun _ _ h => (shellPrintHex_noSpace h).1
  cases c with
  | help => exact shellCommand_plain 0 rfl
  | clear => exact shellCommand_plain 2 rfl
  | ls => exact shellCommand_plain 3 rfl
  | meminfo => exact shellCommand_plain 4 rfl
  | free => exact shellCommand_plain 6 rfl
  | kheap => exact shellCommand_plain 7 rfl
  | vmap => exact shellCommand_plain 8 rfl
  | panic => exact shellCommand_plain 9 rfl
  | stack => exact shellCommand_plain 13 rfl
  | pagedir => exact shellCommand_plain 14 rfl
  | idt => exact shellCommand_plain 15 rfl
  | signals => exact shellCommand_plain 16 rfl
  | sigtest => exact shellCommand_plain 17 rfl
  | syscall => exact shellCommand_plain 18 rfl
  | procs => exact shellCommand_plain 19 rfl
  | execdemo => exact shellCommand_plain 20 rfl
  | sockdemo => exact shellCommand_plain 28 rfl
  | pagetest => exact shellCommand_plain 29 rfl
  | pageperm => exact shellCommand_plain 30 rfl
  | pmmtest => exact shellCommand_plain 31 rfl
  | vmtest => exact shellCommand_plain 32 rfl
  | heaptest => exact shellCommand_plain 33 rfl
  | div0 => exact shellCommand_plain 34 rfl
  | invop => exact shellCommand_plain 35 rfl
  | segreg => exact shellCommand_plain 36 rfl
  | int3 => exact shellCommand_plain 37 rfl
  | reboot => exact shellCommand_plain 38 rfl
  | exit => exact shellCommand_plain 39 rfl
  | usage str => exact absurd hc id
  | notFound => exact absurd hc id
  | empty => exact absurd hc id
  | echo str => exact shellCommand_withArgs 1 rfl str
  | alloc size =>
      refine (shellCommand_withArgs 5 rfl _).trans ?_
      rw [orUsage, parseUint_decimal hc.2, if_neg (Nat.pos_iff_ne_zero.mp hc.1)]
  | hexdump addr size =>
      obtain ⟨haddr, hpos, hsize⟩ := hc
      refine (shellCommand_withArgs 10 rfl _).trans ?_
      unfold readHexdump
      dsimp only
      have hfound : (if some space = some space ∧ size > 0 then size else 64) = size :=
        if_pos ⟨rfl, hpos⟩
      rw [skipWord_space (hhex addr), List.head?_cons, List.tail_cons,
        parseUint_decimal (by omega), hfound, if_neg (by omega),
        parseHex_shellPrintHex haddr (noHexDigit_space _)]
  | peek addr =>
      refine (shellCommand_withArgs 11 rfl _).trans ?_
      rw [parseHex_shellPrintHex_end hc]
  | poke addr value =>
      refine (shellCommand_withArgs 12 rfl _).trans ?_
      unfold readPoke
      dsimp only
      rw [skipWord_space (hhex addr), List.head?_cons, List.tail_cons, if_pos rfl,
        parseHex_shellPrintHex hc.1 (noHexDigit_space _), parseHex_shellPrintHex_end hc.2]
  | sched ticks =>
      refine (shellCommand_withArgs 21 rfl _).trans ?_
      rw [orUsage, parseUint_decimal hc.2, if_neg (Nat.pos_iff_ne_zero.mp hc.1)]
  | forkdemo pid =>
      cases pid with
      | none => exact shellCommand_withArgs 22 rfl []
      | some pid =>
          have hskip := skipSpaces_decimal pid []
          rw [List.append_nil] at hskip
          refine (shellCommand_withArgs 22 rfl _).trans ?_
          unfold readForkdemo
          dsimp only
          rw [hskip, parseUint_decimal (hc pid rfl), if_pos (decimal_ne_nil pid)]
  | waitproc pid =>
      refine (shellCommand_withArgs 23 rfl _).trans ?_
      rw [parseUint_decimal hc]
  | killproc pid signal =>
      refine (shellCommand_withArgs 24 rfl _).trans ?_
      have hskip := skipSpaces_decimal (toUInt32 signal) []
      rw [List.append_nil] at hskip
      unfold readKillproc
      dsimp only
      rw [skipWord_space (hword pid), List.head?_cons, if_pos rfl, hskip,
        parseUint_decimal (toUInt32_lt signal), toInt32_toUInt32 hc.2,
        parseUint_decimal_space hc.1]
  | sigproc pid signal value =>
      obtain ⟨hpid, hsignal, hvalue⟩ := hc
      refine (shellCommand_withArgs 25 rfl _).trans ?_
      unfold readSigproc
      dsimp only
      rw [skipWord_space (hword pid), List.head?_cons, if_pos rfl, skipSpaces_decimal,
        skipWord_space (hword _), List.head?_cons, if_pos rfl, skipSpaces_shellPrintHex,
        parseHex_shellPrintHex_end hvalue, parseUint_decimal_space (toUInt32_lt signal),
        toInt32_toUInt32 hsignal, parseUint_decimal_space hpid]
  | getuid pid =>
      refine (shellCommand_withArgs 26 rfl _).trans ?_
      rw [parseUint_decimal hc]
  | mmapproc pid size =>
      refine (shellCommand_withArgs 27 rfl _).trans ?_
      have hskip := skipSpaces_decimal size []
      rw [List.append_nil] at hskip
      unfold readMmapproc
      dsimp only
      rw [skipWord_space (hword pid), List.head?_cons, if_pos rfl, hskip,
        parseUint_decimal hc.2, parseUint_decimal_space hc.1]

/-! ## From the keys to the command -/

theorem readString_line {m0 m : Mem} {buffer size : Nat} {line : List Byte}
    (h : LineIn m0 buffer size line m) (hline : 0 ∉ line) (hlen : line.length < size) :
    readString 0#8 m size buffer = some line := by
  have hcells := h.cells
  have hend := h.terminated
  clear h
  induction line generalizing buffer size with
  | nil =>
      cases size with
      | zero => cases hlen
      | succ size => exact if_pos hend
  | cons c line ih =>
      cases size with
      | zero => cases hlen
      | succ size =>
          have hc : m buffer = c := hcells 0 (by simp)
          have hne : m buffer ≠ 0#8 := fun heq => hline (hc ▸ heq ▸ List.mem_cons_self)
          rw [← hc]
          refine readString_cons hne (ih (fun hmem => hline (List.mem_cons_of_mem _ hmem))
            (Nat.lt_of_succ_lt_succ hlen) (fun i hi => ?_) ?_)
          · have hnext := hcells (i + 1) (Nat.succ_lt_succ hi)
            rwa [← Nat.add_assoc, Nat.add_right_comm] at hnext
          · rwa [List.length_cons, ← Nat.add_assoc, Nat.add_right_comm] at hend

theorem ShellCommand.render_nonzero {c : ShellCommand} (hc : c.Writable) : 0 ∉ c.render := by
  have happend : ∀ {l l' : List Byte}, 0 ∉ l → 0 ∉ l' → 0 ∉ l ++ l' := fun h h' hmem =>
    (List.mem_append.mp hmem).elim h h'
  have hspace : ∀ {l : List Byte}, 0 ∉ l → 0 ∉ space :: l := fun h hmem =>
    (List.mem_cons.mp hmem).elim (by decide) h
  have hdec : ∀ num, 0 ∉ decimal num := fun _ h => (decimal_noSpace h).2 rfl
  have hhex : ∀ num, 0 ∉ shellPrintHex num := fun _ h => (shellPrintHex_noSpace h).2 rfl
  cases c with
  | echo str => exact happend (by decide) hc
  | alloc size => exact happend (by decide) (hdec size)
  | hexdump addr size => exact happend (by decide) (happend (hhex addr) (hspace (hdec size)))
  | peek addr => exact happend (by decide) (hhex addr)
  | poke addr value => exact happend (by decide) (happend (hhex addr) (hspace (hhex value)))
  | sched ticks => exact happend (by decide) (hdec ticks)
  | forkdemo pid =>
      cases pid with
      | none => decide
      | some pid => exact happend (by decide) (hspace (hdec pid))
  | waitproc pid => exact happend (by decide) (hdec pid)
  | killproc pid signal => exact happend (by decide) (happend (hdec pid) (hspace (hdec _)))
  | sigproc pid signal value =>
      exact happend (by decide)
        (happend (hdec pid) (hspace (happend (hdec _) (hspace (hhex value)))))
  | getuid pid => exact happend (by decide) (hdec pid)
  | mmapproc pid size => exact happend (by decide) (happend (hdec pid) (hspace (hdec size)))
  | _ => first | decide | exact absurd hc id

theorem length_editedBounded (input : List Byte) :
    (editedBounded input).length < shellBufferSize := by
  have hroom : ∀ (input line : List Byte), line.length ≤ shellBufferSize - 1 →
      (input.foldl (editBounded charBackspace (shellBufferSize - 1)) line).length
        ≤ shellBufferSize - 1 := by
    intro input
    induction input with
    | nil => exact fun _ h => h
    | cons c input ih => exact fun line h => ih _ (length_editBounded h)
  exact Nat.lt_of_le_of_lt (hroom input [] (Nat.zero_le _)) (by decide)

/-- The order of the branches does not matter; and whatever keys were pressed
for the line of a command, the buffer holds the line, and the command is
read from it. -/
theorem shellCommands_read : (∀ (table : List CommandBranch) (buffer : List Byte),
      table.Perm commandTable → readCommand table buffer = shellCommand buffer)
    ∧ ∀ (c : ShellCommand) (input : List Byte), c.Writable → charNewline ∉ input →
      editedBounded input = c.render → ∀ (m : Mem) (t : Terminal) (buffer : Nat) (rest : List Byte),
        ∃ m' t', shellReadLine m t buffer (input ++ charNewline :: rest)
            = some (c.render.length, m', t', rest)
          ∧ (readString 0#8 m' shellBufferSize buffer).map shellCommand = some c := by
  refine ⟨fun table buffer hperm => readCommand_perm hperm buffer,
    fun c input hc hopen hline m t buffer rest => ?_⟩
  obtain ⟨m', t', hread, hbuffer⟩ := shellReadLine_line m buffer t hopen rest
  have hlen := length_editedBounded input
  rw [hline] at hread hbuffer hlen
  refine ⟨m', t', hread, ?_⟩
  rw [readString_line hbuffer (ShellCommand.render_nonzero hc) hlen, Option.map_some,
    shellCommand_render hc]

/-- `killprok`, a backspace, `c 3 15` and a newline. -/
theorem shellCommands_read_killproc : ∃ m' t',
    shellReadLine (fun _ => 0#8) coldTerminal 0x8000
        (text ['k', 'i', 'l', 'l', 'p', 'r', 'o', 'k'] ++ [charBackspace]
          ++ text ['c', ' ', '3', ' ', '1', '5'] ++ charNewline :: [])
      = some (13, m', t', [])
    ∧ (readString 0#8 m' shellBufferSize 0x8000).map shellCommand = some (.killproc 3 15) :=
  shellCommands_read.2 (.killproc 3 15) _ ⟨by decide, by decide, by decide⟩ (by decide)
    (by decide +kernel) _ _ _ _

end Kfs
