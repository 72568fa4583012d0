import Kfs.Paging
import Kfs.PmmSets

/-!
# Entries, translations and what they rest on

The arithmetic of page directories and page tables: an entry the process
code writes is `userEntry f`, the frame `f` with the present, write and user
bits, and the masks of the C code take it apart again. A virtual address
goes through entry `pageDirIndex` of a directory and entry `pageTableIndex`
of a table.

`Touches d frames` is the frame condition of everything the process code
does to the machine: other directories, the kernel directory pointer and
every byte outside `frames` stay as they are.
-/

namespace Kfs

/-! ## Entries -/

/-- Frame `f`, present, writable and open to user mode. -/
def userEntry (f : Nat) : Nat := f * 4096 + 7

theorem frame_or (f : Nat) {bits : Nat} (h : bits < 4096) :
    f * 4096 ||| bits = f * 4096 + bits := by
  rw [Nat.mul_comm]
  exact (Nat.two_pow_add_eq_or_of_lt (i := 12) h f).symm

theorem userEntry_eq_or (f : Nat) : userEntry f = f * 4096 ||| 7 :=
  (frame_or f (by omega)).symm

/-- The directory entry of a table that was just created. -/
theorem tableWord (f : Nat) :
    f * 4096 ||| pagePresent ||| pageWrite ||| pageUser = userEntry f := by
  rw [userEntry_eq_or, Nat.or_assoc, Nat.or_assoc]
  rfl

/-- The table entry `paging_map_page_in_directory` writes. -/
theorem pageWord {f : Nat} (h : f < 1048576) :
    (f * 4096 &&& 0xFFFFF000) ||| (pageUserRw &&& 0xFFF) = userEntry f := by
  rw [and_mask4096 (by omega), userEntry_eq_or, Nat.mul_div_cancel f (by omega)]
  rfl

theorem userEntry_or_user (f : Nat) : userEntry f ||| pageUser = userEntry f := by
  rw [userEntry_eq_or, Nat.or_assoc]
  rfl

theorem userEntry_present (f : Nat) : userEntry f &&& pagePresent ≠ 0 := by
  have h : userEntry f &&& pagePresent = userEntry f % 2 := Nat.and_one_is_mod _
  unfold userEntry at *
  omega

theorem userEntry_rights (f : Nat) : userEntry f &&& pageUserRw = pageUserRw := by
  have h : userEntry f &&& pageUserRw = userEntry f % 8 :=
    Nat.and_two_pow_sub_one_eq_mod (userEntry f) 3
  rw [h]
  unfold userEntry
  show (f * 4096 + 7) % 8 = 7
  omega

theorem pageFrame_userEntry {f : Nat} (h : f < 1048576) : pageFrame (userEntry f) = f * 4096 := by
  unfold pageFrame userEntry
  rw [and_mask4096 (by omega)]
  omega

theorem pageFrame_whole (entry : Nat) : pageFrame entry % 4096 = 0 := by
  unfold pageFrame
  rw [show 4096 = 2 ^ 12 from rfl, Nat.and_mod_two_pow]
  exact Nat.and_zero _

theorem userEntry_lt {f : Nat} (h : f < 1048576) : userEntry f < 4294967296 := by
  unfold userEntry
  omega

theorem not_present_zero : 0 &&& pagePresent = 0 := rfl

/-! ## Addresses -/

theorem pageDirIndex_eq {v : Nat} (h : v < 4294967296) : pageDirIndex v = v / 4194304 := by
  unfold pageDirIndex
  rw [Nat.shiftRight_eq_div_pow, Nat.and_two_pow_sub_one_eq_mod _ 10]
  omega

theorem pageTableIndex_eq (v : Nat) : pageTableIndex v = v / 4096 % 1024 := by
  unfold pageTableIndex
  rw [Nat.shiftRight_eq_div_pow, Nat.and_two_pow_sub_one_eq_mod _ 10]

theorem pageTableIndex_lt (v : Nat) : pageTableIndex v < 1024 := by
  rw [pageTableIndex_eq]
  omega

theorem pageOffset_eq (v : Nat) : pageOffset v = v % 4096 :=
  Nat.and_two_pow_sub_one_eq_mod v 12

/-! ## Directories -/

@[simp] theorem dirEntry_setDirEntry (vm : Vm) (d : Directory) (i entry : Nat) :
    (vm.setDirEntry d i entry).dirEntry d i = entry := by
  simp [Vm.setDirEntry, Vm.dirEntry]

@[simp] theorem setDirEntry_setDirEntry (vm : Vm) (d : Directory) (i entry entry' : Nat) :
    (vm.setDirEntry d i entry).setDirEntry d i entry' = vm.setDirEntry d i entry' := by
  simp [Vm.setDirEntry]

theorem setDirEntry_self {vm : Vm} {d : Directory} {i entry : Nat} (h : vm.dirEntry d i = entry) :
    vm.setDirEntry d i entry = vm := by
  subst h
  simp [Vm.setDirEntry, Vm.dirEntry]

/-! ## What stays -/

/-- Everything but the directory `d` and the bytes of `frames` is the same. -/
structure Touches (d : Directory) (frames : Finset Nat) (vm vm' : Vm) : Prop where
  directories : ∀ e, e ≠ d → vm'.directories e = vm.directories e
  kernelDirectory : vm'.kernelDirectory = vm.kernelDirectory
  mem : ∀ x, x / 4096 ∉ frames → vm'.mem x = vm.mem x

theorem Touches.refl (d : Directory) (frames : Finset Nat) (vm : Vm) : Touches d frames vm vm :=
  ⟨fun _ _ => rfl, rfl, fun _ _ => rfl⟩

theorem Touches.trans {d : Directory} {frames : Finset Nat} {vm vm' vm'' : Vm}
    (h : Touches d frames vm vm') (h' : Touches d frames vm' vm'') :
    Touches d frames vm vm'' where
  directories e he := (h'.directories e he).trans (h.directories e he)
  kernelDirectory := h'.kernelDirectory.trans h.kernelDirectory
  mem x hx := (h'.mem x hx).trans (h.mem x hx)

theorem Touches.mono {d : Directory} {frames frames' : Finset Nat} {vm vm' : Vm}
    (h : Touches d frames vm vm') (hsub : frames ⊆ frames') : Touches d frames' vm vm' :=
  ⟨h.directories, h.kernelDirectory, fun x hx => h.mem x fun hmem => hx (hsub hmem)⟩

theorem touches_pmm (d : Directory) (frames : Finset Nat) (vm : Vm) (pmm : Pmm) :
    Touches d frames vm { vm with pmm := pmm } :=
  ⟨fun _ _ => rfl, rfl, fun _ _ => rfl⟩

theorem touches_setDirEntry (d : Directory) (vm : Vm) (i entry : Nat) :
    Touches d ∅ vm (vm.setDirEntry d i entry) :=
  ⟨fun _ hd => Function.update_of_ne hd _ _, rfl, fun _ _ => rfl⟩

theorem touches_clearPage (d : Directory) (vm : Vm) (f : Nat) :
    Touches d {f} vm (vm.clearPage (f * 4096)) := by
  refine ⟨fun _ _ => rfl, rfl, fun x hx => memset_outside ?_⟩
  rw [Finset.mem_singleton] at hx
  omega

theorem touches_setTableEntry (d : Directory) (vm : Vm) {f i : Nat} (hi : i < 1024) (entry : Nat) :
    Touches d {f} vm (vm.setTableEntry (f * 4096) i entry) := by
  refine ⟨fun _ _ => rfl, rfl, fun x hx => store32_outside ?_⟩
  rw [Finset.mem_singleton] at hx
  omega

theorem tableEntry_congr {vm vm' : Vm} {f i : Nat} (hi : i < 1024)
    (h : ∀ x, x / 4096 = f → vm'.mem x = vm.mem x) :
    vm'.tableEntry (f * 4096) i = vm.tableEntry (f * 4096) i :=
  load32_congr fun x hlo hhi => h x (by omega)

theorem tableEntry_clearPage (vm : Vm) {f i : Nat} (hi : i < 1024) :
    (vm.clearPage (f * 4096)).tableEntry (f * 4096) i = 0 :=
  load32_memset_zero (by omega) (by omega)

theorem tableEntry_setTableEntry (vm : Vm) {f i j entry : Nat} (hentry : entry < 4294967296) :
    (vm.setTableEntry (f * 4096) i entry).tableEntry (f * 4096) j
      = if j = i then entry else vm.tableEntry (f * 4096) j := by
  unfold Vm.tableEntry Vm.setTableEntry
  split
  · next h => rw [h, load32_store32 hentry]
  · next h => rw [load32_store32_apart (by omega)]

/-! ## Taking frames -/

/-- `pmm_alloc_frame` finds nothing or takes one frame, which is not frame
0. -/
theorem allocFrame_cases {vm : Vm} (hok : PmmOk vm.pmm) (hlow : LowUsed vm.pmm) :
    vm.allocFrame = (0, vm)
      ∨ ∃ f pmm, f ≠ 0 ∧ Takes {f} vm.pmm pmm
        ∧ vm.allocFrame = (f * 4096, { vm with pmm := pmm }) := by
  unfold Vm.allocFrame
  rcases pmmAllocFrame_cases vm.pmm with he | ⟨f, hlt, hfree, he⟩
  · exact Or.inl (by rw [he])
  · have htakes := takes_takeFrame hok hlt hfree
    have hbound := hok.bound
    refine Or.inr ⟨f, _, htakes.ne_zero hlow (Finset.mem_singleton_self f), htakes, ?_⟩
    rw [he, pfnToAddr_eq (by omega)]

end Kfs
