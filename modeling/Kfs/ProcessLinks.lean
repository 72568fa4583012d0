import Mathlib.Data.Fintype.EquivFin
import Kfs.ProcessShape

/-!
# The lists of processes

`LinkInv k l kids` says that the pointers of the process table represent the
list `l` of the used slots, in the order of the global list, and for every
slot `s` the list `kids s` of its children. Creating a process appends it to
`l` and puts it in front of its parent's children; releasing one erases it
from both; no other effect touches a pointer.

The invariant does not say that a child's parent is alive: a process can be
released while it has children, and then they keep a parent pointer into a
slot that no longer knows them. What it says is enough for every walk of the
kernel to end.
-/

namespace Kfs

structure LinkInv (k : Kernel) (l : List Slot) (kids : Slot → List Slot) : Prop where
  kernel : k.kernelProcess = some 0
  head : k.processHead = some 0
  linked : Linked k.nextOf k.processHead l none
  nodup : l.Nodup
  mem : ∀ s, s ∈ l ↔ (k.processTable s).used = true
  cursor : ∃ c ∈ l, k.schedulerCursor = some c
  enabled : k.schedulerEnabled = true
  kidsLinked : ∀ s, Linked k.siblingOf (k.processTable s).children (kids s) none
  kidsNodup : ∀ s, (kids s).Nodup
  kidsMem : ∀ s, ∀ c ∈ kids s, (k.processTable c).used = true ∧ (k.processTable c).parent = some s

/-- Distinct slots are at most sixteen, so a bound of seventeen is enough for
any walk. -/
theorem nodup_length_lt {l : List Slot} (h : l.Nodup) : l.length < 17 := by
  have := h.length_le_card
  rw [Fintype.card_fin] at this
  omega

/-- Effects that keep the frames keep the lists. -/
theorem LinkInv.tame {k k' : Kernel} {l : List Slot} {kids : Slot → List Slot}
    (h : LinkInv k l kids) (ht : Tame k k') : LinkInv k' l kids where
  kernel := ht.kernel.trans h.kernel
  head := ht.head.trans h.head
  linked := by
    rw [ht.head]
    exact h.linked.congr fun q _ => frame_next (ht.frame q)
  nodup := h.nodup
  mem s := by rw [ht.used s, h.mem s]
  cursor := by
    rcases ht.cursor with heq | ⟨p, hp, heq⟩
    · rw [heq]
      exact h.cursor
    · exact ⟨p, (h.mem p).mpr hp, heq⟩
  enabled := ht.enabled.trans h.enabled
  kidsLinked s := by
    rw [frame_children (ht.frame s)]
    exact (h.kidsLinked s).congr fun q _ => frame_nextSibling (ht.frame q)
  kidsNodup := h.kidsNodup
  kidsMem s c hc := by
    rw [ht.used c, frame_parent (ht.frame c)]
    exact h.kidsMem s c hc

/-! ## Creation -/

section Create

variable {k : Kernel} {l : List Slot} {kids : Slot → List Slot} {p : Slot} {r : Process} {vm : Vm}

theorem withProcess_of_ne {q : Slot} (hq : q ≠ p) :
    (k.withProcess p r vm).processTable q = k.processTable q :=
  Function.update_of_ne hq _ _

theorem withProcess_self : (k.withProcess p r vm).processTable p = r :=
  Function.update_self _ _ _

/-- A new record is in no list yet. -/
theorem LinkInv.ne_of_mem (h : LinkInv k l kids) (hunused : (k.processTable p).used = false)
    {q : Slot} (hq : q ∈ l) : q ≠ p := by
  rintro rfl
  rw [(h.mem q).mp hq] at hunused
  cases hunused

theorem LinkInv.ne_of_mem_kids (h : LinkInv k l kids)
    (hunused : (k.processTable p).used = false) {s q : Slot} (hq : q ∈ kids s) : q ≠ p :=
  h.ne_of_mem hunused ((h.mem q).mpr (h.kidsMem s q hq).1)

/-- The children after `p` was created for `parent`. -/
def kidsWith (kids : Slot → List Slot) (parent : Option Slot) (p : Slot) : Slot → List Slot :=
  fun s => if parent = some s then p :: (if s = p then [] else kids s)
    else if s = p then [] else kids s

/-- The pointers of a record after `process_link_child`. -/
theorem processLinkChild_apply (k : Kernel) (parent : Option Slot) (p q : Slot) :
    ((processLinkChild k parent p).processTable q).next = (k.processTable q).next
      ∧ ((processLinkChild k parent p).processTable q).children
        = (if parent = some q then some p else (k.processTable q).children)
      ∧ ((processLinkChild k parent p).processTable q).nextSibling
        = (if q = p then parent.bind fun s => (k.processTable s).children
          else (k.processTable q).nextSibling) := by
  unfold processLinkChild
  cases parent with
  | none =>
      by_cases hq : q = p
      · subst hq
        simp
      · simp [modify_of_ne _ _ _ hq, hq]
  | some s =>
      dsimp only
      have hchildren : ((k.modify p fun r =>
          { r with parent := some s, nextSibling := none }).processTable s).children
            = (k.processTable s).children := modify_keeps Process.children rfl s
      rw [hchildren]
      cases hfirst : (k.processTable s).children with
      | none =>
          by_cases hqs : q = s
          · subst hqs
            by_cases hqp : q = p
            · subst hqp
              simp [hfirst]
            · simp [modify_of_ne _ _ _ hqp, hqp]
          · have hsq : ¬s = q := fun h => hqs h.symm
            by_cases hqp : q = p
            · subst hqp
              simp [modify_of_ne _ _ _ hqs, hsq, hfirst]
            · simp [modify_of_ne _ _ _ hqs, modify_of_ne _ _ _ hqp, hqp, hsq]
      | some first =>
          by_cases hqs : q = s
          · subst hqs
            by_cases hqp : q = p
            · subst hqp
              simp [hfirst]
            · simp [modify_of_ne _ _ _ hqp, hqp]
          · have hsq : ¬s = q := fun h => hqs h.symm
            by_cases hqp : q = p
            · subst hqp
              simp [modify_of_ne _ _ _ hqs, hsq, hfirst]
            · simp [modify_of_ne _ _ _ hqs, modify_of_ne _ _ _ hqp, hqp, hsq]

theorem processLinkGlobal_eq {xs : List Slot} {t : Slot}
    (hlinked : Linked k.nextOf k.processHead (xs ++ [t]) none) (hnodup : (xs ++ [t]).Nodup) :
    processLinkGlobal k p = .ok (k.modify t fun r => { r with next := some p }) := by
  have hhead : k.processHead ≠ none := by
    cases xs with
    | nil => rw [hlinked.1]; simp
    | cons x xs => rw [hlinked.1]; simp
  unfold processLinkGlobal
  rw [if_neg hhead, search_eq hlinked (nodup_length_lt hnodup), hlinked.find?_last]
  rfl

theorem LinkInv.withVm (h : LinkInv k l kids) (vm : Vm) : LinkInv { k with vm := vm } l kids :=
  ⟨h.kernel, h.head, h.linked, h.nodup, h.mem, h.cursor, h.enabled, h.kidsLinked, h.kidsNodup,
    h.kidsMem⟩

/-- The pointers once a new record `p` is a child of `parent`. -/
structure ChildLinked (k : Kernel) (p : Slot) (parent : Option Slot) (k' : Kernel) : Prop where
  head : k'.processHead = k.processHead
  kernel : k'.kernelProcess = k.kernelProcess
  cursor : k'.schedulerCursor = k.schedulerCursor
  enabled : k'.schedulerEnabled = k.schedulerEnabled
  used : (k'.processTable p).used = true
  kin : (k'.processTable p).parent = parent
  next : (k'.processTable p).next = none
  children : ∀ q, (k'.processTable q).children
    = if parent = some q then some p else if q = p then none else (k.processTable q).children
  sibling : (k'.processTable p).nextSibling
    = parent.bind fun s => if s = p then none else (k.processTable s).children
  other : ∀ q, q ≠ p → (k'.processTable q).used = (k.processTable q).used
    ∧ (k'.processTable q).parent = (k.processTable q).parent
    ∧ (k'.processTable q).next = (k.processTable q).next
    ∧ (k'.processTable q).nextSibling = (k.processTable q).nextSibling

theorem withProcess_children (hchildren : r.children = none) (s : Slot) :
    ((k.withProcess p r vm).processTable s).children
      = if s = p then none else (k.processTable s).children := by
  by_cases hs : s = p
  · subst hs
    rw [withProcess_self, if_pos rfl, hchildren]
  · rw [withProcess_of_ne hs, if_neg hs]

theorem processLinkChild_childLinked (parent : Option Slot) (hused : r.used = true)
    (hchildren : r.children = none) (hnext : r.next = none) :
    ChildLinked k p parent (processLinkChild (k.withProcess p r vm) parent p) := by
  have hptr := processLinkChild_apply (k.withProcess p r vm) parent p
  have hself := processLinkChild_self (k.withProcess p r vm) parent p
  rw [withProcess_self] at hself
  have hrelinked := processLinkChild_relinked (k.withProcess p r vm) parent p
  have hhead : (processLinkChild (k.withProcess p r vm) parent p).processHead = k.processHead := by
    unfold processLinkChild
    cases parent with
    | none => rfl
    | some s => dsimp only; split <;> rfl
  obtain ⟨table, head, heq, -⟩ := id hrelinked
  refine ⟨hhead, by rw [heq]; rfl, by rw [heq]; rfl, by rw [heq]; rfl,
    (core_used hself).trans hused, core_parent hself, ?_, ?_, ?_, ?_⟩
  · rw [(hptr p).1, withProcess_self, hnext]
  · intro q
    rw [(hptr q).2.1, withProcess_children hchildren]
  · rw [(hptr p).2.2, if_pos rfl]
    simp only [withProcess_children hchildren]
  · intro q hq
    have hcore := hrelinked.core hq
    rw [withProcess_of_ne hq] at hcore
    refine ⟨core_used hcore, core_parent hcore, ?_, ?_⟩
    · rw [(hptr q).1, withProcess_of_ne hq]
    · rw [(hptr q).2.2, if_neg hq, withProcess_of_ne hq]

/-- `process_link_global` finds the tail. -/
theorem LinkInv.tail {kc : Kernel} {parent : Option Slot} (h : LinkInv k l kids)
    (hunused : (k.processTable p).used = false) (hc : ChildLinked k p parent kc) :
    ∃ xs t, l = xs ++ [t] ∧ Linked kc.nextOf kc.processHead (xs ++ [t]) none
      ∧ processLinkGlobal kc p = .ok (kc.modify t fun r => { r with next := some p }) := by
  obtain ⟨xs, t, rfl⟩ : ∃ xs t, l = xs ++ [t] := by
    rcases List.eq_nil_or_concat l with rfl | ⟨xs, t, rfl⟩
    · have := h.linked
      rw [h.head] at this
      cases this
    · exact ⟨xs, t, List.concat_eq_append⟩
  have hlinked : Linked kc.nextOf kc.processHead (xs ++ [t]) none := by
    rw [hc.head]
    exact h.linked.congr fun q hq => (hc.other q (h.ne_of_mem hunused hq)).2.2.1
  exact ⟨xs, t, rfl, hlinked, processLinkGlobal_eq hlinked h.nodup⟩

/-- A new process goes to the end of the list and to the front of its
parent's children. -/
theorem LinkInv.link {kc : Kernel} {parent : Option Slot} (h : LinkInv k l kids)
    (hunused : (k.processTable p).used = false) (hc : ChildLinked k p parent kc) :
    ∃ k1, processLinkGlobal kc p = .ok k1 ∧ LinkInv k1 (l ++ [p]) (kidsWith kids parent p) := by
  obtain ⟨xs, t, rfl, hlinked, hcall⟩ := h.tail hunused hc
  have hpl : ∀ q ∈ xs ++ [t], q ≠ p := fun q hq => h.ne_of_mem hunused hq
  have hpk : ∀ {s q : Slot}, q ∈ kids s → q ≠ p := fun hq => h.ne_of_mem_kids hunused hq
  have htp : t ≠ p := hpl t (by simp)
  refine ⟨_, hcall, ?_⟩
  -- only the tail's `next` is assigned
  have hkeep : ∀ {α : Type} (g : Process → α) (q : Slot),
      (∀ r : Process, g { r with next := some p } = g r) →
      g ((kc.modify t fun r => { r with next := some p }).processTable q)
        = g (kc.processTable q) := fun g q hg => modify_keeps g (hg _) q
  have hused : ∀ q, ((kc.modify t fun r => { r with next := some p }).processTable q).used
      = if q = p then true else (k.processTable q).used := by
    intro q
    rw [hkeep Process.used q fun _ => rfl]
    split
    · next hq => rw [hq, hc.used]
    · next hq => exact (hc.other q hq).1
  have hnext : ∀ q, q ≠ t → (kc.modify t fun r => { r with next := some p }).nextOf q
      = kc.nextOf q := fun q hq => congrArg Process.next (modify_of_ne _ _ _ hq)
  refine ⟨hc.kernel.trans h.kernel, hc.head.trans h.head, ?_, ?_, ?_, ?_,
    hc.enabled.trans h.enabled, ?_, ?_, ?_⟩
  · rw [List.append_assoc]
    refine hlinked.extend ?_ ?_ fun q hq => hnext q ?_
    · exact congrArg Process.next (modify_self _ _ _)
    · rw [hnext p htp.symm]
      exact hc.next
    · rintro rfl
      exact (List.nodup_append.mp h.nodup).2.2 q hq q (List.mem_singleton_self q) rfl
  · refine List.nodup_append.mpr ⟨h.nodup, List.nodup_singleton p, ?_⟩
    intro a ha b hb
    rw [List.mem_singleton.mp hb]
    exact hpl a ha
  · intro s
    rw [List.mem_append, List.mem_singleton, h.mem s, hused s]
    by_cases hs : s = p
    · simp [hs]
    · simp [hs]
  · obtain ⟨c, hmem, hcur⟩ := h.cursor
    exact ⟨c, List.mem_append_left _ hmem, hc.cursor.trans hcur⟩
  · intro s
    rw [hkeep Process.children s fun _ => rfl, hc.children s]
    -- the siblings of the old children do not change
    have hold : ∀ {first : Option Slot}, first = (k.processTable s).children →
        Linked (kc.modify t fun r => { r with next := some p }).siblingOf first (kids s) none := by
      rintro _ rfl
      refine (h.kidsLinked s).congr ?_
      intro q hq
      exact (hkeep Process.nextSibling q fun _ => rfl).trans (hc.other q (hpk hq)).2.2.2
    have hsib : (kc.modify t fun r => { r with next := some p }).siblingOf p
        = parent.bind fun s => if s = p then none else (k.processTable s).children :=
      (hkeep Process.nextSibling p fun _ => rfl).trans hc.sibling
    unfold kidsWith
    by_cases hparent : parent = some s
    · rw [if_pos hparent, if_pos hparent]
      refine ⟨rfl, ?_⟩
      rw [hsib, hparent]
      by_cases hs : s = p
      · simp [hs, Linked]
      · simpa [hs] using hold rfl
    · rw [if_neg hparent, if_neg hparent]
      by_cases hs : s = p
      · simp [hs, Linked]
      · simpa [hs] using hold rfl
  · intro s
    have hold : (if s = p then [] else kids s).Nodup ∧ p ∉ (if s = p then [] else kids s) := by
      split
      · simp
      · exact ⟨h.kidsNodup s, fun hmem => hpk hmem rfl⟩
    unfold kidsWith
    split
    · exact List.nodup_cons.mpr ⟨hold.2, hold.1⟩
    · exact hold.1
  · intro s c hmem
    rw [hused c, hkeep Process.parent c fun _ => rfl]
    have hold : c ∈ (if s = p then [] else kids s) →
        (if c = p then true else (k.processTable c).used) = true
          ∧ (kc.processTable c).parent = some s := by
      intro hmem
      split at hmem
      · cases hmem
      · have hne := hpk hmem
        rw [if_neg hne, (hc.other c hne).2.1]
        exact h.kidsMem s c hmem
    unfold kidsWith at hmem
    split at hmem
    · next hparent =>
        rcases List.mem_cons.mp hmem with rfl | hmem
        · rw [if_pos rfl, hc.kin]
          exact ⟨rfl, hparent⟩
        · exact hold hmem
    · exact hold hmem

end Create

/-! ## Release -/

section Release

variable {k : Kernel} {l : List Slot} {kids : Slot → List Slot} {c : Slot}

/-- Freeing the memory and moving the cursor keep the lists. -/
theorem LinkInv.releaseReady (h : LinkInv k l kids) (c : Slot) :
    LinkInv (releaseReady k c) l kids := by
  have hkeep : ∀ {α : Type} (g : Process → α) (q : Slot),
      (∀ (r : Process) (m : ProcessMemory), g { r with memory := m } = g r) →
      g ((Kfs.releaseReady k c).processTable q) = g (k.processTable q) :=
    fun g q hg => modify_keeps (k := { k with
      schedulerCursor := cursorOff k c, vm := vmWithout k c }) g (hg _ _) q
  have h0 : (0 : Slot) ∈ l := by
    have hlinked := h.linked
    rw [h.head] at hlinked
    cases l with
    | nil => cases hlinked
    | cons x l =>
        obtain rfl := Option.some.inj hlinked.1
        exact List.mem_cons_self
  refine ⟨h.kernel, h.head, ?_, h.nodup, ?_, ?_, h.enabled, ?_, h.kidsNodup, ?_⟩
  · exact h.linked.congr fun q _ => hkeep Process.next q fun _ _ => rfl
  · intro s
    rw [hkeep Process.used s fun _ _ => rfl]
    exact h.mem s
  · obtain ⟨d, hd, hcur⟩ := h.cursor
    show ∃ d ∈ l, cursorOff k c = some d
    unfold cursorOff
    split
    · exact ⟨0, h0, h.head⟩
    · exact ⟨d, hd, hcur⟩
  · intro s
    rw [hkeep Process.children s fun _ _ => rfl]
    exact (h.kidsLinked s).congr fun q _ => hkeep Process.nextSibling q fun _ _ => rfl
  · intro s q hq
    rw [hkeep Process.used q fun _ _ => rfl, hkeep Process.parent q fun _ _ => rfl]
    exact h.kidsMem s q hq

theorem erase_middle {xs ys : List Slot} (h : (xs ++ c :: ys).Nodup) :
    (xs ++ c :: ys).erase c = xs ++ ys := by
  have hxs : c ∉ xs := fun hmem =>
    (List.nodup_append.mp h).2.2 c hmem c List.mem_cons_self rfl
  rw [List.erase_append_right _ hxs, List.erase_cons_head]

/-- A slot is a child of its parent only. -/
theorem LinkInv.not_mem_kids (h : LinkInv k l kids) {s : Slot}
    (hs : (k.processTable c).parent ≠ some s) : c ∉ kids s :=
  fun hmem => hs (h.kidsMem s c hmem).2

/-- If `process_unlink_child` finds nothing to do, nothing has to be
erased. -/
theorem LinkInv.erase_noop (h : LinkInv k l kids) (hnot : ∀ s, c ∉ kids s) :
    LinkInv k l fun s => (kids s).erase c := by
  have hsame : (fun s => (kids s).erase c) = kids :=
    funext fun s => List.erase_of_not_mem (hnot s)
  rw [hsame]
  exact h

/-- The two ways of unlinking a child assign one link of its list and the
child's own `next_sibling` and `parent`. `f` is the first assignment. -/
theorem LinkInv.unlinkAt (h : LinkInv k l kids) {q : Slot} {f : Process → Process} {par : Slot}
    {xs ys : List Slot} (hkids : kids par = xs ++ c :: ys)
    (hf : ∀ {α : Type} (g : Process → α),
      (∀ (r : Process) (a b : Option Slot), g { r with children := a, nextSibling := b } = g r) →
      g (f (k.processTable q)) = g (k.processTable q))
    (hlinked : Linked (k.modify q f).siblingOf ((k.modify q f).processTable par).children
      (xs ++ ys) none)
    (hothers : ∀ s, s ≠ par →
      Linked (k.modify q f).siblingOf ((k.modify q f).processTable s).children (kids s) none) :
    LinkInv ((k.modify q f).modify c fun r => { r with nextSibling := none, parent := none }) l
      fun s => (kids s).erase c := by
  have hnodup : (xs ++ c :: ys).Nodup := hkids ▸ h.kidsNodup par
  have hpar : (k.processTable c).parent = some par := (h.kidsMem par c (by rw [hkids]; simp)).2
  have hkeep : ∀ {α : Type} (g : Process → α) (d : Slot),
      (∀ (r : Process) (a b : Option Slot), g { r with children := a, nextSibling := b } = g r) →
      (∀ r : Process, g { r with nextSibling := none, parent := none } = g r) →
      g (((k.modify q f).modify c fun r =>
        { r with nextSibling := none, parent := none }).processTable d)
        = g (k.processTable d) := fun g d hg hg' =>
    (modify_keeps (k := k.modify q f) g (hg' _) d).trans (modify_keeps g (hf g hg) d)
  have hchildren : ∀ d, (((k.modify q f).modify c fun r =>
      { r with nextSibling := none, parent := none }).processTable d).children
        = ((k.modify q f).processTable d).children :=
    modify_keeps (k := k.modify q f) Process.children rfl
  have hsibling : ∀ d, d ≠ c → ((k.modify q f).modify c fun r =>
      { r with nextSibling := none, parent := none }).siblingOf d = (k.modify q f).siblingOf d :=
    fun d hd => congrArg Process.nextSibling (modify_of_ne _ _ _ hd)
  refine ⟨h.kernel, h.head, ?_, h.nodup, ?_, h.cursor, h.enabled, ?_,
    fun s => (h.kidsNodup s).erase c, ?_⟩
  · exact h.linked.congr fun d _ => hkeep Process.next d (fun _ _ _ => rfl) fun _ => rfl
  · intro s
    rw [hkeep Process.used s (fun _ _ _ => rfl) fun _ => rfl]
    exact h.mem s
  · intro s
    rw [hchildren s]
    by_cases hs : s = par
    · subst hs
      rw [hkids, erase_middle hnodup]
      refine hlinked.congr fun d hd => hsibling d ?_
      rintro rfl
      rw [List.nodup_middle] at hnodup
      exact (List.nodup_cons.mp hnodup).1 hd
    · have hcs : c ∉ kids s := h.not_mem_kids (by rw [hpar]; simpa using fun he => hs he.symm)
      rw [List.erase_of_not_mem hcs]
      refine (hothers s hs).congr fun d hd => hsibling d ?_
      rintro rfl
      exact hcs hd
  · intro s d hd
    obtain ⟨hdc, hd⟩ := ((h.kidsNodup s).mem_erase_iff).mp hd
    rw [hkeep Process.used d (fun _ _ _ => rfl) fun _ => rfl, modify_of_ne _ _ _ hdc,
      modify_keeps Process.parent (hf Process.parent fun _ _ _ => rfl) d]
    exact h.kidsMem s d hd

/-- `process_unlink_child` ends and takes the process out of the children it
is in. -/
theorem LinkInv.unlinkChild (h : LinkInv k l kids) (c : Slot) :
    ∃ k', processUnlinkChild k c = .ok k' ∧ LinkInv k' l fun s => (kids s).erase c := by
  unfold processUnlinkChild
  cases hpar : (k.processTable c).parent with
  | none =>
      refine ⟨k, rfl, h.erase_noop fun s => h.not_mem_kids ?_⟩
      rw [hpar]
      simp
  | some par =>
      dsimp only
      rw [scan_eq (h.kidsLinked par) (nodup_length_lt (h.kidsNodup par))]
      by_cases hmem : c ∈ kids par
      · obtain ⟨xs, ys, hkids⟩ := List.append_of_mem hmem
        have hnodup : (xs ++ c :: ys).Nodup := hkids ▸ h.kidsNodup par
        have hlinked := hkids ▸ h.kidsLinked par
        have hxs : c ∉ xs := fun hx =>
          (List.nodup_append.mp hnodup).2.2 c hx c List.mem_cons_self rfl
        rw [hkids, findPrev_append hxs]
        -- no other slot has a child of `par` among its children
        have hapart : ∀ {s d : Slot}, s ≠ par → d ∈ kids par → d ∉ kids s := by
          intro s d hs hd hds
          have h1 := (h.kidsMem par d hd).2
          rw [(h.kidsMem s d hds).2] at h1
          exact hs (Option.some.inj h1)
        rcases List.eq_nil_or_concat xs with rfl | ⟨zs, v, rfl⟩
        · refine ⟨_, rfl, h.unlinkAt hkids ?_ ?_ ?_⟩
          · intro _ g hg
            exact hg (k.processTable par) (k.siblingOf c) (k.processTable par).nextSibling
          · have hch : ((k.modify par fun r =>
                { r with children := k.siblingOf c }).processTable par).children
                  = k.siblingOf c := by rw [modify_self]
            rw [hch]
            exact hlinked.2.congr fun d _ => modify_keeps (k := k) Process.nextSibling rfl d
          · intro s hs
            rw [modify_of_ne _ _ _ hs]
            exact (h.kidsLinked s).congr fun d _ =>
              modify_keeps (k := k) Process.nextSibling rfl d
        · rw [List.concat_eq_append] at *
          rw [List.getLast?_concat]
          have hkids' : zs ++ [v] ++ c :: ys = zs ++ v :: c :: ys := by simp
          rw [hkids'] at hlinked hnodup
          have hv : v ∉ zs ∧ v ∉ ys := by
            rw [List.nodup_middle] at hnodup
            have := (List.nodup_cons.mp hnodup).1
            simp only [List.mem_append, List.mem_cons, not_or] at this
            exact ⟨this.1, this.2.2⟩
          have hvk : v ∈ kids par := by rw [hkids]; simp
          refine ⟨_, rfl, h.unlinkAt hkids ?_ ?_ ?_⟩
          · intro _ g hg
            exact hg (k.processTable v) (k.processTable v).children (k.siblingOf c)
          · rw [modify_keeps (k := k) Process.children rfl par]
            have hrest : zs ++ [v] ++ ys = zs ++ v :: ys := by simp
            rw [hrest]
            have hv' : (k.modify v fun r => { r with nextSibling := k.siblingOf c }).siblingOf v
                = k.siblingOf c := by
              unfold Kernel.siblingOf
              rw [modify_self]
            refine hlinked.remove hv' ?_
            intro d hd
            refine congrArg Process.nextSibling (modify_of_ne _ _ _ ?_)
            rintro rfl
            rcases List.mem_append.mp hd with hd | hd
            · exact hv.1 hd
            · exact hv.2 hd
          · intro s hs
            rw [modify_keeps (k := k) Process.children rfl s]
            refine (h.kidsLinked s).congr ?_
            intro d hd
            refine congrArg Process.nextSibling (modify_of_ne _ _ _ ?_)
            rintro rfl
            exact hapart hs hvk hd
      · have hnone : findPrev (fun d => decide (d = c)) none (kids par) = none :=
          findPrev_eq_none fun x hx => decide_eq_false fun he => hmem (he ▸ hx)
        rw [hnone]
        refine ⟨k, rfl, h.erase_noop ?_⟩
        intro s
        by_cases hs : s = par
        · exact hs ▸ hmem
        · exact h.not_mem_kids (by rw [hpar]; simpa using fun he => hs he.symm)

/-- The children of the processes once `c` is gone. -/
def kidsWithout (kids : Slot → List Slot) (c : Slot) : Slot → List Slot :=
  fun s => if s = c then [] else (kids s).erase c

/-- `process_unlink_global` on a listed process that is nobody's child any
more, and the `memset` behind it. -/
theorem LinkInv.unlinkGlobal (h : LinkInv k l fun s => (kids s).erase c) (hc : c ∈ l)
    (hc0 : c ≠ 0) (hkids : ∀ s, (kids s).Nodup) (hcur : k.schedulerCursor ≠ some c) :
    ∃ k', processUnlinkGlobal k c = .ok k'
      ∧ LinkInv (k'.modify c fun _ => Process.zero) (l.erase c) (kidsWithout kids c) := by
  obtain ⟨xs, ys, rfl⟩ := List.append_of_mem hc
  have hnodup := h.nodup
  have hxs : c ∉ xs := fun hx => (List.nodup_append.mp hnodup).2.2 c hx c List.mem_cons_self rfl
  have hys : c ∉ ys := (List.nodup_cons.mp (List.nodup_append.mp hnodup).2.1).1
  rcases List.eq_nil_or_concat xs with rfl | ⟨zs, v, rfl⟩
  · -- the list starts with the kernel process
    have := h.linked.1
    rw [h.head] at this
    exact absurd (Option.some.inj this).symm hc0
  · rw [List.concat_eq_append] at *
    have hvc : v ≠ c := fun he => hxs (by simp [he])
    have hlinked : Linked k.nextOf k.processHead (zs ++ v :: c :: ys) none := by
      simpa using h.linked
    have hv : v ∉ zs ∧ v ∉ ys := by
      have hn : (zs ++ v :: c :: ys).Nodup := by simpa using hnodup
      rw [List.nodup_middle] at hn
      have := (List.nodup_cons.mp hn).1
      simp only [List.mem_append, List.mem_cons, not_or] at this
      exact ⟨this.1, this.2.2⟩
    refine ⟨(k.modify v fun r => { r with next := k.nextOf c }).modify c
      fun r => { r with next := none }, ?_, ?_⟩
    · unfold processUnlinkGlobal
      rw [scan_eq h.linked (nodup_length_lt hnodup), findPrev_append hxs, List.getLast?_concat]
      rfl
    · rw [modify_modify]
      -- the zeroed record aside, one `next` was assigned
      have hother : ∀ d, d ≠ c →
          ((k.modify v fun r => { r with next := k.nextOf c }).modify c
            fun _ => Process.zero).processTable d
          = (k.modify v fun r => { r with next := k.nextOf c }).processTable d :=
        fun d hd => modify_of_ne _ _ _ hd
      have hself : ((k.modify v fun r => { r with next := k.nextOf c }).modify c
          fun _ => Process.zero).processTable c = Process.zero := modify_self _ _ _
      have hkeep : ∀ {α : Type} (g : Process → α) (d : Slot), d ≠ c →
          (∀ (r : Process) (a : Option Slot), g { r with next := a } = g r) →
          g (((k.modify v fun r => { r with next := k.nextOf c }).modify c
            fun _ => Process.zero).processTable d) = g (k.processTable d) := fun g d hd hg => by
        rw [hother d hd]
        exact modify_keeps g (hg _ _) d
      refine ⟨h.kernel, h.head, ?_, hnodup.erase c, ?_, ?_, h.enabled, ?_, ?_, ?_⟩
      · rw [erase_middle hnodup, List.append_assoc]
        refine hlinked.remove ?_ ?_
        · show ((((k.modify v fun r => { r with next := k.nextOf c }).modify c
            fun _ => Process.zero).processTable v)).next = _
          rw [hother v hvc, modify_self]
        · intro d hd
          have hdc : d ≠ c := by
            rintro rfl
            rcases List.mem_append.mp hd with hd | hd
            · exact hxs (by simp [hd])
            · exact hys hd
          have hdv : d ≠ v := by
            rintro rfl
            rcases List.mem_append.mp hd with hd | hd
            · exact hv.1 hd
            · exact hv.2 hd
          show (((k.modify v fun r => { r with next := k.nextOf c }).modify c
            fun _ => Process.zero).processTable d).next = _
          rw [hother d hdc, modify_of_ne _ _ _ hdv]
          rfl
      · intro s
        rw [hnodup.mem_erase_iff, h.mem s]
        by_cases hs : s = c
        · subst hs
          rw [hself]
          simp [Process.zero]
        · rw [hkeep Process.used s hs fun _ _ => rfl]
          simp [hs]
      · obtain ⟨d, hd, hdc⟩ := h.cursor
        refine ⟨d, (hnodup.mem_erase_iff).mpr ⟨?_, hd⟩, hdc⟩
        rintro rfl
        exact hcur hdc
      · intro s
        unfold kidsWithout
        by_cases hs : s = c
        · subst hs
          rw [hself, if_pos rfl]
          rfl
        · rw [hkeep Process.children s hs fun _ _ => rfl, if_neg hs]
          refine (h.kidsLinked s).congr ?_
          intro d hd
          have hdc : d ≠ c := ((hkids s).mem_erase_iff.mp hd).1
          exact hkeep Process.nextSibling d hdc fun _ _ => rfl
      · intro s
        unfold kidsWithout
        split
        · exact List.nodup_nil
        · exact (hkids s).erase c
      · intro s d hd
        unfold kidsWithout at hd
        split at hd
        · cases hd
        · have hdc : d ≠ c := ((hkids s).mem_erase_iff.mp hd).1
          rw [hkeep Process.used d hdc fun _ _ => rfl, hkeep Process.parent d hdc fun _ _ => rfl]
          exact h.kidsMem s d hd

/-- Releasing a listed process other than the kernel's. -/
theorem LinkInv.release (h : LinkInv k l kids) (hc : c ∈ l) (hc0 : c ≠ 0) :
    ∃ k', processRelease k c = .ok k' ∧ LinkInv k' (l.erase c) (kidsWithout kids c) := by
  have hkernel : some c ≠ k.kernelProcess := by
    rw [h.kernel]
    exact fun he => hc0 (Option.some.inj he)
  obtain ⟨k1, hchild, h1⟩ := (h.releaseReady c).unlinkChild c
  have hcur : k1.schedulerCursor ≠ some c := by
    obtain ⟨table, head, rfl, -⟩ := processUnlinkChild_relinked hchild
    show cursorOff k c ≠ some c
    unfold cursorOff
    split
    · rw [h.head]
      exact fun he => hc0 (Option.some.inj he).symm
    · assumption
  obtain ⟨k2, hglobal, h2⟩ := h1.unlinkGlobal hc hc0 h.kidsNodup hcur
  refine ⟨_, ?_, h2⟩
  unfold processRelease
  rw [if_neg hkernel, moveCursorOff_eq]
  show (processUnlinkChild (Kfs.releaseReady k c) c >>= fun k =>
    processUnlinkGlobal k c >>= fun k => pure (k.modify c fun _ => Process.zero)) = _
  rw [hchild]
  show (processUnlinkGlobal k1 c >>= fun k => pure (k.modify c fun _ => Process.zero)) = _
  rw [hglobal]
  rfl

end Release

/-- Only an unlisted slot changed, and it is empty now. -/
theorem LinkInv.emptySlot {k k' : Kernel} {l : List Slot} {kids : Slot → List Slot} {p : Slot}
    (h : LinkInv k l kids) (hunused : (k.processTable p).used = false)
    (hself : k'.processTable p = Process.zero)
    (hother : ∀ q, q ≠ p → k'.processTable q = k.processTable q)
    (hhead : k'.processHead = k.processHead) (hkernel : k'.kernelProcess = k.kernelProcess)
    (hcursor : k'.schedulerCursor = k.schedulerCursor)
    (henabled : k'.schedulerEnabled = k.schedulerEnabled) :
    LinkInv k' l fun s => if s = p then [] else kids s := by
  refine ⟨hkernel.trans h.kernel, hhead.trans h.head, ?_, h.nodup, ?_, ?_,
    henabled.trans h.enabled, ?_, ?_, ?_⟩
  · rw [hhead]
    exact h.linked.congr fun q hq => congrArg Process.next (hother q (h.ne_of_mem hunused hq))
  · intro s
    rw [h.mem s]
    by_cases hs : s = p
    · subst hs
      rw [hself, hunused]
      rfl
    · rw [hother s hs]
  · rw [hcursor]
    exact h.cursor
  · intro s
    by_cases hs : s = p
    · subst hs
      rw [hself, if_pos rfl]
      rfl
    · rw [hother s hs, if_neg hs]
      exact (h.kidsLinked s).congr fun q hq =>
        congrArg Process.nextSibling (hother q (h.ne_of_mem_kids hunused hq))
  · intro s
    split
    · exact List.nodup_nil
    · exact h.kidsNodup s
  · intro s c hc
    split at hc
    · cases hc
    · rw [hother c (h.ne_of_mem_kids hunused hc)]
      exact h.kidsMem s c hc

/-- The cursor is on a listed process, so not on an unused slot. -/
theorem LinkInv.cursor_ne {k : Kernel} {l : List Slot} {kids : Slot → List Slot} {p : Slot}
    (h : LinkInv k l kids) (hunused : (k.processTable p).used = false) :
    k.schedulerCursor ≠ some p := by
  obtain ⟨c, hc, hcur⟩ := h.cursor
  rw [hcur]
  exact fun he => h.ne_of_mem hunused hc (Option.some.inj he)

/-- Releasing a record that was never linked: there is nothing to unlink. -/
theorem LinkInv.scrap_eq {k : Kernel} {l : List Slot} {kids : Slot → List Slot} {p : Slot}
    {r : Process} {vm : Vm} (h : LinkInv k l kids) (hp : p ≠ 0)
    (hunused : (k.processTable p).used = false) (hparent : r.parent = none) :
    processRelease (k.withProcess p r vm) p
        = .ok ((Kfs.releaseReady (k.withProcess p r vm) p).modify p fun _ => Process.zero)
      ∧ cursorOff (k.withProcess p r vm) p = k.schedulerCursor
      ∧ ∀ q, q ≠ p →
        (Kfs.releaseReady (k.withProcess p r vm) p).processTable q = k.processTable q := by
  have hkernel : some p ≠ (k.withProcess p r vm).kernelProcess := by
    show some p ≠ k.kernelProcess
    rw [h.kernel]
    exact fun he => hp (Option.some.inj he)
  have hcursor : cursorOff (k.withProcess p r vm) p = k.schedulerCursor := by
    unfold cursorOff
    rw [if_neg]
    · rfl
    · exact h.cursor_ne hunused
  have hready : ∀ q, q ≠ p →
      (Kfs.releaseReady (k.withProcess p r vm) p).processTable q = k.processTable q := fun q hq =>
    (modify_of_ne _ _ _ hq).trans (@withProcess_of_ne k p r vm q hq)
  have hchild : processUnlinkChild (Kfs.releaseReady (k.withProcess p r vm) p) p
      = .ok (Kfs.releaseReady (k.withProcess p r vm) p) := by
    have hnone : ((Kfs.releaseReady (k.withProcess p r vm) p).processTable p).parent = none := by
      unfold Kfs.releaseReady
      rw [modify_self, withProcess_self]
      exact hparent
    unfold processUnlinkChild
    rw [hnone]
  have hlinked : Linked (Kfs.releaseReady (k.withProcess p r vm) p).nextOf
      (Kfs.releaseReady (k.withProcess p r vm) p).processHead l none :=
    h.linked.congr fun q hq => congrArg Process.next (hready q (h.ne_of_mem hunused hq))
  have hglobal : processUnlinkGlobal (Kfs.releaseReady (k.withProcess p r vm) p) p
      = .ok (Kfs.releaseReady (k.withProcess p r vm) p) := by
    have hnone : findPrev (fun q => decide (q = p)) none l = none :=
      findPrev_eq_none fun q hq => decide_eq_false (h.ne_of_mem hunused hq)
    unfold processUnlinkGlobal
    rw [scan_eq hlinked (nodup_length_lt h.nodup), hnone]
    rfl
  refine ⟨?_, hcursor, hready⟩
  unfold processRelease
  rw [if_neg hkernel, moveCursorOff_eq]
  show (processUnlinkChild (Kfs.releaseReady (k.withProcess p r vm) p) p >>= fun k =>
    processUnlinkGlobal k p >>= fun k => pure (k.modify p fun _ => Process.zero)) = _
  rw [hchild]
  show (processUnlinkGlobal (Kfs.releaseReady (k.withProcess p r vm) p) p >>= fun k =>
    pure (k.modify p fun _ => Process.zero)) = _
  rw [hglobal]
  rfl

theorem LinkInv.scrap {k : Kernel} {l : List Slot} {kids : Slot → List Slot} {p : Slot}
    {r : Process} {vm : Vm} (h : LinkInv k l kids) (hp : p ≠ 0)
    (hunused : (k.processTable p).used = false) (hparent : r.parent = none) :
    ∃ k', processRelease (k.withProcess p r vm) p = .ok k'
      ∧ LinkInv k' l fun s => if s = p then [] else kids s := by
  obtain ⟨hrelease, hcursor, hready⟩ := @LinkInv.scrap_eq k l kids p r vm h hp hunused hparent
  exact ⟨_, hrelease, h.emptySlot hunused (modify_self _ _ _)
    (fun q hq => (modify_of_ne _ _ _ hq).trans (hready q hq)) rfl rfl hcursor rfl⟩

/-! ## All effects -/

/-- The list of processes after an effect. -/
def Effect.list (l : List Slot) : Effect → List Slot
  | .spawn p _ _ => l ++ [p]
  | .release c => l.erase c
  | _ => l

section Effects

variable {k k' : Kernel} {l : List Slot} {kids : Slot → List Slot} (h : LinkInv k l kids)

include h

theorem LinkInv.spawned {p : Slot} {parent : Option Slot} {base : Nat}
    (hx : KernelEffect k (.spawn p parent base) k') :
    (k.processTable p).used = false ∧ LinkInv k' (l ++ [p]) (kidsWith kids parent p) := by
  cases hx with
  | spawn call =>
      obtain ⟨-, hunused, vm, memory, k1, -, hlink, rfl⟩ := processCreateInternal_some call
      obtain ⟨k2, hlink', h2⟩ := h.link hunused
        (processLinkChild_childLinked (r := freshProcess _ _ _ memory) parent rfl rfl rfl)
      obtain rfl := Except.ok.inj (hlink.symm.trans hlink')
      exact ⟨hunused, h2.withVm _⟩

theorem LinkInv.missed {base : Nat} (hx : KernelEffect k (.miss base) k') :
    k' = k ∨ ∃ p, (k.processTable p).used = false
      ∧ LinkInv k' l fun s => if s = p then [] else kids s := by
  cases hx with
  | miss call =>
      rcases processCreateInternal_none call with rfl | ⟨p, vm, memory, hp, hunused, -, hrel⟩
      · exact Or.inl rfl
      · obtain ⟨k1, hrel', h1⟩ :=
          h.scrap (r := freshProcess _ _ _ memory) hp hunused rfl
        obtain rfl := Except.ok.inj (hrel.symm.trans hrel')
        exact Or.inr ⟨p, hunused, h1⟩

theorem LinkInv.released {c : Slot} (hx : KernelEffect k (.release c) k') :
    c ≠ 0 ∧ LinkInv k' (l.erase c) (kidsWithout kids c) := by
  cases hx with
  | release hkernel hused call =>
      have hc0 : c ≠ 0 := by
        rintro rfl
        exact hkernel h.kernel.symm
      obtain ⟨k1, call', h1⟩ := h.release ((h.mem c).mpr hused) hc0
      obtain rfl := Except.ok.inj (call.symm.trans call')
      exact ⟨hc0, h1⟩

theorem LinkInv.effect {x : Effect} (hx : KernelEffect k x k') :
    ∃ kids', LinkInv k' (x.list l) kids' := by
  cases x with
  | spawn p parent base => exact ⟨_, (h.spawned hx).2⟩
  | miss base =>
      rcases h.missed hx with rfl | ⟨p, -, h1⟩
      · exact ⟨kids, h⟩
      · exact ⟨_, h1⟩
  | release c => exact ⟨_, (h.released hx).2⟩
  | exit p => exact ⟨kids, h.tame (hx.tame (Or.inl trivial))⟩
  | waitFor parent pid => exact ⟨kids, h.tame (hx.tame (Or.inr ⟨parent, pid, rfl⟩))⟩
  | other => exact ⟨kids, h.tame (hx.tame (Or.inl trivial))⟩

end Effects

/-- The process table is linked up. -/
def Linkage (k : Kernel) : Prop := ∃ l kids, LinkInv k l kids

theorem Linkage.effect {k k' : Kernel} {x : Effect} (h : Linkage k) (hx : KernelEffect k x k') :
    Linkage k' := by
  obtain ⟨l, kids, hl⟩ := h
  obtain ⟨kids', hl'⟩ := hl.effect hx
  exact ⟨_, kids', hl'⟩

theorem Linkage.withVm {k : Kernel} (h : Linkage k) (vm : Vm) : Linkage { k with vm := vm } := by
  obtain ⟨l, kids, hl⟩ := h
  exact ⟨l, kids, hl.withVm vm⟩

theorem linkage_processInit (vm : Vm) : Linkage (processInit vm) := by
  refine ⟨[0], fun _ => [], rfl, rfl, ⟨rfl, rfl⟩, List.nodup_singleton 0, ?_,
    ⟨0, List.mem_singleton_self 0, rfl⟩, rfl, ?_, fun _ => List.nodup_nil,
    fun _ _ hc => (List.not_mem_nil hc).elim⟩
  · intro s
    by_cases hs : s = 0
    · simp [processInit, hs]
    · simp [processInit, hs, Process.zero]
  · intro s
    by_cases hs : s = 0
    · simp [processInit, hs, Process.zero, Linked]
    · simp [processInit, hs, Process.zero, Linked]

theorem Linkage.kernel {k : Kernel} (h : Linkage k) : k.kernelProcess = some 0 := by
  obtain ⟨l, kids, hl⟩ := h
  exact hl.kernel

/-- One step is a run of effects of one of the shapes of its event. -/
theorem Linkage.performs {k k' : Kernel} {label : Event × Reply} (h : Linkage k)
    (hstep : KernelStep k label k') : Performs k label.1 label.2 k' :=
  exec_shape h.kernel hstep.2

/-- A process keeps its slot and its pid until it is reaped. -/
theorem Linkage.lives {k k' : Kernel} {label : Event × Reply} {p : Slot} (h : Linkage k)
    (hstep : KernelStep k label k') (hused : (k.processTable p).used = true)
    (hreap : ¬reaps p label) :
    (k'.processTable p).used = true ∧ (k'.processTable p).pid = (k.processTable p).pid := by
  obtain ⟨effects, hrun, hshape⟩ := h.performs hstep
  have hnot := hshape.release_not_mem hrun hused hreap
  refine (hrun.invariant_trace (I := fun xs k' => Linkage k' ∧ (.release p ∉ xs →
    (k'.processTable p).used = true ∧ (k'.processTable p).pid = (k.processTable p).pid))
    ⟨h, fun _ => ⟨hused, rfl⟩⟩ ?_).2 hnot
  rintro xs k1 x k2 ⟨hl, ih⟩ hx
  refine ⟨hl.effect hx, ?_⟩
  intro hnot
  obtain ⟨hused1, hpid1⟩ := ih fun hmem => hnot (List.mem_append_left _ hmem)
  obtain ⟨hused2, hpid2⟩ := hx.lives hl.kernel hused1 fun heq => hnot (by simp [heq])
  exact ⟨hused2, hpid2.trans hpid1⟩

theorem Linkage.step {k k' : Kernel} {label : Event × Reply} (h : Linkage k)
    (hstep : KernelStep k label k') : Linkage k' := by
  obtain ⟨effects, hrun, -⟩ := h.performs hstep
  exact hrun.invariant h Linkage.effect

end Kfs
