import Mathlib.Data.List.Chain
import Mathlib.Data.List.Nodup
import Kfs.Lib.Run

/-!
# Pointer chains

`Linked next p l q` says that following `next` from the pointer `p` visits
exactly the nodes of `l`, in order, and then arrives at `q`. A `NULL`
terminated list of a C program is the case `q = none`; a list segment is the
general case, and `linked_append` splits one.

`scan` is the one loop all list walks of a C program are instances of: a
cursor and its predecessor run down the chain until a test succeeds. It is
given the number of distinct pointers as its bound: a walk that takes more
steps has come back to a node, and since a walk writes nothing it will never
end, so running out is `Fault.diverge` and nothing else is. On a chain that
ends, `scan` is `findPrev` on the list of nodes (`scan_eq`).

The last section has the two edits: `Linked.extend` links a node at the end
and `Linked.remove` unlinks one behind its predecessor. Both ask for the new
`next` pointwise, so that they apply whatever else the write changed.
-/

namespace Kfs

variable {α : Type}

def Linked (next : α → Option α) : Option α → List α → Option α → Prop
  | p, [], q => p = q
  | p, x :: l, q => p = some x ∧ Linked next (next x) l q

instance decidableLinked [DecidableEq α] (next : α → Option α) (q : Option α) :
    (p : Option α) → (l : List α) → Decidable (Linked next p l q)
  | p, [] => inferInstanceAs (Decidable (p = q))
  | p, x :: l =>
      have := decidableLinked next q (next x) l
      inferInstanceAs (Decidable (p = some x ∧ Linked next (next x) l q))

/-! ## Walking a chain -/

/-- `previous = NULL; while (cursor != NULL) { if (test(cursor)) return;
previous = cursor; cursor = cursor->next; }`, giving the predecessor and the
node the test stopped at. -/
def scan (next : α → Option α) (test : α → Bool) :
    Nat → Option α → Option α → Except Fault (Option (Option α × α))
  | 0, _, _ => .error .diverge
  | _ + 1, _, none => .ok none
  | fuel + 1, previous, some x =>
      if test x then .ok (some (previous, x))
      else scan next test fuel (some x) (next x)

/-- The same walk where the loop keeps no predecessor. -/
def search (next : α → Option α) (test : α → Bool) (fuel : Nat) (p : Option α) :
    Except Fault (Option α) :=
  (scan next test fuel none p).map (Option.map Prod.snd)

/-- `scan` on the list of visited nodes. -/
def findPrev (test : α → Bool) : Option α → List α → Option (Option α × α)
  | _, [] => none
  | previous, x :: l =>
      if test x then some (previous, x) else findPrev test (some x) l

theorem scan_eq {next : α → Option α} {test : α → Bool} :
    ∀ {l : List α} {fuel : Nat} {previous p : Option α},
      Linked next p l none → l.length < fuel →
      scan next test fuel previous p = .ok (findPrev test previous l)
  | [], fuel + 1, _, _, h, _ => by
      obtain rfl : _ = none := h
      rfl
  | x :: l, fuel + 1, previous, _, h, hlen => by
      obtain ⟨rfl, hl⟩ := h
      simp only [scan, findPrev]
      split
      · rfl
      · exact scan_eq hl (by simpa using hlen)

theorem findPrev_snd {test : α → Bool} : ∀ (l : List α) (previous : Option α),
    (findPrev test previous l).map Prod.snd = l.find? test
  | [], _ => rfl
  | x :: l, previous => by
      simp only [findPrev, List.find?_cons]
      cases test x with
      | true => rfl
      | false => exact findPrev_snd l (some x)

theorem search_eq {next : α → Option α} {test : α → Bool} {l : List α} {fuel : Nat}
    {p : Option α} (h : Linked next p l none) (hlen : l.length < fuel) :
    search next test fuel p = .ok (l.find? test) := by
  rw [search, scan_eq h hlen, ← findPrev_snd l none]
  rfl

/-- A walk stops at a node that passes the test, on any chain. -/
theorem scan_test {next : α → Option α} {test : α → Bool} {x : α} {v : Option α} :
    ∀ {fuel : Nat} {previous p : Option α},
      scan next test fuel previous p = .ok (some (v, x)) → test x = true
  | _ + 1, _, none, h => by cases Except.ok.inj h
  | fuel + 1, previous, some y, h => by
      rw [scan] at h
      split at h
      · obtain ⟨-, rfl⟩ := Prod.mk.inj (Option.some.inj (Except.ok.inj h))
        assumption
      · exact scan_test h

theorem search_test {next : α → Option α} {test : α → Bool} {fuel : Nat} {p : Option α} {x : α}
    (h : search next test fuel p = .ok (some x)) : test x = true := by
  unfold search at h
  cases hscan : scan next test fuel none p with
  | error e => rw [hscan] at h; cases h
  | ok r =>
      rw [hscan] at h
      obtain ⟨⟨v, y⟩, rfl, rfl⟩ := Option.map_eq_some_iff.mp (Except.ok.inj h)
      exact scan_test hscan

theorem findPrev_eq_none {test : α → Bool} {l : List α} {previous : Option α}
    (h : ∀ x ∈ l, test x = false) : findPrev test previous l = none := by
  have hsnd := @findPrev_snd _ test l previous
  rw [List.find?_eq_none.mpr (fun x hx => by simp [h x hx])] at hsnd
  simpa using hsnd

/-- Where the walk for one node of a duplicate-free list stops: at the node,
with the node before it (or the initial predecessor). -/
theorem findPrev_append [DecidableEq α] {x : α} : ∀ {xs ys : List α} {previous : Option α},
    x ∉ xs → findPrev (fun y => decide (y = x)) previous (xs ++ x :: ys)
      = some (xs.getLast?.or previous, x)
  | [], _, _, _ => by simp [findPrev]
  | z :: xs, ys, previous, h => by
      rw [List.mem_cons, not_or] at h
      obtain ⟨hzx, hxs⟩ := h
      rw [List.cons_append, findPrev, if_neg (by simpa using fun he => hzx he.symm),
        findPrev_append hxs]
      cases xs with
      | nil => rfl
      | cons w xs => rw [List.getLast?_cons_cons]; rfl

/-! ## Segments -/

section Segments

variable {next next' : α → Option α} {p q : Option α}

theorem linked_append {xs ys : List α} :
    Linked next p (xs ++ ys) q ↔ ∃ r, Linked next p xs r ∧ Linked next r ys q := by
  induction xs generalizing p with
  | nil => simp [Linked]
  | cons x xs ih =>
      simp only [List.cons_append, Linked, ih]
      constructor
      · rintro ⟨hp, r, hxs, hys⟩
        exact ⟨r, ⟨hp, hxs⟩, hys⟩
      · rintro ⟨r, ⟨hp, hxs⟩, hys⟩
        exact ⟨hp, r, hxs, hys⟩

theorem Linked.congr : ∀ {l : List α} {p : Option α}, Linked next p l q →
    (∀ x ∈ l, next' x = next x) → Linked next' p l q
  | [], _, h, _ => h
  | x :: l, _, ⟨hp, hl⟩, hsame => by
      refine ⟨hp, ?_⟩
      rw [hsame x List.mem_cons_self]
      exact hl.congr fun y hy => hsame y (List.mem_cons_of_mem _ hy)

/-- A chain determines its list of nodes. -/
theorem Linked.unique : ∀ {l l' : List α} {p : Option α},
    Linked next p l none → Linked next p l' none → l = l'
  | [], [], _, _, _ => rfl
  | [], _ :: _, _, h, h' => by
      obtain rfl : _ = none := h
      cases h'.1
  | _ :: _, [], _, h, h' => by
      obtain rfl : _ = none := h'
      cases h.1
  | x :: l, y :: l', _, ⟨hp, hl⟩, ⟨hp', hl'⟩ => by
      obtain rfl : x = y := Option.some.inj (hp.symm.trans hp')
      rw [hl.unique hl']

/-- A list of nodes determines the chain. -/
theorem Linked.agree : ∀ {l : List α} {p p' : Option α}, Linked next p l q → Linked next' p' l q →
    p' = p ∧ ∀ x ∈ l, next' x = next x
  | [], _, _, h, h' => ⟨h'.trans h.symm, nofun⟩
  | x :: l, _, _, ⟨hp, hl⟩, ⟨hp', hl'⟩ => by
      obtain ⟨hnext, hrest⟩ := hl.agree hl'
      exact ⟨hp'.trans hp.symm, List.forall_mem_cons.mpr ⟨hnext, hrest⟩⟩

theorem Linked.isChain : ∀ {l : List α} {p : Option α}, Linked next p l q →
    l.IsChain fun x y => next x = some y
  | [], _, _ => .nil
  | [x], _, _ => .singleton x
  | _ :: _ :: _, _, ⟨_, hl⟩ => List.isChain_cons_cons.mpr ⟨hl.1, hl.isChain⟩

/-- The successor of a node inside a chain is the node after it. -/
theorem Linked.next_eq {xs ys : List α} {x y : α}
    (h : Linked next p (xs ++ x :: y :: ys) q) : next x = some y := by
  obtain ⟨_, -, -, hy, -⟩ := linked_append.mp h
  exact hy

theorem Linked.next_last {xs : List α} {x : α} (h : Linked next p (xs ++ [x]) q) :
    next x = q := by
  obtain ⟨_, -, -, hq⟩ := linked_append.mp h
  exact hq

/-- Only the last node of a `NULL` terminated chain has no successor. -/
theorem Linked.next_isSome {xs : List α} {t x : α} (h : Linked next p (xs ++ [t]) none)
    (hx : x ∈ xs) : (next x).isSome = true := by
  obtain ⟨us, vs, rfl⟩ := List.append_of_mem hx
  cases vs with
  | nil =>
      rw [List.append_assoc] at h
      simp [h.next_eq]
  | cons v vs =>
      have hnext : Linked next p (us ++ x :: v :: (vs ++ [t])) none := by simpa using h
      simp [hnext.next_eq]

/-- So the walk to the tail stops there. -/
theorem Linked.find?_last {xs : List α} {t : α} (h : Linked next p (xs ++ [t]) none) :
    (xs ++ [t]).find? (fun x => (next x).isNone) = some t := by
  rw [List.find?_append]
  have hxs : xs.find? (fun x => (next x).isNone) = none := by
    rw [List.find?_eq_none]
    intro x hx
    simp [Option.isNone_eq_false_iff.mpr (h.next_isSome hx)]
  simp [hxs, h.next_last]

/-! ## Edits -/

theorem Linked.extend {xs : List α} {t x : α} (h : Linked next p (xs ++ [t]) none)
    (ht : next' t = some x) (hx : next' x = none)
    (hsame : ∀ y ∈ xs, next' y = next y) : Linked next' p (xs ++ [t, x]) none := by
  obtain ⟨r, hxs, hr, -⟩ := linked_append.mp h
  exact linked_append.mpr ⟨r, hxs.congr hsame, hr, ht, hx⟩

theorem Linked.remove {xs ys : List α} {v x : α}
    (h : Linked next p (xs ++ v :: x :: ys) q) (hv : next' v = next x)
    (hsame : ∀ y ∈ xs ++ ys, next' y = next y) : Linked next' p (xs ++ v :: ys) q := by
  obtain ⟨r, hxs, hr, -, hys⟩ := linked_append.mp h
  refine linked_append.mpr
    ⟨r, hxs.congr fun y hy => hsame y (List.mem_append_left _ hy), hr, ?_⟩
  rw [hv]
  exact hys.congr fun y hy => hsame y (List.mem_append_right _ hy)

end Segments

end Kfs
