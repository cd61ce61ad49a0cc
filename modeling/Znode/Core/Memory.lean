import Mathlib
import Znode.Lib.RefCounts
import Znode.Lib.System

/-!
# Locked memory pages

`LockedPagesManagerBase` counts for each page the blocks that need it locked. `secure_allocator` locks the pages of a
block when it allocates it, whether or not that works, and unlocks them when it deallocates it.

* `LockedPages.lockRange`, `LockedPages.unlockRange` : the two walks over the pages of a block. The first one ends at
  the first page that cannot be locked, the second one visits all pages;
* `Heap`, `Heap.step` : blocks are allocated and deallocated. The answers of the system's page locker are part of the
  event; unlocking always works;
* `Heap.leavesAlone` : the deallocation of a block that could not be locked leaves each of its pages a count for every
  block that needs the page;
* `locked_while_in_use` : then a page stays locked as long as a block needs it.

The contents of the memory, which `deallocate` wipes, are left out. On the last page of the address space the walks of
the source would not end, as the page address wraps around; here it is the last page they visit.
-/

namespace Znode.Core
open Znode.Lib

/-- The page sizes the constructor accepts. -/
structure PageSize where
  val : Nat
  ge : 512 ≤ val
  le : val ≤ 2 ^ 30
  powerOfTwo : val &&& (val - 1) = 0

structure Block where
  address : Nat
  size : Nat
deriving DecidableEq, Repr

namespace Block

/-- `page_mask_`, the complement of `page_size_ - 1`. -/
def pageMask (pageSize : PageSize) : Nat := 2 ^ 64 - pageSize.val

def rangeBoundaries (pageSize : PageSize) (b : Block) : Nat × Nat :=
  (b.address &&& pageMask pageSize, (b.address + b.size - 1) % 2 ^ 64 &&& pageMask pageSize)

/-- The walk from the first page to the last one; a block without an address or a size has no pages. -/
def pages (pageSize : PageSize) (b : Block) : List Nat :=
  if b.address = 0 ∨ b.size = 0 then []
  else
    let (start, last) := b.rangeBoundaries pageSize
    (List.range ((last + pageSize.val - start) / pageSize.val)).map fun i => start + i * pageSize.val

theorem nodup_pages (pageSize : PageSize) (b : Block) : (b.pages pageSize).Nodup := by
  unfold pages
  split_ifs
  · exact List.nodup_nil
  · refine List.nodup_range.map fun i j hij => ?_
    have hpos : 0 < pageSize.val := lt_of_lt_of_le (by decide) pageSize.ge
    exact Nat.eq_of_mul_eq_mul_right hpos (Nat.add_left_cancel hij)

end Block

/-- The counts of `locked_pages_`, and the pages the system has locked. -/
structure LockedPages where
  lockedPages : Table Nat := ∅
  locked : Finset Nat := ∅

namespace LockedPages

/-- The loop of `lock_range`: what it returns, and the pages afterwards. -/
def lockPages (lock : Nat → Bool) : List Nat → LockedPages → Bool × LockedPages
  | [], s => (true, s)
  | page :: pages, s =>
    match s.lockedPages.get page with
    | some count => lockPages lock pages { s with lockedPages := s.lockedPages.insert page (count + 1) }
    | none =>
      if lock page then
        lockPages lock pages { lockedPages := s.lockedPages.insert page 1, locked := insert page s.locked }
      else (false, s)

def lockRange (pageSize : PageSize) (lock : Nat → Bool) (b : Block) (s : LockedPages) : Bool × LockedPages :=
  if b.address = 0 ∨ b.size = 0 then (false, s) else lockPages lock (b.pages pageSize) s

/-- The loop of `unlock_range`; there is nothing when the assertion fails. -/
def unlockPages : List Nat → LockedPages → Option LockedPages
  | [], s => some s
  | page :: pages, s =>
    match s.lockedPages.get page with
    | none => unlockPages pages s
    | some 0 => none
    | some (count + 1) =>
      if count = 0 then
        unlockPages pages { lockedPages := s.lockedPages.erase page, locked := s.locked.erase page }
      else unlockPages pages { s with lockedPages := s.lockedPages.insert page count }

def unlockRange (pageSize : PageSize) (b : Block) (s : LockedPages) : Option LockedPages :=
  unlockPages (b.pages pageSize) s

end LockedPages

/-! ## The heap -/

/-- A block in use, and what `lock_range` returned for it. -/
structure Lease where
  block : Block
  locked : Bool
deriving DecidableEq, Repr

structure Heap where
  pages : LockedPages := {}
  leases : List Lease := []

inductive HeapEvent where
  | allocate (block : Block) (lock : Nat → Bool)
  | deallocate (block : Block)

namespace Heap

def disjoint (a b : Block) : Bool := a.address + a.size ≤ b.address ∨ b.address + b.size ≤ a.address

/-- Blocks do not overlap, and only a block in use is deallocated. -/
def step (pageSize : PageSize) (s : Heap) : HeapEvent → Option Heap
  | .allocate block lock =>
    if s.leases.all fun l => disjoint l.block block then
      let (locked, pages) := s.pages.lockRange pageSize lock block
      some { pages := pages, leases := ⟨block, locked⟩ :: s.leases }
    else none
  | .deallocate block =>
    match s.leases.find? fun l => l.block = block with
    | none => none
    | some lease => (s.pages.unlockRange pageSize block).map fun pages =>
        { pages := pages, leases := s.leases.erase lease }

/-- The pages of the blocks that could be locked are locked. -/
def Secure (pageSize : PageSize) (s : Heap) : Prop :=
  ∀ l ∈ s.leases, l.locked → ∀ page ∈ l.block.pages pageSize, page ∈ s.pages.locked

/-- The blocks in use that have the page locked. -/
def needed (pageSize : PageSize) (s : Heap) (page : Nat) : Nat :=
  s.leases.countP fun l => l.locked ∧ page ∈ l.block.pages pageSize

/-- When a block that could not be locked is deallocated, its pages keep a count for each block that needs them. -/
def leavesAlone (pageSize : PageSize) (s : Heap) : HeapEvent → Prop
  | .allocate _ _ => True
  | .deallocate block => ∀ l ∈ s.leases, l.block = block → ¬ l.locked → ∀ page ∈ block.pages pageSize,
      s.needed pageSize page ≤ s.pages.lockedPages.refCount page - 1

instance (pageSize : PageSize) (s : Heap) : Decidable (s.Secure pageSize) :=
  inferInstanceAs (Decidable (∀ l ∈ s.leases, l.locked → ∀ page ∈ l.block.pages pageSize, page ∈ s.pages.locked))

instance (pageSize : PageSize) (s : Heap) : ∀ e, Decidable (s.leavesAlone pageSize e)
  | .allocate _ _ => inferInstanceAs (Decidable True)
  | .deallocate block => inferInstanceAs (Decidable (∀ l ∈ s.leases, l.block = block → ¬ l.locked →
      ∀ page ∈ block.pages pageSize, s.needed pageSize page ≤ s.pages.lockedPages.refCount page - 1))

end Heap

/-! ## The counts -/

namespace LockedPages

/-- The system's pages are those with a count. -/
structure Exact (s : LockedPages) : Prop where
  positive : s.lockedPages.Positive
  locked_iff : ∀ page, page ∈ s.locked ↔ 0 < s.lockedPages.refCount page

theorem exact_empty : Exact {} := ⟨Table.positive_empty, by simp⟩

variable {s : LockedPages}

def retain (s : LockedPages) (page : Nat) : LockedPages where
  lockedPages := s.lockedPages.retain page
  locked := insert page s.locked

def release (s : LockedPages) (page : Nat) : LockedPages where
  lockedPages := s.lockedPages.release page
  locked := if s.lockedPages.refCount page ≤ 1 then s.locked.erase page else s.locked

theorem Exact.retain (h : s.Exact) (page : Nat) : (s.retain page).Exact := by
  refine ⟨h.positive.retain page, fun k => ?_⟩
  change k ∈ insert page s.locked ↔ 0 < (s.lockedPages.retain page).refCount k
  rw [Finset.mem_insert, h.locked_iff, Table.refCount_retain]
  split_ifs with hk
  · simp [hk]
  · simp [hk]

theorem Exact.release (h : s.Exact) (page : Nat) : (s.release page).Exact := by
  refine ⟨h.positive.release page, fun k => ?_⟩
  change k ∈ (if s.lockedPages.refCount page ≤ 1 then s.locked.erase page else s.locked) ↔
    0 < (s.lockedPages.release page).refCount k
  rw [Table.refCount_release]
  by_cases hk : k = page
  · subst hk
    rw [if_pos rfl]
    split_ifs with hone
    · simp only [Finset.mem_erase, ne_eq, not_true, false_and, false_iff]
      omega
    · rw [h.locked_iff]
      omega
  · rw [if_neg hk, Nat.sub_zero, ← h.locked_iff]
    split_ifs
    · simp [hk]
    · rfl

theorem retain_of_none {page : Nat} (hget : s.lockedPages.get page = none) :
    s.retain page = { lockedPages := s.lockedPages.insert page 1, locked := insert page s.locked } := by
  rw [retain, Table.retain, Table.refCount_of_none hget]

theorem Exact.retain_of_some (h : s.Exact) {page count : Nat} (hget : s.lockedPages.get page = some count) :
    s.retain page = { s with lockedPages := s.lockedPages.insert page (count + 1) } := by
  have hcount := Table.refCount_of_get hget
  have hmem : page ∈ s.locked := (h.locked_iff page).mpr (hcount ▸ h.positive.pos_of_get hget)
  rw [LockedPages.retain, Table.retain, hcount, Finset.insert_eq_of_mem hmem]

theorem release_of_one {page : Nat} (hget : s.lockedPages.get page = some 1) :
    s.release page = { lockedPages := s.lockedPages.erase page, locked := s.locked.erase page } := by
  rw [release, Table.release, Table.refCount_of_get hget, if_pos (le_refl 1), if_pos (le_refl 1)]

theorem release_of_some {page count : Nat} (hget : s.lockedPages.get page = some count) (hcount : 1 < count) :
    s.release page = { s with lockedPages := s.lockedPages.insert page (count - 1) } := by
  rw [release, Table.release, Table.refCount_of_get hget, if_neg hcount.not_ge, if_neg hcount.not_ge]

theorem lockPages_cons (h : s.Exact) (lock : Nat → Bool) (page : Nat) (pages : List Nat) :
    lockPages lock (page :: pages) s =
      if s.lockedPages.refCount page = 0 ∧ ¬ lock page then (false, s) else lockPages lock pages (s.retain page) := by
  cases hget : s.lockedPages.get page with
  | none =>
      rw [Table.refCount_of_none hget, retain_of_none hget]
      simp only [lockPages, hget, true_and]
      by_cases hlock : lock page <;> simp [hlock]
  | some count =>
      have hne : count ≠ 0 := (h.positive.pos_of_get hget).ne'
      rw [Table.refCount_of_get hget, if_neg (by simp [hne]), h.retain_of_some hget]
      simp only [lockPages, hget]

/-- `lock_range` counts no page down, and when it succeeds it has counted all of them. -/
theorem lockPages_spec (h : s.Exact) (lock : Nat → Bool) (pages : List Nat) :
    (lockPages lock pages s).2.Exact ∧
      (∀ page, s.lockedPages.refCount page ≤ (lockPages lock pages s).2.lockedPages.refCount page) ∧
      ((lockPages lock pages s).1 → ∀ page, (lockPages lock pages s).2.lockedPages.refCount page =
        s.lockedPages.refCount page + pages.count page) := by
  induction pages generalizing s with
  | nil => exact ⟨h, fun _ => le_rfl, fun _ _ => rfl⟩
  | cons page pages ih =>
      rw [lockPages_cons h]
      split_ifs with hfail
      · exact ⟨h, fun _ => le_rfl, fun hret => absurd hret (by simp)⟩
      · have hretain (k : Nat) : (s.retain page).lockedPages.refCount k = _ :=
          Table.refCount_retain s.lockedPages page k
        obtain ⟨hexact, hle, hall⟩ := ih (h.retain page)
        refine ⟨hexact, fun k => le_trans ?_ (hle k), fun hret k => ?_⟩
        · rw [hretain]
          exact Nat.le_add_right _ _
        · rw [hall hret, hretain]
          simp only [List.count_cons, beq_iff_eq, eq_comm (a := page)]
          omega

theorem unlockPages_cons (h : s.Exact) (page : Nat) (pages : List Nat) :
    unlockPages (page :: pages) s =
      unlockPages pages (if s.lockedPages.refCount page = 0 then s else s.release page) := by
  cases hget : s.lockedPages.get page with
  | none =>
      rw [Table.refCount_of_none hget, if_pos rfl]
      simp only [unlockPages, hget]
  | some count =>
      have hpos := h.positive.pos_of_get hget
      obtain ⟨count, rfl⟩ := Nat.exists_eq_succ_of_ne_zero hpos.ne'
      rw [Table.refCount_of_get hget, if_neg (Nat.succ_ne_zero count)]
      simp only [unlockPages, hget]
      by_cases hone : count = 0
      · subst hone
        rw [if_pos rfl, release_of_one hget]
      · rw [if_neg hone, release_of_some hget (by omega), Nat.succ_sub_one]

/-- `unlock_range` takes one from the count of every page. -/
theorem unlockPages_spec (h : s.Exact) (pages : List Nat) :
    ∃ s', unlockPages pages s = some s' ∧ s'.Exact ∧
      ∀ page, s'.lockedPages.refCount page = s.lockedPages.refCount page - pages.count page := by
  induction pages generalizing s with
  | nil => exact ⟨s, rfl, h, fun _ => rfl⟩
  | cons page pages ih =>
      rw [unlockPages_cons h]
      have hnext : (if s.lockedPages.refCount page = 0 then s else s.release page).Exact := by
        split_ifs
        · exact h
        · exact h.release page
      have hrelease (k : Nat) : (s.release page).lockedPages.refCount k = _ :=
        Table.refCount_release s.lockedPages page k
      obtain ⟨s', hrun, hexact, hcount⟩ := ih hnext
      refine ⟨s', hrun, hexact, fun k => ?_⟩
      rw [hcount]
      simp only [List.count_cons, beq_iff_eq, eq_comm (a := page)]
      split_ifs with hzero hk hk
      · rw [hk]
        omega
      · omega
      · rw [hrelease, if_pos hk]
        omega
      · rw [hrelease, if_neg hk]
        omega

end LockedPages

namespace Heap

/-- Every page has a count for each block that needs it. -/
structure Covered (pageSize : PageSize) (s : Heap) : Prop where
  exact : s.pages.Exact
  needed_le : ∀ page, s.needed pageSize page ≤ s.pages.lockedPages.refCount page

variable {pageSize : PageSize} {s s' : Heap}

theorem covered_empty : Covered pageSize {} := ⟨LockedPages.exact_empty, fun _ => Nat.zero_le _⟩

theorem needed_cons (pageSize : PageSize) (pages : LockedPages) (l : Lease) (leases : List Lease) (page : Nat) :
    needed pageSize ⟨pages, l :: leases⟩ page =
      needed pageSize ⟨pages, leases⟩ page + if l.locked ∧ page ∈ l.block.pages pageSize then 1 else 0 := by
  simp only [needed, List.countP_cons, decide_eq_true_eq]

theorem needed_erase (pages : LockedPages) {l : Lease} (hl : l ∈ s.leases) (page : Nat) :
    s.needed pageSize page = needed pageSize ⟨pages, s.leases.erase l⟩ page +
      if l.locked ∧ page ∈ l.block.pages pageSize then 1 else 0 :=
  ((List.perm_cons_erase hl).countP_eq _).trans (needed_cons pageSize pages l _ page)

theorem Covered.secure (h : Covered pageSize s) : s.Secure pageSize := by
  intro l hl hlocked page hpage
  rw [h.exact.locked_iff]
  have hneeded : 0 < s.needed pageSize page :=
    List.countP_pos_iff.mpr ⟨l, hl, decide_eq_true ⟨hlocked, hpage⟩⟩
  exact hneeded.trans_le (h.needed_le page)

theorem Covered.allocate (h : Covered pageSize s) {block : Block} {lock : Nat → Bool}
    (hstep : s.step pageSize (.allocate block lock) = some s') : Covered pageSize s' := by
  simp only [step] at hstep
  split_ifs at hstep
  cases hstep
  unfold LockedPages.lockRange
  split_ifs with hnull
  · refine ⟨h.exact, fun page => ?_⟩
    rw [needed_cons, if_neg (by simp)]
    exact h.needed_le page
  · obtain ⟨hexact, hle, hall⟩ := LockedPages.lockPages_spec h.exact lock (block.pages pageSize)
    refine ⟨hexact, fun page => ?_⟩
    have hneeded := h.needed_le page
    rw [needed_cons]
    split_ifs with hnew
    · -- all pages of the block were counted
      have hcount := List.count_pos_iff.mpr hnew.2
      rw [hall hnew.1]
      exact Nat.add_le_add hneeded hcount
    · exact hneeded.trans (hle page)

theorem Covered.deallocate (h : Covered pageSize s) {block : Block}
    (halone : s.leavesAlone pageSize (.deallocate block)) (hstep : s.step pageSize (.deallocate block) = some s') :
    Covered pageSize s' := by
  simp only [step] at hstep
  split at hstep
  · cases hstep
  · rename_i lease hfind
    have hmem : lease ∈ s.leases := List.mem_of_find?_eq_some hfind
    have hblock : lease.block = block := by simpa using List.find?_some hfind
    obtain ⟨pages, hrun, hexact, hcount⟩ := LockedPages.unlockPages_spec h.exact (block.pages pageSize)
    rw [LockedPages.unlockRange, hrun] at hstep
    cases hstep
    refine ⟨hexact, fun page => ?_⟩
    have hneeded := h.needed_le page
    have hleft : s.needed pageSize page = _ := needed_erase pages hmem page
    rw [hblock] at hleft
    change needed pageSize ⟨pages, s.leases.erase lease⟩ page ≤ pages.lockedPages.refCount page
    rw [hcount]
    by_cases hpage : page ∈ block.pages pageSize
    · rw [List.count_eq_one_of_mem (block.nodup_pages pageSize) hpage]
      by_cases hlocked : lease.locked
      · -- the block no longer needs the page
        rw [if_pos ⟨hlocked, hpage⟩] at hleft
        omega
      · have hkept := halone lease hmem hblock hlocked page hpage
        omega
    · rw [List.count_eq_zero.mpr hpage]
      omega

/-- **Memory stays locked while it is in use**, in every run in which the deallocation of a block that could not be
locked leaves a count for each block that needs a page of it. -/
theorem locked_while_in_use (pageSize : PageSize) (events : List HeapEvent) {s : Heap}
    (hrun : runSystem (step pageSize) {} events = some s)
    (halone : Throughout (step pageSize) (leavesAlone pageSize) {} events) : s.Secure pageSize := by
  have hstep : ∀ (s : Heap) e s', Covered pageSize s → s.leavesAlone pageSize e → s.step pageSize e = some s' →
      Covered pageSize s' := by
    intro s e s' h halone hstep
    cases e with
    | allocate block lock => exact h.allocate hstep
    | deallocate block => exact h.deallocate halone hstep
  exact (runSystem_invariant hstep covered_empty halone hrun).secure

def smallPages : PageSize := ⟨4096, by decide, by decide, by decide⟩

/-- A block over the end of a page, one behind it on the next page, and the first one is given back. -/
def sharedPage (lock : Nat → Bool) : List HeapEvent :=
  [.allocate ⟨8000, 200⟩ lock, .allocate ⟨8200, 100⟩ lock, .deallocate ⟨8000, 200⟩]

theorem locked_while_in_use_shared :
    ∃ s, runSystem (step smallPages) {} (sharedPage fun _ => true) = some s ∧ (∃ l ∈ s.leases, l.locked) ∧
      s.Secure smallPages := by
  have hsome : (runSystem (step smallPages) {} (sharedPage fun _ => true)).any fun s =>
      s.leases.any fun l => l.locked := by decide +kernel
  rw [Option.any_eq_true] at hsome
  obtain ⟨s, hrun, hlease⟩ := hsome
  exact ⟨s, hrun, List.any_eq_true.mp hlease, locked_while_in_use smallPages _ hrun (by decide +kernel)⟩

/-- The first page cannot be locked, so nothing is counted for the first block; deallocating it unlocks the page of the
second one. -/
theorem unlocked_while_in_use : ∃ s,
    runSystem (step smallPages) {} (sharedPage fun page => page ≠ 4096) = some s ∧ ¬ s.Secure smallPages := by
  have hsome : (runSystem (step smallPages) {} (sharedPage fun page => page ≠ 4096)).any fun s =>
      ¬ s.Secure smallPages := by decide +kernel
  rw [Option.any_eq_true] at hsome
  obtain ⟨s, hrun, hunlocked⟩ := hsome
  exact ⟨s, hrun, of_decide_eq_true hunlocked⟩

end Heap

end Znode.Core
