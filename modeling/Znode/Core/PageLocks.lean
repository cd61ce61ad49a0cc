import Mathlib
import Znode.Lib.RefCounts
import Znode.Lib.System
import Znode.Core.Memory

/-!
# The counts of the locked pages

Ranges of memory are locked and unlocked again, the same range perhaps several times, and they may share pages. The
locker of the system always succeeds.

* `LockedPages.lockCalls`, `LockedPages.unlockCalls` : the pages for which the two walks call the locker;
* `Block.overlaps` : a range and a page have a byte in common;
* `mem_pages_iff` : the walk over a range visits exactly the pages that overlap it;
* `RangeLocks.step` : a range is locked, or one that is locked is unlocked;
* `page_counts_exact` : after every run the count of a page is the number of the locked ranges that overlap it, and the
  locker is called for the first range of a page and for the last one.
-/

namespace Znode.Core
open Znode.Lib

namespace LockedPages

/-- The pages `lock_range` passes to `locker_.lock`. -/
def lockCalls (lock : Nat → Bool) : List Nat → LockedPages → List Nat
  | [], _ => []
  | page :: pages, s =>
    (s.lockedPages.get page).elim
      (page :: if lock page then
          lockCalls lock pages { lockedPages := s.lockedPages.insert page 1, locked := insert page s.locked }
        else [])
      fun count => lockCalls lock pages { s with lockedPages := s.lockedPages.insert page (count + 1) }

/-- The pages `unlock_range` passes to `locker_.unlock`. -/
def unlockCalls : List Nat → LockedPages → List Nat
  | [], _ => []
  | page :: pages, s =>
    (s.lockedPages.get page).elim (unlockCalls pages s) fun count =>
      if count = 1 then
        page :: unlockCalls pages { lockedPages := s.lockedPages.erase page, locked := s.locked.erase page }
      else unlockCalls pages { s with lockedPages := s.lockedPages.insert page (count - 1) }

def contains (pageSize : PageSize) (s : LockedPages) (address : Nat) : Bool :=
  (s.lockedPages.get (address &&& Block.pageMask pageSize)).isSome

def empty (s : LockedPages) : Bool := s.lockedPages.size = 0

end LockedPages

/-- A range and the `k`-th page have a byte in common. -/
def Block.overlaps (pageSize : PageSize) (b : Block) (k : Nat) : Bool :=
  b.address < (k + 1) * pageSize.val ∧ k * pageSize.val < b.address + b.size

/-- A range that is not empty, not at the null address, and does not reach the last page. -/
structure Block.Proper (pageSize : PageSize) (b : Block) : Prop where
  address_pos : 0 < b.address
  size_pos : 0 < b.size
  below : b.address + b.size ≤ 2 ^ 64 - pageSize.val

instance (pageSize : PageSize) (b : Block) : Decidable (b.Proper pageSize) :=
  decidable_of_iff (0 < b.address ∧ 0 < b.size ∧ b.address + b.size ≤ 2 ^ 64 - pageSize.val)
    ⟨fun h => ⟨h.1, h.2.1, h.2.2⟩, fun h => ⟨h.address_pos, h.size_pos, h.below⟩⟩

structure RangeLocks where
  pages : LockedPages := {}
  ranges : List Block := []

inductive RangeEvent where
  | lockRange (range : Block)
  | unlockRange (range : Block)
deriving DecidableEq, Repr

namespace RangeLocks

/-- The pages after `lock_range`, with a locker that succeeds. -/
def lockRange (pageSize : PageSize) (s : RangeLocks) (range : Block) : RangeLocks where
  pages := (s.pages.lockRange pageSize (fun _ => true) range).2
  ranges := range :: s.ranges

/-- Only a range that is locked is unlocked. -/
def step (pageSize : PageSize) (s : RangeLocks) : RangeEvent → Option RangeLocks
  | .lockRange range => if range.Proper pageSize then some (s.lockRange pageSize range) else none
  | .unlockRange range =>
    if range ∈ s.ranges then
      (s.pages.unlockRange pageSize range).map fun pages => { pages := pages, ranges := s.ranges.erase range }
    else none

def lockCalls (pageSize : PageSize) (s : RangeLocks) : RangeEvent → List Nat
  | .lockRange range => LockedPages.lockCalls (fun _ => true) (range.pages pageSize) s.pages
  | .unlockRange _ => []

def unlockCalls (pageSize : PageSize) (s : RangeLocks) : RangeEvent → List Nat
  | .lockRange _ => []
  | .unlockRange range => LockedPages.unlockCalls (range.pages pageSize) s.pages

def users (pageSize : PageSize) (s : RangeLocks) (k : Nat) : Nat := s.ranges.countP fun b => b.overlaps pageSize k

end RangeLocks

/-! ## The pages of a range -/

namespace PageSize

theorem exists_eq_two_pow (pageSize : PageSize) : ∃ j ≤ 30, pageSize.val = 2 ^ j := by
  have hne : pageSize.val ≠ 0 := Nat.ne_of_gt (lt_of_lt_of_le (by decide) pageSize.ge)
  obtain ⟨j, hj⟩ := (Nat.and_sub_one_eq_zero_iff_isPowerOfTwo hne).mp pageSize.powerOfTwo
  refine ⟨j, ?_, hj⟩
  have hle := pageSize.le
  rw [hj] at hle
  exact (Nat.pow_le_pow_iff_right (by decide)).mp hle

theorem pos (pageSize : PageSize) : 0 < pageSize.val := lt_of_lt_of_le (by decide) pageSize.ge

end PageSize

namespace Block
variable {pageSize : PageSize} {b : Block}

/-- The mask takes an address to the beginning of its page. -/
theorem and_pageMask (pageSize : PageSize) {address : Nat} (h : address < 2 ^ 64) :
    address &&& pageMask pageSize = address / pageSize.val * pageSize.val := by
  obtain ⟨j, hj, hval⟩ := pageSize.exists_eq_two_pow
  have hmask : pageMask pageSize = (2 ^ (64 - j) - 1) * 2 ^ j := by
    rw [pageMask, hval, Nat.sub_mul, ← Nat.pow_add, Nat.one_mul, Nat.sub_add_cancel (by omega)]
  rw [hmask, hval]
  refine Nat.eq_of_testBit_eq fun i => ?_
  rw [Nat.testBit_and, Nat.testBit_mul_two_pow, Nat.testBit_mul_two_pow, Nat.testBit_two_pow_sub_one,
    Nat.testBit_div_two_pow]
  by_cases hi : j ≤ i
  · rw [Nat.sub_add_cancel hi]
    by_cases h64 : i < 64
    · simp [hi, show i - j < 64 - j by omega]
    · rw [Nat.testBit_lt_two_pow (lt_of_lt_of_le h (Nat.pow_le_pow_right (by decide) (Nat.le_of_not_lt h64)))]
      simp
  · simp [hi]

theorem overlaps_iff (h : b.Proper pageSize) {k : Nat} :
    b.overlaps pageSize k ↔ b.address / pageSize.val ≤ k ∧ k ≤ (b.address + b.size - 1) / pageSize.val := by
  have hsize := h.size_pos
  rw [overlaps, decide_eq_true_iff, ← Nat.div_lt_iff_lt_mul pageSize.pos, Nat.lt_succ_iff,
    Nat.le_div_iff_mul_le pageSize.pos]
  omega

/-- The walk over a range visits the pages that overlap it. -/
theorem mem_pages_iff (h : b.Proper pageSize) {page : Nat} :
    page ∈ b.pages pageSize ↔ ∃ k, page = k * pageSize.val ∧ b.overlaps pageSize k := by
  have hpos := pageSize.pos
  have hbelow := h.below
  have haddress := h.address_pos
  have hsize := h.size_pos
  have hlast : b.address + b.size - 1 < 2 ^ 64 := by omega
  have hle : b.address / pageSize.val ≤ (b.address + b.size - 1) / pageSize.val :=
    Nat.div_le_div_right (by omega)
  unfold pages rangeBoundaries
  rw [if_neg (by omega), Nat.mod_eq_of_lt hlast, and_pageMask pageSize (by omega), and_pageMask pageSize hlast]
  simp only [overlaps_iff h]
  -- the numbers of the first and of the last page
  generalize b.address / pageSize.val = first at hle ⊢
  generalize (b.address + b.size - 1) / pageSize.val = last at hle ⊢
  have hcount : (last * pageSize.val + pageSize.val - first * pageSize.val) / pageSize.val = last + 1 - first := by
    rw [← Nat.succ_mul, ← Nat.sub_mul, Nat.mul_div_cancel _ hpos]
  rw [hcount]
  simp only [List.mem_map, List.mem_range]
  constructor
  · rintro ⟨i, hi, rfl⟩
    exact ⟨first + i, (Nat.add_mul ..).symm, by omega, by omega⟩
  · rintro ⟨k, rfl, hfirst, hlast⟩
    refine ⟨k - first, by omega, ?_⟩
    rw [← Nat.add_mul, Nat.add_sub_cancel' hfirst]

theorem count_pages (h : b.Proper pageSize) (k : Nat) :
    (b.pages pageSize).count (k * pageSize.val) = if b.overlaps pageSize k then 1 else 0 := by
  have hiff : k * pageSize.val ∈ b.pages pageSize ↔ b.overlaps pageSize k := by
    rw [mem_pages_iff h]
    constructor
    · rintro ⟨k', hk', hoverlaps⟩
      rwa [Nat.eq_of_mul_eq_mul_right pageSize.pos hk']
    · exact fun hoverlaps => ⟨k, rfl, hoverlaps⟩
  split_ifs with hoverlaps
  · exact List.count_eq_one_of_mem (b.nodup_pages pageSize) (hiff.mpr hoverlaps)
  · exact List.count_eq_zero.mpr (mt hiff.mp hoverlaps)

end Block

/-! ## The calls of the locker -/

namespace LockedPages
variable {s : LockedPages}

theorem lockCalls_cons (h : s.Exact) (lock : Nat → Bool) (page : Nat) (pages : List Nat) :
    lockCalls lock (page :: pages) s =
      if s.lockedPages.refCount page = 0 then page :: if lock page then lockCalls lock pages (s.retain page) else []
      else lockCalls lock pages (s.retain page) := by
  cases hget : s.lockedPages.get page with
  | none =>
      rw [Table.refCount_of_none hget, if_pos rfl, retain_of_none hget, lockCalls, hget]
      rfl
  | some count =>
      have hne : count ≠ 0 := (h.positive.pos_of_get hget).ne'
      rw [Table.refCount_of_get hget, if_neg hne, h.retain_of_some hget, lockCalls, hget]
      rfl

theorem unlockCalls_cons (h : s.Exact) (page : Nat) (pages : List Nat) :
    unlockCalls (page :: pages) s =
      if s.lockedPages.refCount page = 1 then page :: unlockCalls pages (s.release page)
      else unlockCalls pages (if s.lockedPages.refCount page = 0 then s else s.release page) := by
  cases hget : s.lockedPages.get page with
  | none =>
      rw [Table.refCount_of_none hget, if_neg (by decide), if_pos rfl, unlockCalls, hget]
      rfl
  | some count =>
      have hpos := h.positive.pos_of_get hget
      rw [Table.refCount_of_get hget, unlockCalls, hget, Option.elim_some, if_neg hpos.ne']
      by_cases hone : count = 1
      · subst hone
        rw [if_pos rfl, if_pos rfl, release_of_one hget]
      · rw [if_neg hone, if_neg hone, release_of_some hget (by omega)]

/-- A locker that succeeds is called for the pages without a count. -/
theorem lockCalls_eq (h : s.Exact) {pages : List Nat} (hnodup : pages.Nodup) :
    lockCalls (fun _ => true) pages s = pages.filter fun page => s.lockedPages.refCount page = 0 := by
  induction pages generalizing s with
  | nil => rfl
  | cons page pages ih =>
      obtain ⟨hpage, hnodup⟩ := List.nodup_cons.mp hnodup
      -- the count of this page does not matter for the others
      have hothers : (pages.filter fun k => (s.retain page).lockedPages.refCount k = 0) =
          pages.filter fun k => s.lockedPages.refCount k = 0 := by
        refine List.filter_congr fun k hk => ?_
        have hne : k ≠ page := fun heq => hpage (heq ▸ hk)
        rw [show (s.retain page).lockedPages = s.lockedPages.retain page from rfl, Table.refCount_retain, if_neg hne,
          Nat.add_zero]
      rw [lockCalls_cons h, if_pos rfl, ih (h.retain page) hnodup, hothers, List.filter_cons]
      simp only [decide_eq_true_eq]

/-- The locker is called for the pages that are counted once. -/
theorem unlockCalls_eq (h : s.Exact) {pages : List Nat} (hnodup : pages.Nodup) :
    unlockCalls pages s = pages.filter fun page => s.lockedPages.refCount page = 1 := by
  induction pages generalizing s with
  | nil => rfl
  | cons page pages ih =>
      obtain ⟨hpage, hnodup⟩ := List.nodup_cons.mp hnodup
      have hothers : (pages.filter fun k => (s.release page).lockedPages.refCount k = 1) =
          pages.filter fun k => s.lockedPages.refCount k = 1 := by
        refine List.filter_congr fun k hk => ?_
        have hne : k ≠ page := fun heq => hpage (heq ▸ hk)
        rw [show (s.release page).lockedPages = s.lockedPages.release page from rfl, Table.refCount_release, if_neg hne,
          Nat.sub_zero]
      rw [unlockCalls_cons h, List.filter_cons]
      simp only [decide_eq_true_eq]
      by_cases hone : s.lockedPages.refCount page = 1
      · rw [if_pos hone, if_pos hone, ih (h.release page) hnodup, hothers]
      · rw [if_neg hone, if_neg hone]
        split_ifs
        · exact ih h hnodup
        · rw [ih (h.release page) hnodup, hothers]

/-- The locked pages after `lock_range`: those the locker was called for and could lock are new. -/
theorem mem_locked_lockPages (h : s.Exact) (lock : Nat → Bool) (pages : List Nat) (k : Nat) :
    k ∈ (lockPages lock pages s).2.locked ↔ k ∈ s.locked ∨ k ∈ lockCalls lock pages s ∧ lock k := by
  induction pages generalizing s with
  | nil => simp [lockPages, lockCalls]
  | cons page pages ih =>
      have hretain : k ∈ (s.retain page).locked ↔ k = page ∨ k ∈ s.locked := Finset.mem_insert
      rw [lockPages_cons h, lockCalls_cons h]
      by_cases hcount : s.lockedPages.refCount page = 0
      · by_cases hlock : lock page = true
        · rw [if_neg (by simp [hlock]), if_pos hcount, if_pos hlock, ih (h.retain page), hretain, List.mem_cons]
          by_cases hk : k = page <;> simp [hk, hlock]
        · rw [if_pos ⟨hcount, hlock⟩, if_pos hcount, if_neg hlock, List.mem_singleton]
          by_cases hk : k = page <;> simp [hk, hlock]
      · have hmem : page ∈ s.locked := (h.locked_iff page).mpr (Nat.pos_of_ne_zero hcount)
        rw [if_neg (by simp [hcount]), if_neg hcount, ih (h.retain page), hretain]
        by_cases hk : k = page <;> simp [hk, hmem]

/-- The locked pages after `unlock_range`: those the locker was called for are gone. -/
theorem mem_locked_unlockPages (h : s.Exact) {pages : List Nat} {s' : LockedPages}
    (hrun : unlockPages pages s = some s') (k : Nat) :
    k ∈ s'.locked ↔ k ∈ s.locked ∧ k ∉ unlockCalls pages s := by
  induction pages generalizing s with
  | nil =>
      cases hrun
      simp [unlockCalls]
  | cons page pages ih =>
      rw [unlockPages_cons h] at hrun
      rw [unlockCalls_cons h]
      by_cases hone : s.lockedPages.refCount page = 1
      · have hrelease : (s.release page).locked = s.locked.erase page := if_pos hone.le
        rw [if_neg (by omega)] at hrun
        rw [if_pos hone, ih (h.release page) hrun, hrelease, Finset.mem_erase, List.mem_cons]
        tauto
      · rw [if_neg hone]
        by_cases hzero : s.lockedPages.refCount page = 0
        · rw [if_pos hzero] at hrun ⊢
          exact ih h hrun
        · have hrelease : (s.release page).locked = s.locked := if_neg (by omega)
          rw [if_neg hzero] at hrun ⊢
          rw [ih (h.release page) hrun, hrelease]

/-- A locker that succeeds lets `lock_range` succeed, and all pages are counted. -/
theorem lockPages_succeeds (h : s.Exact) (pages : List Nat) : (lockPages (fun _ => true) pages s).1 = true := by
  induction pages generalizing s with
  | nil => rfl
  | cons page pages ih =>
      rw [lockPages_cons h, if_neg (by simp)]
      exact ih (h.retain page)

end LockedPages

/-! ## The ranges -/

namespace RangeLocks
variable {pageSize : PageSize} {s s' : RangeLocks}

/-- The counts are those of the locked ranges. -/
structure Accounted (pageSize : PageSize) (s : RangeLocks) : Prop where
  exact : s.pages.Exact
  proper : ∀ range ∈ s.ranges, range.Proper pageSize
  counts : ∀ page, s.pages.lockedPages.refCount page = (s.ranges.map fun b => (b.pages pageSize).count page).sum

theorem accounted_empty : Accounted pageSize {} :=
  ⟨LockedPages.exact_empty, fun _ hrange => absurd hrange List.not_mem_nil, fun _ => rfl⟩

theorem lockPages_eq {range : Block} (hrange : range.Proper pageSize) :
    (s.lockRange pageSize range).pages =
      (LockedPages.lockPages (fun _ => true) (range.pages pageSize) s.pages).2 := by
  have haddress := hrange.address_pos
  have hsize := hrange.size_pos
  rw [lockRange, LockedPages.lockRange, if_neg (by omega)]

theorem Accounted.lockRange (h : s.Accounted pageSize) {range : Block} (hrange : range.Proper pageSize) :
    (s.lockRange pageSize range).Accounted pageSize := by
  obtain ⟨hexact, -, hall⟩ := LockedPages.lockPages_spec h.exact (fun _ => true) (range.pages pageSize)
  refine ⟨?_, List.forall_mem_cons.mpr ⟨hrange, h.proper⟩, fun page => ?_⟩
  · rw [lockPages_eq hrange]
    exact hexact
  · rw [lockPages_eq hrange, hall (LockedPages.lockPages_succeeds h.exact _), h.counts, Nat.add_comm]
    rfl

theorem Accounted.unlockRange (h : s.Accounted pageSize) {range : Block} (hrange : range ∈ s.ranges) :
    ∃ pages, s.pages.unlockRange pageSize range = some pages ∧
      Accounted pageSize { pages := pages, ranges := s.ranges.erase range } := by
  obtain ⟨pages, hrun, hexact, hcount⟩ := LockedPages.unlockPages_spec h.exact (range.pages pageSize)
  refine ⟨pages, hrun, hexact, fun b hb => h.proper b (List.mem_of_mem_erase hb), fun page => ?_⟩
  have hsum := List.sum_map_erase (fun b : Block => (b.pages pageSize).count page) hrange
  rw [hcount, h.counts, ← hsum, Nat.add_sub_cancel_left]

theorem Accounted.step (h : s.Accounted pageSize) {e : RangeEvent} (hstep : s.step pageSize e = some s') :
    s'.Accounted pageSize := by
  cases e with
  | lockRange range =>
      simp only [RangeLocks.step] at hstep
      split_ifs at hstep with hrange
      cases hstep
      exact h.lockRange hrange
  | unlockRange range =>
      simp only [RangeLocks.step] at hstep
      split_ifs at hstep with hrange
      obtain ⟨pages, hrun, hnext⟩ := h.unlockRange hrange
      rw [hrun] at hstep
      cases hstep
      exact hnext

theorem sum_count_pages {ranges : List Block} (h : ∀ range ∈ ranges, range.Proper pageSize) (k : Nat) :
    (ranges.map fun b => (b.pages pageSize).count (k * pageSize.val)).sum =
      ranges.countP fun b => b.overlaps pageSize k := by
  induction ranges with
  | nil => rfl
  | cons range ranges ih =>
      obtain ⟨hrange, hranges⟩ := List.forall_mem_cons.mp h
      rw [List.map_cons, List.sum_cons, ih hranges, Block.count_pages hrange, List.countP_cons, Nat.add_comm]

theorem Accounted.refCount_eq (h : s.Accounted pageSize) (k : Nat) :
    s.pages.lockedPages.refCount (k * pageSize.val) = s.users pageSize k :=
  (h.counts _).trans (sum_count_pages h.proper k)

theorem Accounted.contains_iff (h : s.Accounted pageSize) {address : Nat} (haddress : address < 2 ^ 64) :
    s.pages.contains pageSize address ↔ 0 < s.users pageSize (address / pageSize.val) := by
  rw [LockedPages.contains, Block.and_pageMask pageSize haddress, ← h.refCount_eq]
  cases hget : s.pages.lockedPages.get (address / pageSize.val * pageSize.val) with
  | none => simp [Table.refCount_of_none hget]
  | some count => simp [Table.refCount_of_get hget, h.exact.positive.pos_of_get hget]

theorem Accounted.empty_of_nil (h : s.Accounted pageSize) (hranges : s.ranges = []) : s.pages.empty := by
  rw [LockedPages.empty, decide_eq_true_iff]
  by_contra hne
  obtain ⟨count, hnth⟩ := Table.nth_isSome (Nat.pos_of_ne_zero hne)
  obtain ⟨page, hget⟩ := Table.get_of_nth hnth
  have hcount := h.counts page
  rw [Table.refCount_of_get hget, hranges] at hcount
  exact (h.exact.positive.pos_of_get hget).ne' hcount

theorem users_lockRange (s : RangeLocks) (range : Block) (k : Nat) : (s.lockRange pageSize range).users pageSize k =
    s.users pageSize k + if range.overlaps pageSize k then 1 else 0 := List.countP_cons

theorem users_erase (pages : LockedPages) {range : Block} (hrange : range ∈ s.ranges) (k : Nat) :
    s.users pageSize k =
      users pageSize ⟨pages, s.ranges.erase range⟩ k + if range.overlaps pageSize k then 1 else 0 :=
  ((List.perm_cons_erase hrange).countP_eq _).trans List.countP_cons

/-- The locker is called for the pages that get their first range. -/
theorem Accounted.mem_lockCalls_iff (h : s.Accounted pageSize) {range : Block} (hrange : range.Proper pageSize)
    {page : Nat} : page ∈ s.lockCalls pageSize (.lockRange range) ↔
      ∃ k, page = k * pageSize.val ∧ s.users pageSize k = 0 ∧ (s.lockRange pageSize range).users pageSize k = 1 := by
  rw [lockCalls, LockedPages.lockCalls_eq h.exact (range.nodup_pages pageSize), List.mem_filter, decide_eq_true_iff,
    Block.mem_pages_iff hrange]
  constructor
  · rintro ⟨⟨k, rfl, hoverlaps⟩, hcount⟩
    rw [h.refCount_eq] at hcount
    refine ⟨k, rfl, hcount, ?_⟩
    rw [users_lockRange, if_pos hoverlaps, hcount]
  · rintro ⟨k, rfl, hcount, hnext⟩
    refine ⟨⟨k, rfl, ?_⟩, (h.refCount_eq k).trans hcount⟩
    by_contra hoverlaps
    rw [users_lockRange, if_neg hoverlaps, hcount] at hnext
    cases hnext

/-- The locker is called for the pages that lose their last range. -/
theorem Accounted.mem_unlockCalls_iff (h : s.Accounted pageSize) {range : Block} (hrange : range ∈ s.ranges)
    (pages : LockedPages) {page : Nat} : page ∈ s.unlockCalls pageSize (.unlockRange range) ↔
      ∃ k, page = k * pageSize.val ∧ s.users pageSize k = 1 ∧ users pageSize ⟨pages, s.ranges.erase range⟩ k = 0 := by
  rw [unlockCalls, LockedPages.unlockCalls_eq h.exact (range.nodup_pages pageSize), List.mem_filter, decide_eq_true_iff,
    Block.mem_pages_iff (h.proper range hrange)]
  constructor
  · rintro ⟨⟨k, rfl, hoverlaps⟩, hcount⟩
    rw [h.refCount_eq] at hcount
    refine ⟨k, rfl, hcount, ?_⟩
    rw [users_erase pages hrange, if_pos hoverlaps] at hcount
    exact Nat.succ.inj hcount
  · rintro ⟨k, rfl, hcount, hnext⟩
    refine ⟨⟨k, rfl, ?_⟩, (h.refCount_eq k).trans hcount⟩
    by_contra hoverlaps
    rw [users_erase pages hrange, if_neg hoverlaps, hnext] at hcount
    cases hcount

/-- The locker is called for a page exactly when its number of ranges becomes positive, or zero, and these calls are
what changes the pages that are locked. -/
structure CallsExact (pageSize : PageSize) (s s' : RangeLocks) (e : RangeEvent) : Prop where
  lock_nodup : (s.lockCalls pageSize e).Nodup
  lock_iff : ∀ page, page ∈ s.lockCalls pageSize e ↔
    ∃ k, page = k * pageSize.val ∧ s.users pageSize k = 0 ∧ s'.users pageSize k = 1
  unlock_nodup : (s.unlockCalls pageSize e).Nodup
  unlock_iff : ∀ page, page ∈ s.unlockCalls pageSize e ↔
    ∃ k, page = k * pageSize.val ∧ s.users pageSize k = 1 ∧ s'.users pageSize k = 0
  locked_iff : ∀ page, page ∈ s'.pages.locked ↔
    (page ∈ s.pages.locked ∨ page ∈ s.lockCalls pageSize e) ∧ page ∉ s.unlockCalls pageSize e

theorem Accounted.callsExact (h : s.Accounted pageSize) {e : RangeEvent} (hstep : s.step pageSize e = some s') :
    CallsExact pageSize s s' e := by
  cases e with
  | lockRange range =>
      simp only [RangeLocks.step] at hstep
      split_ifs at hstep with hrange
      cases hstep
      refine ⟨?_, fun page => h.mem_lockCalls_iff hrange, List.nodup_nil, fun page => ?_, fun page => ?_⟩
      · rw [lockCalls, LockedPages.lockCalls_eq h.exact (range.nodup_pages pageSize)]
        exact (range.nodup_pages pageSize).filter _
      · -- no number becomes smaller
        refine iff_of_false List.not_mem_nil ?_
        rintro ⟨k, -, hone, hzero⟩
        rw [users_lockRange, hone] at hzero
        omega
      · rw [lockPages_eq hrange, LockedPages.mem_locked_lockPages h.exact]
        simp [lockCalls, unlockCalls]
  | unlockRange range =>
      simp only [RangeLocks.step] at hstep
      split_ifs at hstep with hrange
      obtain ⟨pages, hrun, -⟩ := h.unlockRange hrange
      rw [hrun] at hstep
      cases hstep
      refine ⟨List.nodup_nil, fun page => ?_, ?_, fun page => h.mem_unlockCalls_iff hrange pages, fun page => ?_⟩
      · -- no number becomes larger
        refine iff_of_false List.not_mem_nil ?_
        rintro ⟨k, -, hzero, hone⟩
        rw [users_erase pages hrange, hone] at hzero
        omega
      · rw [unlockCalls, LockedPages.unlockCalls_eq h.exact (range.nodup_pages pageSize)]
        exact (range.nodup_pages pageSize).filter _
      · rw [LockedPages.mem_locked_unlockPages h.exact hrun]
        simp [lockCalls, unlockCalls]

/-- **The counts of the pages are exact.** The count of a page is the number of the locked ranges that overlap it,
`contains` says whether there are any, the locker is called exactly when there is a first one or no more, and without
locked ranges there are no pages. -/
theorem page_counts_exact (pageSize : PageSize) (events : List RangeEvent) {s : RangeLocks}
    (hrun : runSystem (step pageSize) {} events = some s) :
    (∀ k, s.pages.lockedPages.refCount (k * pageSize.val) = s.users pageSize k) ∧
      (∀ address < 2 ^ 64, s.pages.contains pageSize address ↔ 0 < s.users pageSize (address / pageSize.val)) ∧
      (∀ e s', s.step pageSize e = some s' → CallsExact pageSize s s' e) ∧
      (s.ranges = [] → s.pages.empty) := by
  have hstep : ∀ (s : RangeLocks) e s', s.Accounted pageSize → s.step pageSize e = some s' → s'.Accounted pageSize :=
    fun _ _ _ h hstep => h.step hstep
  have h := runSystem_keeps hstep accounted_empty hrun
  exact ⟨h.refCount_eq, fun address => h.contains_iff, fun e s' hnext => h.callsExact hnext, h.empty_of_nil⟩

/-- Two ranges that share a page, and one of them is unlocked. -/
theorem page_counts_exact_shared : ∃ s, runSystem (step Heap.smallPages) {}
    [.lockRange ⟨8000, 200⟩, .lockRange ⟨8200, 100⟩, .unlockRange ⟨8000, 200⟩] = some s ∧
      s.pages.lockedPages.refCount (2 * 4096) = s.users Heap.smallPages 2 ∧ s.users Heap.smallPages 2 = 1 := by
  have hsome : (runSystem (step Heap.smallPages) {}
      [.lockRange ⟨8000, 200⟩, .lockRange ⟨8200, 100⟩, .unlockRange ⟨8000, 200⟩]).any fun s =>
        s.users Heap.smallPages 2 = 1 := by decide +kernel
  rw [Option.any_eq_true] at hsome
  obtain ⟨s, hrun, husers⟩ := hsome
  exact ⟨s, hrun, (page_counts_exact Heap.smallPages _ hrun).1 2, of_decide_eq_true husers⟩

end RangeLocks

end Znode.Core
