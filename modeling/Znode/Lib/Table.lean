import Mathlib.Data.List.AList
import Mathlib.Data.Finset.Sort

/-!
# Tables

A table is a finite map from numbers, an association list without repeated keys.

* `Table.get` after `insert`, `erase` and `eraseAll`;
* `Table.find?`, the key of a value; `Table.ascending`, the entries in the order of the keys;
* `Inverse t refs` : the table `t` holds at `s` the one `k` with `s ∈ refs k`, kept when a reference is added,
  dropped, or when all references of a key are dropped;
* `Counted n refs` : `n` keys have references. `Placed t n refs` : a table with such a counter.
-/

namespace Znode.Lib

/-- Finite maps from numbers. -/
abbrev Table (α : Type) := AList fun _ : Nat => α

namespace Table
variable {α : Type} (t : Table α) (k k' : Nat) (a : α)

def get : Option α := AList.lookup k t

@[simp] theorem get_empty : get (∅ : Table α) k = none := AList.lookup_empty k

theorem get_insert : get (t.insert k a) k' = if k' = k then some a else get t k' := by
  unfold get
  split_ifs with h
  · subst h
    exact AList.lookup_insert t
  · exact AList.lookup_insert_ne h

theorem get_erase : get (t.erase k) k' = if k' = k then none else get t k' := by
  unfold get
  split_ifs with h
  · subst h
    exact AList.lookup_erase k' t
  · exact AList.lookup_erase_ne h

def eraseAll (ks : List Nat) : Table α := ks.foldl (fun t k => t.erase k) t

theorem get_eraseAll (ks : List Nat) : get (eraseAll t ks) k = if k ∈ ks then none else get t k := by
  induction ks generalizing t with
  | nil => rfl
  | cons k' ks ih =>
      change get (eraseAll (t.erase k') ks) k = _
      rw [ih, get_erase]
      by_cases hk : k = k'
      · simp [hk]
      · simp [hk]

/-- The first key whose value satisfies `p`. -/
def find? (p : α → Bool) : Option Nat := (t.entries.find? fun x => p x.2).map Sigma.fst

theorem get_of_find? {t : Table α} {p : α → Bool} {k : Nat} (h : find? t p = some k) :
    ∃ a, get t k = some a ∧ p a = true := by
  unfold find? at h
  rw [Option.map_eq_some_iff] at h
  obtain ⟨⟨k', a⟩, hfind, rfl⟩ := h
  have hp := List.find?_some hfind
  exact ⟨a, AList.mem_lookup_iff.mpr (List.mem_of_find?_eq_some hfind), hp⟩

theorem find?_eq_none {t : Table α} {p : α → Bool} (h : find? t p = none) {k : Nat} {a : α}
    (hget : get t k = some a) : p a = false := by
  unfold find? at h
  rw [Option.map_eq_none_iff, List.find?_eq_none] at h
  have hmem : (⟨k, a⟩ : Sigma fun _ : Nat => α) ∈ t.entries := AList.mem_lookup_iff.mp hget
  simpa using h _ hmem

/-- The keys with their values, in the order of the keys. -/
def ascending : List (Nat × α) :=
  (t.keys.toFinset.sort (· ≤ ·)).filterMap fun k => (get t k).map fun a => (k, a)

theorem mem_ascending {t : Table α} {x : Nat × α} : x ∈ ascending t ↔ get t x.1 = some x.2 := by
  simp only [ascending, List.mem_filterMap, Finset.mem_sort, List.mem_toFinset, Option.map_eq_some_iff]
  constructor
  · rintro ⟨k, -, a, hget, rfl⟩
    exact hget
  · intro hget
    refine ⟨x.1, ?_, x.2, hget, rfl⟩
    exact List.mem_map_of_mem (AList.mem_lookup_iff.mp hget)

theorem pairwise_ascending (t : Table α) : (ascending t).Pairwise fun x y => x.1 < y.1 := by
  refine (Finset.sortedLT_sort _).pairwise.filterMap _ fun k k' hlt x hx y hy => ?_
  obtain ⟨a, -, rfl⟩ := Option.map_eq_some_iff.mp hx
  obtain ⟨b, -, rfl⟩ := Option.map_eq_some_iff.mp hy
  exact hlt

def size : Nat := t.entries.length

/-- The value at a position of the entries. -/
def nth (i : Nat) : Option α := (t.entries[i]?).map Sigma.snd

theorem get_of_nth {t : Table α} {i : Nat} {a : α} (h : nth t i = some a) : ∃ k, get t k = some a := by
  unfold nth at h
  rw [Option.map_eq_some_iff] at h
  obtain ⟨⟨k, a'⟩, hget, rfl⟩ := h
  exact ⟨k, AList.mem_lookup_iff.mpr (List.mem_of_getElem? hget)⟩

theorem nth_isSome {t : Table α} {i : Nat} (h : i < size t) : ∃ a, nth t i = some a := by
  unfold nth
  rw [List.getElem?_eq_getElem h]
  exact ⟨_, rfl⟩

theorem size_pos {t : Table α} {k : Nat} {a : α} (h : get t k = some a) : 0 < size t :=
  List.length_pos_of_mem (AList.mem_lookup_iff.mp h)

end Table

/-! ## References into a table -/

/-- At `s` the table holds the key that refers to `s`. -/
def Inverse (t : Table Nat) (refs : Nat → Finset Nat) : Prop := ∀ s k, t.get s = some k ↔ s ∈ refs k

namespace Inverse
variable {t : Table Nat} {refs : Nat → Finset Nat}

theorem empty : Inverse ∅ fun _ => ∅ := by
  intro s k
  simp

theorem not_mem (h : Inverse t refs) {s : Nat} (hs : t.get s = none) (k : Nat) : s ∉ refs k := by
  intro hmem
  rw [← h s k, hs] at hmem
  cases hmem

theorem get_eq_none (h : Inverse t refs) {s : Nat} (hs : ∀ k, s ∉ refs k) : t.get s = none := by
  cases hget : t.get s with
  | none => rfl
  | some k => exact absurd ((h s k).mp hget) (hs k)

/-- The references fix the table. -/
theorem get_unique {t' : Table Nat} (h : Inverse t refs) (h' : Inverse t' refs) : t.get = t'.get := by
  funext s
  ext k
  exact (h s k).trans (h' s k).symm

theorem insert (h : Inverse t refs) {s : Nat} (hs : t.get s = none) (k : Nat) :
    Inverse (t.insert s k) (Function.update refs k (Insert.insert s (refs k))) := by
  intro s' k'
  rw [Table.get_insert]
  by_cases hs' : s' = s
  · subst hs'
    by_cases hk : k' = k
    · simp [hk]
    · simpa [hk, Ne.symm hk] using h.not_mem hs k'
  · by_cases hk : k' = k
    · subst hk
      simpa [hs'] using h s' k'
    · simpa [hs', hk] using h s' k'

theorem erase (h : Inverse t refs) {s k : Nat} (hs : t.get s = some k) :
    Inverse (t.erase s) (Function.update refs k ((refs k).erase s)) := by
  intro s' k'
  rw [Table.get_erase]
  by_cases hs' : s' = s
  · subst hs'
    by_cases hk : k' = k
    · simp [hk]
    · have hne : s' ∉ refs k' := by
        rw [← h s' k', hs]
        simpa using Ne.symm hk
      simpa [hk] using hne
  · by_cases hk : k' = k
    · subst hk
      simpa [hs'] using h s' k'
    · simpa [hs', hk] using h s' k'

theorem eraseAll (h : Inverse t refs) {k : Nat} {ks : List Nat} (hks : ∀ s, s ∈ ks ↔ s ∈ refs k) :
    Inverse (t.eraseAll ks) (Function.update refs k ∅) := by
  intro s k'
  rw [Table.get_eraseAll]
  by_cases hmem : s ∈ ks
  · have hk := (h s k).mpr ((hks s).mp hmem)
    by_cases hkk : k' = k
    · simp [hkk, hmem]
    · have hne : s ∉ refs k' := by
        rw [← h s k', hk]
        simpa using Ne.symm hkk
      simpa [hkk, hmem] using hne
  · rw [if_neg hmem]
    by_cases hkk : k' = k
    · subst hkk
      rw [hks s, ← h s k'] at hmem
      simpa using hmem
    · simpa [hkk] using h s k'

end Inverse

/-! ## Counting the keys with references -/

/-- `n` keys have references. -/
def Counted (n : Nat) (refs : Nat → Finset Nat) : Prop :=
  ∃ keys : Finset Nat, (∀ k, k ∈ keys ↔ refs k ≠ ∅) ∧ n = keys.card

namespace Counted
variable {n n' : Nat} {refs : Nat → Finset Nat}

theorem zero : Counted 0 fun _ => ∅ := ⟨∅, by simp, rfl⟩

theorem update (h : Counted n refs) (k : Nat) (r : Finset Nat)
    (hn : n' + (if refs k = ∅ then 0 else 1) = n + (if r = ∅ then 0 else 1)) :
    Counted n' (Function.update refs k r) := by
  obtain ⟨keys, hkeys, rfl⟩ := h
  have hother : ∀ x, x ≠ k → (Function.update refs k r x ≠ ∅ ↔ x ∈ keys) := by
    intro x hx
    rw [Function.update_of_ne hx, hkeys]
  by_cases hr : r = ∅
  · refine ⟨keys.erase k, ?_, ?_⟩
    · intro x
      by_cases hx : x = k
      · simp [hx, hr]
      · rw [hother x hx]
        simp [hx]
    · by_cases hk : refs k = ∅
      · rw [Finset.erase_eq_of_notMem (by simp [hkeys, hk])]
        simpa [hr, hk] using hn
      · have hmem : k ∈ keys := (hkeys k).mpr hk
        rw [Finset.card_erase_of_mem hmem]
        simp only [hr, hk, if_true, if_false] at hn
        omega
  · refine ⟨Insert.insert k keys, ?_, ?_⟩
    · intro x
      by_cases hx : x = k
      · simp [hx, hr]
      · rw [hother x hx]
        simp [hx]
    · by_cases hk : refs k = ∅
      · rw [Finset.card_insert_of_notMem (by simp [hkeys, hk])]
        simpa [hr, hk] using hn
      · rw [Finset.insert_eq_of_mem ((hkeys k).mpr hk)]
        simpa [hr, hk] using hn

theorem le_card (h : Counted n refs) {s : Finset Nat} (hs : ∀ k, refs k ≠ ∅ → k ∈ s) : n ≤ s.card := by
  obtain ⟨keys, hkeys, rfl⟩ := h
  exact Finset.card_le_card fun k hk => hs k ((hkeys k).mp hk)

theorem pos (h : Counted n refs) {k : Nat} (hk : refs k ≠ ∅) : 0 < n := by
  obtain ⟨keys, hkeys, rfl⟩ := h
  exact Finset.card_pos.mpr ⟨k, (hkeys k).mpr hk⟩

theorem unique (h : Counted n refs) (h' : Counted n' refs) : n = n' := by
  obtain ⟨keys, hkeys, rfl⟩ := h
  obtain ⟨keys', hkeys', rfl⟩ := h'
  congr 1
  ext k
  rw [hkeys, hkeys']

/-- The keys counted are those of a list that has them all. -/
theorem countP {ks : List Nat} (hks : ks.Nodup) (hmem : ∀ k, refs k ≠ ∅ → k ∈ ks) {p : Nat → Bool}
    (hp : ∀ k ∈ ks, p k ↔ refs k ≠ ∅) : Counted (ks.countP p) refs := by
  refine ⟨(ks.filter p).toFinset, fun k => ?_, ?_⟩
  · rw [List.mem_toFinset, List.mem_filter]
    constructor
    · intro hk
      exact (hp k hk.1).mp hk.2
    · intro hk
      exact ⟨hmem k hk, (hp k (hmem k hk)).mpr hk⟩
  · rw [List.toFinset_card_of_nodup (hks.filter p), List.countP_eq_length_filter]

theorem exists_of_pos (h : Counted n refs) (hn : n ≠ 0) : ∃ k, refs k ≠ ∅ := by
  obtain ⟨keys, hkeys, rfl⟩ := h
  obtain ⟨k, hk⟩ := Finset.card_ne_zero.mp hn
  exact ⟨k, (hkeys k).mp hk⟩

end Counted

/-! ## A table with its counter -/

/-- The table inverts the references, and the counter counts the keys that have some. -/
structure Placed (t : Table Nat) (n : Nat) (refs : Nat → Finset Nat) : Prop where
  inverse : Inverse t refs
  counted : Counted n refs

namespace Placed
variable {t : Table Nat} {n : Nat} {refs : Nat → Finset Nat}

theorem empty : Placed ∅ 0 fun _ => ∅ := ⟨Inverse.empty, Counted.zero⟩

/-- A counter that is not zero has a table that is not empty. -/
theorem size_pos (h : Placed t n refs) (hn : n ≠ 0) : 0 < t.size := by
  obtain ⟨k, hk⟩ := h.counted.exists_of_pos hn
  obtain ⟨s, hs⟩ := Finset.nonempty_iff_ne_empty.mpr hk
  exact Table.size_pos ((h.inverse s k).mpr hs)

theorem update_self (h : Placed t n refs) {k : Nat} {r : Finset Nat} (hr : refs k = r) :
    Placed t n (Function.update refs k r) := by
  rw [← hr, Function.update_eq_self]
  exact h

/-- A reference is added; the counter grows with the first one of a key. -/
theorem insert (h : Placed t n refs) {s : Nat} (hs : t.get s = none) (k : Nat) :
    Placed (t.insert s k) (if refs k = ∅ then n + 1 else n) (Function.update refs k (Insert.insert s (refs k))) := by
  refine ⟨h.inverse.insert hs k, h.counted.update k _ ?_⟩
  rw [if_neg (Finset.insert_ne_empty s _)]
  split_ifs <;> rfl

/-- A reference is dropped; the counter shrinks with the last one of a key. -/
theorem erase (h : Placed t n refs) {s k : Nat} (hs : t.get s = some k) :
    Placed (t.erase s) (if (refs k).erase s = ∅ then n - 1 else n)
      (Function.update refs k ((refs k).erase s)) := by
  have hk : refs k ≠ ∅ := Finset.ne_empty_of_mem ((h.inverse s k).mp hs)
  have hpos := h.counted.pos hk
  refine ⟨h.inverse.erase hs, h.counted.update k _ ?_⟩
  rw [if_neg hk]
  split_ifs
  · omega
  · rfl

theorem eraseAll (h : Placed t n refs) {k : Nat} {ks : List Nat} (hks : ∀ s, s ∈ ks ↔ s ∈ refs k) :
    Placed (t.eraseAll ks) (if refs k = ∅ then n else n - 1) (Function.update refs k ∅) := by
  refine ⟨h.inverse.eraseAll hks, h.counted.update k _ ?_⟩
  rw [if_pos rfl]
  split_ifs with hk
  · rfl
  · have hpos := h.counted.pos hk
    omega

end Placed

end Znode.Lib
