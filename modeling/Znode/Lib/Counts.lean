import Mathlib.Data.Finset.Card
import Mathlib.Data.List.Count
import Mathlib.Data.List.Perm.Subperm
import Mathlib.Data.Set.Card

/-!
# Counting

* `countP_set_add` : the count after one element was replaced;
* `count_sub_le` : a list that has of every element at least as many as another one has, of each of them, at most
  as many more as it is longer;
* `repeated l seen` : how many elements of a list are met again, when those of `seen` have been met before
  (`repeated_cons_of_mem`, `repeated_cons_of_notMem`);
* `encard_le_of_numbered` : a set whose elements are numbered.
-/

namespace Znode.Lib

variable {α β : Type}

theorem countP_set_add {l : List α} {i : Nat} {a : α} (h : l[i]? = some a) (a' : α) (p : α → Bool) :
    (l.set i a').countP p + (p a).toNat = l.countP p + (p a').toNat := by
  induction l generalizing i with
  | nil => simp at h
  | cons b l ih =>
      cases i with
      | zero =>
          cases h
          simp only [List.set_cons_zero, List.countP_cons]
          cases p a <;> cases p a' <;> simp
      | succ i =>
          have hrest := ih (i := i) (by simpa using h)
          simp only [List.set_cons_succ, List.countP_cons]
          omega

theorem count_map_filter [DecidableEq β] (f : α → β) (p : α → Bool) (l : List α) (b : β) :
    ((l.filter p).map f).count b = l.countP fun a => p a && f a = b := by
  rw [List.count, List.countP_map, List.countP_filter]
  congr 1
  funext a
  simp [Bool.and_comm, beq_eq_decide]

section
variable [DecidableEq α] {l l' : List α}

theorem length_le_of_count_le (h : ∀ a, l.count a ≤ l'.count a) : l.length ≤ l'.length :=
  (List.subperm_ext_iff.mpr fun a _ => h a).length_le

theorem count_sub_le (h : ∀ a, l.count a ≤ l'.count a) (a : α) :
    l'.count a - l.count a ≤ l'.length - l.length := by
  obtain ⟨m, hm, hsub⟩ := List.subperm_ext_iff.mpr fun a (_ : a ∈ l) => h a
  obtain ⟨rest, hperm⟩ := hsub.exists_perm_append
  rw [hperm.count_eq, hperm.length_eq, List.count_append, List.length_append, hm.count_eq, hm.length_eq,
    Nat.add_sub_cancel_left, Nat.add_sub_cancel_left]
  exact List.count_le_length

end

/-! ## Elements that are met again -/

section
variable [DecidableEq α]

/-- The elements of a list without the first ones of those not yet seen. -/
def repeated (l seen : List α) : Nat := l.length - (l.toFinset \ seen.toFinset).card

theorem card_toFinset_sdiff_le (l seen : List α) : (l.toFinset \ seen.toFinset).card ≤ l.length :=
  (Finset.card_le_card Finset.sdiff_subset).trans (List.toFinset_card_le l)

theorem repeated_cons_of_mem {a : α} {l seen : List α} (h : a ∈ seen) :
    repeated (a :: l) seen = repeated l seen + 1 := by
  have hle := card_toFinset_sdiff_le l seen
  unfold repeated
  rw [List.toFinset_cons, Finset.insert_sdiff_of_mem _ (List.mem_toFinset.mpr h), List.length_cons]
  omega

theorem repeated_cons_of_notMem {a : α} {l seen : List α} (h : a ∉ seen) :
    repeated (a :: l) seen = repeated l (a :: seen) := by
  -- the element itself is new, and later it is not
  have hinsert : (a :: l).toFinset \ seen.toFinset = insert a (l.toFinset \ (a :: seen).toFinset) := by
    ext x
    simp only [List.toFinset_cons, Finset.mem_sdiff, Finset.mem_insert, List.mem_toFinset]
    by_cases hx : x = a
    · simp [hx, h]
    · simp [hx]
  unfold repeated
  rw [hinsert, Finset.card_insert_of_notMem (by simp), List.length_cons]
  omega

@[simp] theorem repeated_of_nil (seen : List α) : repeated [] seen = 0 := by simp [repeated]

theorem repeated_nil (l : List α) : repeated l [] = l.length - l.toFinset.card := by simp [repeated]

theorem repeated_pos_iff (l : List α) : 0 < repeated l [] ↔ ¬ l.Nodup := by
  have hle := List.toFinset_card_le l
  have hnodup : l.toFinset.card = l.length ↔ l.Nodup :=
    Multiset.toFinset_card_eq_card_iff_nodup (m := (l : Multiset α))
  rw [repeated_nil, ← hnodup]
  omega

end

/-! ## Numbered elements -/

/-- A set whose elements are numbered below `n` has at most `n` elements. -/
theorem encard_le_of_numbered {s : Set α} {n : Nat} (f : Nat → α) (h : ∀ x ∈ s, ∃ i < n, f i = x) :
    s.encard ≤ n := by
  have hsub : s ⊆ f '' (Finset.range n : Set Nat) := by
    intro x hx
    obtain ⟨i, hi, rfl⟩ := h x hx
    exact ⟨i, Finset.mem_coe.mpr (Finset.mem_range.mpr hi), rfl⟩
  calc s.encard ≤ (f '' (Finset.range n : Set Nat)).encard := Set.encard_le_encard hsub
    _ ≤ (Finset.range n : Set Nat).encard := Set.encard_image_le f _
    _ = n := by rw [Set.encard_coe_eq_coe_finsetCard, Finset.card_range]

end Znode.Lib
