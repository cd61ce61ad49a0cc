import Mathlib
import Znode.Lib.Table

/-!
# Tables of reference counts

A table that holds how often each key is in use, and no key that is not.

* `refCount t k` : the count of a key, zero when it is not there;
* `Positive t` : no entry is zero;
* `retain`, `release` : one use more, one less. The last one takes the entry away.
-/

namespace Znode.Lib.Table

variable {t : Table Nat} {k k' : Nat}

def refCount (t : Table Nat) (k : Nat) : Nat := (t.get k).getD 0

def Positive (t : Table Nat) : Prop := ∀ k, t.get k ≠ some 0

def retain (t : Table Nat) (k : Nat) : Table Nat := t.insert k (refCount t k + 1)

def release (t : Table Nat) (k : Nat) : Table Nat :=
  if refCount t k ≤ 1 then t.erase k else t.insert k (refCount t k - 1)

@[simp] theorem refCount_empty (k : Nat) : refCount ∅ k = 0 := by simp [refCount]

theorem positive_empty : Positive ∅ := by simp [Positive]

theorem refCount_of_get {n : Nat} (h : t.get k = some n) : refCount t k = n := by simp [refCount, h]

theorem refCount_of_none (h : t.get k = none) : refCount t k = 0 := by simp [refCount, h]

theorem Positive.pos_of_get (h : Positive t) {n : Nat} (hget : t.get k = some n) : 0 < n := by
  refine Nat.pos_of_ne_zero ?_
  rintro rfl
  exact h k hget

theorem refCount_retain (t : Table Nat) (k k' : Nat) :
    refCount (t.retain k) k' = refCount t k' + if k' = k then 1 else 0 := by
  by_cases h : k' = k
  · subst h
    simp [refCount, retain, get_insert]
  · simp [refCount, retain, get_insert, h]

theorem refCount_release (t : Table Nat) (k k' : Nat) :
    refCount (t.release k) k' = refCount t k' - if k' = k then 1 else 0 := by
  unfold release
  by_cases h : k' = k
  · subst h
    rw [if_pos rfl]
    split_ifs with hone
    · rw [refCount_of_none (by rw [get_erase, if_pos rfl])]
      omega
    · rw [refCount_of_get (by rw [get_insert, if_pos rfl])]
  · split_ifs <;> simp [refCount, get_erase, get_insert, h]

theorem Positive.retain (h : Positive t) (k : Nat) : Positive (t.retain k) := by
  intro k'
  rw [Table.retain, get_insert]
  split_ifs
  · simp
  · exact h k'

theorem Positive.release (h : Positive t) (k : Nat) : Positive (t.release k) := by
  intro k'
  unfold Table.release
  split_ifs with hone
  · rw [get_erase]
    split_ifs
    · simp
    · exact h k'
  · rw [get_insert]
    split_ifs
    · simp only [ne_eq, Option.some.injEq]
      omega
    · exact h k'

end Znode.Lib.Table
