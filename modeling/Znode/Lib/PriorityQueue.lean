import Mathlib.Data.List.MinMax

/-!
# Priority queues

A queue is the list of its elements, in the order they were pushed. Its top is an element with the largest key;
which one, when there are several, is up to the implementation.

* `tops key q` : the positions the top may have;
* `topIndex key choice q` : the position it has, for a choice of the implementation;
* `exists_topIndex` : every position the top may have comes from some choice.
-/

namespace Znode.Lib

variable {α κ : Type} [LinearOrder κ] (key : α → κ)

def tops (q : List α) : List Nat :=
  (List.range q.length).filter fun i => q[i]?.any fun a => q.all fun b => key b ≤ key a

def topIndex (choice : Nat) (q : List α) : Option Nat := (tops key q)[choice % (tops key q).length]?

variable {key} {q : List α} {i : Nat}

theorem mem_tops_iff : i ∈ tops key q ↔ ∃ a, q[i]? = some a ∧ ∀ b ∈ q, key b ≤ key a := by
  rw [tops, List.mem_filter, List.mem_range, Option.any_eq_true]
  simp only [List.all_eq_true, decide_eq_true_eq]
  constructor
  · intro h
    exact h.2
  · intro h
    refine ⟨?_, h⟩
    obtain ⟨a, ha, -⟩ := h
    exact (List.getElem?_eq_some_iff.mp ha).1

theorem tops_ne_nil (h : q ≠ []) : tops key q ≠ [] := by
  obtain ⟨a, ha⟩ := Option.ne_none_iff_exists'.mp (mt List.argmax_eq_none.mp h : List.argmax key q ≠ none)
  obtain ⟨i, hi⟩ := List.getElem?_of_mem (List.argmax_mem ha)
  apply List.ne_nil_of_mem
  exact mem_tops_iff.mpr ⟨a, hi, fun b hb => List.le_of_mem_argmax hb ha⟩

theorem topIndex_mem {choice : Nat} (h : topIndex key choice q = some i) : i ∈ tops key q := List.mem_of_getElem? h

theorem topIndex_nil (choice : Nat) : topIndex key choice ([] : List α) = none := rfl

theorem topIndex_isSome (h : q ≠ []) (choice : Nat) : ∃ i, topIndex key choice q = some i := by
  have hpos : 0 < (tops key q).length := List.length_pos_of_ne_nil (tops_ne_nil h)
  exact ⟨_, List.getElem?_eq_getElem (Nat.mod_lt choice hpos)⟩

theorem exists_topIndex (h : i ∈ tops key q) : ∃ choice, topIndex key choice q = some i := by
  obtain ⟨choice, hchoice⟩ := List.getElem?_of_mem h
  refine ⟨choice, ?_⟩
  rw [topIndex, Nat.mod_eq_of_lt (List.getElem?_eq_some_iff.mp hchoice).1, hchoice]

end Znode.Lib
