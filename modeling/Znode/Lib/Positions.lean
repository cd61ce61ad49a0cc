import Mathlib.Data.List.Nodup
import Mathlib.Data.List.Perm.Basic
import Mathlib.Data.List.Perm.Subperm
import Mathlib.Data.List.Count

/-!
# Lists with the positions of their elements

`Indexes l pos` : `pos` gives the position of every element of `l`, and of nothing else. So the list has no
repetitions. It is kept when an element is pushed, when two are swapped, and when the last one is popped.
`take_swap` : one round of a shuffle.
-/

namespace Znode.Lib

/-- `pos` gives the position of the elements of `l`. -/
def Indexes (l : List Nat) (pos : Nat → Option Nat) : Prop := ∀ k i, pos k = some i ↔ l[i]? = some k

namespace Indexes
variable {l l' : List Nat} {pos pos' : Nat → Option Nat}

theorem nil : Indexes [] fun _ => none := by
  intro k i
  simp

theorem nodup (h : Indexes l pos) : l.Nodup := by
  rw [List.nodup_iff_injective_getElem]
  intro i j hij
  have hi := (h l[i] i).mpr (List.getElem?_eq_getElem i.isLt)
  have hj := (h l[i] j).mpr (by rw [List.getElem?_eq_getElem j.isLt]; exact congrArg some hij.symm)
  rw [hi] at hj
  exact Fin.ext (Option.some.inj hj)

theorem mem_iff (h : Indexes l pos) (k : Nat) : k ∈ l ↔ ∃ i, pos k = some i := by
  rw [List.mem_iff_getElem?]
  exact exists_congr fun i => (h k i).symm

theorem push (h : Indexes l pos) {k : Nat} (hk : pos k = none) :
    Indexes (l ++ [k]) (Function.update pos k (some l.length)) := by
  intro k' i
  by_cases hkk : k' = k
  · subst hkk
    have hnot : ∀ i, l[i]? ≠ some k' := fun i hi => by
      rw [← h k' i, hk] at hi
      cases hi
    rw [Function.update_self, List.getElem?_append]
    split_ifs with hlt
    · have hne : l.length ≠ i := by omega
      simpa [hne] using hnot i
    · constructor
      · intro hi
        have hi' : i = l.length := (Option.some.inj hi).symm
        simp [hi']
      · intro hi
        have hzero : i - l.length = 0 := by
          by_contra hne
          obtain ⟨j, hj⟩ : ∃ j, i - l.length = j + 1 := ⟨i - l.length - 1, by omega⟩
          rw [hj] at hi
          simp at hi
        exact congrArg some (by omega)
  · rw [Function.update_of_ne hkk, h k' i, List.getElem?_append]
    split_ifs with hlt
    · rfl
    · rw [List.getElem?_eq_none (by omega)]
      cases hi : i - l.length with
      | zero => simpa using Ne.symm hkk
      | succ j => simp

theorem swap (h : Indexes l pos) {i j a b : Nat} (hi : l[i]? = some a) (hj : l[j]? = some b) :
    Indexes ((l.set i b).set j a) fun k => if k = a then some j else if k = b then some i else pos k := by
  obtain ⟨hil, -⟩ := List.getElem?_eq_some_iff.mp hi
  obtain ⟨hjl, -⟩ := List.getElem?_eq_some_iff.mp hj
  have hone : ∀ (k p q : Nat), l[p]? = some k → l[q]? = some k → p = q := by
    intro k p q hp hq
    rw [← h k p] at hp
    rw [← h k q, hp] at hq
    exact Option.some.inj hq
  intro k p
  simp only
  rw [List.getElem?_set, List.getElem?_set, List.length_set]
  by_cases hjp : j = p
  · subst hjp
    rw [if_pos rfl, if_pos hjl]
    by_cases hka : k = a
    · simp [hka]
    · rw [if_neg hka]
      have hne : ¬ (some a = some k) := by simpa using Ne.symm hka
      refine iff_of_false ?_ hne
      split_ifs with hkb
      · subst hkb
        intro hij
        have hij' : i = j := Option.some.inj hij
        subst hij'
        rw [hi] at hj
        exact hka (Option.some.inj hj).symm
      · rw [h k j, hj]
        simpa using Ne.symm hkb
  · rw [if_neg hjp]
    by_cases hka : k = a
    · subst hka
      rw [if_pos rfl]
      refine iff_of_false (by simpa using hjp) ?_
      split_ifs with hip
      · intro hb
        have hb' : b = k := Option.some.inj hb
        subst hb'
        exact hjp (hip ▸ (hone b j i hj hi))
      · intro hp
        exact hip (hone k i p hi hp)
    · rw [if_neg hka]
      by_cases hip : i = p
      · subst hip
        rw [if_pos rfl, if_pos hil]
        by_cases hkb : k = b
        · simp [hkb]
        · rw [if_neg hkb, h k i, hi]
          exact iff_of_false (by simpa using Ne.symm hka) (by simpa using Ne.symm hkb)
      · rw [if_neg hip]
        by_cases hkb : k = b
        · subst hkb
          rw [if_pos rfl]
          refine iff_of_false (by simpa using hip) fun hp => hjp (hone k j p hj hp)
        · rw [if_neg hkb]
          exact h k p

theorem pop {k : Nat} (h : Indexes (l ++ [k]) pos) : Indexes l (Function.update pos k none) := by
  have hk : pos k = some l.length := (h k l.length).mpr (by simp)
  intro k' i
  by_cases hkk : k' = k
  · subst hkk
    rw [Function.update_self]
    refine iff_of_false (by simp) fun hi => ?_
    obtain ⟨hil, -⟩ := List.getElem?_eq_some_iff.mp hi
    have hpos := (h k' i).mpr (by rw [List.getElem?_append_left hil]; exact hi)
    rw [hk] at hpos
    have := Option.some.inj hpos
    omega
  · rw [Function.update_of_ne hkk, h k' i, List.getElem?_append]
    split_ifs with hlt
    · rfl
    · rw [List.getElem?_eq_none (l := l) (by omega)]
      cases hi : i - l.length with
      | zero => simpa using Ne.symm hkk
      | succ j => simp

end Indexes

theorem getElem?_swap {l : List Nat} {i j a c : Nat} (hi : l[i]? = some a) (hj : l[j]? = some c) :
    ((l.set i c).set j a)[i]? = some c := by
  obtain ⟨hlt, -⟩ := List.getElem?_eq_some_iff.mp hi
  by_cases hij : j = i
  · subst hij
    rw [List.getElem?_set_self (by simpa using hlt), ← hi, hj]
  · rw [List.getElem?_set_ne hij, List.getElem?_set_self hlt]

/-- One round of a shuffle: the element at `i` is picked from those at `i` or later. -/
theorem take_swap {l : List Nat} {i j a c : Nat} (hi : l[i]? = some a) (hj : l[j]? = some c) (hij : i ≤ j) :
    ((l.set i c).set j a).take (i + 1) = l.take i ++ [c] := by
  rw [List.take_add_one, getElem?_swap hi hj, List.take_set_of_le hij, List.take_set_of_le (Nat.le_refl i)]
  rfl

end Znode.Lib
