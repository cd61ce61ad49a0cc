import Mathlib

/-!
# Reading a list block by block

* `blocks` : what reads of at most `size` elements return one after the other;
* `firstAt` : where a pattern occurs first;
* `firstAt_of_take` and `firstAt_drop` : how the first occurrence in a list is found in its first block, or after it.
-/

namespace Znode.Lib
variable {α : Type} {size : Nat} {l : List α}

/-- The results of reads of at most `size` elements, up to the end of the list. -/
def blocks (size : Nat) (l : List α) : List (List α) :=
  if l = [] ∨ size = 0 then [] else l.take size :: blocks size (l.drop size)
termination_by l.length
decreasing_by
  rename_i h
  push Not at h
  have hl := List.length_pos_of_ne_nil h.1
  have hsize := Nat.pos_of_ne_zero h.2
  rw [List.length_drop]
  omega

@[simp] theorem blocks_nil : blocks size ([] : List α) = [] := by
  rw [blocks, if_pos (Or.inl rfl)]

theorem blocks_of_ne_nil (hsize : 0 < size) (hl : l ≠ []) :
    blocks size l = l.take size :: blocks size (l.drop size) := by
  rw [blocks, if_neg]
  rintro (h | h)
  · exact hl h
  · omega

theorem blocks_induction {motive : List α → Prop} (hsize : 0 < size) (hnil : motive [])
    (hblock : ∀ l, l ≠ [] → motive (l.drop size) → motive l) (l : List α) : motive l := by
  induction hn : l.length using Nat.strong_induction_on generalizing l with
  | _ n ih =>
      by_cases hl : l = []
      · exact hl ▸ hnil
      · have hpos := List.length_pos_of_ne_nil hl
        exact hblock l hl (ih _ (by rw [List.length_drop]; omega) _ rfl)

theorem flatten_blocks (hsize : 0 < size) (l : List α) : (blocks size l).flatten = l := by
  induction l using blocks_induction hsize with
  | hnil => rw [blocks_nil, List.flatten_nil]
  | hblock l hl ih => rw [blocks_of_ne_nil hsize hl, List.flatten_cons, ih, List.take_append_drop]

/-! ## First occurrences -/

variable {pattern : List α} {p : Nat}

/-- What occurs in the list within its first `size` elements occurs in these. -/
theorem isPrefix_drop_take_iff {q : Nat} (hq : q + pattern.length ≤ size) :
    pattern <+: (l.take size).drop q ↔ pattern <+: l.drop q := by
  rw [List.drop_take]
  constructor
  · exact fun h => h.trans (List.take_prefix _ _)
  · intro h
    exact List.prefix_take_iff.mpr ⟨h, by omega⟩

variable [BEq α] [LawfulBEq α]

/-- The place where `pattern` occurs first. -/
def firstAt (pattern l : List α) : Option Nat := l.tails.findIdx? fun rest => pattern.isPrefixOf rest

theorem firstAt_eq_some_iff : firstAt pattern l = some p ↔
    p ≤ l.length ∧ pattern <+: l.drop p ∧ ∀ q < p, ¬ pattern <+: l.drop q := by
  rw [firstAt, List.findIdx?_eq_some_iff_getElem]
  simp only [List.getElem_tails, List.isPrefixOf_iff_prefix, List.length_tails]
  constructor
  · rintro ⟨hlt, hp, hfirst⟩
    exact ⟨Nat.le_of_lt_succ hlt, hp, fun q hq => by simpa using hfirst q hq⟩
  · rintro ⟨hle, hp, hfirst⟩
    exact ⟨Nat.lt_succ_of_le hle, hp, fun q hq => by simpa using hfirst q hq⟩

theorem firstAt_eq_none_iff : firstAt pattern l = none ↔ ∀ q, q ≤ l.length → ¬ pattern <+: l.drop q := by
  rw [firstAt, List.findIdx?_eq_none_iff]
  constructor
  · intro h q hq hprefix
    have hmem : l.drop q ∈ l.tails := (List.mem_tails _ _).mpr (List.drop_suffix q l)
    have hfalse := h _ hmem
    rw [← List.isPrefixOf_iff_prefix, hfalse] at hprefix
    cases hprefix
  · intro h rest hrest
    obtain ⟨head, rfl⟩ := (List.mem_tails _ _).mp hrest
    have hno := h head.length (by rw [List.length_append]; omega)
    rw [List.drop_left, ← List.isPrefixOf_iff_prefix] at hno
    exact Bool.eq_false_iff.mpr hno

theorem le_length_of_firstAt (h : firstAt pattern l = some p) : p + pattern.length ≤ l.length := by
  obtain ⟨hle, hprefix, -⟩ := firstAt_eq_some_iff.mp h
  have hlength := hprefix.length_le
  rw [List.length_drop] at hlength
  omega

/-- The first occurrence in the first block is the first one in the list. -/
theorem firstAt_of_take (h : firstAt pattern (l.take size) = some p) :
    firstAt pattern l = some p ∧ p + pattern.length ≤ size := by
  have hlength := le_length_of_firstAt h
  rw [List.length_take] at hlength
  obtain ⟨-, hprefix, hfirst⟩ := firstAt_eq_some_iff.mp h
  refine ⟨firstAt_eq_some_iff.mpr ⟨by omega, (isPrefix_drop_take_iff (by omega)).mp hprefix, ?_⟩, by omega⟩
  intro q hq hocc
  exact hfirst q hq ((isPrefix_drop_take_iff (by omega)).mpr hocc)

/-- An occurrence in the list that the first block does not have ends after it. -/
theorem lt_of_firstAt_take (h : firstAt pattern (l.take size) = none)
    (hp : firstAt pattern l = some p) : size < p + pattern.length := by
  by_contra hle
  have hlength := le_length_of_firstAt hp
  obtain ⟨-, hprefix, -⟩ := firstAt_eq_some_iff.mp hp
  refine firstAt_eq_none_iff.mp h p ?_ ((isPrefix_drop_take_iff (by omega)).mpr hprefix)
  rw [List.length_take]
  omega

/-- Occurrences after the first block. -/
theorem firstAt_drop (hp : firstAt pattern l = some p) (hle : size ≤ p) :
    firstAt pattern (l.drop size) = some (p - size) := by
  obtain ⟨hlength, hprefix, hfirst⟩ := firstAt_eq_some_iff.mp hp
  refine firstAt_eq_some_iff.mpr ⟨by rw [List.length_drop]; omega, ?_, ?_⟩
  · rwa [List.drop_drop, Nat.add_sub_cancel' hle]
  · intro q hq
    rw [List.drop_drop]
    exact hfirst _ (by omega)

theorem firstAt_drop_none (h : firstAt pattern l = none) (hpattern : pattern ≠ []) :
    firstAt pattern (l.drop size) = none := by
  refine firstAt_eq_none_iff.mpr fun q hq hprefix => ?_
  rw [List.drop_drop] at hprefix
  by_cases hle : size + q ≤ l.length
  · exact firstAt_eq_none_iff.mp h _ hle hprefix
  · rw [List.drop_of_length_le (by omega)] at hprefix
    exact hpattern (List.prefix_nil.mp hprefix)

theorem firstAt_take_none (h : firstAt pattern l = none) : firstAt pattern (l.take size) = none := by
  cases htake : firstAt pattern (l.take size) with
  | none => rfl
  | some p =>
      rw [(firstAt_of_take htake).1] at h
      cases h

end Znode.Lib
