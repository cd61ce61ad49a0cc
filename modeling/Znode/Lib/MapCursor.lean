import Mathlib.Data.List.Lex
import Mathlib.Data.List.TakeWhile
import Znode.Lib.OrderedMap

/-!
# Cursors of ordered maps

A cursor stands on an entry of an ordered map, or in the gap an erased entry has left.

* `MapCursor` : the entries before the cursor, nearest first, the one it stands on, and those after it;
* `lowerBound`, `toFirst`, `toLast`, `toNext`, `toPrevious` : the entry that is found, if any, and the cursor there.
  The entries of the map stay the same;
* `erase` : takes the current entry away; the next move leads to a neighbour of it;
* `below`, `notBelow` : the entries below a key and the others, which `lowerBound` parts.

Keys that are lists are ordered lexicographically; those with a given beginning follow one another
(`takeWhile_isPrefix`).
-/

namespace Znode.Lib

/-- A cursor, with the entries of the map around it. -/
structure MapCursor (κ ν : Type) [LinearOrder κ] where
  before : List (κ × ν) := []
  current : Option (κ × ν) := none
  after : List (κ × ν) := []
  sorted : (before.reverse ++ (current.toList ++ after)).Pairwise fun x y => x.1 < y.1

section Lists
variable {α : Type}

theorem toList_head?_append_tail (l : List α) : l.head?.toList ++ l.tail = l := by
  cases l <;> rfl

theorem reverse_tail_append (l : List α) : l.tail.reverse ++ l.head?.toList = l.reverse := by
  cases l <;> simp

theorem dropLast_append_toList (l : List α) : l.dropLast ++ l.getLast?.toList = l := by
  rcases List.eq_nil_or_concat' l with rfl | ⟨l, a, rfl⟩ <;> simp

/-- Where the elements with a property come first, what is behind them is the rest. -/
theorem dropWhile_of_takeWhile {p : α → Bool} {l : List α} (h : l.takeWhile p = l.filter p) :
    l.dropWhile p = l.filter fun x => !p x := by
  have hsplit : l.filter p = l.takeWhile p ++ (l.dropWhile p).filter p := by
    conv_lhs => rw [← List.takeWhile_append_dropWhile (p := p) (l := l), List.filter_append]
    rw [List.filter_eq_self.mpr fun x hx => List.mem_takeWhile_imp hx]
  have hrest : (l.dropWhile p).filter p = [] := by
    rw [h] at hsplit
    exact List.append_right_eq_self.mp hsplit.symm
  conv_rhs => rw [← List.takeWhile_append_dropWhile (p := p) (l := l), List.filter_append]
  rw [List.filter_eq_nil_iff.mpr fun x hx => by simp [List.mem_takeWhile_imp hx], List.nil_append,
    List.filter_eq_self.mpr]
  intro x hx
  simpa using List.filter_eq_nil_iff.mp hrest x hx

theorem reverse_toList (o : Option α) : o.toList.reverse = o.toList := by
  cases o <;> rfl

end Lists

namespace MapCursor
variable {κ ν : Type} [LinearOrder κ] (c : MapCursor κ ν)

def entries : List (κ × ν) := c.before.reverse ++ (c.current.toList ++ c.after)

/-- The cursor at another place, perhaps without some of the entries. -/
def place (before : List (κ × ν)) (current : Option (κ × ν)) (after : List (κ × ν))
    (h : (before.reverse ++ (current.toList ++ after)).Sublist c.entries) : MapCursor κ ν :=
  ⟨before, current, after, c.sorted.sublist h⟩

def below (key : κ) : List (κ × ν) := c.entries.takeWhile fun x => x.1 < key

def notBelow (key : κ) : List (κ × ν) := c.entries.dropWhile fun x => x.1 < key

theorem below_append_notBelow (key : κ) : c.below key ++ c.notBelow key = c.entries := List.takeWhile_append_dropWhile

/-- The first entry whose key is not below the given one. -/
def lowerBound (key : κ) : Option (κ × ν) × MapCursor κ ν :=
  ((c.notBelow key).head?, c.place (c.below key).reverse (c.notBelow key).head? (c.notBelow key).tail (by
    rw [List.reverse_reverse, toList_head?_append_tail, below_append_notBelow]))

def toFirst : Option (κ × ν) × MapCursor κ ν :=
  (c.entries.head?, c.place [] c.entries.head? c.entries.tail (by
    rw [List.reverse_nil, List.nil_append, toList_head?_append_tail]))

def toLast : Option (κ × ν) × MapCursor κ ν :=
  (c.entries.getLast?, c.place c.entries.dropLast.reverse c.entries.getLast? [] (by
    rw [List.reverse_reverse, List.append_nil, dropLast_append_toList]))

/-- A move that finds nothing leaves the cursor where it is. -/
def toNext : Option (κ × ν) × MapCursor κ ν :=
  if c.after.isEmpty then (none, c)
  else (c.after.head?, c.place (c.current.toList ++ c.before) c.after.head? c.after.tail (by
    rw [List.reverse_append, reverse_toList, toList_head?_append_tail, List.append_assoc, entries]))

def toPrevious : Option (κ × ν) × MapCursor κ ν :=
  if c.before.isEmpty then (none, c)
  else (c.before.head?, c.place c.before.tail c.before.head? (c.current.toList ++ c.after) (by
    rw [← List.append_assoc, reverse_tail_append, entries]))

/-- Erases the current entry; tells whether there was one. -/
def erase : Bool × MapCursor κ ν :=
  (c.current.isSome, c.place c.before none c.after
    (List.Sublist.append_left (List.sublist_append_right _ _) _))

variable {c} {key : κ}

theorem entries_lowerBound (c : MapCursor κ ν) (key : κ) : (c.lowerBound key).2.entries = c.entries := by
  change (c.below key).reverse.reverse ++ ((c.notBelow key).head?.toList ++ (c.notBelow key).tail) = _
  rw [List.reverse_reverse, toList_head?_append_tail, below_append_notBelow]

theorem entries_toFirst (c : MapCursor κ ν) : c.toFirst.2.entries = c.entries :=
  toList_head?_append_tail c.entries

theorem entries_toLast (c : MapCursor κ ν) : c.toLast.2.entries = c.entries := by
  change c.entries.dropLast.reverse.reverse ++ (c.entries.getLast?.toList ++ []) = _
  rw [List.reverse_reverse, List.append_nil, dropLast_append_toList]

/-- In the order of the keys, nothing below a key comes after the first entry that is not. -/
theorem le_of_mem_dropWhile {l : List (κ × ν)} (hsorted : l.Pairwise fun x y => x.1 < y.1) {x : κ × ν}
    (h : x ∈ l.dropWhile fun x => x.1 < key) : key ≤ x.1 := by
  induction l with
  | nil => cases h
  | cons y l ih =>
      obtain ⟨hy, hl⟩ := List.pairwise_cons.mp hsorted
      rw [List.dropWhile_cons] at h
      split_ifs at h with hlt
      · exact ih hl h
      · have hkey : key ≤ y.1 := by simpa using hlt
        rcases List.mem_cons.mp h with rfl | hx
        · exact hkey
        · exact hkey.trans (hy x hx).le

theorem le_of_mem_notBelow {x : κ × ν} (h : x ∈ c.notBelow key) : key ≤ x.1 := le_of_mem_dropWhile c.sorted h

theorem lt_of_mem_below {x : κ × ν} (h : x ∈ c.below key) : x.1 < key := by
  simpa using List.mem_takeWhile_imp h

theorem below_eq_filter (c : MapCursor κ ν) (key : κ) : c.below key = c.entries.filter fun x => x.1 < key := by
  rw [← c.below_append_notBelow key, List.filter_append, List.filter_eq_self.mpr, List.filter_eq_nil_iff.mpr,
    List.append_nil]
  · intro x hx
    simpa using le_of_mem_notBelow hx
  · intro x hx
    simpa using lt_of_mem_below hx

theorem notBelow_eq_filter (c : MapCursor κ ν) (key : κ) : c.notBelow key = c.entries.filter fun x => key ≤ x.1 := by
  rw [← c.below_append_notBelow key, List.filter_append, List.filter_eq_nil_iff.mpr, List.filter_eq_self.mpr,
    List.nil_append]
  · intro x hx
    simpa using le_of_mem_notBelow hx
  · intro x hx
    simpa using lt_of_mem_below hx

end MapCursor

/-! ## Keys with a common beginning -/

section Prefixes
variable {α : Type} [LinearOrder α]

/-- Between a list and its continuations there are only continuations. -/
theorem isPrefix_of_le_of_le {p x t : List α} (hp : p ≤ x) (hx : x ≤ p ++ t) : p <+: x := by
  rw [← not_lt] at hp hx
  induction p generalizing x with
  | nil => exact List.nil_prefix
  | cons a p ih =>
      cases x with
      | nil => exact absurd List.Lex.nil hp
      | cons b x =>
          have hab : a = b := le_antisymm (not_lt.mp fun hlt => hp (List.Lex.rel hlt))
            (not_lt.mp fun hlt => hx (List.Lex.rel hlt))
          subst hab
          rw [List.prefix_cons_inj]
          exact ih (fun hlt => hp (List.Lex.cons hlt)) fun hlt => hx (List.Lex.cons hlt)

theorem le_of_isPrefix {p x : List α} (h : p <+: x) : p ≤ x := not_lt.mp h.le

/-- From the first key on that is not below `p`, the keys that begin with `p` come first. -/
theorem takeWhile_isPrefix {ν : Type} {p : List α} {l : List (List α × ν)} {q : List α × ν → Bool}
    (hq : ∀ x, q x ↔ p <+: x.1) (hsorted : l.Pairwise fun x y => x.1 < y.1) (hp : ∀ x ∈ l, p ≤ x.1) :
    l.takeWhile q = l.filter q := by
  induction l with
  | nil => rfl
  | cons x l ih =>
      obtain ⟨hx, hl⟩ := List.pairwise_cons.mp hsorted
      obtain ⟨hpx, hpl⟩ := List.forall_mem_cons.mp hp
      by_cases hbegins : q x
      · rw [List.takeWhile_cons_of_pos hbegins, List.filter_cons_of_pos hbegins, ih hl hpl]
      · rw [List.takeWhile_cons_of_neg hbegins, List.filter_cons_of_neg hbegins, eq_comm, List.filter_eq_nil_iff]
        intro y hy hy'
        -- a later one would put this one in between
        obtain ⟨t, ht⟩ := (hq y).mp hy'
        exact hbegins ((hq x).mpr (isPrefix_of_le_of_le hpx (ht ▸ (hx y hy).le)))

end Prefixes

end Znode.Lib
