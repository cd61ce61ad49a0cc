import Mathlib
import Znode.Lib.Bytes
import Znode.Lib.BigEndian
import Znode.Lib.MapCursor

/-!
# Loops over the records of a table

A table of MDBX is a map with byte strings as keys, in the order of a dictionary. The helpers of `mdbx.cpp` put a cursor
on a record and move it on from there, while a condition holds.

* `loop` : the `while` loop they share. Its body calls the walker, or erases the record;
* `cursorForPrefix`, `cursorErase`, `cursorErasePrefix` : the helpers;
* `walked_loop`, `loop_erase` : what the loop visits, and what it leaves, in terms of the records ahead of the cursor;
* `cursor_for_prefix_iff` : backwards only one record with the prefix is visited, because the cursor starts on the first
  one;
* `cursor_erase_exact` : the records that are erased.
-/

namespace Znode.Database
open Znode.Lib

abbrev Record := Bytes × Bytes

abbrev Cursor := MapCursor Bytes Bytes

inductive CursorMoveDirection where
  | forward
  | reverse
deriving DecidableEq, Repr

/-- `cursor.move(move_operation(direction), false)`. -/
def move : CursorMoveDirection → Cursor → Option Record × Cursor
  | .forward, c => c.toNext
  | .reverse, c => c.toPrevious

/-- The last record whose key is less than the given one. -/
def strictLowerBound (c : Cursor) (key : Bytes) : Option Record × Cursor :=
  if (c.lowerBound key).1.isNone then (c.lowerBound key).2.toLast else (c.lowerBound key).2.toPrevious

/-- The records the next moves lead to, nearest first. -/
def ahead : CursorMoveDirection → Cursor → List Record
  | .forward, c => c.after
  | .reverse, c => c.before

def behind : CursorMoveDirection → Cursor → List Record
  | .forward, c => c.before
  | .reverse, c => c.after

inductive Body where
  /-- `++ret; walker(..);` -/
  | walk
  /-- `++ret; cursor.erase();` -/
  | erase
  /-- `ret += cursor.erase();` -/
  | countErased
deriving DecidableEq, Repr

/-- What is added to `ret`, and the cursor afterwards. -/
def Body.run : Body → Cursor → Nat × Cursor
  | walk, c => (1, c)
  | erase, c => (1, c.erase.2)
  | countErased, c => (c.erase.1.toNat, c.erase.2)

theorem ahead_run (direction : CursorMoveDirection) (body : Body) (c : Cursor) :
    ahead direction (body.run c).2 = ahead direction c := by
  cases direction <;> cases body <;> rfl

/-! ## Moves -/

theorem move_of_nil {direction : CursorMoveDirection} {c : Cursor} (h : ahead direction c = []) :
    move direction c = (none, c) := by
  cases direction
  · exact if_pos (by rw [show c.after = [] from h]; rfl)
  · exact if_pos (by rw [show c.before = [] from h]; rfl)

theorem move_of_cons {direction : CursorMoveDirection} {c : Cursor} {record : Record} {rest : List Record}
    (h : ahead direction c = record :: rest) : ∃ c', move direction c = (some record, c') ∧ c'.current = some record ∧
      ahead direction c' = rest ∧ behind direction c' = c.current.toList ++ behind direction c := by
  cases direction
  · have hafter : c.after = record :: rest := h
    refine ⟨_, if_neg (by simp [hafter]) |>.trans (Prod.ext ?_ rfl), ?_, ?_, rfl⟩
    · simp [hafter]
    · simp [MapCursor.place, hafter]
    · simp [ahead, MapCursor.place, hafter]
  · have hbefore : c.before = record :: rest := h
    refine ⟨_, if_neg (by simp [hbefore]) |>.trans (Prod.ext ?_ rfl), ?_, ?_, rfl⟩
    · simp [hbefore]
    · simp [MapCursor.place, hbefore]
    · simp [ahead, MapCursor.place, hbefore]

def movesLeft (direction : CursorMoveDirection) (r : Option Record × Cursor) : Nat :=
  (ahead direction r.2).length + r.1.toList.length

theorem movesLeft_move (direction : CursorMoveDirection) (c : Cursor) :
    movesLeft direction (move direction c) = (ahead direction c).length := by
  cases hahead : ahead direction c with
  | nil => simp [move_of_nil hahead, movesLeft, hahead]
  | cons record rest =>
      obtain ⟨c', hmove, -, hrest, -⟩ := move_of_cons hahead
      simp [hmove, movesLeft, hrest]

theorem movesLeft_step (body : Body) (direction : CursorMoveDirection) (data : Record) (c : Cursor) :
    movesLeft direction (move direction (body.run c).2) < movesLeft direction (some data, c) := by
  rw [movesLeft_move, ahead_run]
  exact Nat.lt_succ_self _

/-- The `while` loop: `data` is the record the cursor was moved to. Returns `ret`, the records the body was run on, and
the cursor. -/
def loop (body : Body) (direction : CursorMoveDirection) (condition : Record → Bool) :
    Option Record → Cursor → Nat × List Record × Cursor
  | none, c => (0, [], c)
  | some data, c =>
    if condition data then
      let moved := move direction (body.run c).2
      let next := loop body direction condition moved.1 moved.2
      ((body.run c).1 + next.1, data :: next.2.1, next.2.2)
    else (0, [], c)
termination_by data c => movesLeft direction (data, c)
decreasing_by exact movesLeft_step body direction data c

def startsWith (prefixBytes : Bytes) (record : Record) : Bool := prefixBytes.isPrefixOf record.1

theorem startsWith_iff (prefixBytes : Bytes) (record : Record) :
    startsWith prefixBytes record ↔ prefixBytes <+: record.1 := List.isPrefixOf_iff_prefix

/-- `cursor_for_prefix`: what it returns, and the records the walker was called with. -/
def cursorForPrefix (c : Cursor) (prefixBytes : Bytes) (direction : CursorMoveDirection) : Nat × List Record :=
  let start := c.lowerBound prefixBytes
  let result := loop .walk direction (startsWith prefixBytes) start.1 start.2
  (result.1, result.2.1)

/-- `cursor_erase_prefix`: what it returns, and the records that are left. -/
def cursorErasePrefix (c : Cursor) (prefixBytes : Bytes) : Nat × List Record :=
  let start := c.lowerBound prefixBytes
  let result := loop .erase .forward (startsWith prefixBytes) start.1 start.2
  (result.1, result.2.2.entries)

/-- `cursor_erase`: what it returns, and the records that are left. -/
def cursorErase (c : Cursor) (setKey : Bytes) (direction : CursorMoveDirection) : Nat × List Record :=
  let start := if direction = .forward then c.lowerBound setKey else strictLowerBound c setKey
  let result := loop .countErased direction (fun _ => true) start.1 start.2
  (result.1, result.2.2.entries)

/-! ## What the loop visits -/

section Loop
variable {body : Body} {direction : CursorMoveDirection} {condition : Record → Bool} {data : Record} {c : Cursor}

theorem loop_none : loop body direction condition none c = (0, [], c) := by rw [loop]

theorem loop_of_neg (h : ¬ condition data) : loop body direction condition (some data) c = (0, [], c) := by
  rw [loop, if_neg h]

theorem loop_of_pos (h : condition data) {data' : Option Record} {c' : Cursor}
    (hmove : move direction (body.run c).2 = (data', c')) : loop body direction condition (some data) c =
      ((body.run c).1 + (loop body direction condition data' c').1,
        data :: (loop body direction condition data' c').2.1, (loop body direction condition data' c').2.2) := by
  rw [loop, if_pos h, hmove]

/-- **The rule of the loop.** What holds at the end, and at a record if it holds after the next move, holds always. -/
theorem loop_rule (body : Body) (direction : CursorMoveDirection) {motive : Option Record → Cursor → Prop}
    (none : ∀ c, motive none c)
    (some : ∀ data c, (∀ data' c', move direction (body.run c).2 = (data', c') → motive data' c') →
      motive (some data) c) (data : Option Record) (c : Cursor) : motive data c := by
  induction hn : movesLeft direction (data, c) using Nat.strongRecOn generalizing data c with
  | ind n ih =>
      cases data with
      | none => exact none c
      | some data =>
          refine some data c fun data' c' hmove => ih _ ?_ data' c' rfl
          have hless := movesLeft_step body direction data c
          rwa [hmove, hn] at hless

/-- What can be said of the moves from a record: at the end there is nothing ahead. -/
theorem move_cases (direction : CursorMoveDirection) (c : Cursor) :
    ∃ data c', move direction c = (data, c') ∧ data.toList ++ ahead direction c' = ahead direction c ∧
      (data = none → ahead direction c' = []) ∧ ((c.current = none ∨ data ≠ none) → c'.current = data) ∧
      (c.current = none → behind direction c' = behind direction c) := by
  cases hahead : ahead direction c with
  | nil =>
      exact ⟨none, c, move_of_nil hahead, hahead, fun _ => hahead, fun h => h.resolve_right (by simp), fun _ => rfl⟩
  | cons record rest =>
      obtain ⟨c', hmove, hcurrent, hrest, hbehind⟩ := move_of_cons hahead
      refine ⟨some record, c', hmove, by rw [hrest]; rfl, by simp, fun _ => hcurrent, fun h => ?_⟩
      rw [hbehind, h]
      rfl

/-- The walker is called with the records ahead, as long as the condition holds. -/
theorem loop_walk (direction : CursorMoveDirection) (condition : Record → Bool) {data : Option Record}
    (hend : data = none → ahead direction c = []) :
    (loop .walk direction condition data c).2.1 = (data.toList ++ ahead direction c).takeWhile condition ∧
      (loop .walk direction condition data c).1 = (loop .walk direction condition data c).2.1.length := by
  induction data, c using loop_rule .walk direction with
  | none c =>
      rw [loop_none, hend rfl]
      exact ⟨rfl, rfl⟩
  | some data c ih =>
      by_cases hcond : condition data
      · obtain ⟨data', c', hmove, hahead, hend', -⟩ := move_cases direction c
        obtain ⟨hrecords, hret⟩ := ih data' c' hmove hend'
        rw [loop_of_pos hcond hmove, ← hahead]
        refine ⟨?_, ?_⟩
        · rw [hrecords]
          exact (List.takeWhile_cons_of_pos hcond).symm
        · rw [hret, List.length_cons, Nat.add_comm]
          rfl
      · rw [loop_of_neg hcond]
        exact ⟨(List.takeWhile_cons_of_neg hcond).symm, rfl⟩

/-- The records of a table, from what is behind the cursor and what is in front of it. -/
def unroll : CursorMoveDirection → List Record → List Record → List Record
  | .forward, behind, front => behind.reverse ++ front
  | .reverse, behind, front => front.reverse ++ behind

theorem entries_eq_unroll (direction : CursorMoveDirection) (c : Cursor) :
    c.entries = unroll direction (behind direction c) (c.current.toList ++ ahead direction c) := by
  cases direction
  · rfl
  · simp only [unroll, behind, ahead, List.reverse_append, reverse_toList, MapCursor.entries, List.append_assoc]

theorem run_of_ne_walk (hbody : body ≠ .walk) (hcurrent : c.current = some data) :
    body.run c = (1, c.erase.2) := by
  cases body with
  | walk => exact absurd rfl hbody
  | erase => rfl
  | countErased => simp [Body.run, MapCursor.erase, hcurrent]

theorem sides_erase (direction : CursorMoveDirection) (c : Cursor) :
    ahead direction c.erase.2 = ahead direction c ∧ behind direction c.erase.2 = behind direction c := by
  cases direction <;> exact ⟨rfl, rfl⟩

/-- The records ahead are erased, as long as the condition holds. -/
theorem loop_erase (direction : CursorMoveDirection) (condition : Record → Bool) (hbody : body ≠ .walk)
    {data : Option Record} (hcurrent : c.current = data) (hend : data = none → ahead direction c = []) :
    (loop body direction condition data c).1 = ((data.toList ++ ahead direction c).takeWhile condition).length ∧
      (loop body direction condition data c).2.2.entries =
        unroll direction (behind direction c) ((data.toList ++ ahead direction c).dropWhile condition) := by
  induction data, c using loop_rule body direction with
  | none c =>
      rw [loop_none, hend rfl]
      refine ⟨rfl, ?_⟩
      rw [entries_eq_unroll direction, hcurrent, hend rfl]
      rfl
  | some data c ih =>
      by_cases hcond : condition data
      · have hrun := run_of_ne_walk hbody hcurrent
        obtain ⟨hsameAhead, hsameBehind⟩ := sides_erase direction c
        obtain ⟨data', c', hmove, hahead, hend', hcurrent', hbehind⟩ := move_cases direction c.erase.2
        have hmove' : move direction (body.run c).2 = (data', c') := by rw [hrun, hmove]
        obtain ⟨hret, hentries⟩ := ih data' c' hmove' (hcurrent' (Or.inl rfl)) hend'
        rw [hahead, hsameAhead] at hret hentries
        rw [loop_of_pos hcond hmove', hrun]
        refine ⟨?_, ?_⟩
        · rw [hret, Option.toList_some, List.singleton_append, List.takeWhile_cons_of_pos hcond, List.length_cons,
            Nat.add_comm]
        · rw [hentries, hbehind rfl, hsameBehind, Option.toList_some, List.singleton_append,
            List.dropWhile_cons_of_pos hcond]
      · rw [loop_of_neg hcond, Option.toList_some, List.singleton_append, List.takeWhile_cons_of_neg hcond,
          List.dropWhile_cons_of_neg hcond, entries_eq_unroll direction, hcurrent]
        exact ⟨rfl, rfl⟩

end Loop

/-! ## The helpers -/

section Helpers
variable (c : Cursor)

theorem lowerBound_front (key : Bytes) :
    (c.lowerBound key).1.toList ++ ahead .forward (c.lowerBound key).2 = c.notBelow key :=
  toList_head?_append_tail _

theorem lowerBound_current (key : Bytes) : (c.lowerBound key).2.current = (c.lowerBound key).1 := rfl

theorem lowerBound_behind (key : Bytes) : behind .forward (c.lowerBound key).2 = (c.below key).reverse := rfl

theorem lowerBound_end (key : Bytes) (h : (c.lowerBound key).1 = none) : ahead .forward (c.lowerBound key).2 = [] := by
  have hfront := lowerBound_front c key
  have hempty : c.notBelow key = [] := List.head?_eq_none_iff.mp h
  rw [hempty, h] at hfront
  exact hfront

/-- The records below a prefix do not start with it. -/
theorem filter_below (prefixBytes : Bytes) : (c.below prefixBytes).filter (startsWith prefixBytes) = [] := by
  refine List.filter_eq_nil_iff.mpr fun x hx hstarts => ?_
  have hle := le_of_isPrefix ((startsWith_iff prefixBytes x).mp hstarts)
  exact absurd (MapCursor.lt_of_mem_below hx) (not_lt.mpr hle)

/-- From the prefix on, the records that start with it come first. -/
theorem takeWhile_startsWith (prefixBytes : Bytes) : (c.notBelow prefixBytes).takeWhile (startsWith prefixBytes) =
    (c.notBelow prefixBytes).filter (startsWith prefixBytes) := by
  have hsorted : c.entries.Pairwise fun x y => x.1 < y.1 := c.sorted
  rw [← c.below_append_notBelow prefixBytes, List.pairwise_append] at hsorted
  exact takeWhile_isPrefix (startsWith_iff prefixBytes) hsorted.2.1 fun x hx => MapCursor.le_of_mem_notBelow hx

theorem filter_startsWith (prefixBytes : Bytes) :
    c.entries.filter (startsWith prefixBytes) = (c.notBelow prefixBytes).filter (startsWith prefixBytes) := by
  rw [← c.below_append_notBelow prefixBytes, List.filter_append, filter_below, List.nil_append]

theorem cursorForPrefix_forward (prefixBytes : Bytes) : cursorForPrefix c prefixBytes .forward =
    ((c.entries.filter (startsWith prefixBytes)).length, c.entries.filter (startsWith prefixBytes)) := by
  obtain ⟨hrecords, hret⟩ := loop_walk .forward (startsWith prefixBytes) (lowerBound_end c prefixBytes)
  rw [lowerBound_front, takeWhile_startsWith, ← filter_startsWith] at hrecords
  rw [hrecords] at hret
  exact Prod.ext hret hrecords

theorem cursorForPrefix_reverse (prefixBytes : Bytes) : cursorForPrefix c prefixBytes .reverse =
    (((c.entries.filter (startsWith prefixBytes)).take 1).length,
      (c.entries.filter (startsWith prefixBytes)).take 1) := by
  rw [filter_startsWith, ← takeWhile_startsWith, cursorForPrefix]
  have hstart : (c.lowerBound prefixBytes).1 = (c.notBelow prefixBytes).head? := rfl
  have hahead : ahead .reverse (c.lowerBound prefixBytes).2 = (c.below prefixBytes).reverse := rfl
  simp only [hstart]
  cases c.notBelow prefixBytes with
  | nil => simp [loop_none]
  | cons x rest =>
      -- what is ahead in this direction is below the prefix
      have hnone : (c.below prefixBytes).reverse.takeWhile (startsWith prefixBytes) = [] := by
        rw [List.takeWhile_eq_nil_iff]
        intro hpos hstarts
        exact List.filter_eq_nil_iff.mp (filter_below c prefixBytes) _
          (List.mem_reverse.mp (List.getElem_mem hpos)) hstarts
      obtain ⟨hrecords, hret⟩ := loop_walk .reverse (startsWith prefixBytes) (c := (c.lowerBound prefixBytes).2)
        (show some x = none → _ from fun h => absurd h (by simp))
      rw [hahead, Option.toList_some, List.singleton_append, List.takeWhile_cons, hnone] at hrecords
      rw [List.head?_cons, hret, hrecords, List.takeWhile_cons]
      split_ifs <;> rfl

def inDirection : CursorMoveDirection → List Record → List Record
  | .forward, records => records
  | .reverse, records => records.reverse

/-- **`cursor_for_prefix` visits the records that start with the prefix**, in the order of the direction, exactly when
it goes forward or there is at most one of them. -/
theorem cursor_for_prefix_iff (prefixBytes : Bytes) (direction : CursorMoveDirection) :
    cursorForPrefix c prefixBytes direction = ((c.entries.filter (startsWith prefixBytes)).length,
      inDirection direction (c.entries.filter (startsWith prefixBytes))) ↔
      direction = .forward ∨ (c.entries.filter (startsWith prefixBytes)).length ≤ 1 := by
  cases direction with
  | forward => exact iff_of_true (cursorForPrefix_forward c prefixBytes) (Or.inl rfl)
  | reverse =>
      rw [cursorForPrefix_reverse]
      generalize c.entries.filter (startsWith prefixBytes) = records
      rw [or_iff_right (by decide), Prod.mk.injEq, List.length_take]
      constructor
      · rintro ⟨hlength, -⟩
        omega
      · intro hle
        rw [List.take_of_length_le hle]
        refine ⟨by omega, ?_⟩
        change records = records.reverse
        rcases records with _ | ⟨x, _ | ⟨y, rest⟩⟩
        · rfl
        · rfl
        · simp at hle

def twoRecords : Cursor := { after := [([1, 1], []), ([1, 2], [])], sorted := by decide }

/-- Backwards only the first one is visited. -/
theorem cursor_for_prefix_reverse_two : cursorForPrefix twoRecords [1] .reverse = (1, [([1, 1], [])]) ∧
    twoRecords.entries.filter (startsWith [1]) = [([1, 1], []), ([1, 2], [])] := by
  refine ⟨?_, rfl⟩
  rw [cursorForPrefix_reverse]
  rfl

/-! ## Erasing -/

theorem loop_erase_all (direction : CursorMoveDirection) {c : Cursor} {data : Option Record}
    (hcurrent : c.current = data) (hend : data = none → ahead direction c = []) :
    (loop .countErased direction (fun _ => true) data c).1 = (data.toList ++ ahead direction c).length ∧
      (loop .countErased direction (fun _ => true) data c).2.2.entries = unroll direction (behind direction c) [] := by
  have hloop := loop_erase direction (fun _ => true) (show Body.countErased ≠ .walk by decide) hcurrent hend
  rwa [List.takeWhile_eq_self_iff.mpr fun _ _ => rfl, List.dropWhile_eq_nil_iff.mpr fun _ _ => rfl] at hloop

theorem cursorErase_forward (setKey : Bytes) :
    cursorErase c setKey .forward = ((c.notBelow setKey).length, c.below setKey) := by
  obtain ⟨hret, hentries⟩ := loop_erase_all .forward (lowerBound_current c setKey) (lowerBound_end c setKey)
  rw [lowerBound_front] at hret
  rw [lowerBound_behind, unroll, List.reverse_reverse, List.append_nil] at hentries
  exact Prod.ext hret hentries

/-- Where `strict_lower_bound` puts the cursor: on the last record below the key, if there is one. -/
theorem strictLowerBound_spec (key : Bytes) :
    (c.below key = [] ∧ (strictLowerBound c key).1 = none ∧ (strictLowerBound c key).2.entries = c.entries) ∨
      ((strictLowerBound c key).1 ≠ none ∧ (strictLowerBound c key).2.current = (strictLowerBound c key).1 ∧
        (strictLowerBound c key).1.toList ++ ahead .reverse (strictLowerBound c key).2 = (c.below key).reverse ∧
        behind .reverse (strictLowerBound c key).2 = c.notBelow key) := by
  have hentries := c.entries_lowerBound key
  have hsplit := c.below_append_notBelow key
  unfold strictLowerBound
  by_cases hnone : (c.lowerBound key).1.isNone
  · -- all records are below the key
    have hempty : c.notBelow key = [] := List.head?_eq_none_iff.mp (Option.isNone_iff_eq_none.mp hnone)
    rw [hempty, List.append_nil] at hsplit
    rw [if_pos hnone, hsplit, hempty, ← hentries]
    by_cases hbelow : (c.lowerBound key).2.entries = []
    · refine Or.inl ⟨hbelow, ?_, ?_⟩
      · exact List.getLast?_eq_none_iff.mpr hbelow
      · exact MapCursor.entries_toLast _
    · refine Or.inr ⟨?_, rfl, ?_, rfl⟩
      · exact mt List.getLast?_eq_none_iff.mp hbelow
      · change (c.lowerBound key).2.entries.getLast?.toList ++ (c.lowerBound key).2.entries.dropLast.reverse = _
        rw [← reverse_toList, ← List.reverse_append, dropLast_append_toList]
  · rw [if_neg hnone, MapCursor.toPrevious]
    by_cases hbelow : (c.below key).reverse.isEmpty
    · rw [if_pos (show (c.lowerBound key).2.before.isEmpty from hbelow)]
      exact Or.inl ⟨by simpa using hbelow, rfl, hentries⟩
    · rw [if_neg (show ¬ (c.lowerBound key).2.before.isEmpty from hbelow)]
      refine Or.inr ⟨?_, rfl, toList_head?_append_tail _, toList_head?_append_tail _⟩
      exact mt List.head?_eq_none_iff.mp (show (c.below key).reverse ≠ [] by simpa using hbelow)

theorem cursorErase_reverse (setKey : Bytes) :
    cursorErase c setKey .reverse = ((c.below setKey).length, c.notBelow setKey) := by
  have hstart : cursorErase c setKey .reverse =
      ((loop .countErased .reverse (fun _ => true) (strictLowerBound c setKey).1 (strictLowerBound c setKey).2).1,
        (loop .countErased .reverse (fun _ => true) (strictLowerBound c setKey).1
          (strictLowerBound c setKey).2).2.2.entries) := rfl
  rw [hstart]
  rcases strictLowerBound_spec c setKey with ⟨hbelow, hnone, hentries⟩ | ⟨hsome, hcurrent, hfront, hbehind⟩
  · have hsplit := c.below_append_notBelow setKey
    rw [hbelow, List.nil_append] at hsplit
    rw [hnone, loop_none, hbelow, hsplit, hentries]
    rfl
  · obtain ⟨hret, hentries⟩ := loop_erase_all .reverse hcurrent fun h => absurd h hsome
    rw [hfront, List.length_reverse] at hret
    rw [hbehind] at hentries
    exact Prod.ext hret hentries

theorem cursorErasePrefix_eq (prefixBytes : Bytes) : cursorErasePrefix c prefixBytes =
    ((c.entries.filter (startsWith prefixBytes)).length, c.entries.filter fun x => !startsWith prefixBytes x) := by
  obtain ⟨hret, hentries⟩ := loop_erase .forward (startsWith prefixBytes) (show Body.erase ≠ .walk by decide)
    (lowerBound_current c prefixBytes) (lowerBound_end c prefixBytes)
  rw [lowerBound_front, takeWhile_startsWith, ← filter_startsWith] at hret
  rw [lowerBound_front, lowerBound_behind, dropWhile_of_takeWhile (takeWhile_startsWith c prefixBytes), unroll,
    List.reverse_reverse] at hentries
  refine Prod.ext hret (hentries.trans ?_)
  -- what is below the prefix stays as it is
  have hbelow : (c.below prefixBytes).filter (fun x => !startsWith prefixBytes x) = c.below prefixBytes :=
    List.filter_eq_self.mpr fun x hx => by simpa using List.filter_eq_nil_iff.mp (filter_below c prefixBytes) x hx
  change _ = c.entries.filter fun x => !startsWith prefixBytes x
  rw [← c.below_append_notBelow prefixBytes, List.filter_append, hbelow]

/-- Bytes have another decision procedure for their order than a general linear order. -/
theorem below_eq (key : Bytes) : c.below key = c.entries.filter fun x => x.1 < key := by
  rw [MapCursor.below_eq_filter]
  exact List.filter_congr fun x _ => decide_eq_decide.mpr Iff.rfl

/-- **Exactly the records that are meant are erased**, the others stay as they are, and their number is returned. -/
theorem cursor_erase_exact (setKey prefixBytes : Bytes) :
    cursorErase c setKey .forward =
      ((c.entries.filter fun x => setKey ≤ x.1).length, c.entries.filter fun x => x.1 < setKey) ∧
    cursorErase c setKey .reverse =
      ((c.entries.filter fun x => x.1 < setKey).length, c.entries.filter fun x => setKey ≤ x.1) ∧
    cursorErasePrefix c prefixBytes =
      ((c.entries.filter (startsWith prefixBytes)).length, c.entries.filter fun x => !startsWith prefixBytes x) := by
  rw [cursorErase_forward, cursorErase_reverse, below_eq, MapCursor.notBelow_eq_filter]
  exact ⟨rfl, rfl, cursorErasePrefix_eq c prefixBytes⟩

end Helpers

end Znode.Database
