import Mathlib
import Znode.Lib.Simulation
import Znode.Database.Cursor

/-!
# Walks over a table

`cursor_for_each` and `cursor_for_count` start at the record the cursor stands on. A cursor for which `eof()` is true
starts at the first record, or at the last one if it goes backwards: the source cannot tell one at the end of the data
from one that has no position yet.

* `Walker` : a cursor, and what `eof()` says of it;
* `cursorForEach`, `cursorForCount` : the functions, with the records the walker was called with;
* `Walker.step` : walks of both kinds and directions one after the other, and new bindings of the cursor;
* `Place.step` : what they are, for a table as a list and a cursor as a place in it;
* `walks_refine` : the walks are those of `Place.step`;
* `pages_repeat` : walks of the same length go through the table page by page, and begin again after the last one;
* `full_pages_iff` : the number of records tells that the end has been reached only if the last page is a short one.

A move that finds nothing is taken to leave the cursor on its record. Behind the last record `eof()` is then true, as
the source says where it asks. Of a cursor that has been moved off the front nothing is said there, so that what
`eof()` answers is a parameter: `walks_refine` holds for both answers, and the results about pages backwards need
`true`.
-/

namespace Znode.Database
open Znode.Lib

structure Walker where
  cursor : Cursor
  eof : Bool := true

/-- What `eof()` says after a move has found nothing. -/
def eofAfter (eofAtFront : Bool) : CursorMoveDirection → Bool
  | .forward => true
  | .reverse => eofAtFront

section Functions
variable (eofAtFront : Bool)

namespace Walker

/-- `cursor.move(move_operation(direction), false)`. -/
def moveOn (direction : CursorMoveDirection) (w : Walker) : Option Record × Walker :=
  ((move direction w.cursor).1,
    { cursor := (move direction w.cursor).2
      eof := (move direction w.cursor).1.isNone && eofAfter eofAtFront direction })

def toEdge : CursorMoveDirection → Cursor → Option Record × Cursor
  | .forward, c => c.toFirst
  | .reverse, c => c.toLast

def adjust (direction : CursorMoveDirection) (w : Walker) : Option Record × Walker :=
  if w.eof then
    ((toEdge direction w.cursor).1,
      { cursor := (toEdge direction w.cursor).2, eof := (toEdge direction w.cursor).1.isNone })
  else (w.cursor.current, w)

def eachLoop (direction : CursorMoveDirection) : Option Record → Walker → List Record × Walker
  | none, w => ([], w)
  | some data, w =>
    let moved := w.moveOn eofAtFront direction
    let next := eachLoop direction moved.1 moved.2
    (data :: next.1, next.2)
termination_by data w => movesLeft direction (data, w.cursor)
decreasing_by exact movesLeft_step .walk direction data w.cursor

def countLoop (direction : CursorMoveDirection) : Nat → Option Record → Walker → List Record × Walker
  | _, none, w => ([], w)
  | 0, some _, w => ([], w)
  | count + 1, some data, w =>
    let moved := w.moveOn eofAtFront direction
    let next := countLoop direction count moved.1 moved.2
    (data :: next.1, next.2)

end Walker

/-- What is returned, the records the walker was called with, and the cursor. -/
def cursorForEach (w : Walker) (direction : CursorMoveDirection) : (Nat × List Record) × Walker :=
  let start := w.adjust direction
  let result := Walker.eachLoop eofAtFront direction start.1 start.2
  ((result.1.length, result.1), result.2)

def cursorForCount (w : Walker) (count : Nat) (direction : CursorMoveDirection) : (Nat × List Record) × Walker :=
  let start := w.adjust direction
  let result := Walker.countLoop eofAtFront direction count start.1 start.2
  ((result.1.length, result.1), result.2)

inductive WalkEvent where
  | forEach (direction : CursorMoveDirection)
  | forCount (count : Nat) (direction : CursorMoveDirection)
  /-- The cursor is bound again, and has no position. -/
  | bind
deriving DecidableEq, Repr

def Walker.step (w : Walker) : WalkEvent → (Nat × List Record) × Walker
  | .forEach direction => cursorForEach eofAtFront w direction
  | .forCount count direction => cursorForCount eofAtFront w count direction
  | .bind => ((0, []), { w with eof := true })

end Functions

/-! ## Places in a list -/

abbrev Place := Option Nat

namespace Place

def start (direction : CursorMoveDirection) (length : Nat) (place : Place) : Nat :=
  place.getD (if direction = .forward then 0 else length - 1)

def front (direction : CursorMoveDirection) (records : List Record) (i : Nat) : List Record :=
  if direction = .forward then records.drop i else (records.take (i + 1)).reverse

/-- The place after all records in a direction have been visited. -/
def ended (eofAtFront : Bool) (records : List Record) (direction : CursorMoveDirection) : Place :=
  if records.isEmpty || eofAfter eofAtFront direction then none else some 0

def walk (eofAtFront : Bool) (records : List Record) (place : Place) (count : Nat) (direction : CursorMoveDirection) :
    (Nat × List Record) × Place :=
  let i := place.start direction records.length
  let visited := (front direction records i).take count
  ((visited.length, visited),
    if count < (front direction records i).length then some (if direction = .forward then i + count else i - count)
    else ended eofAtFront records direction)

def step (eofAtFront : Bool) (records : List Record) (place : Place) : WalkEvent → (Nat × List Record) × Place
  | .forEach direction => walk eofAtFront records place records.length direction
  | .forCount count direction => walk eofAtFront records place count direction
  | .bind => ((0, []), none)

end Place

/-! ## The loops -/

namespace Walker
variable {eofAtFront : Bool} {direction : CursorMoveDirection} {w : Walker}

def front (direction : CursorMoveDirection) (w : Walker) : List Record :=
  w.cursor.current.toList ++ ahead direction w.cursor

/-- The cursor stands on a record, of which the caller has been told. -/
structure On (w : Walker) (data : Record) : Prop where
  current : w.cursor.current = some data
  eof : w.eof = false

/-- The cursor after all records in a direction have been visited. -/
def Ended (eofAtFront : Bool) (direction : CursorMoveDirection) (w : Walker) : Prop :=
  if eofAfter eofAtFront direction then w.eof = true else ∃ data, w.On data ∧ w.cursor.before = []

/-- A move takes one record off the front, or ends. -/
theorem moveOn_cases {data : Record} (h : w.On data) (eofAtFront : Bool) (direction : CursorMoveDirection) :
    (w.moveOn eofAtFront direction).2.cursor.entries = w.cursor.entries ∧
      ((w.front direction = [data] ∧ (w.moveOn eofAtFront direction).1 = none ∧
          (w.moveOn eofAtFront direction).2.Ended eofAtFront direction) ∨
        ∃ data', (w.moveOn eofAtFront direction).1 = some data' ∧ (w.moveOn eofAtFront direction).2.On data' ∧
          w.front direction = data :: (w.moveOn eofAtFront direction).2.front direction) := by
  have hfront : w.front direction = data :: ahead direction w.cursor := by rw [front, h.current]; rfl
  cases hahead : ahead direction w.cursor with
  | nil =>
      have hmove := move_of_nil hahead
      have hmoved : w.moveOn eofAtFront direction = (none, { w with eof := eofAfter eofAtFront direction }) := by
        rw [moveOn, hmove]
        rfl
      rw [hmoved]
      refine ⟨rfl, Or.inl ⟨by rw [hfront, hahead], rfl, ?_⟩⟩
      unfold Ended
      cases hend : eofAfter eofAtFront direction with
      | true => exact rfl
      | false =>
          cases direction with
          | forward => cases hend
          | reverse => exact ⟨data, ⟨h.current, rfl⟩, hahead⟩
  | cons data' rest =>
      obtain ⟨c', hmove, hcurrent, hrest, hbehind⟩ := move_of_cons hahead
      have hmoved : w.moveOn eofAtFront direction = (some data', { cursor := c', eof := false }) := by
        rw [moveOn, hmove]
        rfl
      rw [hmoved]
      refine ⟨?_, Or.inr ⟨data', rfl, ⟨hcurrent, rfl⟩, ?_⟩⟩
      · change c'.entries = _
        rw [entries_eq_unroll direction, entries_eq_unroll direction w.cursor, hbehind, hcurrent, hrest, h.current,
          hahead]
        cases direction <;> simp [unroll]
      · rw [hfront, hahead, front]
        change _ = data :: (c'.current.toList ++ ahead direction c')
        rw [hcurrent, hrest]
        rfl

/-- The cursor after a walk has taken some records off the front. -/
def Passed (eofAtFront : Bool) (direction : CursorMoveDirection) (w w' : Walker) (count : Nat) : Prop :=
  w'.cursor.entries = w.cursor.entries ∧
    if count < (w.front direction).length then
      ∃ data, w'.On data ∧ w'.front direction = (w.front direction).drop count
    else w'.Ended eofAtFront direction

theorem countLoop_none (count : Nat) : countLoop eofAtFront direction count none w = ([], w) := by
  cases count <;> rfl

theorem countLoop_on {data : Record} (h : w.On data) (count : Nat) :
    (countLoop eofAtFront direction count (some data) w).1 = (w.front direction).take count ∧
      w.Passed eofAtFront direction (countLoop eofAtFront direction count (some data) w).2 count := by
  induction count generalizing w data with
  | zero =>
      refine ⟨rfl, rfl, ?_⟩
      rw [if_pos (by rw [front, h.current]; simp)]
      exact ⟨data, h, rfl⟩
  | succ count ih =>
      obtain ⟨hentries, ⟨hfront, hnone, hended⟩ | ⟨data', hsome, hon, hfront⟩⟩ := moveOn_cases h eofAtFront direction
      · rw [countLoop, hnone, countLoop_none, hfront]
        refine ⟨by simp, hentries, ?_⟩
        rw [hfront, if_neg (by simp)]
        exact hended
      · obtain ⟨hvisited, hsame, hpassed⟩ := ih hon
        rw [countLoop, hsome]
        refine ⟨?_, hsame.trans hentries, ?_⟩
        · rw [hfront, List.take_succ_cons, hvisited]
        · rw [hfront, List.length_cons, List.drop_succ_cons]
          simpa only [Nat.add_lt_add_iff_right] using hpassed

theorem eachLoop_none : eachLoop eofAtFront direction none w = ([], w) := by rw [eachLoop]

theorem eachLoop_some {data : Record} : eachLoop eofAtFront direction (some data) w =
    (data :: (eachLoop eofAtFront direction (w.moveOn eofAtFront direction).1 (w.moveOn eofAtFront direction).2).1,
      (eachLoop eofAtFront direction (w.moveOn eofAtFront direction).1 (w.moveOn eofAtFront direction).2).2) := by
  rw [eachLoop]

/-- A walk without a limit is one with a limit that is not reached. -/
theorem eachLoop_eq {count : Nat} {data : Option Record} (hdata : ∀ record ∈ data, w.On record)
    (hcount : data.isSome → (w.front direction).length ≤ count) :
    eachLoop eofAtFront direction data w = countLoop eofAtFront direction count data w := by
  induction count generalizing w data with
  | zero =>
      cases data with
      | none => rw [eachLoop_none, countLoop_none]
      | some record =>
          have hlength := hcount rfl
          rw [front, (hdata record rfl).current] at hlength
          simp at hlength
  | succ count ih =>
      cases data with
      | none => rw [eachLoop_none, countLoop_none]
      | some record =>
          obtain ⟨-, ⟨-, hnone, -⟩ | ⟨data', hsome, hon, hfront⟩⟩ :=
            moveOn_cases (hdata record rfl) eofAtFront direction
          · rw [eachLoop_some, hnone, eachLoop_none, countLoop, hnone, countLoop_none]
          · have hlength := hcount rfl
            rw [hfront, List.length_cons] at hlength
            have hrest : ∀ record ∈ some data', (w.moveOn eofAtFront direction).2.On record := by
              intro record hrecord
              rw [Option.mem_some] at hrecord
              exact hrecord ▸ hon
            rw [eachLoop_some, countLoop, hsome, ih hrest fun _ => by omega]

/-! ## The places -/

/-- The cursor stands at a place of the table, or at the end of the data. -/
def At (w : Walker) (records : List Record) (place : Place) : Prop :=
  w.cursor.entries = records ∧
    (place = none ∧ w.eof = true ∨ ∃ data, w.On data ∧ place = some w.cursor.before.length)

theorem On.lt_length {data : Record} (h : w.On data) : w.cursor.before.length < w.cursor.entries.length := by
  rw [MapCursor.entries, h.current]
  simp

theorem On.front_eq {data : Record} (h : w.On data) (direction : CursorMoveDirection) :
    w.front direction = Place.front direction w.cursor.entries w.cursor.before.length := by
  have hlength : w.cursor.before.reverse.length = w.cursor.before.length := List.length_reverse
  cases direction with
  | forward =>
      rw [Place.front, if_pos rfl, MapCursor.entries, ← hlength, List.drop_left]
      rfl
  | reverse =>
      rw [Place.front, if_neg (by decide), MapCursor.entries, h.current, ← hlength, List.take_length_add_append,
        List.reverse_append, List.reverse_reverse, front, h.current]
      rfl

theorem length_front (direction : CursorMoveDirection) {records : List Record} {i : Nat} (hi : i < records.length) :
    (Place.front direction records i).length = if direction = .forward then records.length - i else i + 1 := by
  rw [Place.front]
  split_ifs
  · rw [List.length_drop]
  · rw [List.length_reverse, List.length_take]
    omega

theorem adjust_at {records : List Record} {place : Place} (h : w.At records place) (direction : CursorMoveDirection) :
    (w.adjust direction).2.cursor.entries = records ∧
      ((records = [] ∧ (w.adjust direction).1 = none ∧ (w.adjust direction).2.eof = true) ∨
        ∃ data, (w.adjust direction).1 = some data ∧ (w.adjust direction).2.On data ∧
          (w.adjust direction).2.cursor.before.length = place.start direction records.length) := by
  obtain ⟨rfl, ⟨rfl, heof⟩ | ⟨data, hon, rfl⟩⟩ := h
  · rw [adjust, if_pos heof]
    cases direction with
    | forward =>
        refine ⟨MapCursor.entries_toFirst w.cursor, ?_⟩
        cases hhead : w.cursor.entries.head? with
        | none =>
            have hfirst : (toEdge .forward w.cursor).1 = none := hhead
            exact Or.inl ⟨List.head?_eq_none_iff.mp hhead, hfirst, by rw [hfirst]; rfl⟩
        | some data =>
            have hfirst : (toEdge .forward w.cursor).1 = some data := hhead
            exact Or.inr ⟨data, hfirst, ⟨hhead, by rw [hfirst]; rfl⟩, rfl⟩
    | reverse =>
        refine ⟨MapCursor.entries_toLast w.cursor, ?_⟩
        cases hlast : w.cursor.entries.getLast? with
        | none =>
            have hedge : (toEdge .reverse w.cursor).1 = none := hlast
            exact Or.inl ⟨List.getLast?_eq_none_iff.mp hlast, hedge, by rw [hedge]; rfl⟩
        | some data =>
            have hedge : (toEdge .reverse w.cursor).1 = some data := hlast
            refine Or.inr ⟨data, hedge, ⟨hlast, by rw [hedge]; rfl⟩, ?_⟩
            change w.cursor.entries.dropLast.reverse.length = w.cursor.entries.length - 1
            rw [List.length_reverse, List.length_dropLast]
  · rw [adjust, if_neg (by simp [hon.eof])]
    exact ⟨rfl, Or.inr ⟨data, hon.current, hon, rfl⟩⟩

/-- The place after a walk. -/
theorem Passed.at {w' : Walker} {data : Record} {count : Nat} (hon : w.On data)
    (h : w.Passed eofAtFront direction w' count) : w'.At w.cursor.entries
      (if count < (Place.front direction w.cursor.entries w.cursor.before.length).length then
        some (if direction = .forward then w.cursor.before.length + count else w.cursor.before.length - count)
      else Place.ended eofAtFront w.cursor.entries direction) := by
  obtain ⟨hentries, hrest⟩ := h
  rw [hon.front_eq] at hrest
  refine ⟨hentries, ?_⟩
  split_ifs at hrest ⊢ with hcount hforward
  · obtain ⟨data', hon', hfront⟩ := hrest
    have hlt := hon'.lt_length
    have hlt₀ := hon.lt_length
    have hlengths := congrArg List.length hfront
    rw [hentries] at hlt
    rw [hon'.front_eq, hentries, List.length_drop, length_front direction hlt, length_front direction hlt₀,
      if_pos hforward, if_pos hforward] at hlengths
    exact Or.inr ⟨data', hon', congrArg some (by omega)⟩
  · obtain ⟨data', hon', hfront⟩ := hrest
    have hlt := hon'.lt_length
    have hlt₀ := hon.lt_length
    have hlengths := congrArg List.length hfront
    rw [hentries] at hlt
    rw [hon'.front_eq, hentries, List.length_drop, length_front direction hlt, length_front direction hlt₀,
      if_neg hforward, if_neg hforward] at hlengths
    exact Or.inr ⟨data', hon', congrArg some (by omega)⟩
  · have hne : w.cursor.entries.isEmpty = false := List.isEmpty_eq_false_iff_exists_mem.mpr
      ⟨_, List.getElem_mem hon.lt_length⟩
    unfold Ended at hrest
    rw [Place.ended, hne, Bool.false_or]
    split_ifs at hrest ⊢
    · exact Or.inl ⟨rfl, hrest⟩
    · obtain ⟨data', hon', hbefore⟩ := hrest
      exact Or.inr ⟨data', hon', by rw [hbefore]; rfl⟩

theorem front_nil (direction : CursorMoveDirection) (i : Nat) : Place.front direction [] i = [] := by
  rw [Place.front]
  split_ifs <;> simp

theorem cursorForCount_at {records : List Record} {place : Place} (h : w.At records place) (count : Nat)
    (direction : CursorMoveDirection) :
    (cursorForCount eofAtFront w count direction).1 = (Place.walk eofAtFront records place count direction).1 ∧
      (cursorForCount eofAtFront w count direction).2.At records
        (Place.walk eofAtFront records place count direction).2 := by
  obtain ⟨hentries, ⟨rfl, hnone, heof⟩ | ⟨data, hsome, hon, hplace⟩⟩ := adjust_at h direction
  · simp only [cursorForCount, hnone, countLoop_none, Place.walk, front_nil, List.take_nil, List.length_nil,
      Nat.not_lt_zero, if_false]
    exact ⟨trivial, hentries, Or.inl ⟨rfl, heof⟩⟩
  · have hloop : (countLoop eofAtFront direction count (some data) (w.adjust direction).2).1 = _ ∧ _ :=
      countLoop_on hon count
    obtain ⟨hvisited, hpassed⟩ := hloop
    have hat := hpassed.at hon
    rw [hentries, hplace] at hat
    rw [hon.front_eq, hentries, hplace] at hvisited
    simp only [cursorForCount, hsome, hvisited, Place.walk]
    exact ⟨trivial, hat⟩

theorem cursorForEach_eq {records : List Record} {place : Place} (h : w.At records place)
    (direction : CursorMoveDirection) :
    cursorForEach eofAtFront w direction = cursorForCount eofAtFront w records.length direction := by
  obtain ⟨hentries, ⟨rfl, hnone, -⟩ | ⟨data, hsome, hon, hplace⟩⟩ := adjust_at h direction
  · simp only [cursorForEach, cursorForCount, hnone, countLoop_none, eachLoop_none]
  · have hlt := hon.lt_length
    have hcount : ((w.adjust direction).2.front direction).length ≤ records.length := by
      rw [hon.front_eq, length_front direction hlt, ← hentries]
      split_ifs <;> omega
    have hdata : ∀ record ∈ some data, (w.adjust direction).2.On record := by
      intro record hrecord
      rw [Option.mem_some] at hrecord
      exact hrecord ▸ hon
    simp only [cursorForEach, cursorForCount, hsome, eachLoop_eq hdata fun _ => hcount]

theorem step_at {records : List Record} {place : Place} (h : w.At records place) (e : WalkEvent) :
    (w.step eofAtFront e).1 = (Place.step eofAtFront records place e).1 ∧
      (w.step eofAtFront e).2.At records (Place.step eofAtFront records place e).2 := by
  cases e with
  | forEach direction =>
      rw [step, cursorForEach_eq h]
      exact cursorForCount_at h records.length direction
  | forCount count direction => exact cursorForCount_at h count direction
  | bind => exact ⟨rfl, h.1, Or.inl ⟨rfl, rfl⟩⟩

theorem walks_simulate {records : List Record} {place : Place} (h : w.At records place) (events : List WalkEvent) :
    answers (step eofAtFront) w events = answers (Place.step eofAtFront records) place events ∧
      (after (step eofAtFront) w events).At records (after (Place.step eofAtFront records) place events) := by
  have hstep : ∀ (w : Walker) place e, w.At records place →
      (w.step eofAtFront e).1 = (Place.step eofAtFront records place e).1 ∧
        (w.step eofAtFront e).2.At records (Place.step eofAtFront records place e).2 := fun _ _ e h => step_at h e
  exact simulation hstep h events

end Walker

/-- **Walks**: on a cursor that has just been bound, walks of any kind, direction and length, in any order, visit the
records of the table from place to place, whatever `eof()` says of a cursor that was moved off the front. -/
theorem walks_refine (eofAtFront : Bool) (c : Cursor) (events : List WalkEvent) :
    answers (Walker.step eofAtFront) { cursor := c } events = answers (Place.step eofAtFront c.entries) none events :=
  (Walker.walks_simulate ⟨rfl, Or.inl ⟨rfl, rfl⟩⟩ events).1

/-! ## Pages -/

def pageCount (length count : Nat) : Nat := (length - 1) / count + 1

def page (direction : CursorMoveDirection) (records : List Record) (count r : Nat) : List Record :=
  ((inDirection direction records).drop (count * r)).take count

def pagePlace (direction : CursorMoveDirection) (length count r : Nat) : Place :=
  if r = 0 then none else some (if direction = .forward then count * r else length - 1 - count * r)

section Pages
variable {eofAtFront : Bool} {direction : CursorMoveDirection} {records : List Record} {count r : Nat}

theorem lt_pageCount_iff (hcount : 0 < count) (hlength : 0 < records.length) :
    r + 1 < pageCount records.length count ↔ count * r + count < records.length := by
  rw [pageCount, Nat.add_lt_add_iff_right, Nat.lt_iff_add_one_le, Nat.le_div_iff_mul_le hcount, Nat.add_mul,
    Nat.one_mul, Nat.mul_comm r count]
  omega

theorem mul_lt_length (hcount : 0 < count) (hlength : 0 < records.length) (hr : r < pageCount records.length count) :
    count * r < records.length := by
  cases r with
  | zero => simpa using hlength
  | succ r =>
      have hlt := (lt_pageCount_iff hcount hlength).mp hr
      rw [Nat.mul_add, Nat.mul_one]
      exact hlt

theorem start_pagePlace : (pagePlace direction records.length count r).start direction records.length =
    if direction = .forward then count * r else records.length - 1 - count * r := by
  rw [pagePlace, Place.start]
  by_cases hr : r = 0
  · subst hr
    simp
  · rw [if_neg hr, Option.getD_some]

theorem front_page (hlt : count * r < records.length) :
    Place.front direction records (if direction = .forward then count * r else records.length - 1 - count * r) =
      (inDirection direction records).drop (count * r) := by
  cases direction with
  | forward => rfl
  | reverse =>
      rw [if_neg (by decide), Place.front, if_neg (by decide), inDirection, List.drop_reverse,
        show records.length - 1 - count * r + 1 = records.length - count * r by omega]

theorem length_inDirection : (inDirection direction records).length = records.length := by
  cases direction with
  | forward => rfl
  | reverse => exact List.length_reverse

/-- One walk visits one page, and leads to the next one. -/
theorem walk_page (hend : eofAfter eofAtFront direction = true) (hcount : 0 < count) (hlength : 0 < records.length)
    (hr : r < pageCount records.length count) :
    Place.walk eofAtFront records (pagePlace direction records.length count r) count direction =
      (((page direction records count r).length, page direction records count r),
        pagePlace direction records.length count (if r + 1 < pageCount records.length count then r + 1 else 0)) := by
  have hlt := mul_lt_length hcount hlength hr
  have hnext := lt_pageCount_iff (r := r) hcount hlength
  rw [Place.walk, start_pagePlace, front_page hlt]
  refine Prod.ext rfl ?_
  change (if count < _ then _ else _) = _
  rw [List.length_drop, length_inDirection]
  by_cases hmore : count * r + count < records.length
  · rw [if_pos (show count < records.length - count * r by omega), if_pos (hnext.mpr hmore), pagePlace,
      if_neg (Nat.succ_ne_zero r), Nat.mul_add, Nat.mul_one]
    cases direction with
    | forward => rfl
    | reverse =>
        rw [if_neg (by decide), if_neg (by decide), if_neg (by decide)]
        exact congrArg some (by omega)
  · rw [if_neg (show ¬ count < records.length - count * r by omega), if_neg (mt hnext.mp hmore), Place.ended, hend,
      Bool.or_true]
    rfl

/-- The page after so many walks. -/
theorem succ_mod_pageCount (j p : Nat) :
    (if j % (p + 1) + 1 < p + 1 then j % (p + 1) + 1 else 0) = (j + 1) % (p + 1) := by
  have hlt : j % (p + 1) < p + 1 := Nat.mod_lt j (Nat.succ_pos p)
  rw [← Nat.mod_add_mod]
  split_ifs with h
  · exact (Nat.mod_eq_of_lt h).symm
  · rw [show j % (p + 1) + 1 = p + 1 by omega, Nat.mod_self]

theorem answers_pages (hend : eofAfter eofAtFront direction = true) (hcount : 0 < count) (hlength : 0 < records.length)
    (k j : Nat) :
    answers (Place.step eofAtFront records)
        (pagePlace direction records.length count (j % pageCount records.length count))
        (List.replicate k (.forCount count direction)) =
      (List.range' j k).map fun i =>
        ((page direction records count (i % pageCount records.length count)).length,
          page direction records count (i % pageCount records.length count)) := by
  induction k generalizing j with
  | zero => rfl
  | succ k ih =>
      have hr : j % pageCount records.length count < pageCount records.length count :=
        Nat.mod_lt j (Nat.succ_pos _)
      have hstep : Place.step eofAtFront records
          (pagePlace direction records.length count (j % pageCount records.length count))
          (.forCount count direction) = _ := walk_page hend hcount hlength hr
      rw [List.replicate_succ, answers, hstep, List.range'_succ, List.map_cons]
      refine congrArg _ ?_
      rw [← ih (j + 1)]
      congr 2
      exact congrArg (pagePlace direction records.length count) (succ_mod_pageCount j _)

theorem answers_bound {c : Cursor} (hc : c.entries ≠ []) (hcount : 0 < count)
    (hend : eofAfter eofAtFront direction = true) (calls : Nat) :
    answers (Walker.step eofAtFront) { cursor := c } (List.replicate calls (.forCount count direction)) =
      (List.range calls).map fun j =>
        ((page direction c.entries count (j % pageCount c.entries.length count)).length,
          page direction c.entries count (j % pageCount c.entries.length count)) := by
  have hat : Walker.At { cursor := c } c.entries none := ⟨rfl, Or.inl ⟨rfl, rfl⟩⟩
  have hpages : answers (Place.step eofAtFront c.entries)
      (pagePlace direction c.entries.length count (0 % pageCount c.entries.length count)) _ = _ :=
    answers_pages hend hcount (List.length_pos_of_ne_nil hc) calls 0
  rw [Nat.zero_mod] at hpages
  rw [(Walker.walks_simulate hat _).1, List.range_eq_range']
  exact hpages

theorem length_page (direction : CursorMoveDirection) (records : List Record) (count r : Nat) :
    (page direction records count r).length = min count (records.length - count * r) := by
  rw [page, List.length_take, List.length_drop, length_inDirection]

/-- All pages are full exactly when the length is a multiple of theirs. -/
theorem full_iff_dvd (hcount : 0 < count) (hlength : 0 < records.length) :
    (∀ r < pageCount records.length count, (page direction records count r).length = count) ↔
      count ∣ records.length := by
  constructor
  · intro hfull
    -- the last page
    have hlast := hfull ((records.length - 1) / count) (Nat.lt_succ_self _)
    have hlt := mul_lt_length hcount hlength (Nat.lt_succ_self ((records.length - 1) / count))
    have hno : ¬ count * ((records.length - 1) / count) + count < records.length :=
      fun h => absurd ((lt_pageCount_iff hcount hlength).mpr h) (lt_irrefl _)
    rw [length_page] at hlast
    refine ⟨(records.length - 1) / count + 1, ?_⟩
    rw [Nat.mul_add, Nat.mul_one]
    omega
  · rintro ⟨m, hm⟩ r hr
    have hlt := mul_lt_length hcount hlength hr
    rw [hm] at hlt
    have hle : count * (r + 1) ≤ count * m := Nat.mul_le_mul_left count (lt_of_mul_lt_mul_left' hlt)
    rw [length_page, hm]
    rw [Nat.mul_add, Nat.mul_one] at hle
    omega

end Pages

/-- **Walks of the same length**: the calls of `cursor_for_count` on a cursor that has just been bound visit the pages
of the table in their order, and after the last page the first one again; backwards, if `eof()` is true of a cursor
that was moved off the front. -/
theorem pages_repeat (eofAtFront : Bool) (c : Cursor) (hc : c.entries ≠ []) (count : Nat) (hcount : 0 < count)
    (direction : CursorMoveDirection) (hend : eofAfter eofAtFront direction = true) (calls : Nat) :
    answers (Walker.step eofAtFront) { cursor := c } (List.replicate calls (.forCount count direction)) =
      (List.range calls).map fun j =>
        ((page direction c.entries count (j % pageCount c.entries.length count)).length,
          page direction c.entries count (j % pageCount c.entries.length count)) :=
  answers_bound hc hcount hend calls

def fiveRecords : Cursor :=
  { after := [([1], []), ([2], []), ([3], []), ([4], []), ([5], [])], sorted := by decide }

/-- By two, forwards and backwards: two full pages, a page of one record, and the first page again. -/
theorem pages_repeat_five :
    (answers (Walker.step false) { cursor := fiveRecords } (List.replicate 4 (.forCount 2 .forward))).map
        (fun answer => answer.2.map Prod.fst) = [[[1], [2]], [[3], [4]], [[5]], [[1], [2]]] ∧
      (answers (Walker.step true) { cursor := fiveRecords } (List.replicate 4 (.forCount 2 .reverse))).map
        (fun answer => answer.2.map Prod.fst) = [[[5], [4]], [[3], [2]], [[1]], [[5], [4]]] := by
  rw [pages_repeat false fiveRecords (by decide) 2 (by decide) .forward rfl,
    pages_repeat true fiveRecords (by decide) 2 (by decide) .reverse rfl]
  exact ⟨rfl, rfl⟩

/-- **The number of records as a sign of the end**: some call of `cursor_for_count` returns another number than the
one it was asked for exactly when the table does not consist of full pages. Otherwise a loop that waits for a short
page goes through the table for ever. -/
theorem full_pages_iff (eofAtFront : Bool) (c : Cursor) (hc : c.entries ≠ []) (count : Nat) (hcount : 0 < count)
    (direction : CursorMoveDirection) (hend : eofAfter eofAtFront direction = true) :
    (∃ calls, ∃ answer ∈ answers (Walker.step eofAtFront) { cursor := c }
        (List.replicate calls (.forCount count direction)), answer.1 ≠ count) ↔ ¬ count ∣ c.entries.length := by
  have hdvd : (∀ r < pageCount c.entries.length count, (page direction c.entries count r).length = count) ↔ _ :=
    full_iff_dvd hcount (List.length_pos_of_ne_nil hc)
  rw [← hdvd]
  constructor
  · rintro ⟨calls, answer, hanswer, hne⟩ hfull
    rw [answers_bound hc hcount hend, List.mem_map] at hanswer
    obtain ⟨j, -, rfl⟩ := hanswer
    exact hne (hfull _ (Nat.mod_lt j (Nat.succ_pos _)))
  · intro hnot
    push Not at hnot
    obtain ⟨r, hr, hne⟩ := hnot
    refine ⟨r + 1, ((page direction c.entries count r).length, page direction c.entries count r), ?_, hne⟩
    rw [answers_bound hc hcount hend, List.mem_map]
    refine ⟨r, List.mem_range.mpr (Nat.lt_succ_self r), ?_⟩
    simp only [Nat.mod_eq_of_lt hr]

/-- Five records by two have a short page. -/
theorem full_pages_five : ∃ calls, ∃ answer ∈ answers (Walker.step false) { cursor := fiveRecords }
    (List.replicate calls (.forCount 2 .forward)), answer.1 ≠ 2 :=
  (full_pages_iff false fiveRecords (by decide) 2 (by decide) .forward rfl).mpr (by decide)

end Znode.Database
