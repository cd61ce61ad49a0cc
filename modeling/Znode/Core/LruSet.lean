import Mathlib
import Znode.Lib.System
import Znode.Lib.Nodes
import Znode.Lib.Recency

/-!
# The set of the most recent items

`LruSet` has a list of its items, the most recent one first, and a hash map from the items to the nodes of the list.

* `LruSet.insert` : moves the node of an item to the front, or adds a node and drops the last one when there are too
  many. There is nothing when the map leads to a node that is not in the list;
* `LruSet.Linked` : the map leads each item of the list to its own node, and has no other item;
* `lruSet_refines` : after every sequence of calls the items are the most recent ones since the last `clear`.

A call holds the mutex from its beginning to its end.
-/

namespace Znode.Core
open Znode.Lib

structure LruSet (Key : Type) where
  maxSize : Nat
  list : Nodes Key := {}
  map : Key → Option Nat := fun _ => none

namespace LruSet
variable {Key : Type}

def items (s : LruSet Key) : List Key := s.list.values

def contains (s : LruSet Key) (item : Key) : Bool := (s.map item).isSome

def insert [DecidableEq Key] (s : LruSet Key) (item : Key) : Option (Bool × LruSet Key) :=
  match s.map item with
  | some node => (s.list.toFront node).map fun list => (false, { s with list := list })
  | none =>
    let list := s.list.pushFront item
    let map := Function.update s.map item (some s.list.next)
    if list.nodes.length > s.maxSize then
      list.values.getLast?.map fun back =>
        (true, { s with list := list.popBack, map := Function.update map back none })
    else some (true, { s with list := list, map := map })

def clear (s : LruSet Key) : LruSet Key := { s with list := s.list.clear, map := fun _ => none }

inductive Call (Key : Type) where
  | insert (item : Key)
  | clear
deriving DecidableEq, Repr

def step [DecidableEq Key] (s : LruSet Key) : Call Key → Option (LruSet Key)
  | .insert item => (s.insert item).map Prod.snd
  | .clear => some s.clear

/-- The items inserted since the last `clear`, the latest first, after one more call. -/
def record (history : List Key) : Call Key → List Key
  | .insert item => item :: history
  | .clear => []

def Linked (s : LruSet Key) : Prop := ∀ item node, s.map item = some node ↔ (node, item) ∈ s.list.nodes

variable {s : LruSet Key} {item : Key}

theorem linked_empty (maxSize : Nat) : Linked ({ maxSize := maxSize } : LruSet Key) := by simp [Linked]

theorem Linked.nodup (h : s.Linked) : s.items.Nodup := by
  have hnodes : s.list.nodes.Nodup := List.Nodup.of_map _ s.list.nodup
  refine hnodes.map_on fun x hx y hy heq => ?_
  have hnode : some x.1 = some y.1 := by
    rw [← (h x.2 x.1).mpr hx, ← (h y.2 y.1).mpr hy, heq]
  exact Prod.ext (Option.some.inj hnode) heq

theorem Linked.mem_items_iff (h : s.Linked) : item ∈ s.items ↔ ∃ node, s.map item = some node := by
  simp only [h item, items, Nodes.values, List.mem_map, Prod.exists, exists_eq_right]

variable [DecidableEq Key]

theorem Linked.push (h : s.Linked) (hnew : s.map item = none) :
    Linked { s with list := s.list.pushFront item, map := Function.update s.map item (some s.list.next) } := by
  intro key node
  change Function.update s.map item (some s.list.next) key = some node ↔
    (node, key) ∈ (s.list.next, item) :: s.list.nodes
  rw [List.mem_cons, ← h key node]
  by_cases hkey : key = item
  · subst hkey
    simp [hnew, eq_comm]
  · simp [hkey]

theorem Linked.evict (h : s.Linked) {back : Key} (hback : s.items.getLast? = some back) :
    Linked { s with list := s.list.popBack, map := Function.update s.map back none } := by
  obtain ⟨nodes, last, hnodes⟩ : ∃ nodes last, s.list.nodes = nodes ++ [last] := by
    refine (List.eq_nil_or_concat' s.list.nodes).resolve_left fun hnil => ?_
    simp [items, Nodes.values, hnil] at hback
  have hlast : last.2 = back := by simpa [items, Nodes.values, hnodes] using hback
  have hnodup := h.nodup
  rw [items, Nodes.values, hnodes, List.map_append, List.nodup_append] at hnodup
  intro key node
  change Function.update s.map back none key = some node ↔ (node, key) ∈ s.list.nodes.dropLast
  rw [hnodes, List.dropLast_concat]
  by_cases hkey : key = back
  · -- the item of the last node is not in another one
    subst hkey
    rw [Function.update_self]
    refine iff_of_false (by simp) fun hin => ?_
    exact hnodup.2.2 key (List.mem_map_of_mem hin) last.2 (by simp) hlast.symm
  · rw [Function.update_of_ne hkey, h key node, hnodes, List.mem_append, List.mem_singleton]
    refine or_iff_left fun heq => hkey ?_
    rw [← hlast, ← heq]

theorem insert_spec (h : s.Linked) (hsize : s.items.length ≤ s.maxSize) (item : Key) :
    ∃ s', s.insert item = some (decide (item ∉ s.items), s') ∧ s'.Linked ∧ s'.maxSize = s.maxSize ∧
      s'.items = touch s.maxSize item s.items := by
  unfold insert touch
  cases hmap : s.map item with
  | some node =>
      have hitem : item ∈ s.items := h.mem_items_iff.mpr ⟨node, hmap⟩
      obtain ⟨list, hfront, hmem, hvalues⟩ := Nodes.toFront_of_mem h.nodup ((h item node).mp hmap)
      refine ⟨{ s with list := list }, ?_, ?_, rfl, ?_⟩
      · simp [hfront, hitem]
      · intro key node'
        exact (h key node').trans (hmem _).symm
      · rw [if_pos hitem]
        exact hvalues
  | none =>
      have hitem : item ∉ s.items := by simp [h.mem_items_iff, hmap]
      have hlength : s.list.nodes.length = s.items.length := (List.length_map _).symm
      have hpush := h.push hmap
      have hitems : (s.list.pushFront item).values = item :: s.items := rfl
      rw [if_neg hitem]
      change ∃ s', (if s.list.nodes.length + 1 > s.maxSize then _ else _) = _ ∧ _
      split_ifs with hfull
      · obtain ⟨back, hback⟩ : ∃ back, (item :: s.items).getLast? = some back :=
          ⟨_, List.getLast?_eq_some_getLast (List.cons_ne_nil _ _)⟩
        refine ⟨_, ?_, hpush.evict hback, rfl, ?_⟩
        · rw [hitems, hback]
          simp [hitem]
        · -- there was one item too many
          change ((s.list.pushFront item).nodes.dropLast).map Prod.snd = _
          rw [List.map_dropLast, List.dropLast_eq_take]
          change (item :: s.items).take s.items.length = _
          congr 1
          omega
      · refine ⟨_, ?_, hpush, rfl, ?_⟩
        · simp [hitem]
        · rw [List.take_of_length_le (by simp; omega)]
          rfl

/-- The items of a set are the most recent ones of a history. -/
structure Holds (s : LruSet Key) (history : List Key) : Prop where
  linked : s.Linked
  items_eq : s.items = recent s.maxSize history

theorem Holds.length_le {history : List Key} (h : s.Holds history) : s.items.length ≤ s.maxSize := by
  rw [h.items_eq]
  exact List.length_take_le _ _

theorem Holds.insert {history : List Key} (h : s.Holds history) (item : Key) :
    ∃ s', s.insert item = some (decide (item ∉ s.items), s') ∧ s'.maxSize = s.maxSize ∧ s'.Holds (item :: history) := by
  obtain ⟨s', hinsert, hlinked, hsize, hitems⟩ := insert_spec h.linked h.length_le item
  refine ⟨s', hinsert, hsize, hlinked, ?_⟩
  rw [hitems, hsize, h.items_eq, recent_cons]

theorem Holds.clear (s : LruSet Key) : s.clear.Holds [] := by
  refine ⟨?_, ?_⟩
  · intro key node
    simp [LruSet.clear, Nodes.clear, Nodes.part]
  · exact (recent_nil _).symm

theorem Holds.step {history : List Key} (h : s.Holds history) (call : Call Key) :
    ∃ s', s.step call = some s' ∧ s'.maxSize = s.maxSize ∧ s'.Holds (record history call) := by
  cases call with
  | insert item =>
      obtain ⟨s', hinsert, hsize, hholds⟩ := h.insert item
      refine ⟨s', ?_, hsize, hholds⟩
      rw [LruSet.step, hinsert, Option.map_some]
  | clear => exact ⟨s.clear, rfl, rfl, Holds.clear s⟩

theorem Holds.run {history : List Key} (h : s.Holds history) (calls : List (Call Key)) :
    ∃ s', runSystem LruSet.step s calls = some s' ∧ s'.maxSize = s.maxSize ∧
      s'.Holds (calls.foldl record history) := by
  induction calls generalizing s history with
  | nil => exact ⟨s, rfl, rfl, h⟩
  | cons call calls ih =>
      obtain ⟨s₁, hstep, hsize₁, h₁⟩ := h.step call
      obtain ⟨s', hrun, hsize, h'⟩ := ih h₁
      refine ⟨s', ?_, hsize.trans hsize₁, h'⟩
      rw [runSystem, hstep, Option.bind_some, hrun]

/-- **`LruSet` refines its model.** After every sequence of calls the items are the most recent distinct ones since the
last `clear`, at most `m` of them; the map has exactly these items, each with its own node; and the next `insert`
answers whether its item is not among them. -/
theorem lruSet_refines (m : Nat) (calls : List (Call Key)) :
    ∃ s, runSystem step { maxSize := m } calls = some s ∧ s.items = recent m (calls.foldl record []) ∧ s.Linked ∧
      (∀ item, s.contains item ↔ item ∈ s.items) ∧
      ∀ item, ∃ s', s.insert item = some (decide (item ∉ s.items), s') := by
  obtain ⟨s, hrun, hsize, hholds⟩ := Holds.run ⟨linked_empty m, (recent_nil m).symm⟩ calls
  refine ⟨s, hrun, ?_, hholds.linked, ?_, ?_⟩
  · rw [hholds.items_eq, hsize]
  · intro item
    rw [hholds.linked.mem_items_iff, contains, Option.isSome_iff_exists]
  · intro item
    obtain ⟨s', hinsert, -⟩ := hholds.insert item
    exact ⟨s', hinsert⟩

example : (runSystem step { maxSize := 2 } [.insert 1, .insert 2, .insert 1, .insert 3]).map items = some [3, 1] := by
  decide

end LruSet

end Znode.Core
