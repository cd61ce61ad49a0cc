import Mathlib
import Znode.Lib.System
import Znode.Lib.Nodes

/-!
# Capped sets and queues of unique items

`CappedSet` and `UniqueQueue` hold at most a given number of distinct items; a new item pushes out the oldest one. Each
of them has a hash set of the items and a queue in which they stand in the order of their insertion.

* `Fifo.call` : what the calls mean, on the list of the items with the oldest one first;
* `UnorderedSet` : `std::unordered_set`. An insertion may rehash, which invalidates the iterators made before;
* `CappedSet` : its queue has iterators of the set, and the oldest item is erased through the first one;
* `UniqueQueue` : its queue has the items themselves;
* `InStep` : set and queue have the same items, at most as many as fit;
* `kept_in_step_iff` : `UniqueQueue` always follows the meaning of its calls. `CappedSet` does so exactly when no item
  is pushed out that was inserted before the last rehash.

When the hash set rehashes is up to the library, and a parameter; `libstdcxx` is one. A rehash invalidates iterators by
the standard: the checked iterators of libstdc++ abort when such a one is used, where its ordinary ones still work.
-/

namespace Znode.Core
open Znode.Lib

/-! ## What the calls mean -/

namespace Fifo

inductive Call (T : Type) where
  | insert (item : T)
  | pop
  | clear
deriving DecidableEq, Repr

inductive Answer (T : Type) where
  | inserted (inserted : Bool)
  | popped (item : Option T)
  | cleared
deriving DecidableEq, Repr

/-- The answer to a call, and the items afterwards; the oldest one is the first. -/
def call {T : Type} [DecidableEq T] (capacity : Nat) (items : List T) : Call T → Answer T × List T
  | .insert item =>
    if item ∈ items then (.inserted false, items)
    else (.inserted true, (if items.length = capacity then items.tail else items) ++ [item])
  | .pop => (.popped items.head?, items.tail)
  | .clear => (.cleared, [])

variable {T : Type} [DecidableEq T] {capacity : Nat} {items : List T} {item : T}

theorem call_insert_of_mem (h : item ∈ items) : call capacity items (.insert item) = (.inserted false, items) :=
  if_pos h

theorem call_insert_of_notMem (h : item ∉ items) : call capacity items (.insert item) =
    (.inserted true, (if items.length = capacity then items.tail else items) ++ [item]) := if_neg h

end Fifo

/-- A queue without duplicates, and a set of the same items; there are not too many of them. -/
structure InStep {T : Type} (capacity : Nat) (queue : List T) (contains : T → Prop) : Prop where
  nodup : queue.Nodup
  contains_iff : ∀ item, contains item ↔ item ∈ queue
  length_le : queue.length ≤ capacity

/-! ## The containers -/

/-- An iterator of a hash set: a node, and how often the set had been rehashed when the iterator was made. -/
structure Iterator where
  node : Nat
  rehashes : Nat
deriving DecidableEq, Repr

/-- The new number of buckets, when the insertion of one more element rehashes a set of this size and so many
buckets. -/
abbrev Growth := Nat → Nat → Option Nat

/-- `std::unordered_set`, with the nodes in the order of their insertion. -/
structure UnorderedSet (T : Type) where
  elements : Nodes T := {}
  bucketCount : Nat := 1
  rehashes : Nat := 0

namespace UnorderedSet
variable {T : Type} [DecidableEq T]

def size (s : UnorderedSet T) : Nat := s.elements.nodes.length

def find (s : UnorderedSet T) (item : T) : Option Iterator :=
  (s.elements.nodes.find? fun x => x.2 = item).map fun x => ⟨x.1, s.rehashes⟩

def grow (growth : Growth) (s : UnorderedSet T) : UnorderedSet T :=
  (growth s.size s.bucketCount).elim s fun bucketCount =>
    { s with bucketCount := bucketCount, rehashes := s.rehashes + 1 }

def insert (growth : Growth) (s : UnorderedSet T) (item : T) : Iterator × UnorderedSet T :=
  let s := s.grow growth
  (⟨s.elements.next, s.rehashes⟩, { s with elements := s.elements.pushBack item })

/-- Erases the element of an iterator. Without a valid iterator the behaviour is undefined. -/
def erase (s : UnorderedSet T) (it : Iterator) : Option (UnorderedSet T) :=
  if it.rehashes = s.rehashes ∧ it.node ∈ s.elements.nodes.map Prod.fst then
    some { s with elements := s.elements.erase it.node }
  else none

def clear (s : UnorderedSet T) : UnorderedSet T := { s with elements := s.elements.clear }

end UnorderedSet

/-- `CappedSet`; the constructor refuses a capacity of zero. -/
structure CappedSet (T : Type) where
  capacity : ℕ+
  items : UnorderedSet T := {}
  itemsQueue : List Iterator := []

namespace CappedSet
variable {T : Type} [DecidableEq T]

def contains (s : CappedSet T) (item : T) : Bool := (s.items.find item).isSome

def makeRoom (s : CappedSet T) : Option (CappedSet T) :=
  if s.items.size = s.capacity then
    match s.itemsQueue with
    | [] => none
    | front :: rest => (s.items.erase front).map fun items => { s with items := items, itemsQueue := rest }
  else some s

def add (growth : Growth) (s : CappedSet T) (item : T) : (Iterator × Bool) × CappedSet T :=
  let (it, items) := s.items.insert growth item
  ((it, true), { s with items := items, itemsQueue := s.itemsQueue ++ [it] })

/-- The pair that `insert` returns, and the container afterwards. -/
def insert (growth : Growth) (s : CappedSet T) (item : T) : Option ((Iterator × Bool) × CappedSet T) :=
  match s.items.find item with
  | some it => some ((it, false), s)
  | none => s.makeRoom.map fun s => s.add growth item

def clear (s : CappedSet T) : CappedSet T := { s with items := s.items.clear, itemsQueue := [] }

inductive Call (T : Type) where
  | insert (item : T)
  | clear
deriving DecidableEq, Repr

def Call.toFifo : Call T → Fifo.Call T
  | insert item => .insert item
  | clear => .clear

def call (growth : Growth) (s : CappedSet T) : Call T → Option (Fifo.Answer T × CappedSet T)
  | .insert item => (s.insert growth item).map fun r => (.inserted r.1.2, r.2)
  | .clear => some (.cleared, s.clear)

def step (growth : Growth) (s : CappedSet T) (c : Call T) : Option (CappedSet T) := (s.call growth c).map Prod.snd

def queued (s : CappedSet T) : List T := s.itemsQueue.filterMap fun it => s.items.elements.get? it.node

/-- The set was not rehashed since the item was inserted that a call pushes out. -/
def EvictsValid (s : CappedSet T) (c : Call T) : Prop :=
  ∀ item, c = .insert item → item ∉ s.queued → s.queued.length = s.capacity →
    ∀ front ∈ s.itemsQueue.head?, front.rehashes = s.items.rehashes

end CappedSet

/-- `UniqueQueue`; the constructor refuses a capacity of zero. -/
structure UniqueQueue (T : Type) where
  capacity : ℕ+
  queue : List T := []
  set : Finset T := ∅

namespace UniqueQueue
variable {T : Type} [DecidableEq T]

/-- Takes the oldest item out of a container with one item too many. -/
def trim (s : UniqueQueue T) : UniqueQueue T :=
  if s.queue.length > s.capacity then
    match s.queue with
    | [] => s
    | front :: rest => { s with queue := rest, set := s.set.erase front }
  else s

def push (s : UniqueQueue T) (item : T) : Bool × UniqueQueue T :=
  if item ∈ s.set then (false, s)
  else (true, { s with queue := s.queue ++ [item], set := insert item s.set }.trim)

def pop (s : UniqueQueue T) : Option T × UniqueQueue T :=
  match s.queue with
  | [] => (none, s)
  | item :: rest => (some item, { s with queue := rest, set := s.set.erase item })

def clear (s : UniqueQueue T) : UniqueQueue T := { s with queue := [], set := ∅ }

def call (s : UniqueQueue T) : Fifo.Call T → Fifo.Answer T × UniqueQueue T
  | .insert item => (.inserted (s.push item).1, (s.push item).2)
  | .pop => (.popped s.pop.1, s.pop.2)
  | .clear => (.cleared, s.clear)

end UniqueQueue

/-! ## The capped set -/

namespace UnorderedSet
variable {T : Type} {s : UnorderedSet T}

@[simp] theorem elements_grow (growth : Growth) (s : UnorderedSet T) : (s.grow growth).elements = s.elements := by
  unfold grow
  cases growth s.size s.bucketCount <;> rfl

theorem size_eq (s : UnorderedSet T) : s.size = s.elements.values.length := (List.length_map _).symm

theorem find_eq_none_iff [DecidableEq T] {item : T} : s.find item = none ↔ item ∉ s.elements.values := by
  rw [find, Option.map_eq_none_iff, List.find?_eq_none, Nodes.values, List.mem_map]
  simp only [decide_eq_true_eq, not_exists, not_and]

end UnorderedSet

namespace CappedSet
variable {T : Type} {s s' : CappedSet T}

/-- The iterators in the queue are those of the nodes of the set, in their order. -/
def Aligned (s : CappedSet T) : Prop := s.itemsQueue.map Iterator.node = s.items.elements.nodes.map Prod.fst

structure Paired (s : CappedSet T) : Prop where
  aligned : s.Aligned
  nodup : s.items.elements.values.Nodup
  length_le : s.items.size ≤ s.capacity

theorem paired_empty (capacity : ℕ+) (buckets : Nat) :
    Paired ({ capacity := capacity, items := { bucketCount := buckets } } : CappedSet T) :=
  ⟨rfl, List.nodup_nil, Nat.zero_le _⟩

theorem Aligned.queued_eq (h : s.Aligned) : s.queued = s.items.elements.values := by
  rw [← Nodes.filterMap_get?, ← h, List.filterMap_map]
  rfl

theorem Aligned.front (h : s.Aligned) (hfull : s.items.size = s.capacity) :
    ∃ front rest a nodes, s.itemsQueue = front :: rest ∧ s.items.elements.nodes = (front.node, a) :: nodes ∧
      rest.map Iterator.node = nodes.map Prod.fst := by
  have hpos := s.capacity.pos
  have hlength : s.itemsQueue.length = s.items.size := by
    rw [← List.length_map Iterator.node, h, List.length_map]
    rfl
  obtain ⟨front, rest, hqueue⟩ := List.exists_cons_of_length_pos (show 0 < s.itemsQueue.length by omega)
  obtain ⟨⟨node, a⟩, nodes, hnodes⟩ := List.exists_cons_of_length_pos (show 0 < s.items.size by omega)
  have hnode := h
  rw [Aligned, hqueue, hnodes, List.map_cons, List.map_cons] at hnode
  obtain ⟨hfront, hrest⟩ := List.cons.inj hnode
  refine ⟨front, rest, a, nodes, hqueue, ?_, hrest⟩
  rw [hnodes, hfront]

/-- The oldest item goes when there is no room, unless its iterator is no longer valid. -/
theorem Paired.makeRoom (h : s.Paired)
    (hvalid : s.items.size = s.capacity → ∀ front ∈ s.itemsQueue.head?, front.rehashes = s.items.rehashes) :
    ∃ s', s.makeRoom = some s' ∧ s'.capacity = s.capacity ∧ s'.Aligned ∧ s'.items.size < s.capacity ∧
      s'.items.elements.values = if s.items.elements.values.length = s.capacity then s.items.elements.values.tail
        else s.items.elements.values := by
  unfold CappedSet.makeRoom
  rw [← s.items.size_eq]
  split_ifs with hfull
  · obtain ⟨front, rest, a, nodes, hqueue, hnodes, hrest⟩ := h.aligned.front hfull
    have hrehashes := hvalid hfull front (by rw [hqueue]; rfl)
    have herase := Nodes.nodes_erase_head hnodes
    have hsize : nodes.length + 1 = s.capacity := by
      rw [← hfull, UnorderedSet.size, hnodes, List.length_cons]
    have hcall : s.items.erase front = some { s.items with elements := s.items.elements.erase front.node } :=
      if_pos ⟨hrehashes, by simp [hnodes]⟩
    refine ⟨{ s with
      items := { s.items with elements := s.items.elements.erase front.node }
      itemsQueue := rest }, ?_, rfl, ?_, ?_, ?_⟩
    · rw [hqueue]
      simp only [hcall, Option.map_some]
    · change rest.map Iterator.node = (s.items.elements.erase front.node).nodes.map Prod.fst
      rw [herase, hrest]
    · change (s.items.elements.erase front.node).nodes.length < _
      rw [herase]
      omega
    · change (s.items.elements.erase front.node).nodes.map Prod.snd = _
      rw [herase, Nodes.values, hnodes, List.map_cons, List.tail_cons]
  · exact ⟨s, rfl, rfl, h.aligned, lt_of_le_of_ne h.length_le hfull, rfl⟩

theorem Paired.makeRoom_eq_none (h : s.Paired) (hfull : s.items.size = s.capacity) {front : Iterator}
    (hfront : front ∈ s.itemsQueue.head?) (hstale : front.rehashes ≠ s.items.rehashes) : s.makeRoom = none := by
  obtain ⟨front', rest, a, nodes, hqueue, -⟩ := h.aligned.front hfull
  rw [hqueue] at hfront
  cases hfront
  have herase : s.items.erase front = none := if_neg fun hvalid => hstale hvalid.1
  rw [CappedSet.makeRoom, if_pos hfull, hqueue]
  simp only [herase, Option.map_none]

theorem Aligned.add (h : s.Aligned) (growth : Growth) (item : T) : (s.add growth item).2.Aligned := by
  change (s.itemsQueue ++ [_]).map Iterator.node = ((s.items.grow growth).elements.pushBack item).nodes.map Prod.fst
  rw [UnorderedSet.elements_grow]
  change _ = (s.items.elements.nodes ++ [(s.items.elements.next, item)]).map Prod.fst
  rw [List.map_append, List.map_append, h]
  simp

theorem values_add (growth : Growth) (s : CappedSet T) (item : T) :
    (s.add growth item).2.items.elements.values = s.items.elements.values ++ [item] := by
  change ((s.items.grow growth).elements.pushBack item).values = _
  rw [UnorderedSet.elements_grow]
  exact List.map_append

/-- The set has not been rehashed since the container was made. -/
structure Unrehashed (s : CappedSet T) : Prop where
  paired : s.Paired
  items : s.items.rehashes = 0
  queue : ∀ it ∈ s.itemsQueue, it.rehashes = 0

theorem Unrehashed.front (h : s.Unrehashed) : ∀ front ∈ s.itemsQueue.head?, front.rehashes = s.items.rehashes := by
  intro front hfront
  rw [h.items, h.queue front (List.mem_of_mem_head? hfront)]

theorem Unrehashed.makeRoom (h : s.Unrehashed) (hroom : s.makeRoom = some s') :
    s'.items.rehashes = 0 ∧ ∀ it ∈ s'.itemsQueue, it.rehashes = 0 := by
  unfold CappedSet.makeRoom at hroom
  split_ifs at hroom
  · cases hqueue : s.itemsQueue with
    | nil =>
        rw [hqueue] at hroom
        cases hroom
    | cons front rest =>
        rw [hqueue] at hroom
        obtain ⟨items, herase, rfl⟩ := Option.map_eq_some_iff.mp hroom
        obtain ⟨-, hitems⟩ := Option.ite_none_right_eq_some.mp herase
        cases hitems
        exact ⟨h.items, fun it hit => h.queue it (hqueue ▸ List.mem_cons_of_mem front hit)⟩
  · cases hroom
    exact ⟨h.items, h.queue⟩

variable [DecidableEq T] {growth : Growth} {c : Call T}

theorem Paired.inStep (h : s.Paired) : InStep s.capacity s.queued (fun item => s.contains item) := by
  rw [h.aligned.queued_eq]
  refine ⟨h.nodup, fun item => ?_, s.items.size_eq ▸ h.length_le⟩
  rw [contains, Option.isSome_iff_ne_none, ne_eq, UnorderedSet.find_eq_none_iff, not_not]

theorem Paired.insert_new (growth : Growth) (h : s.Paired) {item : T} (hnew : item ∉ s.queued)
    (hvalid : s.EvictsValid (.insert item)) : ∃ it s', s.insert growth item = some ((it, true), s') ∧ s'.Paired ∧
      s'.capacity = s.capacity ∧
      s'.queued = (if s.queued.length = s.capacity then s.queued.tail else s.queued) ++ [item] := by
  have hqueued := h.aligned.queued_eq
  have hfind : s.items.find item = none := UnorderedSet.find_eq_none_iff.mpr (hqueued ▸ hnew)
  obtain ⟨s₁, hroom, hcapacity, haligned, hsize, hvalues⟩ := h.makeRoom fun hfull front hfront =>
    hvalid item rfl hnew (by rw [hqueued, ← s.items.size_eq, hfull]) front hfront
  have hsub : s₁.items.elements.values.Sublist s.items.elements.values := by
    rw [hvalues]
    split_ifs
    · exact List.tail_sublist _
    · exact List.Sublist.refl _
  refine ⟨(s₁.add growth item).1.1, (s₁.add growth item).2, ?_, ⟨haligned.add growth item, ?_, ?_⟩, hcapacity, ?_⟩
  · simp only [insert, hfind, hroom, Option.map_some]
    rfl
  · rw [values_add]
    refine (h.nodup.sublist hsub).append (List.nodup_singleton item) ?_
    rw [List.disjoint_singleton]
    exact fun hin => hnew (hqueued ▸ hsub.subset hin)
  · rw [UnorderedSet.size_eq, values_add, List.length_append, ← s₁.items.size_eq]
    change _ ≤ (s₁.capacity : Nat)
    rw [hcapacity]
    exact hsize
  · rw [(haligned.add growth item).queued_eq, values_add, hvalues, hqueued]

/-- A call that evicts nothing through a stale iterator does what it means. -/
theorem Paired.call (growth : Growth) (h : s.Paired) (hvalid : s.EvictsValid c) :
    ∃ s', s.call growth c = some ((Fifo.call s.capacity s.queued c.toFifo).1, s') ∧
      s'.queued = (Fifo.call s.capacity s.queued c.toFifo).2 ∧ s'.Paired ∧ s'.capacity = s.capacity := by
  cases c with
  | insert item =>
      by_cases hin : item ∈ s.queued
      · obtain ⟨it, hfind⟩ := Option.ne_none_iff_exists'.mp
          (mt UnorderedSet.find_eq_none_iff.mp (not_not.mpr (h.aligned.queued_eq ▸ hin)))
        rw [Call.toFifo, Fifo.call_insert_of_mem hin]
        refine ⟨s, ?_, rfl, h, rfl⟩
        simp only [CappedSet.call, insert, hfind, Option.map_some]
      · obtain ⟨it, s', hinsert, hpaired, hcapacity, hqueued⟩ := h.insert_new growth hin hvalid
        rw [Call.toFifo, Fifo.call_insert_of_notMem hin]
        refine ⟨s', ?_, hqueued, hpaired, hcapacity⟩
        rw [CappedSet.call, hinsert, Option.map_some]
  | clear => exact ⟨s.clear, rfl, rfl, ⟨rfl, List.nodup_nil, Nat.zero_le _⟩, rfl⟩

theorem Paired.evictsValid (h : s.Paired) {r : Fifo.Answer T × CappedSet T} (hcall : s.call growth c = some r) :
    s.EvictsValid c := by
  rintro item rfl hnew hfull front hfront
  have hqueued := h.aligned.queued_eq
  have hfind : s.items.find item = none := UnorderedSet.find_eq_none_iff.mpr (hqueued ▸ hnew)
  by_contra hstale
  have hroom := h.makeRoom_eq_none (by rw [s.items.size_eq, ← hqueued, hfull]) hfront hstale
  simp [CappedSet.call, insert, hfind, hroom] at hcall

theorem Paired.step (h : s.Paired) (hstep : s.step growth c = some s') : s'.Paired ∧ s'.capacity = s.capacity := by
  obtain ⟨r, hcall, rfl⟩ := Option.map_eq_some_iff.mp hstep
  obtain ⟨s₁, hcall₁, -, hpaired, hcapacity⟩ := h.call growth (h.evictsValid hcall)
  rw [hcall] at hcall₁
  cases hcall₁
  exact ⟨hpaired, hcapacity⟩

/-- Exactly the calls that evict nothing through a stale iterator can be made. -/
theorem evictsValid_iff (growth : Growth) {capacity : ℕ+} (s : CappedSet T) (c : Call T)
    (h : s.Paired ∧ s.capacity = capacity) :
    s.EvictsValid c ↔ ∃ s', s.step growth c = some s' ∧ s'.Paired ∧ s'.capacity = capacity := by
  constructor
  · intro hvalid
    obtain ⟨s', hcall, -, hpaired, hcapacity⟩ := h.1.call growth hvalid
    refine ⟨s', ?_, hpaired, hcapacity.trans h.2⟩
    rw [step, hcall, Option.map_some]
  · rintro ⟨s', hstep, -⟩
    obtain ⟨r, hcall, -⟩ := Option.map_eq_some_iff.mp hstep
    exact h.1.evictsValid hcall

/-- The calls are answered as they are meant, and set and queue stay in step. -/
def Follows (growth : Growth) (s₀ : CappedSet T) (calls : List (Call T)) : Prop :=
  ∀ n c, calls[n]? = some c → ∃ s s', runSystem (step growth) s₀ (calls.take n) = some s ∧
    s.call growth c = some ((Fifo.call s₀.capacity s.queued c.toFifo).1, s') ∧
    s'.queued = (Fifo.call s₀.capacity s.queued c.toFifo).2 ∧
    InStep s₀.capacity s'.queued fun item => s'.contains item

theorem follows_iff {s₀ : CappedSet T} (h : s₀.Paired) (calls : List (Call T)) :
    Follows growth s₀ calls ↔ Throughout (step growth) EvictsValid s₀ calls := by
  have hkeeps : ∀ (s : CappedSet T) c s', s.Paired ∧ s.capacity = s₀.capacity → s.step growth c = some s' →
      s'.Paired ∧ s'.capacity = s₀.capacity := by
    intro s c s' hs hstep
    obtain ⟨hpaired, hcapacity⟩ := hs.1.step hstep
    exact ⟨hpaired, hcapacity.trans hs.2⟩
  constructor
  · intro hfollows
    refine throughout_iff.mpr fun n c hc s hrun => ?_
    obtain ⟨s₁, s₂, hrun₁, hcall, -⟩ := hfollows n c hc
    have heq : s₁ = s := Option.some.inj (hrun₁.symm.trans hrun)
    subst heq
    exact (runSystem_keeps hkeeps ⟨h, rfl⟩ hrun₁).1.evictsValid hcall
  · intro hall n c hc
    obtain ⟨s, -, hrun, hs, -⟩ := (throughout_iff_runs (evictsValid_iff growth) ⟨h, rfl⟩ calls).mpr hall n c hc
    have hvalid := throughout_iff.mp hall n c hc s hrun
    obtain ⟨s', hcall, hqueued, hpaired, hcapacity⟩ := hs.1.call growth hvalid
    rw [hs.2] at hcall hqueued hcapacity
    refine ⟨s, s', hrun, hcall, hqueued, ?_⟩
    rw [← hcapacity]
    exact hpaired.inStep

/-- Where no insertion below the capacity rehashes, the iterators in the queue stay valid. -/
theorem Unrehashed.step (hgrowth : ∀ size < (s.capacity : Nat), ∀ buckets, growth size buckets = none)
    (h : s.Unrehashed) (hstep : s.step growth c = some s') : s'.Unrehashed := by
  suffices hkept : s'.items.rehashes = 0 ∧ ∀ it ∈ s'.itemsQueue, it.rehashes = 0 from
    ⟨(h.paired.step hstep).1, hkept.1, hkept.2⟩
  obtain ⟨r, hcall, rfl⟩ := Option.map_eq_some_iff.mp hstep
  cases c with
  | clear =>
      cases hcall
      exact ⟨h.items, fun it hit => absurd hit List.not_mem_nil⟩
  | insert item =>
      obtain ⟨r', hinsert, rfl⟩ := Option.map_eq_some_iff.mp hcall
      unfold insert at hinsert
      split at hinsert
      · cases hinsert
        exact ⟨h.items, h.queue⟩
      · obtain ⟨s₁, hroom, rfl⟩ := Option.map_eq_some_iff.mp hinsert
        obtain ⟨s₁', hroom', -, -, hsize, -⟩ := h.paired.makeRoom fun _ => h.front
        cases hroom.symm.trans hroom'
        have hgrow : s₁.items.grow growth = s₁.items := by
          rw [UnorderedSet.grow, hgrowth _ hsize, Option.elim_none]
        obtain ⟨hitems, hqueue⟩ := h.makeRoom hroom
        simp only [add, UnorderedSet.insert, hgrow, List.mem_append, List.mem_singleton]
        refine ⟨hitems, ?_⟩
        rintro it (hit | rfl)
        · exact hqueue it hit
        · exact hitems

theorem follows_of_reserved (capacity : ℕ+) (buckets : Nat)
    (hgrowth : ∀ size < (capacity : Nat), ∀ buckets, growth size buckets = none) (calls : List (Call T)) :
    Follows growth { capacity := capacity, items := { bucketCount := buckets } } calls := by
  refine (follows_iff (paired_empty capacity buckets) calls).mpr (throughout_iff.mpr fun n c _ s hrun => ?_)
  have hkeeps : ∀ (s : CappedSet T) c s', s.Unrehashed ∧ s.capacity = capacity → s.step growth c = some s' →
      s'.Unrehashed ∧ s'.capacity = capacity := by
    rintro s c s' ⟨hs, hcapacity⟩ hstep
    exact ⟨hs.step (hcapacity ▸ hgrowth) hstep, (hs.paired.step hstep).2.trans hcapacity⟩
  have hstart : Unrehashed ({ capacity := capacity, items := { bucketCount := buckets } } : CappedSet T) :=
    ⟨paired_empty capacity buckets, rfl, fun it hit => absurd hit List.not_mem_nil⟩
  exact fun _ _ _ _ => (runSystem_keeps hkeeps ⟨hstart, rfl⟩ hrun).1.front

end CappedSet

/-! ## The queue of unique items -/

namespace InStep
variable {T : Type} [DecidableEq T] {capacity : Nat} {queue : List T} {set : Finset T} {item : T}

theorem push (h : InStep capacity queue (· ∈ set)) (hnew : item ∉ set) :
    InStep (capacity + 1) (queue ++ [item]) (· ∈ insert item set) where
  nodup := by
    refine h.nodup.append (List.nodup_singleton item) ?_
    rw [List.disjoint_singleton, ← h.contains_iff]
    exact hnew
  contains_iff := by
    intro x
    rw [Finset.mem_insert, List.mem_append, List.mem_singleton, h.contains_iff, or_comm]
  length_le := by
    rw [List.length_append]
    exact Nat.succ_le_succ h.length_le

theorem pop (h : InStep capacity (item :: queue) (· ∈ set)) {capacity' : Nat} (hlength : queue.length ≤ capacity') :
    InStep capacity' queue (· ∈ set.erase item) := by
  obtain ⟨hfirst, hnodup⟩ := List.nodup_cons.mp h.nodup
  refine ⟨hnodup, fun x => ?_, hlength⟩
  rw [Finset.mem_erase, h.contains_iff, List.mem_cons]
  constructor
  · rintro ⟨hne, heq | hin⟩
    · exact absurd heq hne
    · exact hin
  · intro hin
    exact ⟨fun heq => hfirst (heq ▸ hin), Or.inr hin⟩

end InStep

namespace UniqueQueue
variable {T : Type} {s : UniqueQueue T}

def Paired (s : UniqueQueue T) : Prop := InStep s.capacity s.queue (· ∈ s.set)

theorem paired_empty (capacity : ℕ+) : Paired ({ capacity := capacity } : UniqueQueue T) :=
  ⟨List.nodup_nil, by simp, Nat.zero_le _⟩

variable [DecidableEq T]

theorem trim_spec (h : InStep (s.capacity + 1) s.queue (· ∈ s.set)) :
    s.trim.queue = (if s.queue.length = s.capacity + 1 then s.queue.tail else s.queue) ∧ s.trim.Paired ∧
      s.trim.capacity = s.capacity := by
  have hlength := h.length_le
  unfold trim
  by_cases hfull : s.queue.length > s.capacity
  · rw [if_pos hfull, if_pos (by omega)]
    cases hqueue : s.queue with
    | nil =>
        rw [hqueue] at hfull
        exact absurd hfull (Nat.not_lt_zero _)
    | cons front rest =>
        rw [hqueue] at h
        exact ⟨rfl, h.pop (Nat.le_of_succ_le_succ h.length_le), rfl⟩
  · rw [if_neg hfull, if_neg (by omega)]
    exact ⟨rfl, ⟨h.nodup, h.contains_iff, Nat.le_of_not_lt hfull⟩, rfl⟩

theorem Paired.push (h : s.Paired) {item : T} (hnew : item ∉ s.queue) :
    (s.push item).1 = true ∧
      (s.push item).2.queue = (if s.queue.length = s.capacity then s.queue.tail else s.queue) ++ [item] ∧
      (s.push item).2.Paired ∧ (s.push item).2.capacity = s.capacity := by
  have hset : item ∉ s.set := mt (h.contains_iff item).mp hnew
  obtain ⟨hqueue, hpaired, hcapacity⟩ :=
    trim_spec (s := { s with queue := s.queue ++ [item], set := insert item s.set }) (InStep.push h hset)
  rw [UniqueQueue.push, if_neg hset]
  refine ⟨rfl, hqueue.trans ?_, hpaired, hcapacity⟩
  have hlength : (s.queue ++ [item]).length = s.queue.length + 1 := List.length_append
  by_cases hfull : s.queue.length = s.capacity
  · -- a full queue is not empty
    have hne : s.queue ≠ [] := List.ne_nil_of_length_pos (hfull ▸ s.capacity.pos)
    rw [if_pos hfull, if_pos (hlength.trans (congrArg (· + 1) hfull)), List.tail_append_of_ne_nil hne]
  · rw [if_neg hfull, if_neg fun heq => hfull (Nat.succ.inj (hlength.symm.trans heq))]

theorem Paired.pop (h : s.Paired) : s.pop.1 = s.queue.head? ∧ s.pop.2.queue = s.queue.tail ∧ s.pop.2.Paired ∧
    s.pop.2.capacity = s.capacity := by
  unfold UniqueQueue.pop
  cases hqueue : s.queue with
  | nil => exact ⟨rfl, hqueue, h, rfl⟩
  | cons item rest =>
      have hin : InStep s.capacity (item :: rest) (· ∈ s.set) := hqueue ▸ h
      exact ⟨rfl, rfl, hin.pop (Nat.le_of_succ_le hin.length_le), rfl⟩

theorem Paired.call (h : s.Paired) (c : Fifo.Call T) :
    (s.call c).1 = (Fifo.call s.capacity s.queue c).1 ∧ (s.call c).2.queue = (Fifo.call s.capacity s.queue c).2 ∧
      (s.call c).2.Paired ∧ (s.call c).2.capacity = s.capacity := by
  cases c with
  | insert item =>
      by_cases hin : item ∈ s.queue
      · rw [Fifo.call_insert_of_mem hin, UniqueQueue.call, UniqueQueue.push, if_pos ((h.contains_iff item).mpr hin)]
        exact ⟨rfl, rfl, h, rfl⟩
      · obtain ⟨hret, hqueue, hpaired, hcapacity⟩ := h.push hin
        rw [Fifo.call_insert_of_notMem hin, UniqueQueue.call, hret]
        exact ⟨rfl, hqueue, hpaired, hcapacity⟩
  | pop =>
      obtain ⟨hret, hqueue, hpaired, hcapacity⟩ := h.pop
      rw [Fifo.call, UniqueQueue.call, hret]
      exact ⟨rfl, hqueue, hpaired, hcapacity⟩
  | clear => exact ⟨rfl, rfl, paired_empty s.capacity, rfl⟩

def run (s : UniqueQueue T) (calls : List (Fifo.Call T)) : UniqueQueue T := calls.foldl (fun s c => (s.call c).2) s

theorem Paired.run (h : s.Paired) (calls : List (Fifo.Call T)) :
    (s.run calls).Paired ∧ (s.run calls).capacity = s.capacity := by
  induction calls generalizing s with
  | nil => exact ⟨h, rfl⟩
  | cons c calls ih =>
      obtain ⟨-, -, hpaired, hcapacity⟩ := h.call c
      obtain ⟨hrun, hcapacity'⟩ := ih hpaired
      exact ⟨hrun, hcapacity'.trans hcapacity⟩

end UniqueQueue

/-- **Set and queue stay in step**, and the calls are answered as they are meant: in a `UniqueQueue` after all sequences
of calls, and in a `CappedSet` after exactly those in which no item is pushed out that was inserted before the last
rehash. These are all sequences, where no insertion below the capacity rehashes. -/
theorem kept_in_step_iff {T : Type} [DecidableEq T] (growth : Growth) (buckets : Nat) (capacity : ℕ+)
    (cappedCalls : List (CappedSet.Call T)) (uniqueCalls : List (Fifo.Call T)) (c : Fifo.Call T) :
    (CappedSet.Follows growth { capacity := capacity, items := { bucketCount := buckets } } cappedCalls ↔
      Throughout (CappedSet.step growth) CappedSet.EvictsValid
        { capacity := capacity, items := { bucketCount := buckets } } cappedCalls) ∧
    ((∀ size < (capacity : Nat), ∀ buckets, growth size buckets = none) →
      CappedSet.Follows growth { capacity := capacity, items := { bucketCount := buckets } } cappedCalls) ∧
    let s := UniqueQueue.run { capacity := capacity } uniqueCalls
    (s.call c).1 = (Fifo.call capacity s.queue c).1 ∧ (s.call c).2.queue = (Fifo.call capacity s.queue c).2 ∧
      InStep capacity (s.call c).2.queue (· ∈ (s.call c).2.set) := by
  refine ⟨CappedSet.follows_iff (CappedSet.paired_empty capacity buckets) cappedCalls,
    fun hgrowth => CappedSet.follows_of_reserved capacity buckets hgrowth cappedCalls, ?_⟩
  obtain ⟨hpaired, hcapacity⟩ := (UniqueQueue.paired_empty (T := T) capacity).run uniqueCalls
  obtain ⟨hret, hqueue, hnext, hcapacity'⟩ := hpaired.call c
  rw [hcapacity] at hret hqueue hcapacity'
  refine ⟨hret, hqueue, ?_⟩
  rw [UniqueQueue.Paired, hcapacity'] at hnext
  exact hnext

/-- The growth of libstdc++, for sets of up to ten thousand elements: 13 buckets at the first insertion, and when there
would be more elements than buckets, a prime of its table that is at least twice as large. -/
def libstdcxx : Growth := fun size buckets =>
  if buckets = 1 then some 13
  else if size + 1 ≤ buckets then none
  else [29, 59, 127, 257, 541, 1109, 2357, 5087, 10273].find? (2 * buckets ≤ ·)

def fourteenInserts : List (CappedSet.Call Nat) := (List.range 14).map CappedSet.Call.insert

/-- Room for 14 items: the last of them makes the set rehash, and the next one erases the first through an iterator that
is no longer valid. -/
theorem capped_set_stale :
    runSystem (CappedSet.step libstdcxx) { capacity := 14 } (fourteenInserts ++ [.insert 14]) = none ∧
    ¬ CappedSet.Follows libstdcxx { capacity := 14 } (fourteenInserts ++ [.insert 14]) := by
  have hstuck : (runSystem (CappedSet.step libstdcxx) { capacity := 14 } fourteenInserts).all fun s =>
      (s.call libstdcxx (.insert 14)).isNone := by decide
  refine ⟨by decide, fun hfollows => ?_⟩
  obtain ⟨s, s', hrun, hcall, -⟩ := hfollows 14 (.insert 14) rfl
  have hfourteen : runSystem (CappedSet.step libstdcxx) { capacity := 14 } fourteenInserts = some s := hrun
  rw [hfourteen, Option.all_some, hcall] at hstuck
  cases hstuck

end Znode.Core
