import Mathlib
import Znode.Lib.Positions
import Znode.AddressBook.Entries

/-!
# The invariant of the address book

The structures of a book depend on one view of it, the entries by id. The order lists the ids with their
positions (`Ordered`); everything else does not read the positions, and is a property of the entries without
them (`content`):

* `Filed` : the two families of buckets invert the references of the entries, the counters count the entries
  that have some, the entries are well formed, and no endpoint has two ids;
* `Housed b except` : every entry, those in `except` apart, is in a bucket. Inside a call an entry is without a
  place between two steps;
* `Filed.update` : the one way in which a step changes a book, at one id.
-/

namespace Znode.Net.AddressBook
open Znode.Lib Znode.Core

/-! ## Views -/

def AddressBookEntry.bare (e : AddressBookEntry) : AddressBookEntry :=
  { e with info := { e.info with randomPos := 0 } }

@[simp] theorem AddressBookEntry.bare_endpoint (e : AddressBookEntry) : e.bare.endpoint = e.endpoint := rfl
@[simp] theorem AddressBookEntry.bare_service (e : AddressBookEntry) : e.bare.info.service = e.info.service := rfl
@[simp] theorem AddressBookEntry.bare_origin (e : AddressBookEntry) : e.bare.info.origin = e.info.origin := rfl
@[simp] theorem AddressBookEntry.bare_newRefs (e : AddressBookEntry) : e.bare.info.newRefs = e.info.newRefs := rfl
@[simp] theorem AddressBookEntry.bare_triedRef (e : AddressBookEntry) : e.bare.info.triedRef = e.info.triedRef := rfl

def content (b : AddressBook) (id : Nat) : Option AddressBookEntry := (b.entry id).map AddressBookEntry.bare

def position (b : AddressBook) (id : Nat) : Option Nat := (b.info id).map (·.randomPos)

def newRefsOf (c : Nat → Option AddressBookEntry) (id : Nat) : Finset Nat :=
  ((c id).map (·.info.newRefs)).getD ∅

def triedRefsOf (c : Nat → Option AddressBookEntry) (id : Nat) : Finset Nat :=
  ((c id).bind (·.info.triedRef)).toFinset

theorem newRefsOf_update (c : Nat → Option AddressBookEntry) (id : Nat) (o : Option AddressBookEntry) :
    newRefsOf (Function.update c id o) = Function.update (newRefsOf c) id ((o.map (·.info.newRefs)).getD ∅) := by
  funext k
  by_cases hk : k = id
  · subst hk
    simp [newRefsOf]
  · simp [newRefsOf, hk]

theorem triedRefsOf_update (c : Nat → Option AddressBookEntry) (id : Nat) (o : Option AddressBookEntry) :
    triedRefsOf (Function.update c id o) =
      Function.update (triedRefsOf c) id (o.bind (·.info.triedRef)).toFinset := by
  funext k
  by_cases hk : k = id
  · subst hk
    simp [triedRefsOf]
  · simp [triedRefsOf, hk]

theorem newRefsOf_some {c : Nat → Option AddressBookEntry} {id : Nat} {e : AddressBookEntry} (h : c id = some e) :
    newRefsOf c id = e.info.newRefs := by
  simp [newRefsOf, h]

theorem triedRefsOf_some {c : Nat → Option AddressBookEntry} {id : Nat} {e : AddressBookEntry} (h : c id = some e) :
    triedRefsOf c id = e.info.triedRef.toFinset := by
  simp [triedRefsOf, h]

theorem exists_of_mem_newRefsOf {c : Nat → Option AddressBookEntry} {id s : Nat} (h : s ∈ newRefsOf c id) :
    ∃ e, c id = some e ∧ s ∈ e.info.newRefs := by
  cases hc : c id with
  | none => simp [newRefsOf, hc] at h
  | some e => exact ⟨e, rfl, by simpa [newRefsOf, hc] using h⟩

theorem exists_of_mem_triedRefsOf {c : Nat → Option AddressBookEntry} {id s : Nat} (h : s ∈ triedRefsOf c id) :
    ∃ e, c id = some e ∧ e.info.triedRef = some s := by
  cases hc : c id with
  | none => simp [triedRefsOf, hc] at h
  | some e => exact ⟨e, rfl, by simpa [triedRefsOf, hc] using h⟩

/-! ## The invariant -/

structure EntryOk (lastUsedId id : Nat) (e : AddressBookEntry) : Prop where
  id_pos : 0 < id
  id_lt : id < lastUsedId
  endpoint : e.info.service.endpoint = e.endpoint
  routable : e.endpoint.address.isRoutable
  origin : e.info.origin.isRoutable
  card : e.info.newRefs.card ≤ kMaxNewBucketReferences
  disjoint : e.info.triedRef.isSome → e.info.newRefs = ∅

def Ordered (b : AddressBook) : Prop := Indexes b.randomlyOrderedIds b.position

structure Filed (b : AddressBook) : Prop where
  last_pos : 0 < b.lastUsedId
  new : Placed b.newBuckets b.newEntriesSize (newRefsOf b.content)
  tried : Placed b.triedBuckets b.triedEntriesSize (triedRefsOf b.content)
  entries : ∀ id e, b.content id = some e → EntryOk b.lastUsedId id e
  unique : ∀ id id' e e', b.content id = some e → b.content id' = some e' → e.endpoint = e'.endpoint → id = id'

/-- Every entry is in a bucket, those in `except` apart. -/
def Housed (b : AddressBook) (except : Finset Nat) : Prop :=
  ∀ id e, b.content id = some e → id ∉ except → e.info.newRefs ≠ ∅ ∨ e.info.triedRef.isSome

structure Coherent (b : AddressBook) : Prop where
  ordered : Ordered b
  filed : Filed b

theorem coherent_empty : Coherent {} where
  ordered := Indexes.nil
  filed := by
    refine ⟨Nat.one_pos, Placed.empty, Placed.empty, ?_, ?_⟩
    · intro id e h
      simp [content, entry] at h
    · intro id id' e e' h
      simp [content, entry] at h

theorem housed_empty : Housed {} ∅ := by
  intro id e h
  simp [content, entry] at h

/-- The book changes at one id: the entry there appears, changes or goes. -/
theorem Filed.update {b b' : AddressBook} (h : Filed b) (id : Nat) (o : Option AddressBookEntry)
    (hcontent : b'.content = Function.update b.content id o) (hlast : b.lastUsedId ≤ b'.lastUsedId)
    (hok : ∀ e, o = some e → EntryOk b'.lastUsedId id e)
    (hfresh : ∀ e, o = some e → ∀ id' e', id' ≠ id → b.content id' = some e' → e'.endpoint ≠ e.endpoint)
    (hnew : Placed b'.newBuckets b'.newEntriesSize
      (Function.update (newRefsOf b.content) id ((o.map (·.info.newRefs)).getD ∅)))
    (htried : Placed b'.triedBuckets b'.triedEntriesSize
      (Function.update (triedRefsOf b.content) id (o.bind (·.info.triedRef)).toFinset)) : Filed b' := by
  refine ⟨h.last_pos.trans_le hlast, ?_, ?_, ?_, ?_⟩
  · rw [hcontent, newRefsOf_update]
    exact hnew
  · rw [hcontent, triedRefsOf_update]
    exact htried
  · intro k e hk
    rw [hcontent] at hk
    by_cases hkid : k = id
    · subst hkid
      rw [Function.update_self] at hk
      exact hok e hk
    · rw [Function.update_of_ne hkid] at hk
      have hke := h.entries k e hk
      exact { hke with id_lt := hke.id_lt.trans_le hlast }
  · intro k k' e e' hk hk' heq
    rw [hcontent] at hk hk'
    by_cases hkid : k = id
    · by_cases hkid' : k' = id
      · rw [hkid, hkid']
      · subst hkid
        rw [Function.update_self] at hk
        rw [Function.update_of_ne hkid'] at hk'
        exact absurd heq.symm (hfresh e hk k' e' hkid' hk')
    · rw [Function.update_of_ne hkid] at hk
      by_cases hkid' : k' = id
      · subst hkid'
        rw [Function.update_self] at hk'
        exact absurd heq (hfresh e' hk' k e hkid hk)
      · rw [Function.update_of_ne hkid'] at hk'
        exact h.unique k k' e e' hk hk' heq

theorem Filed.edit {b b' : AddressBook} (h : Filed b) {id : Nat} {e e' : AddressBookEntry}
    (he : b.content id = some e) (hend : e'.endpoint = e.endpoint)
    (hcontent : b'.content = Function.update b.content id (some e')) (hlast : b'.lastUsedId = b.lastUsedId)
    (hok : EntryOk b.lastUsedId id e')
    (hnew : Placed b'.newBuckets b'.newEntriesSize (Function.update (newRefsOf b.content) id e'.info.newRefs))
    (htried : Placed b'.triedBuckets b'.triedEntriesSize
      (Function.update (triedRefsOf b.content) id e'.info.triedRef.toFinset)) : Filed b' := by
  refine h.update id (some e') hcontent hlast.ge ?_ ?_ hnew htried
  · intro e₁ h₁
    rw [← Option.some.inj h₁, hlast]
    exact hok
  · intro e₁ h₁ k e₂ hk h₂ heq
    rw [← Option.some.inj h₁, hend] at heq
    exact hk (h.unique k id e₂ e h₂ he heq)

/-- The entry at one id changes: the others have their places as before. -/
theorem Housed.update {b b' : AddressBook} {except : Finset Nat} (h : Housed b except) {id : Nat}
    {o : Option AddressBookEntry} (hcontent : b'.content = Function.update b.content id o) {except' : Finset Nat}
    (hsub : ∀ k, k ≠ id → k ∈ except → k ∈ except')
    (ho : ∀ e, o = some e → id ∉ except' → e.info.newRefs ≠ ∅ ∨ e.info.triedRef.isSome) :
    Housed b' except' := by
  intro k e hk hnot
  rw [hcontent] at hk
  by_cases hkid : k = id
  · subst hkid
    rw [Function.update_self] at hk
    exact ho e hk hnot
  · rw [Function.update_of_ne hkid] at hk
    exact h k e hk fun hmem => hnot (hsub k hkid hmem)

/-! ## Bounds -/

/-- A counter of ids in use is below `lastUsedId`. -/
theorem counter_le {n last : Nat} {refs : Nat → Finset Nat} (h : Counted n refs)
    (hids : ∀ id s, s ∈ refs id → 0 < id ∧ id < last) : n ≤ last - 1 := by
  have hle := h.le_card (s := Finset.Ioo 0 last) fun id hid => by
    obtain ⟨s, hs⟩ := Finset.nonempty_iff_ne_empty.mpr hid
    exact Finset.mem_Ioo.mpr (hids id s hs)
  rw [Nat.card_Ioo] at hle
  omega

theorem counter_le_update {n last id : Nat} {refs : Nat → Finset Nat} {r : Finset Nat}
    (h : Counted n (Function.update refs id r)) (hid : 0 < id ∧ id < last)
    (hids : ∀ id s, s ∈ refs id → 0 < id ∧ id < last) : n ≤ last - 1 := by
  refine counter_le h fun k s hs => ?_
  by_cases hk : k = id
  · rwa [hk]
  · rw [Function.update_of_ne hk] at hs
    exact hids k s hs

section
variable {b : AddressBook} (h : Filed b)
include h

theorem Filed.id_of_newRef (id s : Nat) (hs : s ∈ newRefsOf b.content id) : 0 < id ∧ id < b.lastUsedId := by
  obtain ⟨e, he, -⟩ := exists_of_mem_newRefsOf hs
  exact ⟨(h.entries id e he).id_pos, (h.entries id e he).id_lt⟩

theorem Filed.id_of_triedRef (id s : Nat) (hs : s ∈ triedRefsOf b.content id) : 0 < id ∧ id < b.lastUsedId := by
  obtain ⟨e, he, -⟩ := exists_of_mem_triedRefsOf hs
  exact ⟨(h.entries id e he).id_pos, (h.entries id e he).id_lt⟩

theorem Filed.newEntriesSize_le : b.newEntriesSize ≤ b.lastUsedId - 1 := counter_le h.new.counted h.id_of_newRef

theorem Filed.triedEntriesSize_le : b.triedEntriesSize ≤ b.lastUsedId - 1 :=
  counter_le h.tried.counted h.id_of_triedRef

end

theorem Ordered.mem_iff {b : AddressBook} (h : Ordered b) (id : Nat) :
    id ∈ b.randomlyOrderedIds ↔ ∃ e, b.entry id = some e := by
  rw [Indexes.mem_iff h]
  cases he : b.entry id <;> simp [position, info, he]

theorem Coherent.length_le {b : AddressBook} (h : Coherent b) :
    b.randomlyOrderedIds.length ≤ b.lastUsedId - 1 := by
  have hsub : b.randomlyOrderedIds.toFinset ⊆ Finset.Ioo 0 b.lastUsedId := by
    intro id hid
    obtain ⟨e, he⟩ := (h.ordered.mem_iff id).mp (List.mem_toFinset.mp hid)
    have hok := h.filed.entries id e.bare (by simp [content, he])
    exact Finset.mem_Ioo.mpr ⟨hok.id_pos, hok.id_lt⟩
  have hle := Finset.card_le_card hsub
  rw [List.toFinset_card_of_nodup (Indexes.nodup h.ordered), Nat.card_Ioo] at hle
  omega

/-! ## Entries and the content -/

theorem exists_entry {b : AddressBook} {id : Nat} {c : AddressBookEntry} (h : b.content id = some c) :
    ∃ e, b.entry id = some e ∧ e.bare = c := Option.map_eq_some_iff.mp h

theorem content_of_entry {b : AddressBook} {id : Nat} {e : AddressBookEntry} (h : b.entry id = some e) :
    b.content id = some e.bare := by
  simp [content, h]

theorem newRefsOf_entry {b : AddressBook} {id : Nat} {e : AddressBookEntry} (h : b.entry id = some e) :
    newRefsOf b.content id = e.info.newRefs := by
  rw [newRefsOf_some (content_of_entry h), AddressBookEntry.bare_newRefs]

theorem triedRefsOf_entry {b : AddressBook} {id : Nat} {e : AddressBookEntry} (h : b.entry id = some e) :
    triedRefsOf b.content id = e.info.triedRef.toFinset := by
  rw [triedRefsOf_some (content_of_entry h), AddressBookEntry.bare_triedRef]

theorem mem_newRefsOf_iff {b : AddressBook} {id s : Nat} :
    s ∈ newRefsOf b.content id ↔ ∃ e, b.entry id = some e ∧ s ∈ e.info.newRefs := by
  constructor
  · intro hs
    obtain ⟨c, hc, hmem⟩ := exists_of_mem_newRefsOf hs
    obtain ⟨e, he, rfl⟩ := exists_entry hc
    exact ⟨e, he, hmem⟩
  · rintro ⟨e, he, hs⟩
    rwa [newRefsOf_entry he]

theorem mem_triedRefsOf_iff {b : AddressBook} {id s : Nat} :
    s ∈ triedRefsOf b.content id ↔ ∃ e, b.entry id = some e ∧ e.info.triedRef = some s := by
  constructor
  · intro hs
    obtain ⟨c, hc, hmem⟩ := exists_of_mem_triedRefsOf hs
    obtain ⟨e, he, rfl⟩ := exists_entry hc
    exact ⟨e, he, hmem⟩
  · rintro ⟨e, he, hs⟩
    rw [triedRefsOf_entry he, hs]
    simp

theorem Filed.routable {b : AddressBook} (h : Filed b) {id : Nat} {e : AddressBookEntry} (he : b.entry id = some e) :
    e.info.service.endpoint.address.isRoutable := by
  have hok := h.entries id _ (content_of_entry he)
  rw [← AddressBookEntry.bare_service, hok.endpoint]
  exact hok.routable

/-! ## Lookup by endpoint -/

theorem exists_of_lookupEndpoint {b : AddressBook} {endpoint : IPEndpoint} {id : Nat}
    (h : b.lookupEndpoint endpoint = some id) : ∃ e, b.entry id = some e ∧ e.endpoint = endpoint := by
  obtain ⟨e, he, hend⟩ := Table.get_of_find? h
  exact ⟨e, he, by simpa using hend⟩

theorem lookupEndpoint_eq_none_iff {b : AddressBook} {endpoint : IPEndpoint} :
    b.lookupEndpoint endpoint = none ↔ ∀ id e, b.content id = some e → e.endpoint ≠ endpoint := by
  constructor
  · intro h id e he heq
    obtain ⟨e', he', rfl⟩ := exists_entry he
    have hne := Table.find?_eq_none h he'
    rw [AddressBookEntry.bare_endpoint] at heq
    simp [heq] at hne
  · intro h
    cases hfind : b.lookupEndpoint endpoint with
    | none => rfl
    | some id =>
        obtain ⟨e, he, hend⟩ := exists_of_lookupEndpoint hfind
        exact absurd hend (h id e.bare (content_of_entry he))

/-- The ids and the endpoints of a book correspond when no endpoint has two ids. -/
theorem lookupEndpoint_eq_some_iff {b : AddressBook}
    (hunique : ∀ id id' e e', b.entry id = some e → b.entry id' = some e' → e.endpoint = e'.endpoint → id = id')
    {endpoint : IPEndpoint} {id : Nat} :
    b.lookupEndpoint endpoint = some id ↔ ∃ e, b.entry id = some e ∧ e.endpoint = endpoint := by
  constructor
  · exact exists_of_lookupEndpoint
  · rintro ⟨e, he, hend⟩
    cases hfind : b.lookupEndpoint endpoint with
    | none => exact absurd hend (lookupEndpoint_eq_none_iff.mp hfind id e.bare (content_of_entry he))
    | some id' =>
        obtain ⟨e', he', hend'⟩ := exists_of_lookupEndpoint hfind
        rw [hunique id' id e' e he' he (hend'.trans hend.symm)]

theorem Filed.lookupEndpoint_eq_some_iff {b : AddressBook} (h : Filed b) {endpoint : IPEndpoint} {id : Nat} :
    b.lookupEndpoint endpoint = some id ↔ ∃ e, b.entry id = some e ∧ e.endpoint = endpoint := by
  refine AddressBook.lookupEndpoint_eq_some_iff fun id id' e e' he he' hend => ?_
  exact h.unique id id' e.bare e'.bare (content_of_entry he) (content_of_entry he') hend

/-! ## The views after an edit -/

theorem entry_mapInfo {b : AddressBook} {id : Nat} {e : AddressBookEntry} (h : b.entry id = some e)
    (f : NodeServiceInfo → NodeServiceInfo) :
    (mapInfo id f b).entry = Function.update b.entry id (some { e with info := f e.info }) := by
  funext k
  by_cases hk : k = id
  · subst hk
    simp only [mapInfo, h, Function.update_self]
    simp [entry, Table.get_insert]
  · rw [Function.update_of_ne hk]
    simp only [mapInfo, h]
    simp [entry, Table.get_insert, hk]

theorem content_eq_update {b b' : AddressBook} {id : Nat} {o : Option AddressBookEntry}
    (h : b'.entry = Function.update b.entry id o) :
    b'.content = Function.update b.content id (o.map AddressBookEntry.bare) := by
  funext k
  by_cases hk : k = id
  · subst hk
    simp [content, h]
  · simp [content, h, hk]

theorem position_eq_update {b b' : AddressBook} {id : Nat} {o : Option AddressBookEntry}
    (h : b'.entry = Function.update b.entry id o) :
    b'.position = Function.update b.position id (o.map (·.info.randomPos)) := by
  funext k
  by_cases hk : k = id
  · subst hk
    simp [position, info, h, Function.comp_def]
  · simp [position, info, h, hk]

end Znode.Net.AddressBook
