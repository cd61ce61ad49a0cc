import Mathlib
import Znode.AddressBook.Invariant

/-!
# The private functions keep the invariant

One lemma per function of the source, of the form `Act.Ensures`: from a coherent book the call returns, and
the book it leaves is coherent. What the callers need besides is which entries it leaves alone.

* `swapRandomlyOrderedIds_ensures`, `eraseNewEntry_ensures` : need the order only;
* `clearNewSlot_ensures` : `Cleared` says what may happen to an entry whose slot is taken;
* `makeEntryTried_ensures`, `insertEntry_ensures`, `updateEntry_ensures`. The last one is put together from the three
  ways an update can go: `updateEntry_stays`, `updateEntry_moves`, `updateEntry_aborts`.
-/

namespace Znode.Net.AddressBook
open Znode.Lib Znode.Core

/-! ## What an edit leaves alone -/

section
variable (id : Nat) (f : NodeServiceInfo → NodeServiceInfo) (b : AddressBook)

@[simp] theorem mapInfo_lastUsedId : (mapInfo id f b).lastUsedId = b.lastUsedId := by
  unfold mapInfo; split <;> rfl

@[simp] theorem mapInfo_newEntriesSize : (mapInfo id f b).newEntriesSize = b.newEntriesSize := by
  unfold mapInfo; split <;> rfl

@[simp] theorem mapInfo_triedEntriesSize : (mapInfo id f b).triedEntriesSize = b.triedEntriesSize := by
  unfold mapInfo; split <;> rfl

@[simp] theorem mapInfo_randomlyOrderedIds : (mapInfo id f b).randomlyOrderedIds = b.randomlyOrderedIds := by
  unfold mapInfo; split <;> rfl

@[simp] theorem mapInfo_newBuckets : (mapInfo id f b).newBuckets = b.newBuckets := by
  unfold mapInfo; split <;> rfl

@[simp] theorem mapInfo_triedBuckets : (mapInfo id f b).triedBuckets = b.triedBuckets := by
  unfold mapInfo; split <;> rfl

@[simp] theorem mapInfo_recentlySelected : (mapInfo id f b).recentlySelected = b.recentlySelected := by
  unfold mapInfo; split <;> rfl

theorem mapInfo_setTried (t : Table Nat) :
    mapInfo id f { b with triedBuckets := t } = { mapInfo id f b with triedBuckets := t } := by
  have hentry : entry { b with triedBuckets := t } id = b.entry id := rfl
  unfold mapInfo
  rw [hentry]
  cases b.entry id <;> rfl

end

variable {b b' : AddressBook} {id : Nat} {e : AddressBookEntry}

theorem info_of_entry (h : b.entry id = some e) : b.info id = some e.info := by
  simp [info, h]

theorem requireInfo_run (h : b.entry id = some e) : (requireInfo id).run b = .ok e.info b := by
  simp [requireInfo, info_of_entry h]

theorem entry_mapInfo_self (h : b.entry id = some e) (f : NodeServiceInfo → NodeServiceInfo) :
    (mapInfo id f b).entry id = some { e with info := f e.info } := by
  rw [entry_mapInfo h, Function.update_self]

theorem entry_mapInfo_of_ne {k : Nat} (hk : k ≠ id) (f : NodeServiceInfo → NodeServiceInfo) :
    (mapInfo id f b).entry k = b.entry k := by
  cases h : b.entry id with
  | none => simp [mapInfo, h]
  | some e => rw [entry_mapInfo h, Function.update_of_ne hk]

theorem entry_mapInfo_congr (h : b'.listIndex = b.listIndex) (f : NodeServiceInfo → NodeServiceInfo) :
    (mapInfo id f b').entry = (mapInfo id f b).entry := by
  have hentry : b'.entry = b.entry := by
    funext k
    simp [entry, h]
  cases he : b.entry id with
  | none => simp [mapInfo, hentry, he]
  | some e => rw [entry_mapInfo (hentry ▸ he), entry_mapInfo he, hentry]

theorem entry_erase (h : b'.listIndex = b.listIndex.erase id) : b'.entry = Function.update b.entry id none := by
  funext k
  by_cases hk : k = id <;> simp [entry, h, Table.get_erase, hk]

theorem entry_insert (h : b'.listIndex = b.listIndex.insert id e) :
    b'.entry = Function.update b.entry id (some e) := by
  funext k
  by_cases hk : k = id <;> simp [entry, h, Table.get_insert, hk]

theorem content_mapInfo (h : b.entry id = some e) (f : NodeServiceInfo → NodeServiceInfo) :
    (mapInfo id f b).content =
      Function.update b.content id (some { e with info := f e.info : AddressBookEntry }.bare) :=
  content_eq_update (entry_mapInfo h f)

/-- An edit of one entry that keeps its position and its endpoint, with the buckets and the counters that go
with it. -/
theorem Coherent.edit (h : Coherent b) (he : b.entry id = some e) {f : NodeServiceInfo → NodeServiceInfo}
    (hentry : b'.entry = (mapInfo id f b).entry) (hids : b'.randomlyOrderedIds = b.randomlyOrderedIds)
    (hlast : b'.lastUsedId = b.lastUsedId) (hpos : (f e.info).randomPos = e.info.randomPos)
    (hok : EntryOk b.lastUsedId id { e with info := f e.info : AddressBookEntry }.bare)
    (hnew : Placed b'.newBuckets b'.newEntriesSize
      (Function.update (newRefsOf b.content) id (f e.info).newRefs))
    (htried : Placed b'.triedBuckets b'.triedEntriesSize
      (Function.update (triedRefsOf b.content) id (f e.info).triedRef.toFinset)) : Coherent b' := by
  rw [entry_mapInfo he] at hentry
  have hcontent := content_eq_update hentry
  rw [Option.map_some] at hcontent
  refine ⟨?_, h.filed.edit (content_of_entry he) ?_ hcontent hlast hok hnew htried⟩
  swap
  · rfl
  have hself : b.position id = some e.info.randomPos := by simp [position, info_of_entry he]
  have hposition : b'.position = b.position := by
    rw [position_eq_update hentry]
    simp only [Option.map_some, hpos]
    rw [← hself, Function.update_eq_self]
  unfold Ordered
  rw [hids, hposition]
  exact h.ordered

/-! ## The order -/

structure Reordered (b b' : AddressBook) : Prop where
  frame : ∃ ids index, b' = { b with randomlyOrderedIds := ids, listIndex := index }
  content : b'.content = b.content

theorem content_setPos (id p : Nat) :
    (mapInfo id (fun info => { info with randomPos := p }) b).content = b.content := by
  cases h : b.entry id with
  | none => simp [mapInfo, h]
  | some e =>
      rw [content_mapInfo h]
      have hself := content_of_entry h
      funext k
      by_cases hk : k = id
      · subst hk
        rw [Function.update_self, hself]
        rfl
      · rw [Function.update_of_ne hk]

theorem swapRandomlyOrderedIds_ensures (h : Ordered b) {i j a c : Nat} (hi : b.randomlyOrderedIds[i]? = some a)
    (hj : b.randomlyOrderedIds[j]? = some c) :
    (swapRandomlyOrderedIds i j).Ensures b fun _ b' => Reordered b b' ∧ Ordered b' ∧
      b'.randomlyOrderedIds = (b.randomlyOrderedIds.set i c).set j a := by
  by_cases hij : i = j
  · subst hij
    have hac : a = c := Option.some.inj (hi.symm.trans hj)
    obtain ⟨hlt, hget⟩ := List.getElem?_eq_some_iff.mp hi
    refine ⟨(), b, by simp [swapRandomlyOrderedIds], ⟨⟨_, _, rfl⟩, rfl⟩, h, ?_⟩
    rw [← hac, List.set_set, ← hget, List.set_getElem_self]
  · have hac : a ≠ c := by
      intro hac
      subst hac
      have hpi := (h a i).mpr hi
      have hpj := (h a j).mpr hj
      exact hij (Option.some.inj (hpi.symm.trans hpj))
    obtain ⟨ea, hea⟩ := (h.mem_iff a).mp (List.mem_of_getElem? hi)
    obtain ⟨ec, hec⟩ := (h.mem_iff c).mp (List.mem_of_getElem? hj)
    let ba := mapInfo a (fun info => { info with randomPos := j }) b
    let bc := mapInfo c (fun info => { info with randomPos := i }) ba
    have hec' : ba.entry c = some ec := by
      rw [entry_mapInfo_of_ne (Ne.symm hac), hec]
    refine ⟨(), { bc with randomlyOrderedIds := (b.randomlyOrderedIds.set i c).set j a }, ?_,
      ⟨⟨(b.randomlyOrderedIds.set i c).set j a, bc.listIndex, ?_⟩, ?_⟩, ?_, rfl⟩
    · simp [swapRandomlyOrderedIds, hij, hi, hj, requireInfo_run hea, requireInfo_run hec, ba, bc]
    · simp [ba, bc]
    · exact (content_setPos c i).trans (content_setPos a j)
    · have hswap := Indexes.swap h hi hj
      unfold Ordered
      convert hswap using 1
      funext k
      have hbc : bc.position = Function.update ba.position c (some i) :=
        position_eq_update (entry_mapInfo hec' _)
      have hba : ba.position = Function.update b.position a (some j) :=
        position_eq_update (entry_mapInfo hea _)
      change bc.position k = _
      rw [hbc, hba]
      by_cases hkc : k = c
      · subst hkc
        simp [Ne.symm hac]
      · by_cases hka : k = a
        · subst hka
          simp [hkc]
        · simp [hka, hkc]

theorem increment_of_lt {n : Nat} (h : n + 1 < 2 ^ 32) : increment n = n + 1 := Nat.mod_eq_of_lt h

theorem decrement_of_pos {n : Nat} (hpos : 0 < n) (h : n ≤ 2 ^ 32) : decrement n = n - 1 := by
  unfold decrement
  rw [if_neg (by omega)]
  exact Nat.mod_eq_of_lt (by omega)

/-- An entry without references goes; the last id of the order takes its position. -/
theorem eraseNewEntry_ensures (h : Ordered b) (he : b.entry id = some e) (hid : id ≠ 0)
    (hnew : e.info.newRefs = ∅) (htried : e.info.triedRef = none) (hlen : b.randomlyOrderedIds.length ≤ 2 ^ 32) :
    (eraseNewEntry id).Ensures b fun _ b' => Ordered b' ∧ b'.content = Function.update b.content id none ∧
      ∃ ids index, b' = { b with
        randomlyOrderedIds := ids, listIndex := index, newEntriesSize := decrement b.newEntriesSize } := by
  have hget : b.randomlyOrderedIds[e.info.randomPos]? = some id :=
    (h id _).mp (by simp [position, info_of_entry he])
  obtain ⟨hlt, -⟩ := List.getElem?_eq_some_iff.mp hget
  have hdec := decrement_of_pos (by omega : 0 < b.randomlyOrderedIds.length) hlen
  have hlast : b.randomlyOrderedIds.length - 1 < b.randomlyOrderedIds.length := by omega
  obtain ⟨_, b₁, hrun, ⟨⟨ids, index, rfl⟩, hcontent⟩, hordered, hids⟩ :=
    swapRandomlyOrderedIds_ensures h hget (List.getElem?_eq_getElem hlast)
  simp only at hids
  have hback : ids.getLast? = some id := by
    rw [List.getLast?_eq_getElem?, hids]
    simp [hlast]
  have hsplit : ids = ids.dropLast ++ [id] := (List.dropLast_append_getLast? id hback).symm
  refine ⟨(), _, ?_, ?_, ?_, ids.dropLast, index.erase id, rfl⟩
  · simp [eraseNewEntry, hid, requireInfo_run he, hnew, htried, hdec, hrun, hback]
  · unfold Ordered at hordered ⊢
    simp only at hordered ⊢
    rw [hsplit] at hordered
    convert Indexes.pop hordered using 1
    exact position_eq_update (o := none) (entry_erase rfl)
  · rw [← hcontent]
    exact content_eq_update (o := none) (entry_erase rfl)

/-! ## The new buckets -/

theorem Ordered.mapInfo (h : Ordered b) (he : b.entry id = some e) {f : NodeServiceInfo → NodeServiceInfo}
    (hpos : (f e.info).randomPos = e.info.randomPos) : Ordered (mapInfo id f b) := by
  have hself : b.position id = some e.info.randomPos := by simp [position, info_of_entry he]
  unfold Ordered
  rw [position_eq_update (entry_mapInfo he f), Option.map_some, hpos, ← hself, Function.update_eq_self,
    mapInfo_randomlyOrderedIds]
  exact h

structure AddressBookEntry.SamePeer (e e' : AddressBookEntry) : Prop where
  endpoint : e'.endpoint = e.endpoint
  service : e'.info.service.endpoint = e.info.service.endpoint
  origin : e'.info.origin = e.info.origin

theorem AddressBookEntry.SamePeer.refl (e : AddressBookEntry) : e.SamePeer e := ⟨rfl, rfl, rfl⟩

theorem AddressBookEntry.SamePeer.trans {e₁ e₂ e₃ : AddressBookEntry} (h : e₁.SamePeer e₂) (h' : e₂.SamePeer e₃) :
    e₁.SamePeer e₃ :=
  ⟨h'.endpoint.trans h.endpoint, h'.service.trans h.service, h'.origin.trans h.origin⟩

def Retains (b b' : AddressBook) : Prop :=
  ∀ k e, b.content k = some e → ∃ e', b'.content k = some e' ∧ e.SamePeer e'

/-- Every entry stays, but for one that has no other place than the slot `xy` of the new buckets. -/
def Spares (xy : Nat) (b b' : AddressBook) : Prop :=
  ∀ k e, b.content k = some e → (∃ e', b'.content k = some e' ∧ e.SamePeer e') ∨
    (b'.content k = none ∧ e.info.newRefs = {xy} ∧ e.info.triedRef = none)

theorem Retains.refl (b : AddressBook) : Retains b b := fun _ e he => ⟨e, he, .refl e⟩

theorem Retains.trans {b₁ : AddressBook} (h : Retains b b₁) (h' : Retains b₁ b') : Retains b b' := by
  intro k e he
  obtain ⟨e₁, he₁, hsame⟩ := h k e he
  obtain ⟨e', he', hsame'⟩ := h' k e₁ he₁
  exact ⟨e', he', hsame.trans hsame'⟩

/-- The entry at one id appears, or changes and is the same peer. -/
theorem Retains.of_update {c : AddressBookEntry} (hcontent : b'.content = Function.update b.content id (some c))
    (hc : ∀ e, b.content id = some e → e.SamePeer c) : Retains b b' := by
  intro k e he
  rw [hcontent]
  by_cases hk : k = id
  · subst hk
    exact ⟨c, Function.update_self .., hc e he⟩
  · exact ⟨e, by rw [Function.update_of_ne hk, he], .refl e⟩

theorem Retains.spares (h : Retains b b') (xy : Nat) : Spares xy b b' := fun k e he => Or.inl (h k e he)

/-- Afterwards an entry is added, or changes and is the same peer. -/
theorem Spares.then_update {xy : Nat} {b₁ : AddressBook} {c' : AddressBookEntry} (h : Spares xy b b₁)
    (hcontent : b'.content = Function.update b₁.content id (some c'))
    (hid : b.content id = none ∨ ∃ c, b₁.content id = some c ∧ c.SamePeer c') : Spares xy b b' := by
  intro k e he
  rw [hcontent]
  by_cases hk : k = id
  · subst hk
    rcases hid with hnone | ⟨c, hc, hsame'⟩
    · rw [hnone] at he
      cases he
    · rcases h k e he with ⟨e₁, he₁, hsame⟩ | ⟨hnone, -⟩
      · rw [← Option.some.inj (hc.symm.trans he₁)] at hsame
        exact Or.inl ⟨c', Function.update_self .., hsame.trans hsame'⟩
      · rw [hnone] at hc
        cases hc
  · rw [Function.update_of_ne hk]
    exact h k e he

/-- Before, an entry that does not refer to the slot changes and is the same peer. -/
theorem Spares.after_update {xy : Nat} {b₁ : AddressBook} {c c₁ : AddressBookEntry} (hc : b.content id = some c)
    (hcontent : b₁.content = Function.update b.content id (some c₁)) (hsame : c.SamePeer c₁)
    (hnot : xy ∉ c₁.info.newRefs) (h : Spares xy b₁ b') : Spares xy b b' := by
  intro k e he
  by_cases hk : k = id
  · subst hk
    rcases h k c₁ (by rw [hcontent, Function.update_self]) with ⟨e', he', hsame'⟩ | ⟨-, hrefs, -⟩
    · rw [← Option.some.inj (hc.symm.trans he)]
      exact Or.inl ⟨e', he', hsame.trans hsame'⟩
    · simp [hrefs] at hnot
  · exact h k e (by rw [hcontent, Function.update_of_ne hk, he])

/-- The slot `xy` is empty; an entry that did not refer to it is as before, and no endpoint is new. -/
structure Cleared (xy : Nat) (b b' : AddressBook) : Prop where
  lastUsedId : b'.lastUsedId = b.lastUsedId
  triedBuckets : b'.triedBuckets = b.triedBuckets
  triedEntriesSize : b'.triedEntriesSize = b.triedEntriesSize
  empty : b'.newBuckets.get xy = none
  keeps : ∀ k, xy ∉ newRefsOf b.content k → b'.content k = b.content k
  endpoints : ∀ k e', b'.content k = some e' → ∃ e, b.content k = some e ∧ e.endpoint = e'.endpoint
  spares : Spares xy b b'

theorem Cleared.of_update {xy : Nat} {c : AddressBookEntry} {o : Option AddressBookEntry}
    (hmem : xy ∈ newRefsOf b.content id) (hc : b.content id = some c)
    (hcontent : b'.content = Function.update b.content id o)
    (ho : (∃ c', o = some c' ∧ c.SamePeer c') ∨ (o = none ∧ c.info.newRefs = {xy} ∧ c.info.triedRef = none))
    (hlast : b'.lastUsedId = b.lastUsedId) (htried : b'.triedBuckets = b.triedBuckets)
    (hsize : b'.triedEntriesSize = b.triedEntriesSize) (hempty : b'.newBuckets.get xy = none) :
    Cleared xy b b' := by
  refine ⟨hlast, htried, hsize, hempty, ?_, ?_, ?_⟩
  · intro k hk
    have hne : k ≠ id := by
      intro hkid
      exact hk (hkid ▸ hmem)
    rw [hcontent, Function.update_of_ne hne]
  · intro k e' he'
    rw [hcontent] at he'
    by_cases hk : k = id
    · subst hk
      rw [Function.update_self] at he'
      rcases ho with ⟨c', hc', hsame⟩ | ⟨hnone, -⟩
      · rw [← Option.some.inj (hc'.symm.trans he')]
        exact ⟨c, hc, hsame.endpoint.symm⟩
      · rw [hnone] at he'
        cases he'
    · rw [Function.update_of_ne hk] at he'
      exact ⟨e', he', rfl⟩
  · intro k e he
    rw [hcontent]
    by_cases hk : k = id
    · subst hk
      rw [Function.update_self, ← Option.some.inj (hc.symm.trans he)]
      exact ho
    · rw [Function.update_of_ne hk]
      exact Or.inl ⟨e, he, .refl e⟩

/-- The reference goes, and the entry is left with others. -/
theorem Coherent.dropRef (h : Coherent b) (he : b.entry id = some e) {xy : Nat}
    (hget : b.newBuckets.get xy = some id) (hmore : e.info.newRefs.erase xy ≠ ∅) :
    Coherent { mapInfo id (fun info => { info with newRefs := info.newRefs.erase xy }) b with
      newBuckets := b.newBuckets.erase xy } := by
  have hok := h.filed.entries id _ (content_of_entry he)
  refine h.edit he rfl (mapInfo_randomlyOrderedIds ..) (mapInfo_lastUsedId ..) ?_ ?_ ?_ ?_
  · rfl
  · refine { hok with card := ?_, disjoint := ?_ }
    · exact (Finset.card_erase_le).trans hok.card
    · intro htried
      have hnone : e.info.newRefs = ∅ := hok.disjoint htried
      simp [hnone] at hmore
  · have hplaced := h.filed.new.erase hget
    rw [newRefsOf_entry he, if_neg hmore] at hplaced
    simpa using hplaced
  · simpa using h.filed.tried.update_self (triedRefsOf_entry he)

/-- The last reference goes, and the entry with it. -/
theorem Filed.dropEntry (h : Filed b) (hlast : b.lastUsedId ≤ 2 ^ 32) (he : b.entry id = some e) {xy : Nat}
    (hget : b.newBuckets.get xy = some id) (hlone : e.info.newRefs.erase xy = ∅) (htried : e.info.triedRef = none)
    {ids : List Nat} {index : Table AddressBookEntry}
    (hcontent : content { b with listIndex := index } = Function.update b.content id none) :
    Filed { b with
      randomlyOrderedIds := ids, listIndex := index, newEntriesSize := decrement b.newEntriesSize,
      newBuckets := b.newBuckets.erase xy } := by
  have hmem := (h.new.inverse xy id).mp hget
  have hsize := h.newEntriesSize_le
  have hpos := h.new.counted.pos (Finset.ne_empty_of_mem hmem)
  have hplaced := h.new.erase hget
  rw [newRefsOf_entry he, if_pos hlone, hlone, ← decrement_of_pos hpos (by omega)] at hplaced
  have hnone : triedRefsOf b.content id = ∅ := by
    rw [triedRefsOf_entry he, htried]
    rfl
  refine h.update id none hcontent le_rfl ?_ ?_ hplaced (h.tried.update_self hnone)
  · intro e' he'
    cases he'
  · intro e' he'
    cases he'

theorem clearNewSlot_ensures (h : Coherent b) (hlast : b.lastUsedId ≤ 2 ^ 32) {except : Finset Nat}
    (hhoused : Housed b except) {slot : SlotAddress} (hslot : slot.x < kNewBucketsCount ∧ slot.y < kBucketSize) :
    (clearNewSlot slot true).Ensures b fun _ b' =>
      Coherent b' ∧ Housed b' except ∧ Cleared slot.xy b b' := by
  cases hget : b.newBuckets.get slot.xy with
  | none =>
      refine ⟨(), b, by simp [clearNewSlot, hslot, hget], h, hhoused, rfl, rfl, rfl, hget, fun _ _ => rfl, ?_,
        (Retains.refl b).spares _⟩
      intro k e' he'
      exact ⟨e', he', rfl⟩
  | some id =>
      have href := (h.filed.new.inverse slot.xy id).mp hget
      obtain ⟨c, hc, -⟩ := exists_of_mem_newRefsOf href
      obtain ⟨e, he, -⟩ := exists_entry hc
      have hmem : slot.xy ∈ e.info.newRefs := newRefsOf_entry he ▸ href
      have hok := h.filed.entries id _ (content_of_entry he)
      have hid : id ≠ 0 := hok.id_pos.ne'
      let b₁ := mapInfo id (fun info => { info with newRefs := info.newRefs.erase slot.xy }) b
      have hcontent₁ : b₁.content = Function.update b.content id (some _) := content_mapInfo he _
      by_cases hempty : e.info.newRefs.erase slot.xy = ∅
      · have htried : e.info.triedRef = none := by
          by_contra hsome
          have hnone : e.info.newRefs = ∅ := hok.disjoint (Option.isSome_iff_ne_none.mpr hsome)
          simp [hnone] at hmem
        have hlen : b₁.randomlyOrderedIds.length ≤ 2 ^ 32 := by
          have := h.length_le
          rw [mapInfo_randomlyOrderedIds]
          omega
        obtain ⟨_, b₂, hrun, hordered, hcontent, ids, index, rfl⟩ :=
          eraseNewEntry_ensures (h.ordered.mapInfo he rfl) (entry_mapInfo_self he _) hid hempty htried hlen
        rw [hcontent₁, Function.update_idem] at hcontent
        refine ⟨(), { b with
          randomlyOrderedIds := ids, listIndex := index, newEntriesSize := decrement b.newEntriesSize,
          newBuckets := b.newBuckets.erase slot.xy }, ?_, ⟨hordered, ?_⟩, ?_, ?_⟩
        · simp [clearNewSlot, hslot, hget, requireInfo_run he, hid, hmem, hempty, htried, hrun]
        · exact h.filed.dropEntry hlast he hget hempty htried hcontent
        · exact hhoused.update hcontent (fun _ _ hk => hk) fun e' he' => by cases he'
        · have hlone : e.info.newRefs = {slot.xy} := by
            rw [← Finset.insert_erase hmem, hempty, insert_empty_eq]
          exact Cleared.of_update href (content_of_entry he) hcontent (Or.inr ⟨rfl, hlone, htried⟩) rfl rfl rfl
            (by simp [Table.get_erase])
      · refine ⟨(), { b₁ with newBuckets := b.newBuckets.erase slot.xy }, ?_, h.dropRef he hget hempty, ?_, ?_⟩
        · simp [clearNewSlot, hslot, hget, requireInfo_run he, hid, hmem, hempty, b₁]
        · refine hhoused.update hcontent₁ (fun _ _ hk => hk) fun e' he' _ => Or.inl ?_
          rw [← Option.some.inj he']
          exact hempty
        · exact Cleared.of_update href (content_of_entry he) hcontent₁ (Or.inl ⟨_, rfl, rfl, rfl, rfl⟩)
            (mapInfo_lastUsedId ..) (mapInfo_triedBuckets ..) (mapInfo_triedEntriesSize ..) (by simp [Table.get_erase])

/-- What a whole step leaves: if an entry is gone, the one slot that referred to it is taken. -/
def Frame (b b' : AddressBook) : Prop :=
  Retains b b' ∨ ∃ xy, Spares xy b b' ∧ (b'.newBuckets.get xy).isSome

theorem emplaceNewRef_run (he : b.entry id = some e) {xy : Nat} (hnot : xy ∉ e.info.newRefs)
    (hget : b.newBuckets.get xy = none) : (emplaceNewRef id xy).run b =
      .ok () { mapInfo id (fun info => { info with newRefs := insert xy info.newRefs }) b with
        newBuckets := b.newBuckets.insert xy id } := by
  simp [emplaceNewRef, requireInfo_run he, hnot, hget]

/-- A reference is added, and the entry counted if it is the first one. -/
theorem Coherent.addRef (h : Coherent b) (hlast : b.lastUsedId ≤ 2 ^ 32) (he : b.entry id = some e) {xy : Nat}
    (hget : b.newBuckets.get xy = none) (htried : e.info.triedRef = none)
    (hcard : e.info.newRefs.card < kMaxNewBucketReferences) :
    Coherent { mapInfo id (fun info => { info with newRefs := insert xy info.newRefs }) b with
      newBuckets := b.newBuckets.insert xy id
      newEntriesSize := if e.info.newRefs = ∅ then increment b.newEntriesSize else b.newEntriesSize } := by
  have hok := h.filed.entries id _ (content_of_entry he)
  have hplaced := h.filed.new.insert hget id
  rw [newRefsOf_entry he] at hplaced
  refine h.edit he rfl (mapInfo_randomlyOrderedIds ..) (mapInfo_lastUsedId ..) rfl ?_ ?_ ?_
  · refine { hok with card := ?_, disjoint := ?_ }
    · exact (Finset.card_insert_le xy e.info.newRefs).trans hcard
    · intro hsome
      simp [htried] at hsome
  · convert hplaced using 1
    split_ifs with hempty
    · -- the number of entries with references, this one included, is still below the number of ids
      apply increment_of_lt
      rw [if_pos hempty] at hplaced
      have hle : b.newEntriesSize + 1 ≤ b.lastUsedId - 1 :=
        counter_le_update hplaced.counted ⟨hok.id_pos, hok.id_lt⟩ h.filed.id_of_newRef
      omega
    · rfl
  · simpa using h.filed.tried.update_self (triedRefsOf_entry he)

/-! ## The tried buckets -/

theorem Coherent.dropRefs (h : Coherent b) (hlast : b.lastUsedId ≤ 2 ^ 32) (he : b.entry id = some e) :
    Coherent (mapInfo id (fun info => { info with newRefs := ∅ }) { b with
      newEntriesSize := if e.info.newRefs = ∅ then b.newEntriesSize else decrement b.newEntriesSize
      newBuckets := b.newBuckets.eraseAll (e.info.newRefs.sort (· ≤ ·)) }) := by
  have hok := h.filed.entries id _ (content_of_entry he)
  have hks : ∀ s, s ∈ e.info.newRefs.sort (· ≤ ·) ↔ s ∈ newRefsOf b.content id := by
    intro s
    rw [newRefsOf_entry he, Finset.mem_sort]
  have hplaced := h.filed.new.eraseAll hks
  rw [newRefsOf_entry he] at hplaced
  refine h.edit (f := fun info => { info with newRefs := ∅ }) he ?_ (mapInfo_randomlyOrderedIds ..)
    (mapInfo_lastUsedId ..) rfl ?_ ?_ ?_
  · apply entry_mapInfo_congr
    rfl
  · exact { hok with card := Nat.zero_le _, disjoint := fun _ => rfl }
  · rw [mapInfo_newBuckets, mapInfo_newEntriesSize]
    convert hplaced using 1
    split_ifs with hempty
    · rfl
    · have hsize := h.filed.newEntriesSize_le
      have hpos := h.filed.new.counted.pos (k := id) (by rw [newRefsOf_entry he]; exact hempty)
      exact decrement_of_pos hpos (by omega)
  · simpa using h.filed.tried.update_self (triedRefsOf_entry he)

theorem Coherent.dropTried (h : Coherent b) (hlast : b.lastUsedId ≤ 2 ^ 32) (he : b.entry id = some e) {xy : Nat}
    (htried : e.info.triedRef = some xy) :
    Coherent { mapInfo id (fun info => { info with triedRef := none }) b with
      triedBuckets := b.triedBuckets.erase xy
      triedEntriesSize := decrement b.triedEntriesSize } := by
  have hok := h.filed.entries id _ (content_of_entry he)
  have hmem : xy ∈ triedRefsOf b.content id := by
    rw [triedRefsOf_entry he, htried]
    simp
  have hget := (h.filed.tried.inverse xy id).mpr hmem
  have hplaced := h.filed.tried.erase hget
  have hnone : (triedRefsOf b.content id).erase xy = ∅ := by
    rw [triedRefsOf_entry he, htried]
    simp
  have hsize := h.filed.triedEntriesSize_le
  have hpos := h.filed.tried.counted.pos (Finset.ne_empty_of_mem hmem)
  rw [hnone, if_pos rfl, ← decrement_of_pos hpos (by omega)] at hplaced
  refine h.edit he rfl (mapInfo_randomlyOrderedIds ..) (mapInfo_lastUsedId ..) rfl ?_ ?_ ?_
  · refine { hok with disjoint := ?_ }
    intro hsome
    simp at hsome
  · simpa using h.filed.new.update_self (newRefsOf_entry he)
  · simpa using hplaced

theorem Coherent.addTried (h : Coherent b) (hlast : b.lastUsedId ≤ 2 ^ 32) (he : b.entry id = some e) {xy : Nat}
    (hget : b.triedBuckets.get xy = none) (hnew : e.info.newRefs = ∅) (htried : e.info.triedRef = none) :
    Coherent { mapInfo id (fun info => { info with triedRef := some xy }) b with
      triedBuckets := b.triedBuckets.insert xy id
      triedEntriesSize := increment b.triedEntriesSize } := by
  have hok := h.filed.entries id _ (content_of_entry he)
  have hnone : triedRefsOf b.content id = ∅ := by
    rw [triedRefsOf_entry he, htried]
    rfl
  have hplaced := h.filed.tried.insert hget id
  rw [if_pos hnone, hnone] at hplaced
  have hle : b.triedEntriesSize + 1 ≤ b.lastUsedId - 1 :=
    counter_le_update hplaced.counted ⟨hok.id_pos, hok.id_lt⟩ h.filed.id_of_triedRef
  rw [← increment_of_lt (by omega)] at hplaced
  refine h.edit he rfl (mapInfo_randomlyOrderedIds ..) (mapInfo_lastUsedId ..) rfl ?_ ?_ ?_
  · exact { hok with disjoint := fun _ => hnew }
  · simpa using h.filed.new.update_self (newRefsOf_entry he)
  · simpa using hplaced

variable (slots : SlotFunctions)

theorem getNewSlot_run {info : NodeServiceInfo} {source : IPAddress} (hsource : source.isRoutable)
    (hservice : info.service.endpoint.address.isRoutable) :
    (getNewSlot slots info source).run b = .ok (slots.newSlot info.service.endpoint source) b := by
  simp [getNewSlot, hsource, hservice]

/-- The occupant of the tried slot goes back to the new buckets; an entry without references, for which the
slot is wanted, is not touched. -/
theorem evictTried_ensures (h : Coherent b) (hlast : b.lastUsedId ≤ 2 ^ 32) {wanted : Nat}
    (hhoused : Housed b {wanted}) (hwanted : newRefsOf b.content wanted = ∅) {tried : SlotAddress}
    (he : b.entry id = some e) (htried : e.info.triedRef = some tried.xy) (hne : id ≠ wanted) :
    (evictTried slots tried id).Ensures b fun _ b' => Coherent b' ∧ Housed b' {wanted} ∧
      b'.content wanted = b.content wanted ∧ b'.triedBuckets = b.triedBuckets.erase tried.xy ∧
      b'.lastUsedId = b.lastUsedId ∧ Frame b b' := by
  have hok := h.filed.entries id _ (content_of_entry he)
  have hrefs : e.info.newRefs = ∅ := hok.disjoint (by simp [htried])
  have horigin : e.info.origin.isRoutable := hok.origin
  have hroutable : e.info.service.endpoint.address.isRoutable := h.filed.routable he
  let b₁ : AddressBook := { mapInfo id (fun info => { info with triedRef := none }) b with
    triedBuckets := b.triedBuckets.erase tried.xy
    triedEntriesSize := decrement b.triedEntriesSize }
  let e₁ : AddressBookEntry := { e with info := { e.info with triedRef := none } }
  have he₁ : b₁.entry id = some e₁ := entry_mapInfo_self he _
  have hcontent₁ : b₁.content = Function.update b.content id (some e₁.bare) := content_mapInfo he _
  have h₁ : Coherent b₁ := h.dropTried hlast he htried
  have hlast₁ : b₁.lastUsedId = b.lastUsedId := mapInfo_lastUsedId ..
  have hhoused₁ : Housed b₁ {wanted, id} := by
    refine hhoused.update hcontent₁ (fun k _ hk => ?_) fun _ _ hnot => ?_
    · exact Finset.mem_insert.mpr (Or.inl (Finset.mem_singleton.mp hk))
    · simp at hnot
  -- make room in the new buckets
  obtain ⟨_, b₂, hrun₂, h₂, hhoused₂, hcleared⟩ :=
    clearNewSlot_ensures h₁ (hlast₁.trans_le hlast) hhoused₁ (slots.newSlot_lt e.info.service.endpoint e.info.origin)
  have hwanted₁ : b₁.content wanted = b.content wanted := by
    rw [hcontent₁, Function.update_of_ne hne.symm]
  have hkept : b₂.content id = some e₁.bare := by
    rw [hcleared.keeps id, hcontent₁, Function.update_self]
    rw [newRefsOf_entry he₁]
    simp [e₁, hrefs]
  have hkeptWanted : b₂.content wanted = b.content wanted := by
    rw [hcleared.keeps wanted, hwanted₁]
    simp [newRefsOf, hwanted₁] at hwanted ⊢
    simp [hwanted]
  obtain ⟨e₂, he₂, hbare⟩ := exists_entry hkept
  have hrefs₂ : e₂.info.newRefs = ∅ := by
    rw [← AddressBookEntry.bare_newRefs, hbare]
    exact hrefs
  have htried₂ : e₂.info.triedRef = none := by
    rw [← AddressBookEntry.bare_triedRef, hbare]
    rfl
  have h₃ := h₂.addRef (by rw [hcleared.lastUsedId]; omega) he₂ hcleared.empty htried₂ (by simp [hrefs₂]; decide)
  rw [if_pos hrefs₂] at h₃
  have hcontent₃ := content_mapInfo he₂ fun info =>
    { info with newRefs := insert (slots.newSlot e.info.service.endpoint e.info.origin).xy info.newRefs }
  refine ⟨(), _, ?_, h₃, ?_, ?_, ?_, ?_, Or.inr ⟨(slots.newSlot e.info.service.endpoint e.info.origin).xy, ?_, ?_⟩⟩
  · simp [b₁] at hrun₂
    simp [evictTried, requireInfo_run he, htried, hrefs, getNewSlot_run slots horigin hroutable, hrun₂,
      emplaceNewRef_run he₂ (by simp [hrefs₂]) hcleared.empty]
  · refine hhoused₂.update hcontent₃ (fun k hk hmem => ?_) fun e' he' _ => Or.inl ?_
    · simpa [hk] using hmem
    · rw [← Option.some.inj he']
      exact Finset.insert_ne_empty _ _
  · change (mapInfo id _ b₂).content wanted = _
    rw [hcontent₃, Function.update_of_ne hne.symm, hkeptWanted]
  · change (mapInfo id _ b₂).triedBuckets = _
    rw [mapInfo_triedBuckets, hcleared.triedBuckets]
  · change (mapInfo id _ b₂).lastUsedId = _
    rw [mapInfo_lastUsedId, hcleared.lastUsedId, hlast₁]
  · have hspares := hcleared.spares.after_update (content_of_entry he) hcontent₁ ⟨rfl, rfl, rfl⟩ (by simp [e₁, hrefs])
    refine hspares.then_update hcontent₃ (Or.inr ⟨e₂.bare, content_of_entry he₂, rfl, rfl, rfl⟩)
  · simp [Table.get_insert]

theorem makeRoomTried_ensures (h : Coherent b) (hlast : b.lastUsedId ≤ 2 ^ 32) {wanted : Nat} {w : AddressBookEntry}
    (hhoused : Housed b {wanted}) (hw : b.entry wanted = some w) (hrefs : w.info.newRefs = ∅)
    (htried : w.info.triedRef = none) (slot : SlotAddress) :
    (makeRoomTried slots slot).Ensures b fun _ b' => Coherent b' ∧ Housed b' {wanted} ∧
      b'.content wanted = b.content wanted ∧
      (∀ s, b'.triedBuckets.get s = if s = slot.xy then none else b.triedBuckets.get s) ∧
      b'.lastUsedId = b.lastUsedId ∧ Frame b b' := by
  cases hget : b.triedBuckets.get slot.xy with
  | none =>
      refine ⟨(), b, by simp [makeRoomTried, hget], h, hhoused, rfl, fun s => ?_, rfl, Or.inl (Retains.refl b)⟩
      split_ifs with hs
      · rw [hs, hget]
      · rfl
  | some evictId =>
      obtain ⟨c, hc, hcref⟩ := exists_of_mem_triedRefsOf ((h.filed.tried.inverse _ _).mp hget)
      obtain ⟨e, he, hbare⟩ := exists_entry hc
      have href : e.info.triedRef = some slot.xy := by
        rw [← AddressBookEntry.bare_triedRef, hbare, hcref]
      have hne : evictId ≠ wanted := by
        intro heq
        subst heq
        have hsame : w = e := Option.some.inj (hw.symm.trans he)
        rw [hsame, href] at htried
        cases htried
      obtain ⟨_, b', hrun, h', hhoused', hkept, htried', hlast', hframe⟩ :=
        evictTried_ensures slots h hlast hhoused (by rw [newRefsOf_entry hw, hrefs]) he href hne
      refine ⟨(), b', by simp [makeRoomTried, hget, hrun], h', hhoused', hkept, fun s => ?_, hlast', hframe⟩
      rw [htried', Table.get_erase]

theorem makeEntryTried_ensures (h : Coherent b) (hlast : b.lastUsedId ≤ 2 ^ 32) (hhoused : Housed b ∅)
    (he : b.entry id = some e) :
    (makeEntryTried slots id).Ensures b fun _ b' => Coherent b' ∧ Housed b' ∅ ∧ b'.lastUsedId = b.lastUsedId ∧
      Frame b b' ∧ ∃ slot, ∀ s, s ≠ slot → b'.triedBuckets.get s = b.triedBuckets.get s := by
  by_cases hsome : e.info.triedRef.isSome
  · refine ⟨(), b, ?_, h, hhoused, rfl, Or.inl (Retains.refl b), 0, fun _ _ => rfl⟩
    simp [makeEntryTried, requireInfo_run he, hsome]
  have htried : e.info.triedRef = none := by simpa using hsome
  have hroutable : e.info.service.endpoint.address.isRoutable := h.filed.routable he
  let b₀ : AddressBook := { b with
    newEntriesSize := if e.info.newRefs = ∅ then b.newEntriesSize else decrement b.newEntriesSize
    newBuckets := b.newBuckets.eraseAll (e.info.newRefs.sort (· ≤ ·)) }
  have he₀ : b₀.entry id = some e := he
  let b₁ : AddressBook := mapInfo id (fun info => { info with newRefs := ∅ }) b₀
  let e₁ : AddressBookEntry := { e with info := { e.info with newRefs := ∅ } }
  have he₁ : b₁.entry id = some e₁ := entry_mapInfo_self he₀ _
  have hcontent₁ : b₁.content = Function.update b.content id (some e₁.bare) := content_mapInfo he₀ _
  have hlast₁ : b₁.lastUsedId = b.lastUsedId := mapInfo_lastUsedId ..
  have hhoused₁ : Housed b₁ {id} := by
    refine hhoused.update hcontent₁ (fun k _ hk => ?_) fun _ _ hnot => ?_
    · simp at hk
    · simp at hnot
  obtain ⟨_, b₂, hrun, h₂, hhoused₂, hkept, hbuckets, hlast₂, hframe⟩ :=
    makeRoomTried_ensures slots (h.dropRefs hlast he) (hlast₁.trans_le hlast) hhoused₁ he₁ rfl htried
      (slots.triedSlot e.info.service.endpoint)
  have hempty : b₂.triedBuckets.get (slots.triedSlot e.info.service.endpoint).xy = none := by
    rw [hbuckets, if_pos rfl]
  rw [content_of_entry he₁] at hkept
  obtain ⟨e₂, he₂, hbare⟩ := exists_entry hkept
  have hrefs₂ : e₂.info.newRefs = ∅ := by
    rw [← AddressBookEntry.bare_newRefs, hbare]
    rfl
  have htried₂ : e₂.info.triedRef = none := by
    rw [← AddressBookEntry.bare_triedRef, hbare]
    exact htried
  have h₃ := h₂.addTried (by rw [hlast₂, hlast₁]; exact hlast) he₂ hempty hrefs₂ htried₂
  have hcontent₃ := content_mapInfo he₂ fun info =>
    { info with triedRef := some (slots.triedSlot e.info.service.endpoint).xy }
  refine ⟨(), _, ?_, h₃, ?_, ?_, ?_, (slots.triedSlot e.info.service.endpoint).xy, fun s hs => ?_⟩
  · simp [makeEntryTried, requireInfo_run he, htried, getTriedSlot, hroutable, hrun, hempty,
      mapInfo_setTried]
  · refine hhoused₂.update hcontent₃ (fun k hk hmem => ?_) fun e' he' _ => Or.inr ?_
    · exact absurd (Finset.mem_singleton.mp hmem) hk
    · rw [← Option.some.inj he']
      rfl
  · change (mapInfo id _ b₂).lastUsedId = _
    rw [mapInfo_lastUsedId, hlast₂, hlast₁]
  · -- the entry itself changes before and after room is made
    rcases hframe with hretains | ⟨xy, hspares, htaken⟩
    · refine Or.inl (((Retains.of_update hcontent₁ ?_).trans hretains).trans (Retains.of_update hcontent₃ ?_))
      · intro c hc
        rw [← Option.some.inj ((content_of_entry he).symm.trans hc)]
        exact ⟨rfl, rfl, rfl⟩
      · intro c hc
        rw [← Option.some.inj ((content_of_entry he₂).symm.trans hc)]
        exact ⟨rfl, rfl, rfl⟩
    · refine Or.inr ⟨xy, ?_, ?_⟩
      · have hspares₁ := hspares.after_update (content_of_entry he) hcontent₁ ⟨rfl, rfl, rfl⟩ (Finset.notMem_empty xy)
        exact hspares₁.then_update hcontent₃ (Or.inr ⟨e₂.bare, content_of_entry he₂, rfl, rfl, rfl⟩)
      · rw [mapInfo_newBuckets]
        exact htaken
  · rw [Table.get_insert, if_neg hs, hbuckets, if_neg hs, mapInfo_triedBuckets]

/-! ## Insertion -/

/-- An edit that concerns neither the place of an entry nor its endpoint. -/
structure Touches (f : NodeServiceInfo → NodeServiceInfo) : Prop where
  randomPos : ∀ info, (f info).randomPos = info.randomPos
  endpoint : ∀ info, (f info).service.endpoint = info.service.endpoint
  origin : ∀ info, (f info).origin = info.origin
  newRefs : ∀ info, (f info).newRefs = info.newRefs
  triedRef : ∀ info, (f info).triedRef = info.triedRef

theorem Coherent.touch (h : Coherent b) (he : b.entry id = some e) {f : NodeServiceInfo → NodeServiceInfo}
    (hf : Touches f) : Coherent (mapInfo id f b) := by
  have hok := h.filed.entries id _ (content_of_entry he)
  refine h.edit he rfl (mapInfo_randomlyOrderedIds ..) (mapInfo_lastUsedId ..) (hf.randomPos _) ?_ ?_ ?_
  · exact {
      id_pos := hok.id_pos
      id_lt := hok.id_lt
      endpoint := (hf.endpoint _).trans hok.endpoint
      routable := hok.routable
      origin := by rw [AddressBookEntry.bare_origin, hf.origin]; exact hok.origin
      card := by rw [AddressBookEntry.bare_newRefs, hf.newRefs]; exact hok.card
      disjoint := by rw [AddressBookEntry.bare_newRefs, AddressBookEntry.bare_triedRef, hf.newRefs, hf.triedRef]
                     exact hok.disjoint }
  · rw [hf.newRefs]
    simpa using h.filed.new.update_self (newRefsOf_entry he)
  · rw [hf.triedRef]
    simpa using h.filed.tried.update_self (triedRefsOf_entry he)

theorem Housed.touch {except : Finset Nat} (h : Housed b except) (he : b.entry id = some e)
    {f : NodeServiceInfo → NodeServiceInfo} (hf : Touches f) : Housed (mapInfo id f b) except := by
  refine h.update (content_mapInfo he f) (fun _ _ hk => hk) fun e' he' hnot => ?_
  rw [← Option.some.inj he', AddressBookEntry.bare_newRefs, AddressBookEntry.bare_triedRef, hf.newRefs, hf.triedRef]
  exact h id e.bare (content_of_entry he) hnot

theorem Coherent.setLastUsedId (h : Coherent b) {n : Nat} (hn : b.lastUsedId ≤ n) :
    Coherent { b with lastUsedId := n } where
  ordered := h.ordered
  filed := {
    last_pos := h.filed.last_pos.trans_le hn
    new := h.filed.new
    tried := h.filed.tried
    entries := fun id e he =>
      have hok := h.filed.entries id e he
      { hok with id_lt := hok.id_lt.trans_le hn }
    unique := h.filed.unique }

/-- An entry is added with one reference, at the end of the order. -/
theorem Coherent.addEntry (h : Coherent b) (hlast : b.lastUsedId ≤ 2 ^ 32) {xy : Nat}
    (hget : b.newBuckets.get xy = none) (hnone : b.content id = none)
    (hfresh : ∀ k c, b.content k = some c → c.endpoint ≠ e.endpoint) (hok : EntryOk b.lastUsedId id e.bare)
    (hrefs : e.info.newRefs = {xy}) (htried : e.info.triedRef = none)
    (hpos : e.info.randomPos = b.randomlyOrderedIds.length) :
    Coherent { b with
      newBuckets := b.newBuckets.insert xy id
      randomlyOrderedIds := b.randomlyOrderedIds ++ [id]
      listIndex := b.listIndex.insert id e
      newEntriesSize := increment b.newEntriesSize } := by
  have hentry : b.entry id = none := Option.map_eq_none_iff.mp hnone
  have hnoRefs : newRefsOf b.content id = ∅ := by simp [newRefsOf, hnone]
  have hplaced := h.filed.new.insert hget id
  rw [if_pos hnoRefs, hnoRefs, insert_empty_eq] at hplaced
  have hle : b.newEntriesSize + 1 ≤ b.lastUsedId - 1 :=
    counter_le_update hplaced.counted ⟨hok.id_pos, hok.id_lt⟩ h.filed.id_of_newRef
  rw [← increment_of_lt (by omega)] at hplaced
  constructor
  · have hpush := Indexes.push (k := id) h.ordered (by simp [position, info, hentry])
    unfold Ordered
    convert hpush using 1
    rw [← hpos]
    exact position_eq_update (o := some e) (entry_insert rfl)
  · refine h.filed.update id (some e.bare) ?_ le_rfl ?_ ?_ ?_ ?_
    · exact content_eq_update (o := some e) (entry_insert rfl)
    · intro e' he'
      rw [← Option.some.inj he']
      exact hok
    · intro e' he' k c _ hc
      rw [← Option.some.inj he']
      exact hfresh k c hc
    · simpa [hrefs] using hplaced
    · have hnoTried : triedRefsOf b.content id = ∅ := by simp [triedRefsOf, hnone]
      simpa [htried] using h.filed.tried.update_self hnoTried

/-- `insert_entry`, once its slot is empty: the index takes the entry, unless the id or the endpoint is there. -/
theorem insertEntry_run {b₁ : AddressBook} {service : NodeService} {source : IPAddress} {slot : SlotAddress}
    (hslot : slots.newSlot service.endpoint source = slot) (hsource : source.isRoutable)
    (hservice : service.endpoint.address.isRoutable)
    (hclear : (clearNewSlot slot true).run { b with lastUsedId := b.lastUsedId + 1 } = .ok () b₁)
    (hempty : b₁.newBuckets.get slot.xy = none) (timePenalty : Int) :
    (insertEntry slots service source timePenalty).run b =
      let newId := b.lastUsedId % 2 ^ 32
      let b₂ := { b₁ with
        newBuckets := b₁.newBuckets.insert slot.xy newId
        randomlyOrderedIds := b₁.randomlyOrderedIds ++ [newId]
        newEntriesSize := increment b₁.newEntriesSize }
      if (b₁.entry newId).isSome ∨ (b₁.lookupEndpoint service.endpoint).isSome then .ok none b₂
      else .ok (some newId) { b₂ with listIndex := b₁.listIndex.insert newId { endpoint := service.endpoint, info := {
        service := { service with time := service.time - timePenalty }
        origin := source
        newRefs := {slot.xy}
        randomPos := b₁.randomlyOrderedIds.length % 2 ^ 32 } } } := by
  subst hslot
  dsimp only
  split_ifs with hthere
  · simp [insertEntry, getNewSlot, hsource, hservice, hclear, hempty, insertIndex, entry, lookupEndpoint] at hthere ⊢
    simp [hthere]
  · simp [insertEntry, getNewSlot, hsource, hservice, hclear, hempty, insertIndex, entry, lookupEndpoint] at hthere ⊢
    simp [hthere]

theorem insertEntry_ensures (h : Coherent b) (hlast : b.lastUsedId < 2 ^ 32) (hhoused : Housed b ∅)
    {service : NodeService} {source : IPAddress} (hsource : source.isRoutable)
    (hservice : service.endpoint.address.isRoutable) (hfresh : b.lookupEndpoint service.endpoint = none)
    (timePenalty : Int) :
    (insertEntry slots service source timePenalty).Ensures b fun taken b' =>
      taken = some b.lastUsedId ∧ Coherent b' ∧ Housed b' ∅ ∧ b'.lastUsedId = b.lastUsedId + 1 ∧
        ∃ e, b'.entry b.lastUsedId = some e ∧ e.endpoint = service.endpoint := by
  let slot := slots.newSlot service.endpoint source
  obtain ⟨_, b₁, hrun, h₁, hhoused₁, hcleared⟩ := clearNewSlot_ensures (b := { b with lastUsedId := b.lastUsedId + 1 })
    (h.setLastUsedId (Nat.le_succ _)) hlast hhoused (slots.newSlot_lt service.endpoint source)
  have hlast₁ : b₁.lastUsedId = b.lastUsedId + 1 := hcleared.lastUsedId
  have hnone : b₁.content b.lastUsedId = none := by
    by_contra hsome
    obtain ⟨c, hc⟩ := Option.ne_none_iff_exists'.mp hsome
    obtain ⟨c', hc', -⟩ := hcleared.endpoints _ c hc
    exact absurd (h.filed.entries _ c' hc').id_lt (Nat.lt_irrefl _)
  have hfresh₁ : ∀ k c, b₁.content k = some c → c.endpoint ≠ service.endpoint := by
    intro k c hc heq
    obtain ⟨c', hc', hend⟩ := hcleared.endpoints k c hc
    exact lookupEndpoint_eq_none_iff.mp hfresh k c' hc' (hend.trans heq)
  have hlength := h₁.length_le
  let e : AddressBookEntry := { endpoint := service.endpoint, info := {
    service := { service with time := service.time - timePenalty }
    origin := source
    newRefs := {slot.xy}
    randomPos := b₁.randomlyOrderedIds.length } }
  have hok : EntryOk b₁.lastUsedId b.lastUsedId e.bare := {
    id_pos := h.filed.last_pos
    id_lt := by rw [hlast₁]; exact Nat.lt_succ_self _
    endpoint := rfl
    routable := hservice
    origin := hsource
    card := by simp [e, kMaxNewBucketReferences]
    disjoint := by simp [e] }
  have h₂ := h₁.addEntry (by omega) hcleared.empty hnone hfresh₁ hok rfl rfl rfl
  refine ⟨_, _, ?_, rfl, h₂, ?_, hlast₁, e, ?_, rfl⟩
  · have hget : b₁.entry b.lastUsedId = none := Option.map_eq_none_iff.mp hnone
    have hfind : b₁.lookupEndpoint service.endpoint = none := lookupEndpoint_eq_none_iff.mpr hfresh₁
    rw [insertEntry_run slots rfl hsource hservice hrun hcleared.empty]
    dsimp only
    rw [Nat.mod_eq_of_lt hlast, Nat.mod_eq_of_lt (show b₁.randomlyOrderedIds.length < 2 ^ 32 by omega), hget, hfind,
      if_neg (by simp)]
  · refine hhoused₁.update (content_eq_update (entry_insert rfl)) (fun _ _ hk => hk) fun e' he' _ => Or.inl ?_
    rw [← Option.some.inj he']
    simp [e]
  · rw [entry_insert rfl, Function.update_self]

/-! ## Update -/

theorem touches_refreshed (service : NodeService) (timePenalty clock : Int) :
    Touches (refreshed service timePenalty clock) :=
  ⟨fun _ => rfl, fun _ => rfl, fun _ => rfl, fun _ => rfl, fun _ => rfl⟩

/-- The sanity check of `update_entry`. -/
theorem Coherent.in_one_bucket (h : Coherent b) (hhoused : Housed b ∅) (he : b.entry id = some e) :
    decide (e.info.newRefs = ∅) = e.info.triedRef.isSome := by
  have hok := h.filed.entries id _ (content_of_entry he)
  rcases hhoused id e.bare (content_of_entry he) (by simp) with hnew | htried
  · have hnone : ¬ e.info.triedRef.isSome := fun hsome => hnew (hok.disjoint hsome)
    rw [AddressBookEntry.bare_newRefs] at hnew
    simp [hnew, hnone]
  · have hempty : e.info.newRefs = ∅ := hok.disjoint htried
    rw [AddressBookEntry.bare_triedRef] at htried
    simp [hempty, htried]

theorem makeRoomNew_ensures (h : Coherent b) (hlast : b.lastUsedId ≤ 2 ^ 32) (hhoused : Housed b ∅)
    (he : b.entry id = some e) {slot : SlotAddress} (hslot : slot.x < kNewBucketsCount ∧ slot.y < kBucketSize)
    (hnot : slot.xy ∉ e.info.newRefs) :
    (makeRoomNew id slot).Ensures b fun _ b' => Coherent b' ∧ Housed b' ∅ ∧ b'.content id = b.content id ∧
      Cleared slot.xy b b' := by
  cases hget : b.newBuckets.get slot.xy with
  | none =>
      refine ⟨(), b, by simp [makeRoomNew, hget], h, hhoused, rfl, rfl, rfl, rfl, hget, fun _ _ => rfl, ?_,
        (Retains.refl b).spares _⟩
      intro k e' he'
      exact ⟨e', he', rfl⟩
  | some occupant =>
      have hne : occupant ≠ id := by
        intro heq
        subst heq
        have hmem := (h.filed.new.inverse _ _).mp hget
        rw [newRefsOf_entry he] at hmem
        exact hnot hmem
      obtain ⟨_, b', hrun, h', hhoused', hcleared⟩ := clearNewSlot_ensures h hlast hhoused hslot
      refine ⟨(), b', by simp [makeRoomNew, hget, hne, hrun], h', hhoused', ?_, hcleared⟩
      exact hcleared.keeps id (by rw [newRefsOf_entry he]; exact hnot)

/-- The end of `update_entry`: an entry of the new buckets gets a reference to a slot it did not refer to. Whoever had
the slot is cleared out of it. -/
theorem placeNewRef_ensures (h : Coherent b) (hlast : b.lastUsedId ≤ 2 ^ 32) (hhoused : Housed b ∅)
    (he : b.entry id = some e) {slot : SlotAddress} (hslot : slot.x < kNewBucketsCount ∧ slot.y < kBucketSize)
    (hnot : slot.xy ∉ e.info.newRefs) (htried : e.info.triedRef = none)
    (hcard : e.info.newRefs.card < kMaxNewBucketReferences) :
    (do
      makeRoomNew id slot
      emplaceNewRef id slot.xy
      if (← requireInfo id).newRefs.card = 1 then
        modify fun b => { b with newEntriesSize := increment b.newEntriesSize } : Book Unit).Ensures b fun _ b' =>
      Coherent b' ∧ Housed b' ∅ ∧ b'.lastUsedId = b.lastUsedId ∧ b'.triedBuckets = b.triedBuckets ∧
        Spares slot.xy b b' ∧ b'.newBuckets.get slot.xy = some id := by
  have hnonempty : e.info.newRefs ≠ ∅ := by
    have hone := h.in_one_bucket hhoused he
    intro hempty
    rw [decide_eq_true hempty, htried] at hone
    cases hone
  obtain ⟨_, b₁, hrun, h₁, hhoused₁, hkept, hcleared⟩ := makeRoomNew_ensures h hlast hhoused he hslot hnot
  rw [content_of_entry he] at hkept
  obtain ⟨e₁, he₁, hbare⟩ := exists_entry hkept
  have hrefs : e₁.info.newRefs = e.info.newRefs := by
    rw [← AddressBookEntry.bare_newRefs, hbare, AddressBookEntry.bare_newRefs]
  have htried₁ : e₁.info.triedRef = none := by
    rw [← AddressBookEntry.bare_triedRef, hbare, AddressBookEntry.bare_triedRef, htried]
  rw [← hrefs] at hnonempty hnot hcard
  have hlast₁ := hcleared.lastUsedId
  have h₂ := h₁.addRef (by omega) he₁ hcleared.empty htried₁ hcard
  rw [if_neg hnonempty] at h₂
  -- the entry had a reference already, so it is not counted again
  have hcard₂ : (insert slot.xy e₁.info.newRefs).card ≠ 1 := by
    have := Finset.card_pos.mpr (Finset.nonempty_iff_ne_empty.mpr hnonempty)
    rw [Finset.card_insert_of_notMem hnot]
    omega
  refine Act.Ensures.step hrun (Act.Ensures.step (emplaceNewRef_run he₁ hnot hcleared.empty)
    (Act.Ensures.step (requireInfo_run (entry_mapInfo_self he₁ _)) ?_))
  rw [if_neg hcard₂]
  have hcontent₂ := content_mapInfo he₁ fun info => { info with newRefs := insert slot.xy info.newRefs }
  refine Act.Ensures.pure ⟨?_, ?_, ?_, ?_, ?_, ?_⟩
  · simpa using h₂
  · refine hhoused₁.update hcontent₂ (fun _ _ hk => hk) fun e' he' _ => Or.inl ?_
    rw [← Option.some.inj he']
    exact Finset.insert_ne_empty _ _
  · change (mapInfo id _ b₁).lastUsedId = _
    rw [mapInfo_lastUsedId, hlast₁]
  · change (mapInfo id _ b₁).triedBuckets = _
    rw [mapInfo_triedBuckets, hcleared.triedBuckets]
  · exact hcleared.spares.then_update hcontent₂ (Or.inr ⟨e₁.bare, content_of_entry he₁, rfl, rfl, rfl⟩)
  · simp [Table.get_insert]

section
variable {service : NodeService} {source : IPAddress} {timePenalty : Int} {choice : Choice}

/-- The sanity check passes, whatever is refreshed. -/
theorem Coherent.refreshed_in_one_bucket (h : Coherent b) (hhoused : Housed b ∅) (he : b.entry id = some e)
    (service : NodeService) (timePenalty clock : Int) :
    (decide ((refreshed service timePenalty clock e.info).newRefs ≠ ∅) ^^
      (refreshed service timePenalty clock e.info).triedRef.isSome) = true := by
  have hf := touches_refreshed service timePenalty clock
  rw [hf.newRefs, hf.triedRef, ← h.in_one_bucket hhoused he, decide_not]
  exact Bool.not_xor_self _

theorem updateEntry_aborts (h : Coherent b) (hhoused : Housed b ∅) (he : b.entry id = some e)
    (hleave : ¬ leavesBuckets service choice.draw (refreshed service timePenalty choice.clock e.info))
    (hsource : ¬ source.isRoutable) :
    (updateEntry slots id service source timePenalty choice).run b =
      .fault .assert (mapInfo id (refreshed service timePenalty choice.clock) b) := by
  have hrun := requireInfo_run (entry_mapInfo_self he (refreshed service timePenalty choice.clock))
  have hsane := h.refreshed_in_one_bucket hhoused he service timePenalty choice.clock
  simp only [updateEntry, Act.run_bind, Act.run_modify, hrun, Act.run_require, hsane, if_true, Act.run_ite, hleave,
    getNewSlot, hsource]
  rfl

theorem updateEntry_stays (h : Coherent b) (hhoused : Housed b ∅) (he : b.entry id = some e)
    (hstay : leavesBuckets service choice.draw (refreshed service timePenalty choice.clock e.info) ∨
      source.isRoutable ∧ (slots.newSlot e.info.service.endpoint source).xy ∈ e.info.newRefs) :
    (updateEntry slots id service source timePenalty choice).run b =
      .ok () (mapInfo id (refreshed service timePenalty choice.clock) b) := by
  have hsane := h.refreshed_in_one_bucket hhoused he service timePenalty choice.clock
  have hf := touches_refreshed service timePenalty choice.clock
  generalize hfresh : refreshed service timePenalty choice.clock = f at hstay hsane hf
  have he₁ := entry_mapInfo_self he f
  suffices hreturns : (updateEntry slots id service source timePenalty choice).Ensures b fun _ b' =>
      b' = mapInfo id f b by
    obtain ⟨_, _, hrun, rfl⟩ := hreturns
    exact hrun
  unfold updateEntry
  rw [hfresh]
  refine Act.Ensures.step (Act.run_modify _ _) (Act.Ensures.step (requireInfo_run he₁) (Act.Ensures.require hsane ?_))
  by_cases hleave : leavesBuckets service choice.draw (f e.info)
  · rw [if_pos hleave]
    exact Act.Ensures.pure rfl
  · obtain ⟨hsource, hmem⟩ := hstay.resolve_left hleave
    rw [if_neg hleave]
    refine Act.Ensures.step (getNewSlot_run slots hsource ((h.touch he hf).filed.routable he₁)) ?_
    rw [hf.endpoint, hf.newRefs, if_pos hmem]
    have hget : b.newBuckets.get (slots.newSlot e.info.service.endpoint source).xy = some id := by
      rw [h.filed.new.inverse, newRefsOf_entry he]
      exact hmem
    exact ⟨(), _, by simp [hget], rfl⟩

theorem updateEntry_moves (h : Coherent b) (hlast : b.lastUsedId ≤ 2 ^ 32) (hhoused : Housed b ∅)
    (he : b.entry id = some e)
    (hleave : ¬ leavesBuckets service choice.draw (refreshed service timePenalty choice.clock e.info))
    (hsource : source.isRoutable) (hnot : (slots.newSlot e.info.service.endpoint source).xy ∉ e.info.newRefs) :
    (updateEntry slots id service source timePenalty choice).Ensures b fun _ b' =>
      Coherent b' ∧ Housed b' ∅ ∧ b'.lastUsedId = b.lastUsedId ∧ Frame b b' ∧ b'.triedBuckets = b.triedBuckets ∧
        b'.newBuckets.get (slots.newSlot e.info.service.endpoint source).xy = some id := by
  have hsane := h.refreshed_in_one_bucket hhoused he service timePenalty choice.clock
  have hf := touches_refreshed service timePenalty choice.clock
  generalize hfresh : refreshed service timePenalty choice.clock = f at hleave hsane hf
  have he₁ := entry_mapInfo_self he f
  have h₁ := h.touch he hf
  have hlast₁ : (mapInfo id f b).lastUsedId = b.lastUsedId := mapInfo_lastUsedId ..
  have hrunSlot := getNewSlot_run (b := mapInfo id f b) slots hsource (h₁.filed.routable he₁)
  have hslot := slots.newSlot_lt e.info.service.endpoint source
  simp only [hf.endpoint] at hrunSlot
  generalize slots.newSlot e.info.service.endpoint source = slot at hslot hrunSlot hnot
  rw [← hf.newRefs] at hnot
  unfold updateEntry
  rw [hfresh]
  refine Act.Ensures.step (Act.run_modify _ _) (Act.Ensures.step (requireInfo_run he₁) (Act.Ensures.require hsane ?_))
  rw [if_neg hleave]
  refine Act.Ensures.step hrunSlot ?_
  rw [if_neg hnot]
  simp only [leavesBuckets, decide_eq_true_eq, not_or] at hleave
  obtain ⟨-, htried, hcard, -⟩ := hleave
  have hle := (h₁.filed.entries id _ (content_of_entry he₁)).card
  apply (placeNewRef_ensures h₁ (hlast₁.trans_le hlast) (hhoused.touch he hf) he₁ hslot hnot (by simpa using htried)
    (lt_of_le_of_ne hle hcard)).mono
  rintro _ b' ⟨h', hhoused', hlast', htried', hspares, hget⟩
  refine ⟨h', hhoused', hlast'.trans hlast₁, Or.inr ⟨slot.xy, ?_, by simp [hget]⟩,
    htried'.trans (mapInfo_triedBuckets ..), hget⟩
  exact hspares.after_update (content_of_entry he) (content_mapInfo he f)
    ⟨rfl, hf.endpoint e.info, hf.origin e.info⟩ hnot

/-- `update_entry` returns when it leaves the buckets alone, or when the source has a group. -/
theorem updateEntry_ensures (h : Coherent b) (hlast : b.lastUsedId ≤ 2 ^ 32) (hhoused : Housed b ∅)
    (he : b.entry id = some e)
    (hgo : leavesBuckets service choice.draw (refreshed service timePenalty choice.clock e.info) ∨
      source.isRoutable) :
    (updateEntry slots id service source timePenalty choice).Ensures b fun _ b' =>
      Coherent b' ∧ Housed b' ∅ ∧ b'.lastUsedId = b.lastUsedId ∧ Frame b b' ∧
        b'.triedBuckets = b.triedBuckets := by
  by_cases hstay : leavesBuckets service choice.draw (refreshed service timePenalty choice.clock e.info) ∨
      source.isRoutable ∧ (slots.newSlot e.info.service.endpoint source).xy ∈ e.info.newRefs
  · have hf := touches_refreshed service timePenalty choice.clock
    refine ⟨(), _, updateEntry_stays slots h hhoused he hstay, h.touch he hf, hhoused.touch he hf,
      mapInfo_lastUsedId .., Or.inl ?_, mapInfo_triedBuckets ..⟩
    refine Retains.of_update (content_mapInfo he _) fun c hc => ?_
    rw [← Option.some.inj ((content_of_entry he).symm.trans hc)]
    exact ⟨rfl, hf.endpoint e.info, hf.origin e.info⟩
  · rw [not_or, not_and] at hstay
    have hsource := hgo.resolve_left hstay.1
    apply (updateEntry_moves slots h hlast hhoused he hstay.1 hsource (hstay.2 hsource)).mono
    rintro _ b' ⟨h', hhoused', hlast', hframe, htried, -⟩
    exact ⟨h', hhoused', hlast', hframe, htried⟩

end

end Znode.Net.AddressBook
