import Mathlib
import Znode.Core.LruSet
import Znode.AddressBook.Counter

/-!
# Runs of an address book

Every call keeps the invariant, so every run does.

* `Valid` : the book between two calls, with routable addresses only. `RepInvariant` is what it says of the structures
  of the source;
* `insertOrUpdateImpl_ensures`, `insertOrUpdateLoop_ensures`, `recordConnection_ensures`,
  `selectRandom_ensures`, `getRandomServices_ensures` : the calls;
* `Attempted`, `Sampled` : what the loops of `select_random` and `get_random_services` have done when they end;
* `runs_keep_invariant` : runs from the empty book.
-/

namespace Znode.Net.AddressBook
open Znode.Lib Znode.Core Act

/-- A book between two calls. -/
structure Valid (b : AddressBook) : Prop where
  coherent : Coherent b
  housed : Housed b ∅

theorem valid_empty : Valid {} := ⟨coherent_empty, housed_empty⟩

variable {b : AddressBook} (slots : SlotFunctions)

/-! ## Insertion -/

/-- The insertion or update of a service computes no group of an address that is not routable. -/
def admits (b : AddressBook) (service : NodeService) (source : IPAddress) (choice : Choice) : Bool :=
  match (b.lookupEndpoint service.endpoint).bind b.info with
  | none => source.isRoutable && service.endpoint.address.isRoutable
  | some info => leavesBuckets service choice.draw (refreshed service 0 choice.clock info) || source.isRoutable

/-- An endpoint that is not in the book gets the next id. The addresses are found equal, so no penalty is taken
from its time. -/
theorem insertOrUpdateImpl_fresh (h : Valid b) (hlast : b.lastUsedId < 2 ^ 32) {service : NodeService}
    {source : IPAddress} (hsource : source.isRoutable) (hservice : service.endpoint.address.isRoutable)
    (hlookup : b.lookupEndpoint service.endpoint = none) (timePenalty : Int) (choice : Choice) :
    (insertOrUpdateImpl slots service source timePenalty choice).Ensures b fun inserted b' =>
      inserted ∧ Valid b' ∧ b'.lastUsedId = b.lastUsedId + 1 ∧ ∃ e, b'.entry b.lastUsedId = some e ∧
        e.endpoint = service.endpoint ∧ e.info.service.time = max kTimeInit service.time := by
  obtain ⟨_, b', hrun, rfl, h', hhoused', hlast', e, he, hend⟩ :=
    insertEntry_ensures slots h.coherent hlast h.housed hsource hservice hlookup 0
  let f : NodeServiceInfo → NodeServiceInfo := fun info =>
    { info with service := { info.service with time := max kTimeInit (service.time - 0) } }
  have hf : Touches f := ⟨fun _ => rfl, fun _ => rfl, fun _ => rfl, fun _ => rfl, fun _ => rfl⟩
  refine ⟨true, mapInfo b.lastUsedId f b', ?_, rfl, ⟨h'.touch he hf, hhoused'.touch he hf⟩, ?_, _,
    entry_mapInfo_self he f, hend, ?_⟩
  · simp [insertOrUpdateImpl, hlookup, IPAddress.operatorEq, hrun, f]
  · rw [mapInfo_lastUsedId, hlast']
  · simp [f]

theorem insertOrUpdateImpl_ensures (h : Valid b) (hlast : b.lastUsedId < 2 ^ 32) {service : NodeService}
    {source : IPAddress} {choice : Choice} (hadmits : admits b service source choice) (timePenalty : Int) :
    (insertOrUpdateImpl slots service source timePenalty choice).Ensures b fun inserted b' =>
      Valid b' ∧ b'.lastUsedId = b.lastUsedId + inserted.toNat := by
  cases hlookup : b.lookupEndpoint service.endpoint with
  | some id =>
      obtain ⟨e, he, -⟩ := exists_of_lookupEndpoint hlookup
      simp only [admits, hlookup, Option.bind_some, info_of_entry he, Bool.or_eq_true] at hadmits
      obtain ⟨_, b', hrun, h', hhoused', hlast', -⟩ :=
        updateEntry_ensures slots h.coherent hlast.le h.housed he hadmits
      refine ⟨false, b', ?_, ⟨h', hhoused'⟩, hlast'⟩
      simp [insertOrUpdateImpl, hlookup, IPAddress.operatorEq, hrun]
  | none =>
      simp only [admits, hlookup, Option.bind_none, Bool.and_eq_true] at hadmits
      obtain ⟨hsource, hservice⟩ := hadmits
      apply (insertOrUpdateImpl_fresh slots h hlast hsource hservice hlookup timePenalty choice).mono
      rintro inserted b' ⟨rfl, h', hlast', -⟩
      exact ⟨h', hlast'⟩

/-- A service that is not admitted aborts the process. -/
theorem insertOrUpdateImpl_aborts (h : Valid b) {service : NodeService} {source : IPAddress} {choice : Choice}
    (hadmits : ¬ admits b service source choice) (timePenalty : Int) :
    ∃ b', (insertOrUpdateImpl slots service source timePenalty choice).run b = .fault .assert b' := by
  cases hlookup : b.lookupEndpoint service.endpoint with
  | some id =>
      obtain ⟨e, he, -⟩ := exists_of_lookupEndpoint hlookup
      simp only [admits, hlookup, Option.bind_some, info_of_entry he, Bool.or_eq_true, not_or] at hadmits
      obtain ⟨hleave, hsource⟩ := hadmits
      refine ⟨mapInfo id (refreshed service 0 choice.clock) b, ?_⟩
      simp [insertOrUpdateImpl, hlookup, IPAddress.operatorEq,
        updateEntry_aborts slots h.coherent h.housed he hleave hsource]
  | none =>
      simp only [admits, hlookup, Option.bind_none, Bool.and_eq_true, not_and] at hadmits
      refine ⟨{ b with lastUsedId := b.lastUsedId + 1 }, ?_⟩
      by_cases hsource : source.isRoutable
      · simp [insertOrUpdateImpl, hlookup, IPAddress.operatorEq, insertEntry, getNewSlot, hsource, hadmits hsource]
      · simp [insertOrUpdateImpl, hlookup, IPAddress.operatorEq, insertEntry, getNewSlot, hsource]

theorem admits_of_routable (b : AddressBook) {service : NodeService} {source : IPAddress} (choice : Choice)
    (hsource : source.isRoutable) (hservice : service.endpoint.address.isRoutable) :
    admits b service source choice := by
  unfold admits
  split
  · simp [hsource, hservice]
  · simp [hsource]

theorem adjustTime_endpoint (now : Int) (service : NodeService) :
    (adjustTime now service).endpoint = service.endpoint := by
  unfold adjustTime
  split <;> rfl

/-- A vector of services, in a run that does not use up the ids. -/
theorem insertOrUpdateLoop_ensures (h : Valid b) {services : List NodeService} {source : IPAddress}
    {timePenalty now : Int} {seen : List IPEndpoint} {choices : Nat → Choice} (hsource : source.isRoutable)
    (hservices : ∀ service ∈ services, hasNetworkBit service → service.endpoint.address.isRoutable)
    (hfew : ((insertOrUpdateLoop slots source timePenalty now services seen choices).run b).state.lastUsedId
      < 2 ^ 32) :
    (insertOrUpdateLoop slots source timePenalty now services seen choices).Ensures b fun kept b' =>
      Valid b' ∧ b'.lastUsedId = b.lastUsedId + kept.length := by
  induction services generalizing b seen choices with
  | nil => exact Ensures.pure ⟨h, rfl⟩
  | cons service services ih =>
      have hrest := fun s hs => hservices s (List.mem_cons_of_mem service hs)
      have hlast : b.lastUsedId < 2 ^ 32 := ((grows_insertOrUpdateLoop slots ..).le b).trans_lt hfew
      unfold insertOrUpdateLoop at hfew ⊢
      split_ifs at hfew ⊢ with hbit hseen
      · exact ih h hrest hfew
      · exact ih h hrest hfew
      · have hroutable : (adjustTime now service).endpoint.address.isRoutable := by
          rw [adjustTime_endpoint]
          exact hservices service List.mem_cons_self (by simpa using hbit)
        obtain ⟨inserted, b₁, hrun, h₁, hlast₁⟩ := insertOrUpdateImpl_ensures slots h hlast
          (admits_of_routable b (choices 0) hsource hroutable) timePenalty
        refine Ensures.step hrun ?_
        rw [run_bind, hrun] at hfew
        have hfew₁ := (Grows.le_bind (fun _ => Grows.pure _) b₁).trans_lt hfew
        obtain ⟨kept, b₂, hrun₂, h₂, hlast₂⟩ := ih h₁ hrest hfew₁
        refine Ensures.step hrun₂ (Ensures.pure ⟨h₂, ?_⟩)
        rw [hlast₂, hlast₁]
        cases inserted with
        | false => rfl
        | true =>
            rw [Bool.toNat_true, if_pos rfl, List.length_cons]
            omega

/-! ## Connections -/

theorem recordConnection_ensures (h : Valid b) (hlast : b.lastUsedId ≤ 2 ^ 32) (remote : IPEndpoint)
    {f : NodeServiceInfo → NodeServiceInfo} (hf : Touches f) :
    (recordConnection slots remote f).Ensures b fun _ b' => Valid b' ∧ b'.lastUsedId = b.lastUsedId := by
  cases hlookup : b.lookupEndpoint remote with
  | none => exact ⟨false, b, by simp [recordConnection, hlookup], h, rfl⟩
  | some id =>
      obtain ⟨e, he, -⟩ := exists_of_lookupEndpoint hlookup
      have he₁ := entry_mapInfo_self he f
      have h₁ : Valid (mapInfo id f b) := ⟨h.coherent.touch he hf, h.housed.touch he hf⟩
      have hlast₁ := mapInfo_lastUsedId id f b
      by_cases htried : (f e.info).triedRef.isNone
      · obtain ⟨_, b', hrun, h', hhoused', hlast', -⟩ :=
          makeEntryTried_ensures slots h₁.coherent (hlast₁.trans_le hlast) h₁.housed he₁
        refine ⟨true, b', ?_, ⟨h', hhoused'⟩, hlast'.trans hlast₁⟩
        simp only [Option.isNone_iff_eq_none] at htried
        simp [recordConnection, hlookup, requireInfo_run he₁, htried, hrun]
      · refine ⟨true, _, ?_, h₁, hlast₁⟩
        simp only [Option.isNone_iff_eq_none] at htried
        simp [recordConnection, hlookup, requireInfo_run he₁, htried]

/-! ## Selection -/

/-- Every id in the bucket is the id of an entry. -/
def Leads (b : AddressBook) (bucket : Table Nat) : Prop := ∀ s id, bucket.get s = some id → ∃ e, b.entry id = some e

theorem Coherent.leads_new (h : Coherent b) : Leads b b.newBuckets := by
  intro s id hget
  obtain ⟨e, he, -⟩ := mem_newRefsOf_iff.mp ((h.filed.new.inverse s id).mp hget)
  exact ⟨e, he⟩

theorem Coherent.leads_tried (h : Coherent b) : Leads b b.triedBuckets := by
  intro s id hget
  obtain ⟨e, he, -⟩ := mem_triedRefsOf_iff.mp ((h.filed.tried.inverse s id).mp hget)
  exact ⟨e, he⟩

theorem randomize_zero_lt {n : Nat} (hn : 0 < n) (draw : Nat) : randomize 0 (n - 1) draw < n := by
  unfold randomize
  have := Nat.mod_lt draw (show 0 < n - 1 - 0 + 1 by omega)
  omega

theorem not_filtered_iff {type : Option IPAddressType} {t : IPAddressType} :
    ¬ (type.isSome ∧ type ≠ some t) ↔ ∀ t', type = some t' → t = t' := by
  cases type <;> simp [eq_comm]

/-- An endpoint that was selected recently only moves to the front. -/
theorem insertRecent_eq_false {endpoint : IPEndpoint} {recent recent' : List IPEndpoint}
    (h : insertRecent endpoint recent = (false, recent')) : recent'.Perm recent := by
  unfold insertRecent at h
  split_ifs at h with hmem
  · cases h
    exact (List.perm_cons_erase hmem).symm
  · cases h

theorem insertRecent_eq_true {endpoint : IPEndpoint} {recent recent' : List IPEndpoint}
    (h : insertRecent endpoint recent = (true, recent')) : endpoint ∉ recent := by
  unfold insertRecent at h
  split_ifs at h with hmem
  · cases h
  · exact hmem

/-- The endpoints are the items of an `LruSet`, and `insertRecent` is its `insert`. -/
theorem insertRecent_eq_insert {s : LruSet IPEndpoint} {history : List IPEndpoint} (h : s.Holds history)
    (hsize : s.maxSize = 64) (endpoint : IPEndpoint) :
    ∃ s', s.insert endpoint = some ((insertRecent endpoint s.items).1, s') ∧
      s'.items = (insertRecent endpoint s.items).2 ∧ s'.Holds (endpoint :: history) := by
  have hinsertRecent : insertRecent endpoint s.items =
      (decide (endpoint ∉ s.items), touch s.maxSize endpoint s.items) := by
    unfold insertRecent touch
    split_ifs with hmem
    · simp [hmem]
    · simp [hmem, hsize]
  obtain ⟨s', hinsert, hmax, hholds⟩ := h.insert endpoint
  refine ⟨s', ?_, ?_, hholds⟩
  · rw [hinsert, hinsertRecent]
  · rw [hinsertRecent, hholds.items_eq, hmax, recent_cons, ← h.items_eq]

/-- An endpoint that is returned: that of an entry in the bucket, of the requested type. If it was selected
recently, there are no more entries of its kind than recent endpoints. -/
structure Picked (b b' : AddressBook) (bucket : Table Nat) (itemsInSet : Nat) (type : Option IPAddressType)
    (endpoint : IPEndpoint) : Prop where
  held : ∃ s id e, bucket.get s = some id ∧ b.entry id = some e ∧ e.info.service.endpoint = endpoint
  requested : ∀ t, type = some t → endpoint.address.getType = t
  repeated : endpoint ∈ b.recentlySelected →
    b'.recentlySelected.Perm b.recentlySelected ∧ itemsInSet ≤ b.recentlySelected.length

/-- Before, an endpoint was rejected because it was selected recently. -/
theorem Picked.after_move {b' : AddressBook} {bucket : Table Nat} {itemsInSet : Nat} {type : Option IPAddressType}
    {endpoint : IPEndpoint} {recent : List IPEndpoint} (hrecent : recent.Perm b.recentlySelected)
    (h : Picked { b with recentlySelected := recent } b' bucket itemsInSet type endpoint) :
    Picked b b' bucket itemsInSet type endpoint := by
  refine ⟨h.held, h.requested, fun hmem => ?_⟩
  obtain ⟨hperm, hle⟩ := h.repeated (hrecent.mem_iff.mpr hmem)
  exact ⟨hperm.trans hrecent, hle.trans_eq hrecent.length_eq⟩

/-- The outcome of the attempts: only the recent endpoints change. -/
structure Attempted (b : AddressBook) (bucket : Table Nat) (itemsInSet : Nat) (type : Option IPAddressType)
    (selected : Option IPEndpoint) (b' : AddressBook) : Prop where
  unchanged : ∃ recent, b' = { b with recentlySelected := recent }
  picked : ∀ endpoint, selected = some endpoint → Picked b b' bucket itemsInSet type endpoint

theorem Attempted.nothing (bucket : Table Nat) (itemsInSet : Nat) (type : Option IPAddressType) :
    Attempted b bucket itemsInSet type none b :=
  ⟨⟨b.recentlySelected, rfl⟩, fun _ hnone => absurd hnone (Option.some_ne_none _).symm⟩

/-- An attempt that goes on only moves a recent endpoint to the front. -/
theorem selectAttempts_ensures {bucket : Table Nat} (hleads : Leads b bucket) (hsize : 0 < bucket.size)
    (itemsInSet : Nat) (type : Option IPAddressType) (attempts : Nat) (picks : Nat → Pick) :
    (selectAttempts bucket itemsInSet type attempts picks).Ensures b fun r b' =>
      Attempted b bucket itemsInSet type r.1 b' := by
  induction attempts generalizing b picks with
  | zero => exact Ensures.pure (.nothing ..)
  | succ attempts ih =>
      have hindex := (Nat.mod_le (randomize 0 (bucket.size - 1) (picks 0).item) (2 ^ 32)).trans_lt
        (randomize_zero_lt hsize _)
      obtain ⟨id, hid⟩ := Table.nth_isSome hindex
      obtain ⟨s, hget⟩ := Table.get_of_nth hid
      obtain ⟨e, he⟩ := hleads s id hget
      unfold selectAttempts
      simp only [hid]
      refine Ensures.step (requireInfo_run he) ?_
      split_ifs with htype haccept
      · exact ih hleads _
      · refine Ensures.step (run_get _) ?_
        cases hinsert : insertRecent e.info.service.endpoint b.recentlySelected with
        | mk added recent =>
            refine Ensures.step (run_modify _ _) ?_
            split_ifs with hrecent
            · obtain ⟨hadded, -⟩ := hrecent
              rw [Bool.not_eq_true] at hadded
              subst hadded
              refine (ih (b := { b with recentlySelected := recent }) hleads _).mono fun r b' hpost => ?_
              obtain ⟨recent', rfl⟩ := hpost.unchanged
              exact ⟨⟨recent', rfl⟩, fun endpoint hr =>
                (hpost.picked endpoint hr).after_move (insertRecent_eq_false hinsert)⟩
            · refine Ensures.pure ⟨⟨recent, rfl⟩, ?_⟩
              rintro endpoint hr
              cases hr
              refine ⟨⟨s, id, e, hget, he, rfl⟩, not_filtered_iff.mp htype, fun hmem => ?_⟩
              cases added with
              | true => exact absurd hmem (insertRecent_eq_true hinsert)
              | false =>
                  have hperm := insertRecent_eq_false hinsert
                  refine ⟨hperm, ?_⟩
                  have hlength := hperm.length_eq
                  simp only [Bool.false_eq_true, not_false_eq_true, true_and, not_lt] at hrecent
                  omega
      · exact ih hleads _

/-- The kind of entries that is selected from has some. -/
theorem Valid.selects (h : Valid b) (hids : b.randomlyOrderedIds ≠ []) {newOnly : Bool}
    (hnew : ¬ (newOnly = true ∧ b.newEntriesSize = 0)) (draw : Nat) :
    if b.selectFromTried newOnly draw then b.triedEntriesSize ≠ 0 else b.newEntriesSize ≠ 0 := by
  unfold selectFromTried
  by_cases hfirst : newOnly = true ∨ b.triedEntriesSize = 0
  · simp only [hfirst, if_true, Bool.false_eq_true, if_false]
    intro hzero
    have htried : b.triedEntriesSize = 0 := hfirst.resolve_left fun hn => hnew ⟨hn, hzero⟩
    -- the first id of the order is in a bucket of one kind
    obtain ⟨id, hid⟩ := List.exists_mem_of_ne_nil _ hids
    obtain ⟨e, he⟩ := (h.coherent.ordered.mem_iff id).mp hid
    rcases h.housed id e.bare (content_of_entry he) (by simp) with hrefs | hsome
    · have := h.coherent.filed.new.counted.pos (k := id) (by rw [newRefsOf_entry he]; exact hrefs)
      omega
    · obtain ⟨s, hs⟩ := Option.isSome_iff_exists.mp hsome
      rw [AddressBookEntry.bare_triedRef] at hs
      have := h.coherent.filed.tried.counted.pos (k := id) (by rw [triedRefsOf_entry he, hs]; simp)
      omega
  · rw [not_or] at hfirst
    by_cases hzero : b.newEntriesSize = 0
    · simp [hfirst, hzero]
    · simp only [hfirst, hzero, or_self, Bool.false_eq_true, if_false]
      split_ifs
      · exact hfirst.2
      · exact hzero

theorem Valid.setRecent (h : Valid b) (recent : List IPEndpoint) : Valid { b with recentlySelected := recent } :=
  ⟨⟨h.coherent.ordered, h.coherent.filed.last_pos, h.coherent.filed.new, h.coherent.filed.tried,
    h.coherent.filed.entries, h.coherent.filed.unique⟩, h.housed⟩

def entriesSizeOf (b : AddressBook) (tried : Bool) : Nat := if tried then b.triedEntriesSize else b.newEntriesSize

def bucketsOf (b : AddressBook) (tried : Bool) : Table Nat := if tried then b.triedBuckets else b.newBuckets

theorem selectRandom_ensures (h : Valid b) (newOnly : Bool) (type : Option IPAddressType) (draw : Nat)
    (picks : Nat → Pick) :
    (selectRandom newOnly type draw picks).Ensures b fun r b' =>
      Attempted b (b.bucketsOf (b.selectFromTried newOnly draw)) (b.entriesSizeOf (b.selectFromTried newOnly draw)) type
        r.1 b' := by
  unfold selectRandom
  refine Ensures.step (run_get _) ?_
  split_ifs with hids hnew htried
  · exact Ensures.pure (.nothing ..)
  · exact Ensures.pure (.nothing ..)
  · have hsome := h.selects hids hnew draw
    rw [if_pos htried] at hsome
    rw [htried]
    exact selectAttempts_ensures h.coherent.leads_tried (Placed.size_pos h.coherent.filed.tried hsome) ..
  · have hsome := h.selects hids hnew draw
    rw [if_neg htried] at hsome
    rw [Bool.not_eq_true] at htried
    rw [htried]
    exact selectAttempts_ensures h.coherent.leads_new (Placed.size_pos h.coherent.filed.new hsome) ..

/-! ## Random services -/

theorem Reordered.refl (b : AddressBook) : Reordered b b := ⟨⟨_, _, rfl⟩, rfl⟩

theorem Reordered.trans {b₁ b₂ b₃ : AddressBook} (h : Reordered b₁ b₂) (h' : Reordered b₂ b₃) : Reordered b₁ b₃ := by
  obtain ⟨⟨ids, index, rfl⟩, hcontent⟩ := h
  obtain ⟨⟨ids', index', rfl⟩, hcontent'⟩ := h'
  exact ⟨⟨ids', index', rfl⟩, hcontent'.trans hcontent⟩

theorem Reordered.coherent {b' : AddressBook} (h : Reordered b b') (hb : Coherent b) (hordered : Ordered b') :
    Coherent b' := by
  obtain ⟨⟨ids, index, rfl⟩, hcontent⟩ := h
  refine ⟨hordered, hb.filed.last_pos, ?_, ?_, ?_, ?_⟩
  · rw [hcontent]
    exact hb.filed.new
  · rw [hcontent]
    exact hb.filed.tried
  · rw [hcontent]
    exact hb.filed.entries
  · rw [hcontent]
    exact hb.filed.unique

theorem Reordered.perm {b' : AddressBook} (h : Reordered b b') (hb : Ordered b) (hb' : Ordered b') :
    b'.randomlyOrderedIds.Perm b.randomlyOrderedIds := by
  refine (List.perm_ext_iff_of_nodup (Indexes.nodup hb') (Indexes.nodup hb)).mpr fun id => ?_
  have hcontent : (b'.entry id).map AddressBookEntry.bare = (b.entry id).map AddressBookEntry.bare :=
    congrFun h.content id
  rw [hb'.mem_iff, hb.mem_iff, ← Option.isSome_iff_exists, ← Option.isSome_iff_exists,
    ← Option.isSome_map (f := AddressBookEntry.bare), hcontent, Option.isSome_map]

theorem Reordered.valid {b' : AddressBook} (h : Reordered b b') (hb : Valid b) (hordered : Ordered b') : Valid b' := by
  refine ⟨h.coherent hb.coherent hordered, ?_⟩
  unfold Housed
  rw [h.content]
  exact hb.housed

def offers (type : Option IPAddressType) (now : Int) (e : AddressBookEntry) : Bool :=
  type.all (fun t => e.info.service.endpoint.address.getType = t) && !e.info.isBad now

theorem offers_bare (type : Option IPAddressType) (now : Int) (e : AddressBookEntry) :
    offers type now e.bare = offers type now e := rfl

theorem offers_iff {type : Option IPAddressType} {now : Int} {e : AddressBookEntry} : offers type now e ↔
    (∀ t, type = some t → e.info.service.endpoint.address.getType = t) ∧ ¬ e.info.isBad now := by
  cases type <;> simp [offers]

def offered (b : AddressBook) (type : Option IPAddressType) (now : Int) (id : Nat) : Option NodeService :=
  ((b.content id).filter (offers type now)).map (·.info.service)

theorem offered_entry {id : Nat} {e : AddressBookEntry} (he : b.entry id = some e) (type : Option IPAddressType)
    (now : Int) : b.offered type now id = if offers type now e then some e.info.service else none := by
  rw [offered, content_of_entry he, Option.filter_some, offers_bare]
  split_ifs <;> rfl

theorem Reordered.offered {b' : AddressBook} (h : Reordered b b') : b'.offered = b.offered := by
  funext type now id
  unfold AddressBook.offered
  rw [h.content]

/-- The loop of `get_random_services`, from position `i` on: it has put some ids at the next positions and taken
the services they offer, and it stopped because it had enough of them or because there are no more ids. -/
structure Sampled (b : AddressBook) (count : Nat) (type : Option IPAddressType) (now : Int) (i : Nat)
    (ret services : List NodeService) (b' : AddressBook) : Prop where
  reordered : Reordered b b'
  ordered : Ordered b'
  visits : ∃ visited rest, b'.randomlyOrderedIds = b.randomlyOrderedIds.take i ++ (visited ++ rest) ∧
    services = ret ++ visited.filterMap (b.offered type now) ∧ (count ≤ services.length ∨ rest = [])
  length_le : services.length ≤ max count ret.length

/-- One round: `c` is put at position `i`. -/
theorem Sampled.round {b₁ b' : AddressBook} {count : Nat} {type : Option IPAddressType} {now : Int} {i c : Nat}
    {ret services : List NodeService} (hroom : ret.length < count) (hreordered : Reordered b b₁)
    (hids : b₁.randomlyOrderedIds.take (i + 1) = b.randomlyOrderedIds.take i ++ [c])
    (h : Sampled b₁ count type now (i + 1) (ret ++ (b.offered type now c).toList) services b') :
    Sampled b count type now i ret services b' := by
  obtain ⟨visited, rest, hids', hservices, hstop⟩ := h.visits
  refine ⟨hreordered.trans h.reordered, h.ordered, ⟨c :: visited, rest, ?_, ?_, hstop⟩, ?_⟩
  · rw [hids', hids, List.append_assoc]
    rfl
  · rw [hservices, hreordered.offered, List.append_assoc]
    cases hc : b.offered type now c <;> simp [hc]
  · have hle := h.length_le
    have hone : (b.offered type now c).toList.length ≤ 1 := by
      cases b.offered type now c <;> simp
    rw [List.length_append] at hle
    omega

/-- The shuffle of one round: the id at position `i` is one that was there or later. -/
theorem drawNext_ensures (h : Coherent b) (hlen : b.randomlyOrderedIds.length ≤ 2 ^ 32) {i : Nat}
    (hi : i < b.randomlyOrderedIds.length) (draw : Nat) :
    (swapRandomlyOrderedIds (i % 2 ^ 32)
      ((randomize 0 (b.randomlyOrderedIds.length - i - 1) draw + i) % 2 ^ 32)).Ensures b
      fun _ b₁ => Reordered b b₁ ∧ Coherent b₁ ∧ b₁.randomlyOrderedIds.length = b.randomlyOrderedIds.length ∧
        ∃ c e, b₁.entry c = some e ∧ b₁.randomlyOrderedIds[i]? = some c ∧
          b₁.randomlyOrderedIds.take (i + 1) = b.randomlyOrderedIds.take i ++ [c] := by
  have hpick := randomize_zero_lt (show 0 < b.randomlyOrderedIds.length - i by omega) draw
  generalize randomize 0 (b.randomlyOrderedIds.length - i - 1) draw = pick at hpick
  have hj : pick + i < b.randomlyOrderedIds.length := by omega
  rw [Nat.mod_eq_of_lt (show i < 2 ^ 32 by omega), Nat.mod_eq_of_lt (show pick + i < 2 ^ 32 by omega)]
  have hgeti := List.getElem?_eq_getElem hi
  have hgetj := List.getElem?_eq_getElem hj
  refine (swapRandomlyOrderedIds_ensures h.ordered hgeti hgetj).mono fun _ b₁ hpost => ?_
  obtain ⟨hreordered, hordered, hids⟩ := hpost
  have hget := getElem?_swap hgeti hgetj
  have htake := take_swap hgeti hgetj (Nat.le_add_left i pick)
  rw [← hids] at hget htake
  obtain ⟨e, he⟩ := (hordered.mem_iff _).mp (List.mem_of_getElem? hget)
  refine ⟨hreordered, hreordered.coherent h hordered, ?_, _, e, he, hget, htake⟩
  rw [hids, List.length_set, List.length_set]

/-- The endpoints in `selected` belong to ids before position `i`. As no endpoint has two ids, none is met twice. -/
theorem randomServicesLoop_ensures (h : Coherent b) (hlen : b.randomlyOrderedIds.length ≤ 2 ^ 32)
    (count : Nat) (type : Option IPAddressType) (now : Int) {rounds i : Nat}
    (hi : i + rounds = b.randomlyOrderedIds.length) {selected : List IPEndpoint} {ret : List NodeService}
    (hselected : ∀ endpoint ∈ selected, ∃ id ∈ b.randomlyOrderedIds.take i, ∃ e, b.content id = some e ∧
      e.endpoint = endpoint) (draws : Nat → Nat) :
    (randomServicesLoop count type now rounds i selected ret draws).Ensures b fun services b' =>
      Sampled b count type now i ret services b' := by
  induction rounds generalizing b i selected ret draws with
  | zero =>
      refine Ensures.pure ⟨Reordered.refl b, h.ordered, ⟨[], [], ?_, by simp, Or.inr rfl⟩, le_max_right _ _⟩
      rw [List.take_of_length_le (by omega)]
      simp
  | succ rounds ih =>
      unfold randomServicesLoop
      split_ifs with hcount
      · refine Ensures.pure ⟨Reordered.refl b, h.ordered, ⟨[], b.randomlyOrderedIds.drop i, ?_, by simp, Or.inl hcount⟩,
          le_max_right _ _⟩
        rw [List.nil_append, List.take_append_drop]
      refine Ensures.step (run_get _) ?_
      obtain ⟨_, b₁, hrun, hreordered, h₁, hlen₁, c, e, he, hget, htake⟩ :=
        drawNext_ensures h hlen (show i < b.randomlyOrderedIds.length by omega) (draws 0)
      refine Ensures.step hrun (Ensures.step (run_get _) ?_)
      have hc := content_of_entry he
      have hend : e.info.service.endpoint = e.endpoint := (h₁.filed.entries c _ hc).endpoint
      -- the rest of the loop, from the book after the swap
      have hrest : ∀ selected', (∀ endpoint ∈ selected', endpoint = e.endpoint ∨ endpoint ∈ selected) →
          (randomServicesLoop count type now rounds (i + 1) selected' (ret ++ (b.offered type now c).toList)
            fun n => draws (n + 1)).Ensures b₁ fun services b' => Sampled b count type now i ret services b' := by
        intro selected' hsub
        refine (ih h₁ (by omega) (by omega) ?_ _).mono fun _ _ hpost => hpost.round (by omega) hreordered htake
        intro endpoint hmem
        rw [htake, hreordered.content]
        rcases hsub endpoint hmem with rfl | hold
        · exact ⟨c, by simp, e.bare, hreordered.content ▸ hc, rfl⟩
        · obtain ⟨id, hid, e', he', hend'⟩ := hselected endpoint hold
          exact ⟨id, List.mem_append_left _ hid, e', he', hend'⟩
      rw [← hreordered.offered, offered_entry he] at hrest
      have hsame := hrest selected fun _ hmem => Or.inr hmem
      simp only [hget]
      refine Ensures.step (requireInfo_run he) ?_
      split_ifs with htype hbad hseen
      · have hnot : ¬ offers type now e := fun hyes => not_filtered_iff.mpr (offers_iff.mp hyes).1 htype
        rw [if_neg hnot, Option.toList_none, List.append_nil] at hsame
        exact hsame
      · have hnot : ¬ offers type now e := fun hyes => (offers_iff.mp hyes).2 hbad
        rw [if_neg hnot, Option.toList_none, List.append_nil] at hsame
        exact hsame
      · obtain ⟨id, hid, e', he', hend'⟩ := hselected _ hseen
        rw [← hreordered.content] at he'
        have hidc := h₁.filed.unique id c e' e.bare he' hc (hend'.trans hend)
        -- the id would be twice among the first ones
        have hnodup := (Indexes.nodup h₁.ordered).sublist (List.take_sublist (i + 1) _)
        rw [htake, List.nodup_append] at hnodup
        exact absurd hidc (hnodup.2.2 id hid c List.mem_cons_self)
      · have hyes : offers type now e := offers_iff.mpr ⟨not_filtered_iff.mp htype, hbad⟩
        rw [if_pos hyes] at hrest
        refine hrest (e.info.service.endpoint :: selected) fun endpoint hmem => ?_
        rw [hend] at hmem
        exact List.mem_cons.mp hmem

def AllBad (b : AddressBook) (now : Int) (ids : List Nat) : Prop :=
  ∀ id ∈ ids, ∀ e, b.content id = some e → e.info.isBad now

/-- `get_random_services` is the loop, from the first position. -/
theorem getRandomServices_samples (h : Valid b) (hlast : b.lastUsedId ≤ 2 ^ 32) (maxCount maxPercentage : Nat)
    (type : Option IPAddressType) (now : Int) (draws : Nat → Nat) :
    (getRandomServices maxCount maxPercentage type now draws).Ensures b fun services b' =>
      Sampled b (servicesCount b.randomlyOrderedIds.length maxCount maxPercentage) type now 0 [] services b' := by
  have hlength := h.coherent.length_le
  unfold getRandomServices
  refine Ensures.step (run_get _) ?_
  dsimp only
  split_ifs with hsize
  · refine Ensures.pure ⟨Reordered.refl b, h.coherent.ordered, ⟨[], [], ?_, rfl, Or.inr rfl⟩, Nat.zero_le _⟩
    rw [List.length_eq_zero_iff.mp hsize]
    rfl
  · exact randomServicesLoop_ensures h.coherent (by omega) _ type now (Nat.zero_add _)
      (fun _ hmem => absurd hmem List.not_mem_nil) draws

/-- Without a filter on the type, nothing is returned exactly when nothing is wanted or all the entries are bad. -/
theorem getRandomServices_ensures (h : Valid b) (hlast : b.lastUsedId ≤ 2 ^ 32) (maxCount maxPercentage : Nat)
    (type : Option IPAddressType) (now : Int) (draws : Nat → Nat) :
    (getRandomServices maxCount maxPercentage type now draws).Ensures b fun services b' =>
      Valid b' ∧ Reordered b b' ∧ (type = none → (services = [] ↔
        servicesCount b.randomlyOrderedIds.length maxCount maxPercentage = 0 ∨
          AllBad b now b.randomlyOrderedIds)) := by
  refine (getRandomServices_samples h hlast maxCount maxPercentage type now draws).mono fun services b' hpost => ?_
  refine ⟨hpost.reordered.valid h hpost.ordered, hpost.reordered, ?_⟩
  rintro rfl
  obtain ⟨visited, rest, hids, rfl, hstop⟩ := hpost.visits
  have hbad : ∀ id, b.offered none now id = none ↔ ∀ e, b.content id = some e → e.info.isBad now := by
    intro id
    cases hc : b.content id <;> simp [offered, offers, hc]
  have hmem : ∀ id, id ∈ visited ++ rest ↔ id ∈ b.randomlyOrderedIds := fun id => by
    rw [← (hpost.reordered.perm h.coherent.ordered hpost.ordered).mem_iff, hids, List.take_zero, List.nil_append]
  rw [List.nil_append] at hstop ⊢
  constructor
  · intro hnil
    rw [hnil] at hstop
    refine hstop.imp Nat.le_zero.mp ?_
    rintro rfl id hid
    exact (hbad id).mp (List.filterMap_eq_nil_iff.mp hnil id (by simpa using (hmem id).mpr hid))
  · rintro (hcount | hall)
    · have hle := hpost.length_le
      rw [hcount] at hle
      simpa using hle
    · refine List.filterMap_eq_nil_iff.mpr fun id hid => (hbad id).mpr (hall id ((hmem id).mp ?_))
      exact List.mem_append_left rest hid

/-! ## Runs -/

/-- The addresses a call may insert, and the source they come from, are routable. -/
def Call.Routable : Call → Prop
  | .insertOrUpdate service source _ _ => source.isRoutable ∧ service.endpoint.address.isRoutable
  | .insertOrUpdateAll services source _ _ _ =>
    source.isRoutable ∧ ∀ service ∈ services, hasNetworkBit service → service.endpoint.address.isRoutable
  | _ => True

theorem perform_ensures (h : Valid b) {call : Call} (hcall : call.Routable)
    (hfew : ((call.perform slots).run b).state.lastUsedId < 2 ^ 32) :
    (call.perform slots).Ensures b fun _ b' => Valid b' := by
  have hlast : b.lastUsedId < 2 ^ 32 := ((grows_perform slots call).le b).trans_lt hfew
  have hrecord : ∀ remote f, Touches f →
      (do let _ ← recordConnection slots remote f : Book Unit).Ensures b fun _ b' => Valid b' := fun remote f hf =>
    (recordConnection_ensures slots h hlast.le remote hf).bind fun _ _ hpost => Ensures.pure hpost.1
  cases call with
  | insertOrUpdate service source timePenalty choice =>
      obtain ⟨hsource, hservice⟩ := hcall
      have hadmits := admits_of_routable b choice hsource hservice
      exact (insertOrUpdateImpl_ensures slots h hlast hadmits timePenalty).bind fun _ _ hpost => Ensures.pure hpost.1
  | insertOrUpdateAll services source timePenalty now choices =>
      obtain ⟨hsource, hservices⟩ := hcall
      have hfew' := (Grows.le_bind (fun _ => Grows.pure _) b).trans_lt
        ((Grows.le_bind (fun _ => Grows.pure _) b).trans_lt hfew)
      exact ((insertOrUpdateLoop_ensures slots h hsource hservices hfew').bind fun _ _ hpost =>
        Ensures.pure hpost.1).bind fun _ _ hpost => Ensures.pure hpost
  | setGood remote versionInfo time =>
      exact hrecord remote _ ⟨fun _ => rfl, fun _ => rfl, fun _ => rfl, fun _ => rfl, fun _ => rfl⟩
  | setFailed remote time =>
      exact hrecord remote _ ⟨fun _ => rfl, fun _ => rfl, fun _ => rfl, fun _ => rfl, fun _ => rfl⟩
  | setTried remote time =>
      exact hrecord remote _ ⟨fun _ => rfl, fun _ => rfl, fun _ => rfl, fun _ => rfl, fun _ => rfl⟩
  | selectRandom newOnly type draw picks =>
      apply (selectRandom_ensures h newOnly type draw picks).bind
      intro _ b' hpost
      obtain ⟨recent, rfl⟩ := hpost.unchanged
      exact Ensures.pure (h.setRecent recent)
  | getRandomServices maxCount maxPercentage type now draws =>
      exact (getRandomServices_ensures h hlast.le maxCount maxPercentage type now draws).bind
        fun _ _ hpost => Ensures.pure hpost.1

theorem runCalls_ensures (h : Valid b) {calls : List Call} (hcalls : ∀ call ∈ calls, call.Routable)
    (hfew : ((runCalls slots calls).run b).state.lastUsedId < 2 ^ 32) :
    (runCalls slots calls).Ensures b fun _ b' => Valid b' := by
  induction calls generalizing b with
  | nil => exact Ensures.pure h
  | cons call calls ih =>
      have hfirst := (Grows.le_bind (m := call.perform slots) (fun _ => grows_runCalls slots calls) b).trans_lt hfew
      obtain ⟨_, b₁, hrun, h₁⟩ := perform_ensures slots h (hcalls call List.mem_cons_self) hfirst
      unfold runCalls at hfew ⊢
      rw [run_bind, hrun] at hfew
      exact Ensures.step hrun (ih h₁ (fun c hc => hcalls c (List.mem_cons_of_mem call hc)) hfew)

/-- The book at the end of a run from the empty one. -/
def bookAfter (calls : List Call) : AddressBook := ((runCalls slots calls).run {}).state

theorem valid_bookAfter {calls : List Call} (hcalls : ∀ call ∈ calls, call.Routable)
    (hfew : (bookAfter slots calls).lastUsedId < 2 ^ 32) : Valid (bookAfter slots calls) := by
  obtain ⟨_, b, hrun, h⟩ := runCalls_ensures slots valid_empty hcalls hfew
  rw [bookAfter, hrun]
  exact h

theorem runCalls_append (calls calls' : List Call) :
    runCalls slots (calls ++ calls') = (do runCalls slots calls; runCalls slots calls') := by
  funext s
  induction calls generalizing s with
  | nil => rfl
  | cons call calls ih =>
      change (do call.perform slots; runCalls slots (calls ++ calls') : Book Unit).run s =
        (do (do call.perform slots; runCalls slots calls); runCalls slots calls' : Book Unit).run s
      simp only [run_bind]
      cases (call.perform slots).run s with
      | ok a s' => exact ih s'
      | error e s' => rfl
      | fault e s' => rfl

/-- The ids handed out in a run from the empty book: `insert_entry` takes one for every entry it inserts. -/
def insertedIn (calls : List Call) : Nat := ((runCalls slots calls).run {}).state.lastUsedId - 1

structure RepInvariant (b : AddressBook) : Prop where
  /-- The index relates ids and endpoints one to one. -/
  index : ∀ endpoint id, b.lookupEndpoint endpoint = some id ↔ ∃ e, b.entry id = some e ∧ e.endpoint = endpoint
  /-- Ids are not zero, and below `last_used_id_`. -/
  ids : ∀ id e, b.entry id = some e → id ≠ 0 ∧ id < b.lastUsedId % 2 ^ 32
  /-- The order lists the ids of the book, each one once. -/
  order_nodup : b.randomlyOrderedIds.Nodup
  order_mem : ∀ id, id ∈ b.randomlyOrderedIds ↔ (b.entry id).isSome
  /-- Every entry knows its position. -/
  position : ∀ id e, b.entry id = some e → b.randomlyOrderedIds[e.info.randomPos]? = some id
  /-- The buckets hold the references of the entries. -/
  newBuckets : ∀ s id, b.newBuckets.get s = some id ↔ ∃ e, b.entry id = some e ∧ s ∈ e.info.newRefs
  triedBuckets : ∀ s id, b.triedBuckets.get s = some id ↔ ∃ e, b.entry id = some e ∧ e.info.triedRef = some s
  /-- Every entry is in buckets of one kind. -/
  placed : ∀ id e, b.entry id = some e →
    (1 ≤ e.info.newRefs.card ∧ e.info.newRefs.card ≤ kMaxNewBucketReferences ∧ e.info.triedRef = none) ∨
      (e.info.triedRef.isSome ∧ e.info.newRefs = ∅)
  /-- The counters are the numbers of entries of each kind. -/
  newEntriesSize : b.newEntriesSize =
    b.randomlyOrderedIds.countP fun id => (b.info id).any fun info => info.newRefs ≠ ∅
  triedEntriesSize : b.triedEntriesSize =
    b.randomlyOrderedIds.countP fun id => (b.info id).any fun info => info.triedRef.isSome

theorem counted_new {ids : List Nat} (hids : ids.Nodup) (hmem : ∀ id, id ∈ ids ↔ (b.entry id).isSome) :
    Counted (ids.countP fun id => (b.info id).any fun info => info.newRefs ≠ ∅) (newRefsOf b.content) := by
  refine Counted.countP hids ?_ ?_
  · intro id hid
    obtain ⟨s, hs⟩ := Finset.nonempty_iff_ne_empty.mpr hid
    obtain ⟨e, he, -⟩ := mem_newRefsOf_iff.mp hs
    exact (hmem id).mpr (Option.isSome_of_mem he)
  · intro id hid
    obtain ⟨e, he⟩ := Option.isSome_iff_exists.mp ((hmem id).mp hid)
    simp [info_of_entry he, newRefsOf_entry he]

theorem counted_tried {ids : List Nat} (hids : ids.Nodup) (hmem : ∀ id, id ∈ ids ↔ (b.entry id).isSome) :
    Counted (ids.countP fun id => (b.info id).any fun info => info.triedRef.isSome) (triedRefsOf b.content) := by
  refine Counted.countP hids ?_ ?_
  · intro id hid
    obtain ⟨s, hs⟩ := Finset.nonempty_iff_ne_empty.mpr hid
    obtain ⟨e, he, -⟩ := mem_triedRefsOf_iff.mp hs
    exact (hmem id).mpr (Option.isSome_of_mem he)
  · intro id hid
    obtain ⟨e, he⟩ := Option.isSome_iff_exists.mp ((hmem id).mp hid)
    cases htried : e.info.triedRef <;> simp [info_of_entry he, triedRefsOf_entry he, htried]

theorem Valid.repInvariant (h : Valid b) (hlast : b.lastUsedId < 2 ^ 32) : RepInvariant b := by
  have hfiled := h.coherent.filed
  have hordered := h.coherent.ordered
  have hnodup := Indexes.nodup hordered
  have hmem : ∀ id, id ∈ b.randomlyOrderedIds ↔ (b.entry id).isSome := by
    intro id
    rw [hordered.mem_iff, Option.isSome_iff_exists]
  have hentries := fun id e (he : b.entry id = some e) => hfiled.entries id e.bare (content_of_entry he)
  refine ⟨fun _ _ => hfiled.lookupEndpoint_eq_some_iff, ?_, hnodup, hmem, ?_, ?_, ?_, ?_, ?_, ?_⟩
  · intro id e he
    rw [Nat.mod_eq_of_lt hlast]
    exact ⟨(hentries id e he).id_pos.ne', (hentries id e he).id_lt⟩
  · intro id e he
    exact (hordered id _).mp (by simp [AddressBook.position, info_of_entry he])
  · intro s id
    exact (hfiled.new.inverse s id).trans mem_newRefsOf_iff
  · intro s id
    exact (hfiled.tried.inverse s id).trans mem_triedRefsOf_iff
  · intro id e he
    have hok := hentries id e he
    by_cases hsome : e.info.triedRef.isSome
    · exact Or.inr ⟨hsome, hok.disjoint hsome⟩
    · refine Or.inl ⟨?_, hok.card, by simpa using hsome⟩
      have hne := (h.housed id e.bare (content_of_entry he) (by simp)).resolve_right hsome
      exact Finset.card_pos.mpr (Finset.nonempty_iff_ne_empty.mpr hne)
  · exact hfiled.new.counted.unique (counted_new hnodup hmem)
  · exact hfiled.tried.counted.unique (counted_tried hnodup hmem)

/-- **The representation invariant holds after every call of every run**, and every call returns, when the
addresses are routable and the ids are not used up. -/
theorem runs_keep_invariant (calls : List Call) (hroutable : ∀ call ∈ calls, call.Routable)
    (hfew : insertedIn slots calls < 2 ^ 32 - 1) (n : Nat) :
    ∃ b, (runCalls slots (calls.take n)).run {} = .ok () b ∧ RepInvariant b := by
  have hall : ((runCalls slots calls).run {}).state.lastUsedId < 2 ^ 32 := by
    unfold insertedIn at hfew
    omega
  have hfirst : ((runCalls slots (calls.take n)).run {}).state.lastUsedId < 2 ^ 32 := by
    rw [← List.take_append_drop n calls, runCalls_append] at hall
    exact (Grows.le_bind (fun _ => grows_runCalls slots _) _).trans_lt hall
  obtain ⟨_, b, hrun, h⟩ := runCalls_ensures slots valid_empty
    (fun call hcall => hroutable call (List.mem_of_mem_take hcall)) hfirst
  rw [hrun] at hfirst
  exact ⟨b, hrun, h.repInvariant hfirst⟩

/-- Two services that want the same slot: the second one takes it, and the first one is erased. -/
def collidingCalls : List Call :=
  [.insertOrUpdate { services := 1, endpoint := { address := .v4 ⟨[1, 2, 3, 4], rfl⟩, port := 9033 } }
      (.v4 ⟨[8, 8, 8, 8], rfl⟩) 0 ⟨1700000000, 0⟩,
    .insertOrUpdate { services := 1, endpoint := { address := .v4 ⟨[1, 2, 3, 5], rfl⟩, port := 9033 } }
      (.v4 ⟨[8, 8, 8, 8], rfl⟩) 0 ⟨1700000000, 0⟩]

theorem collidingCalls_keep_invariant :
    ∃ b, (runCalls (SlotFunctions.ofSipHash (fun _ _ => ⟨List.replicate 8 0, rfl⟩) []) (collidingCalls.take 2)).run {} =
      .ok () b ∧ RepInvariant b := by
  refine runs_keep_invariant _ collidingCalls ?_ (by decide +kernel) 2
  intro call hcall
  rcases List.mem_pair.mp hcall with rfl | rfl
  · exact ⟨by decide, by decide⟩
  · exact ⟨by decide, by decide⟩

end Znode.Net.AddressBook
