import Mathlib
import Znode.AddressBook.Effects

/-!
# What advertised services do to a book

* `stale_keeps_references_iff` : an advertisement older than the entry it is about. `update_entry` returns early when
  the entry is the older one, so that it is the old advertisements that can add a reference and clear a slot;
* `relayed`, `insertOrUpdateAll_relays` : what is left of the vector of an `addr` message, to be sent on.
-/

namespace Znode.Net.AddressBook
open Znode.Lib Znode.Core Act

variable {b b' : AddressBook}

/-! ## Old advertisements -/

/-- The same entries with the same references, in the same buckets. -/
structure SameReferences (b b' : AddressBook) : Prop where
  entries : ∀ id, (b'.entry id).map (fun e => (e.endpoint, e.info.newRefs)) =
    (b.entry id).map fun e => (e.endpoint, e.info.newRefs)
  newBuckets : b'.newBuckets = b.newBuckets
  triedBuckets : b'.triedBuckets = b.triedBuckets

/-- Refreshing the information of an entry does not move it. -/
theorem SameReferences.of_touches {id : Nat} {e : AddressBookEntry} (he : b.entry id = some e)
    {f : NodeServiceInfo → NodeServiceInfo} (hf : Touches f) : SameReferences b (mapInfo id f b) := by
  refine ⟨fun k => ?_, mapInfo_newBuckets .., mapInfo_triedBuckets ..⟩
  by_cases hk : k = id
  · rw [hk, entry_mapInfo_self he, he, Option.map_some, Option.map_some, hf.newRefs]
  · rw [entry_mapInfo_of_ne hk]

/-- The first reason to leave the buckets alone never applies to an old advertisement: the time of the entry is kept,
or replaced by one that is later still. -/
theorem stale_leaves_iff {service : NodeService} {info : NodeServiceInfo} (hstale : service.time < info.service.time)
    (timePenalty clock : Int) (draw : Nat) :
    leavesBuckets service draw (refreshed service timePenalty clock info) ↔ info.triedRef.isSome ∨
      info.newRefs.card = kMaxNewBucketReferences ∨ randomize 0 (2 ^ info.newRefs.card - 1) draw ≠ 0 := by
  have hlater : ¬ (refreshed service timePenalty clock info).service.time < service.time := by
    simp only [refreshed]
    split_ifs <;> omega
  have hf := touches_refreshed service timePenalty clock
  simp only [leavesBuckets, decide_eq_true_eq, hlater, false_or, hf.triedRef, hf.newRefs]

section
variable (slots : SlotFunctions)

/-- **Old advertisements leave the references alone** exactly when the entry is tried or has all its references, when
the draw says so, or when the entry has the reference already. -/
theorem stale_keeps_references_iff (h : Valid b) (hlast : b.lastUsedId < 2 ^ 32) {id : Nat} {e : AddressBookEntry}
    (he : b.entry id = some e) {service : NodeService} (hend : service.endpoint = e.endpoint)
    (hstale : service.time < e.info.service.time) (source : IPAddress) (timePenalty : Int) (choice : Choice) :
    (updateEntry slots id service source timePenalty choice).Ensures b (fun _ b' => SameReferences b b') ↔
      e.info.triedRef.isSome ∨ e.info.newRefs.card = kMaxNewBucketReferences ∨
        randomize 0 (2 ^ e.info.newRefs.card - 1) choice.draw ≠ 0 ∨
        source.isRoutable ∧ (slots.newSlot service.endpoint source).xy ∈ e.info.newRefs := by
  have hok := h.coherent.filed.entries id _ (content_of_entry he)
  rw [hend, show e.endpoint = e.info.service.endpoint from hok.endpoint.symm]
  have hleaves := stale_leaves_iff hstale timePenalty choice.clock choice.draw
  constructor
  · rintro ⟨_, b', hrun, hsame⟩
    by_contra hnot
    simp only [not_or, not_and] at hnot
    obtain ⟨htried, hcard, hdraw, hslot⟩ := hnot
    have hmoves := mt hleaves.mp (by simp only [not_or]; exact ⟨htried, hcard, hdraw⟩)
    by_cases hsource : source.isRoutable
    · obtain ⟨-, -, -, -, -, hget⟩ := (updateEntry_moves slots h.coherent hlast.le h.housed he hmoves hsource
        (hslot hsource)).of_run hrun
      -- the slot is the entry's now, and was not
      rw [hsame.newBuckets, h.coherent.filed.new.inverse, newRefsOf_entry he] at hget
      exact hslot hsource hget
    · rw [updateEntry_aborts slots h.coherent h.housed he hmoves hsource] at hrun
      cases hrun
  · intro hwhen
    refine ⟨(), _, updateEntry_stays slots h.coherent h.housed he ?_, .of_touches he (touches_refreshed ..)⟩
    rw [hleaves]
    tauto

/-- The slots of a hash that tells the sources apart by their networks: it is the third byte of what is hashed. -/
def networkSlots : SlotFunctions :=
  SlotFunctions.ofSipHash (fun _ data => ⟨leBytes 8 (data.getD 2 0).toNat, length_leBytes 8 _⟩) []

/-- Two peers, each advertised from another network. -/
def gossipCalls : List Call :=
  [.insertOrUpdate { time := 1700000000, services := 1, endpoint := { address := .ofV4 1 2 3 4, port := 9033 } }
      (.ofV4 8 8 8 8) 0 ⟨1700000000, 0⟩,
    .insertOrUpdate { time := 1700000000, services := 1, endpoint := { address := .ofV4 1 2 3 5, port := 9033 } }
      (.ofV4 9 9 9 9) 0 ⟨1700000000, 0⟩]

def gossipBook : AddressBook := bookAfter networkSlots gossipCalls

theorem gossipBook_valid : Valid gossipBook := by
  refine valid_bookAfter networkSlots ?_ (by decide +kernel)
  intro call hcall
  rcases List.mem_pair.mp hcall with rfl | rfl
  · exact ⟨by decide, (by decide : (IPAddress.ofV4 1 2 3 4).isRoutable)⟩
  · exact ⟨by decide, (by decide : (IPAddress.ofV4 1 2 3 5).isRoutable)⟩

/-- The first peer, as it was seen three years before. -/
def staleService : NodeService :=
  { time := 1600000000, services := 1, endpoint := { address := .ofV4 1 2 3 4, port := 9033 } }

/-- Drawn one, the old advertisement changes nothing. -/
theorem stale_keeps_references_iff_gossip : ∃ e, gossipBook.entry 1 = some e ∧
    (updateEntry networkSlots 1 staleService (.ofV4 9 9 9 9) 0 ⟨1700000000, 1⟩).Ensures gossipBook fun _ b' =>
      SameReferences gossipBook b' := by
  have hentry : (gossipBook.entry 1).any fun e => staleService.endpoint = e.endpoint ∧
      staleService.time < e.info.service.time ∧ e.info.newRefs.card = 1 := by decide +kernel
  cases he : gossipBook.entry 1 with
  | none => simp [he] at hentry
  | some e =>
      rw [he, Option.any_some, decide_eq_true_eq] at hentry
      obtain ⟨hend, hstale, hcard⟩ := hentry
      refine ⟨e, rfl, (stale_keeps_references_iff networkSlots gossipBook_valid (by decide +kernel) he hend hstale _ _
        _).mpr (Or.inr (Or.inr (Or.inl ?_)))⟩
      rw [hcard]
      decide

/-- Drawn zero, it takes the slot of the second peer, which is gone. -/
theorem stale_gossip_evicts : Valid gossipBook ∧
    (gossipBook.info 1).any (fun info => info.service.endpoint = staleService.endpoint ∧
        staleService.time < info.service.time ∧ info.newRefs.card = 1) ∧ (gossipBook.entry 2).isSome ∧
      ((updateEntry networkSlots 1 staleService (.ofV4 9 9 9 9) 0 ⟨1700000000, 0⟩).run gossipBook).isOk ∧
      (((updateEntry networkSlots 1 staleService (.ofV4 9 9 9 9) 0 ⟨1700000000, 0⟩).run gossipBook).state.info 1).map
        (·.newRefs.card) = some 2 ∧
      ((updateEntry networkSlots 1 staleService (.ofV4 9 9 9 9) 0 ⟨1700000000, 0⟩).run gossipBook).state.entry 2 =
        none :=
  ⟨gossipBook_valid, by decide +kernel⟩

/-! ## Relaying -/

section
variable (source : IPAddress) (timePenalty now : Int)

/-- The book at the moment the loop comes to the element at `i`. -/
def bookBefore (services : List NodeService) (seen : List IPEndpoint) (choices : Nat → Choice) (b : AddressBook)
    (i : Nat) : AddressBook :=
  ((insertOrUpdateLoop slots source timePenalty now (services.take i) seen choices).run b).state

/-- An element with its index is relayed: it has the network bit, it is the first one with the bit for its endpoint,
and its endpoint is not in the book when it is processed. `seen` are the endpoints met before. -/
def relays (services : List NodeService) (seen : List IPEndpoint) (choices : Nat → Choice) (b : AddressBook)
    (x : NodeService × Nat) : Bool :=
  hasNetworkBit x.1 ∧ x.1.endpoint ∉ seen ++ ((services.take x.2).filter hasNetworkBit).map (·.endpoint) ∧
    (bookBefore slots source timePenalty now services seen choices b x.2).lookupEndpoint x.1.endpoint = none

def relayed (services : List NodeService) (seen : List IPEndpoint) (choices : Nat → Choice) (b : AddressBook) :
    List NodeService :=
  (services.zipIdx.filter (relays slots source timePenalty now services seen choices b)).map fun x => adjustTime now x.1

/-- What `insert_or_update` leaves in the vector, and what it returns. -/
structure LeftToRelay (services : List NodeService) (choices : Nat → Choice) (b : AddressBook)
    (r : List NodeService × Bool) : Prop where
  exactly : r.1 = relayed slots source timePenalty now services [] choices b
  returned : r.2 = true ↔ r.1 ≠ []
  times : kTimeInit + 5 * 86400 ≤ now → ∀ service ∈ r.1, kTimeInit ≤ service.time ∧ service.time ≤ now + 600
  /-- A time that is in range is not adjusted. -/
  unchanged : ∀ service ∈ services, kTimeInit ≤ service.time → service.time ≤ now + 600 →
    adjustTime now service = service

variable {source timePenalty now} {service : NodeService} {services : List NodeService} {seen : List IPEndpoint}
  {choices : Nat → Choice}

/-- The first element, and the others with their indices one less. -/
theorem relayed_cons {seen' : List IPEndpoint} {choices' : Nat → Choice} {b₁ : AddressBook}
    (hlater : ∀ x, relays slots source timePenalty now (service :: services) seen choices b (x.1, x.2 + 1) =
      relays slots source timePenalty now services seen' choices' b₁ x) :
    relayed slots source timePenalty now (service :: services) seen choices b =
      (if relays slots source timePenalty now (service :: services) seen choices b (service, 0) then
        [adjustTime now service] else []) ++ relayed slots source timePenalty now services seen' choices' b₁ := by
  unfold relayed
  rw [List.zipIdx_cons, List.zipIdx_succ, List.filter_cons, List.filter_map]
  split_ifs <;> simp [Function.comp_def, hlater]

theorem relays_skip (hbit : ¬ hasNetworkBit service) (x : NodeService × Nat) :
    relays slots source timePenalty now (service :: services) seen choices b (x.1, x.2 + 1) =
      relays slots source timePenalty now services seen (fun n => choices (n + 1)) b x := by
  simp only [relays, bookBefore, List.take_succ_cons, List.filter_cons, hbit]
  simp [insertOrUpdateLoop, hbit]

theorem relays_seen (hbit : hasNetworkBit service) (hseen : service.endpoint ∈ seen) (x : NodeService × Nat) :
    relays slots source timePenalty now (service :: services) seen choices b (x.1, x.2 + 1) =
      relays slots source timePenalty now services seen (fun n => choices (n + 1)) b x := by
  have hmet : ∀ rest, x.1.endpoint ∈ seen ++ service.endpoint :: rest ↔ x.1.endpoint ∈ seen ++ rest := by
    intro rest
    simp only [List.mem_append, List.mem_cons]
    constructor
    · rintro (hold | hsame | hrest)
      · exact Or.inl hold
      · exact Or.inl (hsame ▸ hseen)
      · exact Or.inr hrest
    · rintro (hold | hrest)
      · exact Or.inl hold
      · exact Or.inr (Or.inr hrest)
  simp only [relays, bookBefore, List.take_succ_cons, List.filter_cons, hbit, if_true, List.map_cons, hmet]
  simp [insertOrUpdateLoop, hbit, hseen]

/-- After one that is processed, the others find the book it left. -/
theorem relays_process (hbit : hasNetworkBit service) (hseen : service.endpoint ∉ seen) {inserted : Bool}
    {b₁ : AddressBook}
    (hrun : (insertOrUpdateImpl slots (adjustTime now service) source timePenalty (choices 0)).run b =
      .ok inserted b₁) (x : NodeService × Nat) :
    relays slots source timePenalty now (service :: services) seen choices b (x.1, x.2 + 1) =
      relays slots source timePenalty now services (service.endpoint :: seen) (fun n => choices (n + 1)) b₁ x := by
  have hmet : ∀ rest, x.1.endpoint ∈ seen ++ service.endpoint :: rest ↔
      x.1.endpoint ∈ service.endpoint :: seen ++ rest := fun rest => List.perm_middle.mem_iff
  have hbook : bookBefore slots source timePenalty now (service :: services) seen choices b (x.2 + 1) =
      bookBefore slots source timePenalty now services (service.endpoint :: seen)
        (fun n => choices (n + 1)) b₁ x.2 := by
    unfold bookBefore
    rw [List.take_succ_cons, insertOrUpdateLoop, if_neg (by simpa using hbit), if_neg hseen]
    dsimp only
    rw [adjustTime_endpoint, run_bind, hrun]
    exact state_bind_pure ..
  simp only [relays, hbook, List.take_succ_cons, List.filter_cons, hbit, if_true, List.map_cons, hmet]

/-- The result of `insert_or_update_impl` says whether the endpoint was new. -/
theorem insertOrUpdateImpl_inserted {choice : Choice} {inserted : Bool}
    (hrun : (insertOrUpdateImpl slots service source timePenalty choice).run b = .ok inserted b') :
    inserted = (b.lookupEndpoint service.endpoint).isNone := by
  unfold insertOrUpdateImpl at hrun
  obtain ⟨_, _, hget, hrun⟩ := run_bind_ok hrun
  cases hget
  cases hlookup : b.lookupEndpoint service.endpoint with
  | some id =>
      rw [hlookup] at hrun
      obtain ⟨_, _, -, hpure⟩ := run_bind_ok hrun
      cases hpure
      rfl
  | none =>
      rw [hlookup] at hrun
      obtain ⟨taken, _, -, hrun⟩ := run_bind_ok hrun
      cases taken <;> cases hrun <;> rfl

/-- The loop keeps what is relayed, if it comes to its end. -/
theorem insertOrUpdateLoop_kept {kept : List NodeService}
    (hrun : (insertOrUpdateLoop slots source timePenalty now services seen choices).run b = .ok kept b') :
    kept = relayed slots source timePenalty now services seen choices b := by
  induction services generalizing seen choices b kept b' with
  | nil =>
      cases hrun
      rfl
  | cons service services ih =>
      unfold insertOrUpdateLoop at hrun
      dsimp only at hrun
      split_ifs at hrun with hbit hseen
      · have hbit' : ¬ hasNetworkBit service := by simpa using hbit
        rw [relayed_cons slots (relays_skip slots hbit'), ← ih hrun, if_neg (by simp [relays, hbit']), List.nil_append]
      · have hbit' : hasNetworkBit service := by simpa using hbit
        rw [relayed_cons slots (relays_seen slots hbit' hseen), ← ih hrun, if_neg (by simp [relays, hseen]),
          List.nil_append]
      · have hbit' : hasNetworkBit service := by simpa using hbit
        obtain ⟨inserted, b₁, himpl, hrun⟩ := run_bind_ok hrun
        obtain ⟨rest, b₂, hrest, hpure⟩ := run_bind_ok hrun
        rw [adjustTime_endpoint] at hrest
        have hinserted := insertOrUpdateImpl_inserted slots himpl
        rw [adjustTime_endpoint] at hinserted
        have hfirst : relays slots source timePenalty now (service :: services) seen choices b (service, 0) =
            inserted := by
          rw [hinserted]
          cases hlookup : b.lookupEndpoint service.endpoint <;>
            simp [relays, bookBefore, insertOrUpdateLoop, hbit', hseen, Outcome.state, hlookup]
        rw [relayed_cons slots (relays_process slots hbit' hseen himpl), ← ih hrest, hfirst]
        cases hpure
        cases inserted <;> rfl

theorem adjustTime_in_range (hnow : kTimeInit + 5 * 86400 ≤ now) (service : NodeService) :
    kTimeInit ≤ (adjustTime now service).time ∧ (adjustTime now service).time ≤ now + 600 := by
  unfold adjustTime
  split_ifs with hmartian
  · constructor
    · change kTimeInit ≤ now - 5 * 86400
      omega
    · change now - 5 * 86400 ≤ now + 600
      omega
  · rw [not_or, not_lt, not_lt] at hmartian
    exact hmartian

theorem adjustTime_of_range (hlo : kTimeInit ≤ service.time) (hhi : service.time ≤ now + 600) :
    adjustTime now service = service := if_neg (by omega)

/-- **What is left to relay after an `addr` message**, as long as the ids last. -/
theorem insertOrUpdateAll_relays (h : Valid b) (hsource : source.isRoutable)
    (hservices : ∀ service ∈ services, service.endpoint.address.isRoutable)
    (hfew : ((insertOrUpdateAll slots services source timePenalty now choices).run b).state.lastUsedId < 2 ^ 32) :
    (insertOrUpdateAll slots services source timePenalty now choices).Ensures b fun r _ =>
      LeftToRelay slots source timePenalty now services choices b r := by
  have hfew' := (Grows.le_bind (fun _ => Grows.pure _) b).trans_lt hfew
  obtain ⟨kept, b', hrun, -, hlast⟩ := insertOrUpdateLoop_ensures slots h hsource
    (fun service hservice _ => hservices service hservice) hfew'
  have hkept := insertOrUpdateLoop_kept slots hrun
  refine Ensures.step hrun (Ensures.pure ⟨hkept, ?_, ?_, fun _ _ => adjustTime_of_range⟩)
  · rw [hrun] at hfew'
    have hcount : kept.length < 2 ^ 32 := (Nat.le_add_left _ _).trans_lt (hlast ▸ hfew')
    change decide (0 < kept.length % 2 ^ 32) = true ↔ kept ≠ []
    rw [decide_eq_true_eq, Nat.mod_eq_of_lt hcount, List.length_pos_iff]
  · intro hnow service hmem
    rw [hkept] at hmem
    obtain ⟨x, -, rfl⟩ := List.mem_map.mp hmem
    exact adjustTime_in_range hnow x.1

end

end

/-- Peers that want the same slot: one of them without the bit, with a date that is out of range, and once more after
another one has evicted it. -/
def gossipServices : List NodeService :=
  [{ time := 0, services := 0, endpoint := { address := .ofV4 1 2 3 4, port := 9033 } },
    { time := 0, services := 1, endpoint := { address := .ofV4 1 2 3 4, port := 9033 } },
    { time := 1700000000, services := 1, endpoint := { address := .ofV4 1 2 3 5, port := 9033 } },
    { time := 1700000000, services := 1, endpoint := { address := .ofV4 1 2 3 4, port := 9033 } },
    { time := 1700000000, services := 1, endpoint := { address := .ofV4 1 2 3 6, port := 9033 } }]

theorem insertOrUpdateAll_relays_gossip :
    (relayed collidingSlots (.ofV4 8 8 8 8) 0 1700000000 gossipServices [] (fun _ => ⟨1700000000, 0⟩) {}).map (·.time) =
        [1699568000, 1700000000, 1700000000] ∧
      (insertOrUpdateAll collidingSlots gossipServices (.ofV4 8 8 8 8) 0 1700000000 fun _ => ⟨1700000000, 0⟩).Ensures {}
        fun r _ => LeftToRelay collidingSlots (.ofV4 8 8 8 8) 0 1700000000 gossipServices
          (fun _ => ⟨1700000000, 0⟩) {} r :=
  ⟨by decide +kernel, insertOrUpdateAll_relays collidingSlots valid_empty (by decide) (by decide) (by decide +kernel)⟩

/-- A book that has one id left. -/
def spentBook : AddressBook := { lastUsedId := 2 ^ 32 - 1 }

theorem spentBook_valid : Valid spentBook := ⟨coherent_empty.setLastUsedId (by decide), housed_empty⟩

/-- The second service that is inserted gets the id zero, and clearing its slot for the third one aborts. -/
theorem ids_used_up : Valid spentBook ∧ spentBook.lastUsedId < 2 ^ 32 ∧ (IPAddress.ofV4 8 8 8 8).isRoutable ∧
    (∀ service ∈ gossipServices, service.endpoint.address.isRoutable) ∧
    ¬ ((insertOrUpdateAll collidingSlots gossipServices (.ofV4 8 8 8 8) 0 1700000000 fun _ => ⟨1700000000, 0⟩).run
      spentBook).isOk :=
  ⟨spentBook_valid, by decide, by decide, by decide, by decide +kernel⟩

end Znode.Net.AddressBook
