import Mathlib
import Znode.AddressBook.Runs

/-!
# What is drawn from an address book

`get_random_services` shuffles the order of the ids as it walks along it, and `select_random` tries random slots of
one kind of buckets. Every draw is an argument, so the results hold for all of them.

* `RandomSample`, `getRandomServices_random_sample` : distinct services of entries that are offered, as many as are
  wanted or all there are, and a book of which only the order has changed;
* `DialOut`, `selectRandom_dials_out` : an endpoint of the requested kind, and when it may be a recent one.
-/

namespace Znode.Net.AddressBook
open Znode.Lib Znode.Core Act

variable {b b' : AddressBook}

/-! ## Random services -/

/-- The order has as many ids as the index has entries. -/
theorem Ordered.length_eq_size (h : Ordered b) : b.randomlyOrderedIds.length = b.size := by
  have hperm : b.randomlyOrderedIds.Perm b.listIndex.keys := by
    refine (List.perm_ext_iff_of_nodup (Indexes.nodup h) b.listIndex.keys_nodup).mpr fun id => ?_
    rw [h.mem_iff, ← AList.mem_keys, ← AList.lookup_isSome, Option.isSome_iff_exists]
    rfl
  rw [hperm.length_eq]
  exact List.length_map _

/-- At most `maxCount` services and `maxPercentage` percent of them; zero stands for no limit. -/
def sampleBound (size maxCount maxPercentage : Nat) : Nat :=
  min (if maxCount ≠ 0 then maxCount else size)
    (min (if maxPercentage ≠ 0 then size * maxPercentage / 100 else size) size)

/-- The limit of the loop, or the whole book. -/
theorem sampleBound_eq (size maxCount maxPercentage : Nat) :
    sampleBound size maxCount maxPercentage = min (servicesCount size maxCount maxPercentage) size := by
  unfold sampleBound servicesCount
  simp only [gt_iff_lt, Nat.pos_iff_ne_zero]
  split_ifs <;> omega

structure RandomSample (b : AddressBook) (bound : Nat) (type : Option IPAddressType) (now : Int)
    (services : List NodeService) (b' : AddressBook) : Prop where
  distinct : (services.map (·.endpoint)).Nodup
  taken : ∀ service ∈ services, ∃ id e, b.entry id = some e ∧ e.info.service = service ∧ offers type now e
  length_le : services.length ≤ bound
  /-- If there are fewer than wanted, nothing is left out. -/
  exhaustive : services.length < bound → ∀ id e, b.entry id = some e → offers type now e → e.info.service ∈ services
  reordered : Reordered b b'
  permuted : b'.randomlyOrderedIds.Perm b.randomlyOrderedIds
  positions : ∀ id e, b'.entry id = some e → b'.randomlyOrderedIds[e.info.randomPos]? = some id

theorem offered_eq_some_iff {type : Option IPAddressType} {now : Int} {id : Nat} {service : NodeService} :
    b.offered type now id = some service ↔ ∃ e, b.entry id = some e ∧ e.info.service = service ∧ offers type now e := by
  cases he : b.entry id with
  | none => simp [offered, content, he]
  | some e =>
      rw [offered_entry he]
      split_ifs with hoffers <;> simp [hoffers]

theorem Filed.offered_inj (h : Filed b) {type : Option IPAddressType} {now : Int} {id id' : Nat}
    {service service' : NodeService} (hid : b.offered type now id = some service)
    (hid' : b.offered type now id' = some service') (hend : service.endpoint = service'.endpoint) : id = id' := by
  obtain ⟨e, he, rfl, -⟩ := offered_eq_some_iff.mp hid
  obtain ⟨e', he', rfl, -⟩ := offered_eq_some_iff.mp hid'
  have hc := content_of_entry he
  have hc' := content_of_entry he'
  refine h.unique id id' _ _ hc hc' ?_
  rw [← (h.entries id _ hc).endpoint, ← (h.entries id' _ hc').endpoint]
  exact hend

theorem Filed.offered_distinct (h : Filed b) (type : Option IPAddressType) (now : Int) {ids : List Nat}
    (hids : ids.Nodup) : ((ids.filterMap (b.offered type now)).map (·.endpoint)).Nodup := by
  rw [List.map_filterMap]
  refine hids.filterMap fun id id' endpoint hid hid' => ?_
  obtain ⟨service, hservice, rfl⟩ := Option.map_eq_some_iff.mp hid
  obtain ⟨service', hservice', hend⟩ := Option.map_eq_some_iff.mp hid'
  exact h.offered_inj hservice hservice' hend.symm

/-- **Random sampling of the book**, whatever is drawn. -/
theorem getRandomServices_random_sample (h : Valid b) (hlast : b.lastUsedId < 2 ^ 32) (maxCount maxPercentage : Nat)
    (type : Option IPAddressType) (now : Int) (draws : Nat → Nat) :
    (getRandomServices maxCount maxPercentage type now draws).Ensures b fun services b' =>
      RandomSample b (sampleBound b.size maxCount maxPercentage) type now services b' := by
  refine (getRandomServices_samples h hlast.le maxCount maxPercentage type now draws).mono fun services b' hpost => ?_
  obtain ⟨visited, rest, hids, hservices, hstop⟩ := hpost.visits
  rw [List.take_zero, List.nil_append] at hids
  rw [List.nil_append] at hservices
  have hperm := hpost.reordered.perm h.coherent.ordered hpost.ordered
  have hlength := h.coherent.ordered.length_eq_size
  rw [sampleBound_eq, ← hlength]
  refine ⟨?_, ?_, ?_, ?_, hpost.reordered, hperm, ?_⟩
  · have hnodup := Indexes.nodup hpost.ordered
    rw [hids, List.nodup_append] at hnodup
    rw [hservices]
    exact h.coherent.filed.offered_distinct type now hnodup.1
  · intro service hmem
    rw [hservices, List.mem_filterMap] at hmem
    obtain ⟨id, -, hid⟩ := hmem
    exact ⟨id, offered_eq_some_iff.mp hid⟩
  · refine le_min (by simpa using hpost.length_le) ?_
    calc services.length ≤ visited.length := by rw [hservices]; exact List.length_filterMap_le _ _
      _ ≤ b'.randomlyOrderedIds.length := by rw [hids, List.length_append]; exact Nat.le_add_right _ _
      _ = b.randomlyOrderedIds.length := hperm.length_eq
  · intro hfew id e he hoffers
    have hrest : rest = [] := hstop.resolve_left (by omega)
    rw [hrest, List.append_nil] at hids
    have hid := hperm.mem_iff.mpr ((h.coherent.ordered.mem_iff id).mpr ⟨e, he⟩)
    rw [hids] at hid
    rw [hservices, List.mem_filterMap]
    exact ⟨id, hid, offered_eq_some_iff.mpr ⟨e, he, rfl, hoffers⟩⟩
  · intro id e he
    exact (hpost.ordered id _).mp (by simp [position, info_of_entry he])

def portSlots : SlotFunctions where
  newSlot endpoint _ := ⟨endpoint.port.toNat % kNewBucketsCount, 0⟩
  triedSlot endpoint := ⟨endpoint.port.toNat % kTriedBucketsCount, 0⟩
  newSlot_lt _ _ := ⟨Nat.mod_lt _ (by decide), Nat.zero_lt_succ _⟩
  triedSlot_lt _ := ⟨Nat.mod_lt _ (by decide), Nat.zero_lt_succ _⟩

def fourCalls : List Call :=
  [9033, 9034, 9035, 9036].map fun port => .insertOrUpdate
    { time := 1700000000, services := 1, endpoint := { address := .ofV4 1 2 3 4, port := port } }
    (.ofV4 8 8 8 8) 0 ⟨1700000000, 0⟩

def fourBook : AddressBook := bookAfter portSlots fourCalls

theorem fourBook_valid : Valid fourBook := by
  refine valid_bookAfter portSlots ?_ (by decide +kernel)
  intro call hcall
  obtain ⟨port, -, rfl⟩ := List.mem_map.mp hcall
  exact ⟨by decide, (by decide : (IPAddress.ofV4 1 2 3 4).isRoutable)⟩

/-- Half of the four, in an order that is drawn. -/
theorem getRandomServices_random_sample_fourBook :
    sampleBound fourBook.size 3 50 = 2 ∧
      (getRandomServices 3 50 (some .kIPv4) 1700000000 fun n => n + 2).Ensures fourBook fun services b' =>
        RandomSample fourBook (sampleBound fourBook.size 3 50) (some .kIPv4) 1700000000 services b' :=
  ⟨by decide +kernel, getRandomServices_random_sample fourBook_valid (by decide +kernel) 3 50 _ _ _⟩

/-! ## Dial-out -/

def entriesOfKind (b : AddressBook) (tried : Bool) : Nat :=
  b.randomlyOrderedIds.countP fun id => (b.info id).any fun info =>
    if tried then info.triedRef.isSome else info.newRefs ≠ ∅

theorem Valid.entriesOfKind_eq (h : Valid b) (tried : Bool) : b.entriesOfKind tried = b.entriesSizeOf tried := by
  have hnodup := Indexes.nodup h.coherent.ordered
  have hmem : ∀ id, id ∈ b.randomlyOrderedIds ↔ (b.entry id).isSome := fun id => by
    rw [h.coherent.ordered.mem_iff, Option.isSome_iff_exists]
  cases tried with
  | true => exact (h.coherent.filed.tried.counted.unique (counted_tried hnodup hmem)).symm
  | false => exact (h.coherent.filed.new.counted.unique (counted_new hnodup hmem)).symm

/-- What `select_random` may do: only the recent endpoints change. An endpoint that is returned belongs to an entry
of the requested type, in a new bucket if only new ones are wanted. If it was among the recent ones, there are no more
entries of the chosen kind than recent endpoints. -/
structure DialOut (b : AddressBook) (newOnly : Bool) (type : Option IPAddressType) (draw : Nat)
    (selected : Option IPEndpoint) (b' : AddressBook) : Prop where
  unchanged : ∃ recent, b' = { b with recentlySelected := recent }
  listed : ∀ endpoint, selected = some endpoint → ∃ id e, b.entry id = some e ∧ e.endpoint = endpoint ∧
    (∀ t, type = some t → endpoint.address.getType = t) ∧
    (newOnly → ∃ xy ∈ e.info.newRefs, b.newBuckets.get xy = some id)
  repeated : ∀ endpoint, selected = some endpoint → endpoint ∈ b.recentlySelected →
    b.entriesOfKind (b.selectFromTried newOnly draw) ≤ b.recentlySelected.length ∧
      b'.recentlySelected.length = b.recentlySelected.length

/-- **Dial-out selection** returns, whatever is drawn and whatever was selected before. -/
theorem selectRandom_dials_out (h : Valid b) (newOnly : Bool) (type : Option IPAddressType) (draw : Nat)
    (picks : Nat → Pick) :
    (selectRandom newOnly type draw picks).Ensures b fun r b' => DialOut b newOnly type draw r.1 b' := by
  refine (selectRandom_ensures h newOnly type draw picks).mono fun r b' hpost =>
    ⟨hpost.unchanged, ?_, ?_⟩
  · intro endpoint hr
    have hpicked := hpost.picked endpoint hr
    obtain ⟨xy, id, e, hget, he, hend⟩ := hpicked.held
    have hok := h.coherent.filed.entries id _ (content_of_entry he)
    refine ⟨id, e, he, ?_, hpicked.requested, fun hnew => ?_⟩
    · rw [← hend]
      exact hok.endpoint.symm
    · have hkind : b.selectFromTried newOnly draw = false := by simp [selectFromTried, hnew]
      rw [hkind] at hget
      refine ⟨xy, ?_, hget⟩
      rw [← newRefsOf_entry he]
      exact (h.coherent.filed.new.inverse xy id).mp hget
  · intro endpoint hr hmem
    obtain ⟨hperm, hle⟩ := (hpost.picked endpoint hr).repeated hmem
    rw [h.entriesOfKind_eq]
    exact ⟨hle, hperm.length_eq⟩

/-- The one that is drawn first was selected before, so the next one is returned. -/
theorem selectRandom_dials_out_fourBook :
    (selectRandom true (some .kIPv4) 0 fun n => ⟨n, true⟩).Ensures
      { fourBook with recentlySelected := [{ address := .ofV4 1 2 3 4, port := 9036 }] } fun r b' =>
        r.1 = some { address := .ofV4 1 2 3 4, port := 9035 } ∧
          DialOut { fourBook with recentlySelected := [{ address := .ofV4 1 2 3 4, port := 9036 }] } true
            (some .kIPv4) 0 r.1 b' := by
  have hreturned : (Act.run (do
      let r ← selectRandom true (some .kIPv4) 0 fun n => ⟨n, true⟩
      Act.require .assert (r.1 = some { address := .ofV4 1 2 3 4, port := 9035 }))
      { fourBook with recentlySelected := [{ address := .ofV4 1 2 3 4, port := 9036 }] }).isOk := by
    decide +kernel
  obtain ⟨r, b', hrun, hdial⟩ := selectRandom_dials_out
    (fourBook_valid.setRecent [{ address := .ofV4 1 2 3 4, port := 9036 }]) true (some .kIPv4) 0 fun n => ⟨n, true⟩
  refine ⟨r, b', hrun, ?_, hdial⟩
  by_contra hne
  simp [hrun, hne, Outcome.isOk] at hreturned

end Znode.Net.AddressBook
