import Mathlib
import Znode.Lib.BigEndian
import Znode.Lib.OrderedMap
import Znode.AddressBook.Info
import Znode.AddressBook.Runs

/-!
# The address book on disk

`save` writes the entries, the order they are listed in and the two families of buckets into three tables, and the
secret key into the configuration. `load` reads them back: the references of the entries into the buckets are not
written with the entries, but come back with the buckets, under assertions.

* `Database` : the tables, as ordered maps from byte strings to byte strings;
* `save`, `load` : of a book with its key (`KeyedBook`);
* `Loading b b' new tried` : `load` has read the entries of the book `b`, and the buckets at the slots `new` and
  `tried`;
* `load_save` : what was saved is loaded.

The exceptions of the database, which are caught, are left out.
-/

namespace Znode.Net.AddressBook
open Znode.Lib Znode.Core Act

-- the bytes of an entry count here, not its members
attribute [local irreducible] NodeServiceInfo.serialization

/-- The configuration value "seed", and the tables `kServices`, `kRandomOrder` and `kBuckets`. -/
structure Database where
  seed : Option Bytes := none
  services : OrderedMap Bytes Bytes := ∅
  randomOrder : OrderedMap Bytes Bytes := ∅
  buckets : OrderedMap Bytes Bytes := ∅

structure KeyedBook where
  key : Bytes
  book : AddressBook := {}

def storeBigU32 (v : Nat) : Bytes := beBytes 4 v

def loadBigU32 (bytes : Bytes) : Nat := beVal (bytes.take 4)

/-- The characters 'N' and 'T', which begin the keys of the buckets. -/
def kNewBucket : UInt8 := 0x4e
def kTriedBucket : UInt8 := 0x54

/-! ## Saving -/

/-- The loop over `list_index_`; it ends at the first entry that cannot be serialized. -/
def saveServices : List (Nat × AddressBookEntry) → OrderedMap Bytes Bytes → OrderedMap Bytes Bytes
  | [], table => table
  | (id, e) :: entries, table =>
    match (NodeServiceInfo.serialization .kSerialize).run (e.info, { scope := .kStorage }) with
    | .ok _ (_, stream) => saveServices entries (table.upsert (storeBigU32 id) stream.buffer)
    | .error _ _ => table

def orderRecords (ids : List Nat) : List (Bytes × Bytes) :=
  ids.mapIdx fun ordinal id => (storeBigU32 ordinal, storeBigU32 id)

def bucketRecords (kind : UInt8) (buckets : List (Nat × Nat)) : List (Bytes × Bytes) :=
  buckets.map fun x => (kind :: storeBigU32 x.1, storeBigU32 x.2)

def save (k : KeyedBook) (db : Database) : Database :=
  if k.book.size = 0 then db
  else
    { seed := some k.key
      services := saveServices k.book.listIndex.ascending ∅
      randomOrder := OrderedMap.upsertAll ∅ (orderRecords k.book.randomlyOrderedIds)
      buckets := (OrderedMap.upsertAll ∅ (bucketRecords kNewBucket k.book.newBuckets.ascending)).upsertAll
        (bucketRecords kTriedBucket k.book.triedBuckets.ascending) }

/-! ## Loading -/

/-- An entry, if it can be deserialized. -/
def loadInfo (value : Bytes) : Option NodeServiceInfo :=
  let stream := match (write value).run { scope := .kStorage } with
    | .ok _ stream => stream
    | .error _ stream => stream
  match (NodeServiceInfo.serialization .kDeserialize).run (.blank, stream) with
  | .ok _ (info, _) => some info
  | .error _ _ => none

/-- The loop over the services; it returns the last id. -/
def loadServices : List (Bytes × Bytes) → Nat → Book Nat
  | [], entryId => return entryId
  | (key, value) :: records, _ => do
    let entryId := loadBigU32 key
    if let some info := loadInfo value then
      let _ ← insertIndex entryId { endpoint := info.service.endpoint, info := info }
    loadServices records entryId

def loadBucket (key value : Bytes) : Book Unit := do
  let slotAddress := loadBigU32 (key.drop 1)
  let entryId := loadBigU32 value
  let info ← requireInfo entryId
  if key.head? = some kNewBucket then
    emplaceNewRef entryId slotAddress
    if (← requireInfo entryId).newRefs.card = 1 then
      modify fun b => { b with newEntriesSize := increment b.newEntriesSize }
  else if key.head? = some kTriedBucket then
    Act.require .assert info.triedRef.isNone
    modify (mapInfo entryId fun info => { info with triedRef := some slotAddress })
    Act.require .assert ((← get).triedBuckets.get slotAddress).isNone
    modify fun b => { b with
      triedBuckets := b.triedBuckets.insert slotAddress entryId
      triedEntriesSize := increment b.triedEntriesSize }
  else Act.raise .assert

def loadBuckets : List (Bytes × Bytes) → Book Unit
  | [] => return
  | (key, value) :: records => do
    loadBucket key value
    loadBuckets records

def loadBook (db : Database) : Book Unit := do
  let entryId ← loadServices db.services.entries 1
  modify fun b => { b with lastUsedId := increment entryId }
  modify fun b => { b with
    randomlyOrderedIds := b.randomlyOrderedIds ++ db.randomOrder.entries.map fun x => loadBigU32 x.2 }
  loadBuckets db.buckets.entries

/-- A seed of another length than a key is ignored. -/
def load (db : Database) : Act Empty Fault KeyedBook Unit := do
  modify fun k => { k with key := (db.seed.filter fun seed => seed.length = 16).getD k.key }
  Act.focus (·.book) (fun b k => { k with book := b }) (loadBook db)

/-! ## The tables -/

theorem loadBigU32_storeBigU32 {v : Nat} (h : v < 2 ^ 32) : loadBigU32 (storeBigU32 v) = v := by
  rw [loadBigU32, storeBigU32, List.take_of_length_le (length_beBytes 4 v).le, beVal_beBytes (by omega)]

theorem storeBigU32_lt {v w : Nat} (h : v < w) (hw : w < 2 ^ 32) : storeBigU32 v < storeBigU32 w :=
  beBytes_lt h (by omega)

def serviceRecord (x : Nat × AddressBookEntry) : Bytes × Bytes := (storeBigU32 x.1, x.2.info.encode)

theorem saveServices_eq {entries : List (Nat × AddressBookEntry)}
    (h : ∀ x ∈ entries, x.2.info.Storable ∧ x.2.info.encode.length ≤ kMaxStreamSize) (table : OrderedMap Bytes Bytes) :
    saveServices entries table = table.upsertAll (entries.map serviceRecord) := by
  induction entries generalizing table with
  | nil => rfl
  | cons x entries ih =>
      obtain ⟨⟨hx, hfits⟩, hentries⟩ := List.forall_mem_cons.mp h
      have hwrite := NodeServiceInfo.writes hx { scope := .kStorage } (by simpa using hfits)
      rw [saveServices, hwrite]
      exact ih hentries _

theorem pairwise_records {α : Type} {f : Nat × α → Bytes × Bytes} {l : List (Nat × α)}
    (h : l.Pairwise fun x y => x.1 < y.1) (hf : ∀ x ∈ l, ∀ y ∈ l, x.1 < y.1 → (f x).1 < (f y).1) :
    (l.map f).Pairwise fun x y => x.1 < y.1 :=
  List.pairwise_map.mpr (h.imp_of_mem fun hx hy hlt => hf _ hx _ hy hlt)

theorem pairwise_orderRecords {ids : List Nat} (h : ids.length < 2 ^ 32) :
    (orderRecords ids).Pairwise fun x y => x.1 < y.1 := by
  rw [List.pairwise_iff_getElem]
  intro i j hi hj hij
  simp only [orderRecords, List.length_mapIdx] at hi hj
  simp only [orderRecords, List.getElem_mapIdx]
  exact storeBigU32_lt hij (hj.trans h)

theorem pairwise_bucketRecords {new tried : List (Nat × Nat)} (hnew : new.Pairwise fun x y => x.1 < y.1)
    (htried : tried.Pairwise fun x y => x.1 < y.1) (hnew' : ∀ x ∈ new, x.1 < 2 ^ 32)
    (htried' : ∀ x ∈ tried, x.1 < 2 ^ 32) :
    (bucketRecords kNewBucket new ++ bucketRecords kTriedBucket tried).Pairwise fun x y => x.1 < y.1 := by
  refine List.pairwise_append.mpr ⟨pairwise_records hnew ?_, pairwise_records htried ?_, ?_⟩
  · intro x _ y hy hlt
    exact List.cons_lt_cons_iff.mpr (Or.inr ⟨rfl, storeBigU32_lt hlt (hnew' y hy)⟩)
  · intro x _ y hy hlt
    exact List.cons_lt_cons_iff.mpr (Or.inr ⟨rfl, storeBigU32_lt hlt (htried' y hy)⟩)
  · intro x hx y hy
    obtain ⟨_, -, rfl⟩ := List.mem_map.mp hx
    obtain ⟨_, -, rfl⟩ := List.mem_map.mp hy
    exact List.cons_lt_cons_iff.mpr (Or.inl (by decide))

/-! ## The entries -/

/-- An entry with its references into the slots `new` and `tried` only. -/
def AddressBookEntry.within (new tried : Finset Nat) (e : AddressBookEntry) : AddressBookEntry :=
  { e with info := { e.info with
    newRefs := e.info.newRefs ∩ new
    triedRef := e.info.triedRef.filter fun s => s ∈ tried } }

theorem loadInfo_eq {w : Bytes} (hfits : w.length ≤ kMaxStreamSize) : loadInfo w =
    match (NodeServiceInfo.serialization .kDeserialize).run (.blank, { buffer := w, scope := .kStorage }) with
    | .ok _ (info, _) => some info
    | .error _ _ => none := by
  have hwrite : (write w).run { scope := .kStorage } = .ok () { buffer := w, scope := .kStorage } :=
    write_run_of_le (by simpa using hfits)
  simp only [loadInfo, hwrite]

/-- A user agent that can be read back. -/
def AgentFits (i : NodeServiceInfo) : Prop := i.userAgent.length ≤ kMaxSerializedCompactSize

theorem AgentFits.length_encode_le {i : NodeServiceInfo} (h : AgentFits i) : i.encode.length ≤ kMaxStreamSize :=
  NodeServiceInfo.length_encode_le (Nat.le_trans h (Nat.le_mul_of_pos_left _ Nat.two_pos))

theorem loadInfo_encode {i : NodeServiceInfo} (h : i.Storable) (hagent : AgentFits i) :
    loadInfo i.encode = some i.unreferenced := by
  have hread := NodeServiceInfo.reads h hagent { buffer := i.encode, scope := .kStorage }
      ⟨Nat.zero_le _, List.prefix_rfl⟩
  rw [loadInfo_eq hagent.length_encode_le, hread]

theorem within_empty (e : AddressBookEntry) : e.within ∅ ∅ = { e with info := e.info.unreferenced } := by
  simp [AddressBookEntry.within, NodeServiceInfo.unreferenced]

variable {b b' : AddressBook}

theorem insertIndex_run {id : Nat} {e : AddressBookEntry} (hid : b.entry id = none)
    (hendpoint : b.lookupEndpoint e.endpoint = none) :
    (insertIndex id e).run b = .ok true { b with listIndex := b.listIndex.insert id e } := by
  simp [insertIndex, hid, hendpoint]

theorem loadServices_ensures {entries : List (Nat × AddressBookEntry)} (last : Nat) {b : AddressBook}
    (hids : entries.Pairwise fun x y => x.1 < y.1)
    (hendpoints : entries.Pairwise fun x y => x.2.endpoint ≠ y.2.endpoint)
    (hok : ∀ x ∈ entries, x.1 < 2 ^ 32 ∧ (x.2.info.Storable ∧ AgentFits x.2.info) ∧
      x.2.info.service.endpoint = x.2.endpoint)
    (hnew : ∀ x ∈ entries, b.entry x.1 = none ∧ b.lookupEndpoint x.2.endpoint = none) :
    Ensures (loadServices (entries.map serviceRecord) last) b fun entryId b' =>
      entryId = ((entries.map Prod.fst).getLast?).getD last ∧ (∃ index, b' = { b with listIndex := index }) ∧
        (∀ x ∈ entries, b'.entry x.1 = some (x.2.within ∅ ∅)) ∧
        ∀ id, (∀ x ∈ entries, x.1 ≠ id) → b'.entry id = b.entry id := by
  induction entries generalizing last b with
  | nil => exact Ensures.pure ⟨rfl, ⟨_, rfl⟩, fun x hx => absurd hx List.not_mem_nil, fun _ _ => rfl⟩
  | cons x entries ih =>
      obtain ⟨id, e⟩ := x
      obtain ⟨hidx, hids⟩ := List.pairwise_cons.mp hids
      obtain ⟨hendx, hendpoints⟩ := List.pairwise_cons.mp hendpoints
      obtain ⟨⟨hlt, ⟨hstorable, hagent⟩, hend⟩, hok⟩ := List.forall_mem_cons.mp hok
      obtain ⟨⟨hnone, hlookup⟩, hnew⟩ := List.forall_mem_cons.mp hnew
      have hentry :
          AddressBookEntry.mk e.info.unreferenced.service.endpoint e.info.unreferenced = e.within ∅ ∅ := by
        rw [within_empty]
        exact congrArg (AddressBookEntry.mk · _) hend
      have hinsert := insertIndex_run (e := e.within ∅ ∅) hnone hlookup
      have hviews : ({ b with listIndex := b.listIndex.insert id (e.within ∅ ∅) } : AddressBook).entry =
          Function.update b.entry id (some (e.within ∅ ∅)) := entry_insert rfl
      simp only [List.map_cons, loadServices, serviceRecord, loadInfo_encode hstorable hagent,
        loadBigU32_storeBigU32 hlt, hentry]
      refine Ensures.step hinsert ((ih id hids hendpoints hok ?_).mono ?_)
      · intro y hy
        obtain ⟨hnoney, hlookupy⟩ := hnew y hy
        refine ⟨?_, lookupEndpoint_eq_none_iff.mpr fun k c hc => ?_⟩
        · rw [hviews, Function.update_of_ne (hidx y hy).ne']
          exact hnoney
        · rw [content_eq_update hviews] at hc
          by_cases hk : k = id
          · rw [hk, Function.update_self] at hc
            cases hc
            exact hendx y hy
          · rw [Function.update_of_ne hk] at hc
            exact lookupEndpoint_eq_none_iff.mp hlookupy k c hc
      · rintro entryId b' ⟨hlast, ⟨index, hb'⟩, hloaded, hother⟩
        refine ⟨?_, ⟨index, hb'⟩, List.forall_mem_cons.mpr ⟨?_, hloaded⟩, fun k hk => ?_⟩
        · rw [hlast, List.getLast?_cons]
          rfl
        · rw [hother id fun y hy => (hidx y hy).ne', hviews, Function.update_self]
        · obtain ⟨hne, hk⟩ := List.forall_mem_cons.mp hk
          rw [hother k hk, hviews, Function.update_of_ne (Ne.symm hne)]

/-! ## The buckets -/

/-- The entries of `b` are loaded, with their references into the slots `new` and `tried`. -/
structure Loading (b b' : AddressBook) (new tried : Finset Nat) : Prop where
  entry : ∀ id, b'.entry id = (b.entry id).map (AddressBookEntry.within new tried)
  order : b'.randomlyOrderedIds = b.randomlyOrderedIds
  placedNew : Placed b'.newBuckets b'.newEntriesSize (newRefsOf b'.content)
  placedTried : Placed b'.triedBuckets b'.triedEntriesSize (triedRefsOf b'.content)

theorem RepInvariant.counted_lt (h : RepInvariant b) {n : Nat} {refs : Nat → Finset Nat} (hn : Counted n refs)
    (hrefs : ∀ id, refs id ≠ ∅ → (b.entry id).isSome) : n < 2 ^ 32 := by
  have hle := hn.le_card (s := Finset.Ioo 0 (2 ^ 32)) fun id hid => by
    obtain ⟨e, he⟩ := Option.isSome_iff_exists.mp (hrefs id hid)
    obtain ⟨hpos, hlt⟩ := h.ids id e he
    exact Finset.mem_Ioo.mpr ⟨Nat.pos_of_ne_zero hpos, hlt.trans (Nat.mod_lt _ (by decide))⟩
  rw [Nat.card_Ioo] at hle
  omega

section
variable {new tried : Finset Nat} {s id : Nat} {e : AddressBookEntry}

theorem Loading.entry_of (h : Loading b b' new tried) (he : b.entry id = some e) :
    b'.entry id = some (e.within new tried) := by
  rw [h.entry, he]
  rfl

theorem Loading.mem_new (h : Loading b b' new tried) (hs : s ∈ newRefsOf b'.content id) : s ∈ new := by
  obtain ⟨e', he', hmem⟩ := mem_newRefsOf_iff.mp hs
  rw [h.entry] at he'
  obtain ⟨e, -, rfl⟩ := Option.map_eq_some_iff.mp he'
  exact Finset.mem_of_mem_inter_right hmem

theorem Loading.mem_tried (h : Loading b b' new tried) (hs : s ∈ triedRefsOf b'.content id) : s ∈ tried := by
  obtain ⟨e', he', hmem⟩ := mem_triedRefsOf_iff.mp hs
  rw [h.entry] at he'
  obtain ⟨e, -, rfl⟩ := Option.map_eq_some_iff.mp he'
  simpa using (Option.filter_eq_some_iff.mp hmem).2

/-- The other entries have no reference into the slot that is read. -/
theorem within_insert_new (hrep : RepInvariant b) (hget : b.newBuckets.get s = some id) {k : Nat} (hk : k ≠ id)
    {e : AddressBookEntry} (he : b.entry k = some e) : e.within (insert s new) tried = e.within new tried := by
  have hnot : s ∉ e.info.newRefs := by
    intro hmem
    have hother := (hrep.newBuckets s k).mpr ⟨e, he, hmem⟩
    exact hk (Option.some.inj (hother.symm.trans hget))
  simp only [AddressBookEntry.within, Finset.inter_insert_of_notMem hnot]

theorem within_insert_tried (hrep : RepInvariant b) (hget : b.triedBuckets.get s = some id) {k : Nat} (hk : k ≠ id)
    {e : AddressBookEntry} (he : b.entry k = some e) : e.within new (insert s tried) = e.within new tried := by
  have hnot : e.info.triedRef ≠ some s := by
    intro hmem
    have hother := (hrep.triedBuckets s k).mpr ⟨e, he, hmem⟩
    exact hk (Option.some.inj (hother.symm.trans hget))
  have hfilter : (e.info.triedRef.filter fun t => t ∈ insert s tried) = e.info.triedRef.filter fun t => t ∈ tried := by
    cases ht : e.info.triedRef with
    | none => rfl
    | some t =>
        have hne : t ≠ s := fun h => hnot (h ▸ ht)
        simp [Option.filter, hne]
  simp only [AddressBookEntry.within, hfilter]

/-- A slot is read: the entry that has it gets the reference. -/
theorem Loading.update {b₁ : AddressBook} {new' tried' : Finset Nat} (h : Loading b b' new tried)
    (he : b.entry id = some e) (hentry : b₁.entry = Function.update b'.entry id (some (e.within new' tried')))
    (hother : ∀ k e', k ≠ id → b.entry k = some e' → e'.within new' tried' = e'.within new tried)
    (horder : b₁.randomlyOrderedIds = b'.randomlyOrderedIds)
    (hnew : Placed b₁.newBuckets b₁.newEntriesSize
      (Function.update (newRefsOf b'.content) id (e.within new' tried').info.newRefs))
    (htried : Placed b₁.triedBuckets b₁.triedEntriesSize
      (Function.update (triedRefsOf b'.content) id (e.within new' tried').info.triedRef.toFinset)) :
    Loading b b₁ new' tried' := by
  have hcontent := content_eq_update hentry
  refine ⟨fun k => ?_, horder.trans h.order, ?_, ?_⟩
  · rw [hentry]
    by_cases hk : k = id
    · rw [hk, Function.update_self, he]
      rfl
    · rw [Function.update_of_ne hk, h.entry]
      exact Option.map_congr fun e' he' => (hother k e' hk he').symm
  · rw [hcontent, newRefsOf_update]
    exact hnew
  · rw [hcontent, triedRefsOf_update]
    exact htried

/-- A counter of entries is a `uint32_t`. -/
theorem Loading.counted_lt (hrep : RepInvariant b) (h : Loading b b' new tried) (he : b.entry id = some e) {n : Nat}
    {refs : Nat → Finset Nat} {r : Finset Nat} (hrefs : ∀ k s, s ∈ refs k → ∃ e', b'.entry k = some e')
    (hn : Counted n (Function.update refs id r)) : n < 2 ^ 32 := by
  refine hrep.counted_lt hn fun k hk => ?_
  by_cases hkid : k = id
  · rw [hkid, he]
    rfl
  · rw [Function.update_of_ne hkid] at hk
    obtain ⟨s, hs⟩ := Finset.nonempty_iff_ne_empty.mpr hk
    obtain ⟨e', he'⟩ := hrefs k s hs
    rw [h.entry] at he'
    obtain ⟨e, he, -⟩ := Option.map_eq_some_iff.mp he'
    rw [he]
    rfl

theorem Loading.loadNew (hrep : RepInvariant b) (h : Loading b b' new tried) (hs : s < 2 ^ 32) (hid : id < 2 ^ 32)
    (hget : b.newBuckets.get s = some id) (hfresh : s ∉ new) :
    Ensures (loadBucket (kNewBucket :: storeBigU32 s) (storeBigU32 id)) b' fun _ b₁ =>
      Loading b b₁ (insert s new) tried ∧ b₁.lastUsedId = b'.lastUsedId := by
  obtain ⟨e, he, hmem⟩ := (hrep.newBuckets s id).mp hget
  have he' := h.entry_of he
  have hnot : s ∉ e.info.newRefs ∩ new := fun hin => hfresh (Finset.mem_of_mem_inter_right hin)
  have hrefs : newRefsOf b'.content id = e.info.newRefs ∩ new := newRefsOf_entry he'
  have hgrown : (e.within (insert s new) tried).info.newRefs = insert s (e.info.newRefs ∩ new) :=
    Finset.inter_insert_of_mem hmem
  have hempty := h.placedNew.inverse.get_eq_none fun k hk => hfresh (h.mem_new hk)
  have hplaced := h.placedNew.insert hempty id
  rw [hrefs, ← hgrown] at hplaced
  set b₁ : AddressBook := { mapInfo id (fun info => { info with newRefs := insert s info.newRefs }) b' with
    newBuckets := b'.newBuckets.insert s id }
  have hrun : (emplaceNewRef id s).run b' = .ok () b₁ := emplaceNewRef_run he' hnot hempty
  have hsize : b₁.newEntriesSize = b'.newEntriesSize := mapInfo_newEntriesSize ..
  have hlast : b₁.lastUsedId = b'.lastUsedId := mapInfo_lastUsedId ..
  have hentry : b₁.entry = Function.update b'.entry id (some (e.within (insert s new) tried)) := by
    rw [show b₁.entry = _ from entry_mapInfo he' _]
    simp only [AddressBookEntry.within, Finset.inter_insert_of_mem hmem]
  have hself : b₁.entry id = some (e.within (insert s new) tried) := by rw [hentry, Function.update_self]
  have hloading : ∀ n, n = (if e.info.newRefs ∩ new = ∅ then b'.newEntriesSize + 1 else b'.newEntriesSize) →
      Loading b { b₁ with newEntriesSize := n } (insert s new) tried := by
    rintro n rfl
    refine h.update he hentry (fun k e' hk hk' => within_insert_new hrep hget hk hk') (mapInfo_randomlyOrderedIds ..)
      hplaced ?_
    change Placed (mapInfo _ _ b').triedBuckets (mapInfo _ _ b').triedEntriesSize _
    rw [mapInfo_triedBuckets, mapInfo_triedEntriesSize]
    have hkept := triedRefsOf_entry he'
    exact h.placedTried.update_self hkept
  unfold loadBucket
  simp only [List.drop_succ_cons, List.drop_zero, loadBigU32_storeBigU32 hs, loadBigU32_storeBigU32 hid,
    List.head?_cons]
  refine Ensures.step (requireInfo_run he') ?_
  rw [if_pos trivial]
  refine Ensures.step hrun (Ensures.step (requireInfo_run hself) ?_)
  rw [hgrown, Finset.card_insert_of_notMem hnot]
  by_cases hfirst : e.info.newRefs ∩ new = ∅
  · -- the first reference of the entry
    rw [if_pos (by rw [hfirst, Finset.card_empty])]
    rw [if_pos hfirst] at hplaced
    have hlt := h.counted_lt hrep he (fun k s hs => (mem_newRefsOf_iff.mp hs).imp fun _ he => he.1) hplaced.counted
    refine ⟨(), _, rfl, hloading _ ?_, hlast⟩
    rw [if_pos hfirst, hsize, increment_of_lt hlt]
  · rw [if_neg (by rwa [Nat.add_eq_right, Finset.card_eq_zero])]
    refine Ensures.pure ⟨hloading b₁.newEntriesSize ?_, hlast⟩
    rw [if_neg hfirst, hsize]

theorem Loading.loadTried (hrep : RepInvariant b) (h : Loading b b' new tried) (hs : s < 2 ^ 32) (hid : id < 2 ^ 32)
    (hget : b.triedBuckets.get s = some id) (hfresh : s ∉ tried) :
    Ensures (loadBucket (kTriedBucket :: storeBigU32 s) (storeBigU32 id)) b' fun _ b₁ =>
      Loading b b₁ new (insert s tried) ∧ b₁.lastUsedId = b'.lastUsedId := by
  obtain ⟨e, he, hmem⟩ := (hrep.triedBuckets s id).mp hget
  have he' := h.entry_of he
  have hnone : (e.within new tried).info.triedRef = none := by simp [AddressBookEntry.within, hmem, hfresh]
  have hsome : (e.within new (insert s tried)).info.triedRef = some s := by simp [AddressBookEntry.within, hmem]
  have hempty := h.placedTried.inverse.get_eq_none fun k hk => hfresh (h.mem_tried hk)
  have hrefs : triedRefsOf b'.content id = ∅ := by
    rw [triedRefsOf_entry he', hnone]
    rfl
  have hplaced := h.placedTried.insert hempty id
  rw [if_pos hrefs, hrefs] at hplaced
  have hlt := h.counted_lt hrep he (fun k s hs => (mem_triedRefsOf_iff.mp hs).imp fun _ he => he.1) hplaced.counted
  set b₁ : AddressBook := mapInfo id (fun info => { info with triedRef := some s }) b'
  have hentry : b₁.entry = Function.update b'.entry id (some (e.within new (insert s tried))) := by
    have hfilter : (e.info.triedRef.filter fun t => t ∈ insert s tried) = some s := hsome
    rw [show b₁.entry = _ from entry_mapInfo he' _]
    simp only [AddressBookEntry.within, hfilter]
  have hbuckets : b₁.triedBuckets = b'.triedBuckets := mapInfo_triedBuckets ..
  have hsize : b₁.triedEntriesSize = b'.triedEntriesSize := mapInfo_triedEntriesSize ..
  unfold loadBucket
  simp only [List.drop_succ_cons, List.drop_zero, loadBigU32_storeBigU32 hs, loadBigU32_storeBigU32 hid,
    List.head?_cons]
  refine Ensures.step (requireInfo_run he') ?_
  rw [if_neg (by decide), if_pos trivial]
  refine Ensures.require (by rw [hnone]; rfl) (Ensures.step (run_modify _ _) (Ensures.step (run_get _) ?_))
  refine Ensures.require (by rw [show (mapInfo id _ b').triedBuckets = _ from hbuckets, hempty]; rfl) ?_
  refine ⟨(), _, rfl, ?_, mapInfo_lastUsedId ..⟩
  refine h.update he hentry (fun k e' hk hk' => within_insert_tried hrep hget hk hk') (mapInfo_randomlyOrderedIds ..)
    ?_ ?_
  · change Placed b₁.newBuckets b₁.newEntriesSize _
    rw [show b₁.newBuckets = _ from mapInfo_newBuckets .., show b₁.newEntriesSize = _ from mapInfo_newEntriesSize ..]
    have hkept := newRefsOf_entry he'
    exact h.placedNew.update_self hkept
  · change Placed (b₁.triedBuckets.insert s id) (increment b₁.triedEntriesSize) _
    rw [hbuckets, hsize, increment_of_lt hlt, hsome]
    exact hplaced

/-- The records of one family of buckets, before others. -/
theorem loadBuckets_ensures {kind : UInt8} (inv : Finset Nat → AddressBook → Prop) {l : List (Nat × Nat)}
    (slots : Finset Nat) {records : List (Bytes × Bytes)} {Q : Unit → AddressBook → Prop} {b' : AddressBook}
    (hl : l.Pairwise fun x y => x.1 < y.1) (hfresh : ∀ x ∈ l, x.1 ∉ slots)
    (hstep : ∀ slots b', ∀ x ∈ l, x.1 ∉ slots → inv slots b' →
      Ensures (loadBucket (kind :: storeBigU32 x.1) (storeBigU32 x.2)) b' fun _ b₁ => inv (insert x.1 slots) b₁)
    (h : inv slots b')
    (hrest : ∀ b₁, inv (slots ∪ (l.map Prod.fst).toFinset) b₁ → Ensures (loadBuckets records) b₁ Q) :
    Ensures (loadBuckets (bucketRecords kind l ++ records)) b' Q := by
  induction l generalizing slots b' with
  | nil => exact hrest b' (by simpa using h)
  | cons x l ih =>
      obtain ⟨hx, hl⟩ := List.pairwise_cons.mp hl
      obtain ⟨hfreshx, hfresh⟩ := List.forall_mem_cons.mp hfresh
      refine (hstep slots b' x List.mem_cons_self hfreshx h).bind fun _ b₁ h₁ => ?_
      refine ih _ hl ?_ (fun slots b' y hy => hstep slots b' y (List.mem_cons_of_mem x hy)) h₁ fun b₂ h₂ => hrest b₂ ?_
      · intro y hy
        rw [Finset.mem_insert, not_or]
        exact ⟨(hx y hy).ne', hfresh y hy⟩
      · rwa [List.map_cons, List.toFinset_cons, Finset.union_insert, ← Finset.insert_union]

end

/-! ## What was saved is loaded -/

/-- The two books have the same entries, order, buckets and counters. -/
structure SameBook (b b' : AddressBook) : Prop where
  entries : b'.entry = b.entry
  order : b'.randomlyOrderedIds = b.randomlyOrderedIds
  newBuckets : b'.newBuckets.get = b.newBuckets.get
  triedBuckets : b'.triedBuckets.get = b.triedBuckets.get
  newEntriesSize : b'.newEntriesSize = b.newEntriesSize
  triedEntriesSize : b'.triedEntriesSize = b.triedEntriesSize

/-- The index has the entries under their endpoints, the entries can be written, and the slots are numbers of the
type `uint32_t`. -/
structure Savable (b : AddressBook) : Prop where
  endpoint : ∀ id e, b.entry id = some e → e.info.service.endpoint = e.endpoint
  storable : ∀ id e, b.entry id = some e → e.info.Storable
  newSlot : ∀ s id, b.newBuckets.get s = some id → s < 2 ^ 32
  triedSlot : ∀ s id, b.triedBuckets.get s = some id → s < 2 ^ 32

theorem RepInvariant.id_lt (h : RepInvariant b) {id : Nat} {e : AddressBookEntry} (he : b.entry id = some e) :
    id + 1 < 2 ^ 32 := by
  have hlt := (h.ids id e he).2
  have hmod := Nat.mod_lt b.lastUsedId (show 0 < 2 ^ 32 by decide)
  omega

theorem RepInvariant.eq_of_endpoint (h : RepInvariant b) {id id' : Nat} {e e' : AddressBookEntry}
    (he : b.entry id = some e) (he' : b.entry id' = some e') (heq : e.endpoint = e'.endpoint) : id = id' := by
  have hid := (h.index e.endpoint id).mpr ⟨e, he, rfl⟩
  have hid' := (h.index e.endpoint id').mpr ⟨e', he', heq.symm⟩
  exact Option.some.inj (hid.symm.trans hid')

/-- The invariant says nothing of `last_used_id_` but that it is above the ids. -/
theorem SameBook.repInvariant (hsame : SameBook b b') (h : RepInvariant b)
    (hlast : ∀ id e, b'.entry id = some e → id < b'.lastUsedId % 2 ^ 32) : RepInvariant b' := by
  have hinfo : b'.info = b.info := by
    funext id
    rw [info, info, hsame.entries]
  refine ⟨?_, ?_, ?_, ?_, ?_, ?_, ?_, ?_, ?_, ?_⟩
  · intro endpoint id
    refine lookupEndpoint_eq_some_iff fun id id' e e' he he' => ?_
    rw [hsame.entries] at he he'
    exact h.eq_of_endpoint he he'
  · intro id e he
    exact ⟨(h.ids id e (hsame.entries ▸ he)).1, hlast id e he⟩
  · rw [hsame.order]
    exact h.order_nodup
  · rw [hsame.order, hsame.entries]
    exact h.order_mem
  · rw [hsame.order, hsame.entries]
    exact h.position
  · rw [hsame.newBuckets, hsame.entries]
    exact h.newBuckets
  · rw [hsame.triedBuckets, hsame.entries]
    exact h.triedBuckets
  · rw [hsame.entries]
    exact h.placed
  · rw [hsame.newEntriesSize, hsame.order, hinfo]
    exact h.newEntriesSize
  · rw [hsame.triedEntriesSize, hsame.order, hinfo]
    exact h.triedEntriesSize

theorem loadOrder {ids : List Nat} (h : ∀ id ∈ ids, id < 2 ^ 32) :
    ((orderRecords ids).map fun x => loadBigU32 x.2) = ids := by
  refine List.ext_getElem (by simp [orderRecords]) fun i hi hi' => ?_
  simp only [orderRecords, List.getElem_map, List.getElem_mapIdx]
  exact loadBigU32_storeBigU32 (h _ (List.getElem_mem _))

theorem RepInvariant.placedNew (h : RepInvariant b) :
    Placed b.newBuckets b.newEntriesSize (newRefsOf b.content) where
  inverse s id := (h.newBuckets s id).trans mem_newRefsOf_iff.symm
  counted := by
    rw [h.newEntriesSize]
    exact counted_new h.order_nodup h.order_mem

theorem RepInvariant.placedTried (h : RepInvariant b) :
    Placed b.triedBuckets b.triedEntriesSize (triedRefsOf b.content) where
  inverse s id := (h.triedBuckets s id).trans mem_triedRefsOf_iff.symm
  counted := by
    rw [h.triedEntriesSize]
    exact counted_tried h.order_nodup h.order_mem

def slotsOf (t : Table Nat) : Finset Nat := (t.ascending.map Prod.fst).toFinset

theorem mem_slotsOf {t : Table Nat} {s id : Nat} (h : t.get s = some id) : s ∈ slotsOf t :=
  List.mem_toFinset.mpr (List.mem_map.mpr ⟨(s, id), Table.mem_ascending.mpr h, rfl⟩)

theorem within_slotsOf (hrep : RepInvariant b) {id : Nat} {e : AddressBookEntry} (he : b.entry id = some e) :
    e.within (slotsOf b.newBuckets) (slotsOf b.triedBuckets) = e := by
  have hnew : e.info.newRefs ∩ slotsOf b.newBuckets = e.info.newRefs :=
    Finset.inter_eq_left.mpr fun s hs => mem_slotsOf ((hrep.newBuckets s id).mpr ⟨e, he, hs⟩)
  have htried : (e.info.triedRef.filter fun s => s ∈ slotsOf b.triedBuckets) = e.info.triedRef := by
    cases hs : e.info.triedRef with
    | none => rfl
    | some s =>
        have hmem := mem_slotsOf ((hrep.triedBuckets s id).mpr ⟨e, he, hs⟩)
        simp [Option.filter, hmem]
  simp only [AddressBookEntry.within, hnew, htried]

theorem Loading.sameBook (hrep : RepInvariant b) (h : Loading b b' (slotsOf b.newBuckets) (slotsOf b.triedBuckets)) :
    SameBook b b' := by
  have hentries : b'.entry = b.entry := by
    funext id
    rw [h.entry]
    cases he : b.entry id with
    | none => rfl
    | some e => exact congrArg some (within_slotsOf hrep he)
  have hcontent : b'.content = b.content := by
    funext id
    rw [content, content, hentries]
  have hnew := h.placedNew
  have htried := h.placedTried
  rw [hcontent] at hnew htried
  exact ⟨hentries, h.order, hnew.inverse.get_unique hrep.placedNew.inverse,
    htried.inverse.get_unique hrep.placedTried.inverse, hnew.counted.unique hrep.placedNew.counted,
    htried.counted.unique hrep.placedTried.counted⟩

theorem RepInvariant.length_order_lt (h : RepInvariant b) : b.randomlyOrderedIds.length < 2 ^ 32 := by
  have hle : b.randomlyOrderedIds.toFinset.card ≤ (Finset.range (2 ^ 32 - 1)).card := by
    refine Finset.card_le_card fun id hid => ?_
    obtain ⟨e, he⟩ := Option.isSome_iff_exists.mp ((h.order_mem id).mp (List.mem_toFinset.mp hid))
    have hlt := h.id_lt he
    exact Finset.mem_range.mpr (by omega)
  rw [List.toFinset_card_of_nodup h.order_nodup, Finset.card_range] at hle
  omega

section
variable (key : Bytes) (db : Database)

/-! The three tables after `save`. -/

theorem save_services (hrep : RepInvariant b) (hne : b.size ≠ 0)
    (hok : ∀ id e, b.entry id = some e → e.info.Storable ∧ e.info.encode.length ≤ kMaxStreamSize) :
    (save ⟨key, b⟩ db).services.entries = b.listIndex.ascending.map serviceRecord := by
  rw [save, if_neg hne]
  change (saveServices b.listIndex.ascending ∅).entries = _
  rw [saveServices_eq fun x hx => hok x.1 x.2 (Table.mem_ascending.mp hx)]
  refine OrderedMap.entries_upsertAll ∅ (pairwise_records b.listIndex.pairwise_ascending fun x _ y hy hlt => ?_)
  have hid := hrep.id_lt (Table.mem_ascending.mp hy)
  exact storeBigU32_lt hlt (by omega)

theorem save_randomOrder (hrep : RepInvariant b) (hne : b.size ≠ 0) :
    (save ⟨key, b⟩ db).randomOrder.entries = orderRecords b.randomlyOrderedIds := by
  rw [save, if_neg hne]
  exact OrderedMap.entries_upsertAll ∅ (pairwise_orderRecords hrep.length_order_lt)

theorem save_buckets (hsave : Savable b) (hne : b.size ≠ 0) : (save ⟨key, b⟩ db).buckets.entries =
    bucketRecords kNewBucket b.newBuckets.ascending ++ bucketRecords kTriedBucket b.triedBuckets.ascending := by
  have hsorted := pairwise_bucketRecords b.newBuckets.pairwise_ascending b.triedBuckets.pairwise_ascending
    (fun x hx => hsave.newSlot x.1 x.2 (Table.mem_ascending.mp hx))
    (fun x hx => hsave.triedSlot x.1 x.2 (Table.mem_ascending.mp hx))
  rw [save, if_neg hne]
  change (OrderedMap.upsertAll (OrderedMap.upsertAll ∅ _) _).entries = _
  rw [← OrderedMap.upsertAll_append]
  exact OrderedMap.entries_upsertAll ∅ hsorted

end

theorem Loading.start (hentry : ∀ id, b'.entry id = (b.entry id).map (AddressBookEntry.within ∅ ∅))
    (horder : b'.randomlyOrderedIds = b.randomlyOrderedIds) (hnew : b'.newBuckets = ∅) (htried : b'.triedBuckets = ∅)
    (hnewSize : b'.newEntriesSize = 0) (htriedSize : b'.triedEntriesSize = 0) : Loading b b' ∅ ∅ := by
  have hbare : ∀ id e', b'.entry id = some e' → e'.info.newRefs = ∅ ∧ e'.info.triedRef = none := by
    intro id e' he'
    rw [hentry] at he'
    obtain ⟨e, -, rfl⟩ := Option.map_eq_some_iff.mp he'
    rw [within_empty]
    exact ⟨rfl, rfl⟩
  have hnewRefs : newRefsOf b'.content = fun _ => ∅ := by
    funext id
    refine Finset.eq_empty_of_forall_notMem fun s hs => ?_
    obtain ⟨e', he', hmem⟩ := mem_newRefsOf_iff.mp hs
    rw [(hbare id e' he').1] at hmem
    exact Finset.notMem_empty s hmem
  have htriedRefs : triedRefsOf b'.content = fun _ => ∅ := by
    funext id
    refine Finset.eq_empty_of_forall_notMem fun s hs => ?_
    obtain ⟨e', he', href⟩ := mem_triedRefsOf_iff.mp hs
    rw [(hbare id e' he').2] at href
    cases href
  refine ⟨hentry, horder, ?_, ?_⟩
  · rw [hnew, hnewSize, hnewRefs]
    exact Placed.empty
  · rw [htried, htriedSize, htriedRefs]
    exact Placed.empty

theorem Loading.loadAll (hrep : RepInvariant b) (hsave : Savable b) (h : Loading b b' ∅ ∅) :
    Ensures (loadBuckets (bucketRecords kNewBucket b.newBuckets.ascending ++
      bucketRecords kTriedBucket b.triedBuckets.ascending)) b' fun _ b₁ =>
        SameBook b b₁ ∧ b₁.lastUsedId = b'.lastUsedId := by
  have hid : ∀ {id e}, b.entry id = some e → id < 2 ^ 32 := fun he => (Nat.lt_succ_self _).trans (hrep.id_lt he)
  refine loadBuckets_ensures (fun slots b₁ => Loading b b₁ slots ∅ ∧ b₁.lastUsedId = b'.lastUsedId) ∅
    b.newBuckets.pairwise_ascending (fun _ _ => Finset.notMem_empty _) ?_ ⟨h, rfl⟩ fun b₁ h₁ => ?_
  · rintro slots b₁ ⟨s, id⟩ hx hfresh ⟨h₁, hlast⟩
    have hget := Table.mem_ascending.mp hx
    obtain ⟨e, he, -⟩ := (hrep.newBuckets s id).mp hget
    refine (h₁.loadNew hrep (hsave.newSlot s id hget) (hid he) hget hfresh).mono ?_
    rintro _ b₂ ⟨h₂, hlast'⟩
    exact ⟨h₂, hlast'.trans hlast⟩
  rw [Finset.empty_union] at h₁
  rw [← List.append_nil (bucketRecords kTriedBucket _)]
  refine loadBuckets_ensures
    (fun slots b₂ => Loading b b₂ (slotsOf b.newBuckets) slots ∧ b₂.lastUsedId = b'.lastUsedId) ∅
    b.triedBuckets.pairwise_ascending (fun _ _ => Finset.notMem_empty _) ?_ h₁ fun b₂ h₂ => ?_
  · rintro slots b₂ ⟨s, id⟩ hx hfresh ⟨h₂, hlast⟩
    have hget := Table.mem_ascending.mp hx
    obtain ⟨e, he, -⟩ := (hrep.triedBuckets s id).mp hget
    refine (h₂.loadTried hrep (hsave.triedSlot s id hget) (hid he) hget hfresh).mono ?_
    rintro _ b₃ ⟨h₃, hlast'⟩
    exact ⟨h₃, hlast'.trans hlast⟩
  rw [Finset.empty_union] at h₂
  exact Ensures.pure ⟨h₂.1.sameBook hrep, h₂.2⟩

theorem exists_last {l : List Nat} (h : l.Pairwise (· < ·)) (hne : l ≠ []) :
    ∃ last ∈ l, l.getLast? = some last ∧ ∀ id ∈ l, id ≤ last := by
  refine ⟨l.getLast hne, List.getLast_mem hne, List.getLast?_eq_some_getLast hne, fun id hid => ?_⟩
  rw [← List.dropLast_append_getLast hne, List.pairwise_append] at h
  rw [← List.dropLast_append_getLast hne, List.mem_append, List.mem_singleton] at hid
  rcases hid with hid | rfl
  · exact (h.2.2 id hid _ (List.mem_singleton_self _)).le
  · exact Nat.le_refl _

/-- A book that is not empty has a greatest id. -/
theorem exists_last_entry (hne : b.size ≠ 0) : ∃ last e, b.entry last = some e ∧
    (b.listIndex.ascending.map Prod.fst).getLast? = some last ∧ ∀ id e, b.entry id = some e → id ≤ last := by
  have hmem : ∀ {id}, id ∈ b.listIndex.ascending.map Prod.fst ↔ ∃ e, b.entry id = some e := by
    intro id
    rw [List.mem_map]
    constructor
    · rintro ⟨x, hx, rfl⟩
      exact ⟨x.2, Table.mem_ascending.mp hx⟩
    · rintro ⟨e, he⟩
      exact ⟨(id, e), Table.mem_ascending.mpr he, rfl⟩
  obtain ⟨e, hnth⟩ := Table.nth_isSome (Nat.pos_of_ne_zero hne)
  obtain ⟨id, hget⟩ := Table.get_of_nth hnth
  have hsome : b.listIndex.ascending.map Prod.fst ≠ [] := List.ne_nil_of_mem (hmem.mpr ⟨e, hget⟩)
  obtain ⟨last, hlast, hget, hle⟩ := exists_last (List.pairwise_map.mpr b.listIndex.pairwise_ascending) hsome
  obtain ⟨e, he⟩ := hmem.mp hlast
  exact ⟨last, e, he, hget, fun id e he => hle id (hmem.mpr ⟨e, he⟩)⟩

theorem loadBook_ensures (key : Bytes) (db : Database) (hrep : RepInvariant b) (hsave : Savable b)
    (hagents : ∀ id e, b.entry id = some e → AgentFits e.info) (hne : b.size ≠ 0) :
    Ensures (loadBook (save ⟨key, b⟩ db)) {} fun _ b' => SameBook b b' ∧
      ∃ last e, b.entry last = some e ∧ b'.lastUsedId = last + 1 ∧ ∀ id e, b.entry id = some e → id ≤ last := by
  obtain ⟨last, elast, helast, hlast, hle⟩ := exists_last_entry hne
  have hentry : ∀ {x}, x ∈ b.listIndex.ascending → b.entry x.1 = some x.2 := Table.mem_ascending.mp
  have hends : b.listIndex.ascending.Pairwise fun x y => x.2.endpoint ≠ y.2.endpoint :=
    b.listIndex.pairwise_ascending.imp_of_mem fun hx hy hlt heq =>
      hlt.ne (hrep.eq_of_endpoint (hentry hx) (hentry hy) heq)
  unfold loadBook
  rw [save_services key db hrep hne fun id e he => ⟨hsave.storable id e he, (hagents id e he).length_encode_le⟩,
    save_randomOrder key db hrep hne, save_buckets key db hsave hne, loadOrder fun id hid => ?_]
  · refine (loadServices_ensures 1 b.listIndex.pairwise_ascending hends ?_ ?_).bind ?_
    · intro x hx
      have hid := hrep.id_lt (hentry hx)
      exact ⟨by omega, ⟨hsave.storable _ _ (hentry hx), hagents _ _ (hentry hx)⟩, hsave.endpoint _ _ (hentry hx)⟩
    · intro x _
      exact ⟨rfl, rfl⟩
    · rintro entryId b₁ ⟨hentryId, ⟨index, rfl⟩, hloaded, hother⟩
      rw [hlast] at hentryId
      have hentries : ∀ id, index.get id = (b.entry id).map (AddressBookEntry.within ∅ ∅) := by
        intro id
        cases he : b.entry id with
        | none =>
            refine hother id fun x hx heq => ?_
            rw [← heq, hentry hx] at he
            cases he
        | some e => exact hloaded (id, e) (Table.mem_ascending.mpr he)
      refine Ensures.step (run_modify _ _) (Ensures.step (run_modify _ _) ?_)
      have hstart : Loading b
          { lastUsedId := increment entryId, randomlyOrderedIds := b.randomlyOrderedIds, listIndex := index } ∅ ∅ :=
        Loading.start hentries rfl rfl rfl rfl rfl
      refine (hstart.loadAll hrep hsave).mono ?_
      rintro _ b₂ ⟨hsame, hlastUsed⟩
      refine ⟨hsame, last, elast, helast, ?_, hle⟩
      rw [hlastUsed, hentryId]
      exact increment_of_lt (hrep.id_lt helast)
  · obtain ⟨e, he⟩ := Option.isSome_iff_exists.mp ((hrep.order_mem id).mp hid)
    have := hrep.id_lt he
    omega

/-- **What was saved is loaded.** A book that is not empty comes back with its key, its entries, its order, its
buckets and its counters, with ids that are not used above the ones it has, when its user agents can be read back. -/
theorem load_save (key key' : Octets 16) (b : AddressBook) (db : Database) (hne : b.size ≠ 0) (hrep : RepInvariant b)
    (hsave : Savable b) (hagents : ∀ id e, b.entry id = some e → AgentFits e.info) :
    ∃ b', (load (save ⟨key.val, b⟩ db)).run ⟨key'.val, {}⟩ = .ok () ⟨key.val, b'⟩ ∧ SameBook b b' ∧ RepInvariant b' ∧
      ∀ id e, b'.entry id = some e → id < b'.lastUsedId := by
  obtain ⟨_, b', hrun, hsame, last, e, he, hlast, hle⟩ := loadBook_ensures key.val db hrep hsave hagents hne
  have hlt : ∀ id e, b'.entry id = some e → id < b'.lastUsedId := by
    intro id e he
    rw [hsame.entries] at he
    rw [hlast]
    exact Nat.lt_succ_of_le (hle id e he)
  refine ⟨b', ?_, hsame, hsame.repInvariant hrep ?_, hlt⟩
  · have hseed : (save ⟨key.val, b⟩ db).seed = some key.val := by rw [save, if_neg hne]
    unfold load
    rw [run_bind, run_modify, hseed]
    simp only [run_focus, hrun, Option.filter_some, key.property, decide_true, if_true, Option.getD_some]
  · intro id e' he'
    rw [hlast, Nat.mod_eq_of_lt (hrep.id_lt he), ← hlast]
    exact hlt id e' he'

/-! ## A book with two entries -/

def peerService (last : UInt8) : NodeService :=
  { time := 1700000000, services := 1, endpoint := { address := .ofV4 1 2 3 last, port := 9033 } }

/-- An entry in two of the new buckets. -/
def newPeer (userAgent : Bytes) : AddressBookEntry where
  endpoint := (peerService 4).endpoint
  info := {
    service := peerService 4
    origin := .ofV4 8 8 8 8
    userAgent := userAgent
    randomPos := 1
    newRefs := {7, 9} }

def triedPeer : AddressBookEntry where
  endpoint := (peerService 5).endpoint
  info := {
    service := peerService 5
    origin := .ofV4 8 8 8 8
    lastConnectionAttempt := 1700000100
    lastConnectionSuccess := 1700000100
    triedRef := some 5 }

def twoPeers (userAgent : Bytes) : AddressBook where
  lastUsedId := 3
  newEntriesSize := 1
  triedEntriesSize := 1
  randomlyOrderedIds := [2, 1]
  newBuckets := ((∅ : Table Nat).insert 7 1).insert 9 1
  triedBuckets := (∅ : Table Nat).insert 5 2
  listIndex := ((∅ : Table AddressBookEntry).insert 1 (newPeer userAgent)).insert 2 triedPeer

section
variable {userAgent : Bytes}

theorem entry_twoPeers {id : Nat} {e : AddressBookEntry} :
    (twoPeers userAgent).entry id = some e ↔ id = 1 ∧ e = newPeer userAgent ∨ id = 2 ∧ e = triedPeer := by
  change Table.get (((∅ : Table AddressBookEntry).insert 1 (newPeer userAgent)).insert 2 triedPeer) id = some e ↔ _
  rw [Table.get_insert, Table.get_insert]
  split_ifs with h2 h1
  · simp [h2, eq_comm]
  · simp [h1, eq_comm]
  · simp [h2, h1]

theorem forall_twoPeers {P : Nat → AddressBookEntry → Prop} (hnew : P 1 (newPeer userAgent)) (htried : P 2 triedPeer) :
    ∀ id e, (twoPeers userAgent).entry id = some e → P id e := by
  intro id e he
  rcases entry_twoPeers.mp he with ⟨rfl, rfl⟩ | ⟨rfl, rfl⟩
  · exact hnew
  · exact htried

theorem newBuckets_twoPeers {s id : Nat} :
    (twoPeers userAgent).newBuckets.get s = some id ↔ id = 1 ∧ (s = 7 ∨ s = 9) := by
  change Table.get (((∅ : Table Nat).insert 7 1).insert 9 1) s = some id ↔ _
  rw [Table.get_insert, Table.get_insert]
  split_ifs with h9 h7
  · simp [h9, eq_comm]
  · simp [h7, eq_comm]
  · simp [h9, h7]

theorem triedBuckets_twoPeers {s id : Nat} : (twoPeers userAgent).triedBuckets.get s = some id ↔ id = 2 ∧ s = 5 := by
  change Table.get ((∅ : Table Nat).insert 5 2) s = some id ↔ _
  rw [Table.get_insert]
  split_ifs with h5
  · simp [h5, eq_comm]
  · simp [h5]

theorem repInvariant_twoPeers : RepInvariant (twoPeers userAgent) := by
  have hnew : (twoPeers userAgent).info 1 = some (newPeer userAgent).info :=
    info_of_entry (entry_twoPeers.mpr (Or.inl ⟨rfl, rfl⟩))
  have htried : (twoPeers userAgent).info 2 = some triedPeer.info :=
    info_of_entry (entry_twoPeers.mpr (Or.inr ⟨rfl, rfl⟩))
  have hne : (newPeer userAgent).endpoint ≠ triedPeer.endpoint :=
    (by decide : (peerService 4).endpoint ≠ (peerService 5).endpoint)
  refine ⟨fun _ _ => lookupEndpoint_eq_some_iff ?_, ?_, (by decide : [2, 1].Nodup), ?_, ?_, ?_, ?_, ?_, ?_, ?_⟩
  · intro id id' e e' he he' heq
    rcases entry_twoPeers.mp he with ⟨rfl, rfl⟩ | ⟨rfl, rfl⟩ <;>
      rcases entry_twoPeers.mp he' with ⟨rfl, rfl⟩ | ⟨rfl, rfl⟩
    · rfl
    · exact absurd heq hne
    · exact absurd heq.symm hne
    · rfl
  · exact forall_twoPeers (by decide : 1 ≠ 0 ∧ 1 < 3 % 2 ^ 32) (by decide : 2 ≠ 0 ∧ 2 < 3 % 2 ^ 32)
  · intro id
    rw [Option.isSome_iff_exists]
    simp only [entry_twoPeers, exists_or, exists_and_left, exists_eq, and_true]
    exact List.mem_pair.trans or_comm
  · exact forall_twoPeers rfl rfl
  · intro s id
    rw [newBuckets_twoPeers]
    constructor
    · rintro ⟨rfl, hs⟩
      exact ⟨_, entry_twoPeers.mpr (Or.inl ⟨rfl, rfl⟩), by simpa [newPeer] using hs⟩
    · rintro ⟨e, he, hs⟩
      rcases entry_twoPeers.mp he with ⟨rfl, rfl⟩ | ⟨rfl, rfl⟩
      · exact ⟨rfl, by simpa [newPeer] using hs⟩
      · exact absurd hs (Finset.notMem_empty s)
  · intro s id
    rw [triedBuckets_twoPeers]
    constructor
    · rintro ⟨rfl, rfl⟩
      exact ⟨_, entry_twoPeers.mpr (Or.inr ⟨rfl, rfl⟩), rfl⟩
    · rintro ⟨e, he, hs⟩
      rcases entry_twoPeers.mp he with ⟨rfl, rfl⟩ | ⟨rfl, rfl⟩
      · cases hs
      · exact ⟨rfl, (Option.some.inj hs).symm⟩
  · have hcard : 1 ≤ ({7, 9} : Finset Nat).card ∧ ({7, 9} : Finset Nat).card ≤ kMaxNewBucketReferences := by decide
    exact forall_twoPeers (Or.inl ⟨hcard.1, hcard.2, rfl⟩) (Or.inr ⟨rfl, rfl⟩)
  · change 1 = [2, 1].countP _
    simp [hnew, htried, newPeer, triedPeer]
  · change 1 = [2, 1].countP _
    simp [hnew, htried, newPeer, triedPeer]

theorem savable_twoPeers : Savable (twoPeers userAgent) := by
  refine ⟨?_, ?_, ?_, ?_⟩
  · exact forall_twoPeers rfl rfl
  · have horigin : (IPAddress.ofV4 8 8 8 8).upperHalf := by decide
    refine forall_twoPeers ?_ ?_
    · have hrange : (0 : Int) ≤ 0 ∧ (0 : Int) < 2 ^ 32 := by decide
      exact ⟨(by decide : (peerService 4).Sendable), horigin, hrange, hrange, Nat.two_pow_pos 32,
        (by decide : 1 < 2 ^ 32)⟩
    · have hrange : (0 : Int) ≤ 1700000100 ∧ (1700000100 : Int) < 2 ^ 32 := by decide
      exact ⟨(by decide : (peerService 5).Sendable), horigin, hrange, hrange, Nat.two_pow_pos 32, Nat.two_pow_pos 32⟩
  · intro s id hget
    obtain ⟨-, rfl | rfl⟩ := newBuckets_twoPeers.mp hget <;> decide
  · intro s id hget
    obtain ⟨-, rfl⟩ := triedBuckets_twoPeers.mp hget
    decide

end

theorem load_save_twoPeers :
    ∃ b', (load (save ⟨List.replicate 16 1, twoPeers [0x7a]⟩ {})).run ⟨List.replicate 16 0, {}⟩ =
        .ok () ⟨List.replicate 16 1, b'⟩ ∧ SameBook (twoPeers [0x7a]) b' ∧ RepInvariant b' ∧
      ∀ id e, b'.entry id = some e → id < b'.lastUsedId :=
  load_save ⟨List.replicate 16 1, rfl⟩ ⟨List.replicate 16 0, rfl⟩ (twoPeers [0x7a]) {} (Nat.succ_ne_zero 1)
    repInvariant_twoPeers savable_twoPeers (forall_twoPeers (Nat.succ_le_of_lt (by decide)) (Nat.zero_le _))

/-- A bucket with an entry that was not loaded. -/
theorem loadBuckets_fault {kind : UInt8} {l : List (Nat × Nat)} {records : List (Bytes × Bytes)} (hne : l ≠ [])
    (hnone : ∀ x ∈ l, x.2 < 2 ^ 32 ∧ b.entry x.2 = none) :
    (loadBuckets (bucketRecords kind l ++ records)).run b = .fault .assert b := by
  cases l with
  | nil => exact absurd rfl hne
  | cons x l =>
      obtain ⟨⟨hlt, hx⟩, -⟩ := List.forall_mem_cons.mp hnone
      simp [bucketRecords, loadBuckets, loadBucket, requireInfo, info, loadBigU32_storeBigU32 hlt, hx]

/-- An entry that cannot be read is not there afterwards. -/
theorem loadServices_skips {id : Nat} {entries : List (Nat × AddressBookEntry)}
    (h : ∀ x ∈ entries, x.1 < 2 ^ 32 ∧ (x.1 = id → loadInfo x.2.info.encode = none)) (last : Nat) {b : AddressBook}
    (hb : b.entry id = none) :
    Ensures (loadServices (entries.map serviceRecord) last) b fun _ b' => b'.entry id = none := by
  induction entries generalizing last b with
  | nil => exact Ensures.pure hb
  | cons x entries ih =>
      obtain ⟨⟨hlt, hskip⟩, hrest⟩ := List.forall_mem_cons.mp h
      simp only [List.map_cons, serviceRecord, loadServices, loadBigU32_storeBigU32 hlt]
      cases hload : loadInfo x.2.info.encode with
      | none => exact ih hrest _ hb
      | some info =>
          have hne : id ≠ x.1 := fun heq => by simp [hskip heq.symm] at hload
          have hinsert : Ensures (insertIndex x.1 { endpoint := info.service.endpoint, info := info }) b
              fun _ b' => b'.entry id = none := by
            unfold insertIndex
            refine Ensures.step (run_get b) ?_
            split_ifs
            · exact Ensures.pure hb
            · exact ⟨true, _, rfl, ((Table.get_insert _ _ _ _).trans (if_neg hne)).trans hb⟩
          exact hinsert.bind fun _ b' hb' => ih hrest _ hb'

/-- An entry that is written, but not read back: its buckets fail. -/
theorem load_save_skipped {userAgent : Bytes} (key key' : Bytes) (db : Database)
    (hwrites : (newPeer userAgent).info.encode.length ≤ kMaxStreamSize)
    (hskipped : loadInfo (newPeer userAgent).info.encode = none) :
    ∃ k, (load (save ⟨key, twoPeers userAgent⟩ db)).run ⟨key', {}⟩ = .fault .assert k := by
  have hencode : ∀ id e, (twoPeers userAgent).entry id = some e → e.info.encode.length ≤ kMaxStreamSize :=
    forall_twoPeers hwrites (AgentFits.length_encode_le (Nat.zero_le _))
  have hservices := save_services key db (repInvariant_twoPeers : RepInvariant (twoPeers userAgent))
    (Nat.succ_ne_zero 1) fun id e he => ⟨savable_twoPeers.storable id e he, hencode id e he⟩
  have hne : (twoPeers userAgent).newBuckets.ascending ≠ [] :=
    List.ne_nil_of_mem (Table.mem_ascending.mpr (newBuckets_twoPeers.mpr ⟨rfl, Or.inl rfl⟩) : (7, 1) ∈ _)
  have hbuckets : ∀ b : AddressBook, b.entry 1 = none →
      (loadBuckets (save ⟨key, twoPeers userAgent⟩ db).buckets.entries).run b = .fault .assert b := by
    intro b hb
    rw [save_buckets _ _ savable_twoPeers (Nat.succ_ne_zero 1)]
    refine loadBuckets_fault hne fun x hx => ?_
    rw [(newBuckets_twoPeers.mp (Table.mem_ascending.mp hx)).1]
    exact ⟨by decide, hb⟩
  have hskips : ∀ x ∈ (twoPeers userAgent).listIndex.ascending, x.1 < 2 ^ 32 ∧
      (x.1 = 1 → loadInfo x.2.info.encode = none) := by
    intro x hx
    rcases entry_twoPeers.mp (Table.mem_ascending.mp hx) with ⟨hid, he⟩ | ⟨hid, -⟩
    · exact ⟨by omega, fun _ => he ▸ hskipped⟩
    · exact ⟨by omega, by omega⟩
  obtain ⟨last, b, hrun, hb⟩ := loadServices_skips hskips 1 (rfl : AddressBook.entry {} 1 = none)
  unfold load loadBook
  rw [hservices]
  simp only [run_bind, run_modify, run_focus, hrun]
  rw [hbuckets]
  · exact ⟨_, rfl⟩
  · exact hb

/-- A user agent one byte longer than what can be read back. -/
def longAgent : Bytes := List.replicate (kMaxSerializedCompactSize + 1) 0

theorem load_save_longAgent : (twoPeers longAgent).size ≠ 0 ∧ RepInvariant (twoPeers longAgent) ∧
    Savable (twoPeers longAgent) ∧
      ∃ k, (load (save ⟨List.replicate 16 1, twoPeers longAgent⟩ {})).run ⟨List.replicate 16 0, {}⟩ =
        .fault .assert k := by
  have hlength : (newPeer longAgent).info.userAgent.length = kMaxSerializedCompactSize + 1 := List.length_replicate
  have hwrites : (newPeer longAgent).info.encode.length ≤ kMaxStreamSize :=
    NodeServiceInfo.length_encode_le (by rw [hlength]; decide)
  have hstorable := savable_twoPeers.storable 1 (newPeer longAgent) (entry_twoPeers.mpr (Or.inl ⟨rfl, rfl⟩))
  have hskipped : loadInfo (newPeer longAgent).info.encode = none := by
    obtain ⟨e, x, hrun⟩ := NodeServiceInfo.refuses hstorable (by rw [hlength]; decide) (by rw [hlength]; decide)
      { buffer := (newPeer longAgent).info.encode, scope := .kStorage } ⟨Nat.zero_le _, List.prefix_rfl⟩
    rw [loadInfo_eq hwrites, hrun]
  exact ⟨(Nat.succ_ne_zero 1), repInvariant_twoPeers, savable_twoPeers, load_save_skipped _ _ _ hwrites hskipped⟩

end Znode.Net.AddressBook
