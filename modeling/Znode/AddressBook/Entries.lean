import Mathlib
import Znode.Lib.Act
import Znode.Lib.Table
import Znode.Net.Addresses

/-!
# The address book

The state of an address book and its private functions: the five redundant structures (the index of the
entries, the order they are listed in at random, the new and the tried buckets, the two counters) and the
functions that move entries between them. An assertion that fails is a fault; no error code is returned.

* `SlotFunctions` : where an entry goes in the buckets. `SlotFunctions.ofSipHash` are those of the source;
* `swapRandomlyOrderedIds`, `eraseNewEntry`, `clearNewSlot`, `makeEntryTried`, `insertEntry`, `updateEntry`,
  `insertOrUpdateImpl`.
-/

namespace Znode.Net
open Znode.Lib Znode.Core

/-- `net::NodeServiceInfo`; times are in seconds. -/
structure NodeServiceInfo where
  service : NodeService
  userAgent : Bytes := []
  origin : IPAddress
  lastConnectionAttempt : Int := 0
  lastConnectionSuccess : Int := 0
  connectionAttempts : Nat := 0
  randomPos : Nat := 0
  triedRef : Option Nat := none
  newRefs : Finset Nat := ∅
deriving DecidableEq

namespace NodeServiceInfo

def kMaxDaysSinceLastSeen : Int := 30 * 86400
def kNewPeerMaxRetries : Nat := 3
def kRecentConnectionDays : Int := 7 * 86400
def kMaxReconnectionFailures : Nat := 10

def isBad (info : NodeServiceInfo) (now : Int) : Bool :=
  if info.lastConnectionAttempt > now - 60 then false
  else if info.service.time > now + 600 then true
  else if info.service.time < now - kMaxDaysSinceLastSeen then true
  else if info.lastConnectionSuccess = 0 ∧ info.connectionAttempts > kNewPeerMaxRetries then true
  else info.lastConnectionSuccess < now - kRecentConnectionDays ∧ info.connectionAttempts > kMaxReconnectionFailures

end NodeServiceInfo

/-- `operator==` of two addresses. `IPAddress` declares `operator<=>` only, so the comparison is the one of
`Serializable`, which has no members to compare. -/
def IPAddress.operatorEq (_ _ : IPAddress) : Bool := true

namespace AddressBook

def kBucketSize : Nat := 64
def kNewBucketsCount : Nat := 1024
def kTriedBucketsCount : Nat := 256
def kMaxNewBucketReferences : Nat := 8
def kNewBucketsPerSourceGroup : Nat := 64
def kTriedBucketsPerGroup : Nat := 8
def kIPv4SubnetGroupsPrefix : Nat := 16
def kIPv6SubnetGroupsPrefix : Nat := 64

structure SlotAddress where
  x : Nat
  y : Nat
deriving DecidableEq, Repr

def SlotAddress.xy (slot : SlotAddress) : Nat := slot.x * 65536 + slot.y

/-- Where an endpoint goes in the new buckets, by the source it comes from, and in the tried buckets. -/
structure SlotFunctions where
  newSlot : IPEndpoint → IPAddress → SlotAddress
  triedSlot : IPEndpoint → SlotAddress
  newSlot_lt : ∀ endpoint source,
    (newSlot endpoint source).x < kNewBucketsCount ∧ (newSlot endpoint source).y < kBucketSize
  triedSlot_lt : ∀ endpoint, (triedSlot endpoint).x < kTriedBucketsCount ∧ (triedSlot endpoint).y < kBucketSize

/-- The bytes of `calculate_subnet_base_address`, for a prefix of whole bytes: the others are cleared. -/
def subnetBytes (address : Bytes) (prefixLength : Nat) : Bytes :=
  address.take (prefixLength / 8) ++ List.replicate (address.length - prefixLength / 8) 0

/-- `compute_group`, after its assertion. `Bytes ret{1, type}` is a list of two bytes. -/
def computeGroup : IPAddress → Bytes
  | .v4 bytes => [1, 1] ++ subnetBytes bytes.val kIPv4SubnetGroupsPrefix
  | .v6 bytes => [1, 4] ++ subnetBytes bytes.val kIPv6SubnetGroupsPrefix

section
variable (sipHash24 : Bytes → Bytes → Octets 8) (key : Bytes)

def hashNewSlot (endpoint : IPEndpoint) (source : IPAddress) : SlotAddress :=
  let hash1 := leVal (sipHash24 key (computeGroup endpoint.address ++ computeGroup source)).val
  let hash2 := leVal (sipHash24 key (computeGroup source ++ leBytes 8 (hash1 % kNewBucketsPerSourceGroup))).val
  let x := hash2 % kNewBucketsCount
  -- the character 'N'
  let hash3 := leVal (sipHash24 key ([0x4e] ++ leBytes 2 x ++ endpoint.toBytes)).val
  { x := x, y := hash3 % kBucketSize }

def hashTriedSlot (endpoint : IPEndpoint) : SlotAddress :=
  let hash1 := leVal (sipHash24 key endpoint.toBytes).val
  let hash2 := leVal (sipHash24 key
    (computeGroup endpoint.address ++ leBytes 8 (hash1 % kTriedBucketsPerGroup))).val
  let x := hash2 % kTriedBucketsCount
  -- the character 'T'
  let hash3 := leVal (sipHash24 key ([0x54] ++ leBytes 2 x ++ endpoint.toBytes)).val
  { x := x, y := hash3 % kBucketSize }

def SlotFunctions.ofSipHash : SlotFunctions where
  newSlot := hashNewSlot sipHash24 key
  triedSlot := hashTriedSlot sipHash24 key
  newSlot_lt _ _ := ⟨Nat.mod_lt _ (by decide), Nat.mod_lt _ (by decide)⟩
  triedSlot_lt _ := ⟨Nat.mod_lt _ (by decide), Nat.mod_lt _ (by decide)⟩

end

/-- `AddressBookEntry`, with the element of `list_` its iterator points to. -/
structure AddressBookEntry where
  endpoint : IPEndpoint
  info : NodeServiceInfo
deriving DecidableEq

end AddressBook

open AddressBook in
structure AddressBook where
  /-- `last_used_id_`; the `uint32_t` holds it modulo `2 ^ 32`. -/
  lastUsedId : Nat := 1
  newEntriesSize : Nat := 0
  triedEntriesSize : Nat := 0
  randomlyOrderedIds : List Nat := []
  newBuckets : Table Nat := ∅
  triedBuckets : Table Nat := ∅
  /-- `recently_selected_`, the most recent one first. -/
  recentlySelected : List IPEndpoint := []
  /-- `list_index_`, by id. -/
  listIndex : Table AddressBookEntry := ∅

namespace AddressBook

abbrev Book := Act Empty Fault AddressBook

/-- What a call gets from outside: the time, and a draw. -/
structure Choice where
  clock : Int
  draw : Nat

/-- `randomize` over `[lo, hi]`; the draw is an arbitrary number. -/
def randomize (lo hi draw : Nat) : Nat := lo + draw % (hi - lo + 1)

def increment (n : Nat) : Nat := (n + 1) % 2 ^ 32

/-- `--` on a `uint32_t`; also `n - 1U` of a `size_t`, cut to 32 bits. -/
def decrement (n : Nat) : Nat := if n = 0 then 2 ^ 32 - 1 else (n - 1) % 2 ^ 32

def entry (b : AddressBook) (id : Nat) : Option AddressBookEntry := b.listIndex.get id

/-- `lookup_entry` by id. -/
def info (b : AddressBook) (id : Nat) : Option NodeServiceInfo := (b.entry id).map (·.info)

/-- `lookup_entry` by endpoint. -/
def lookupEndpoint (b : AddressBook) (endpoint : IPEndpoint) : Option Nat :=
  b.listIndex.find? fun e => e.endpoint = endpoint

def mapInfo (id : Nat) (f : NodeServiceInfo → NodeServiceInfo) (b : AddressBook) : AddressBook :=
  match b.entry id with
  | none => b
  | some e => { b with listIndex := b.listIndex.insert id { e with info := f e.info } }

def insertIndex (id : Nat) (e : AddressBookEntry) : Book Bool := do
  let b ← get
  if (b.entry id).isSome ∨ (b.lookupEndpoint e.endpoint).isSome then return false
  set { b with listIndex := b.listIndex.insert id e }
  return true

def requireInfo (id : Nat) : Book NodeServiceInfo := do
  match (← get).info id with
  | none => Act.raise .assert
  | some info => return info

def swapRandomlyOrderedIds (i j : Nat) : Book Unit := do
  if i = j then return
  let b ← get
  match b.randomlyOrderedIds[i]?, b.randomlyOrderedIds[j]? with
  | some idAtI, some idAtJ =>
    let _ ← requireInfo idAtI
    let _ ← requireInfo idAtJ
    modify (mapInfo idAtI fun info => { info with randomPos := j })
    modify (mapInfo idAtJ fun info => { info with randomPos := i })
    modify fun b => { b with randomlyOrderedIds := (b.randomlyOrderedIds.set i idAtJ).set j idAtI }
  | _, _ => Act.raise .assert

def eraseNewEntry (entryId : Nat) : Book Unit := do
  if entryId = 0 then return
  let info ← requireInfo entryId
  Act.require .assert (info.newRefs = ∅)
  Act.require .assert info.triedRef.isNone
  swapRandomlyOrderedIds info.randomPos (decrement (← get).randomlyOrderedIds.length)
  Act.require .assert ((← get).randomlyOrderedIds.getLast? = some entryId)
  modify fun b => { b with
    randomlyOrderedIds := b.randomlyOrderedIds.dropLast
    newEntriesSize := decrement b.newEntriesSize
    listIndex := b.listIndex.erase entryId }

def clearNewSlot (slot : SlotAddress) (eraseUnreferencedEntry : Bool) : Book Unit := do
  Act.require .assert (slot.x < kNewBucketsCount ∧ slot.y < kBucketSize)
  match (← get).newBuckets.get slot.xy with
  | none => return
  | some entryId =>
    let info ← requireInfo entryId
    Act.require .assert (entryId ≠ 0)
    Act.require .assert (slot.xy ∈ info.newRefs)
    modify (mapInfo entryId fun info => { info with newRefs := info.newRefs.erase slot.xy })
    if eraseUnreferencedEntry ∧ info.newRefs.erase slot.xy = ∅ ∧ info.triedRef.isNone then
      eraseNewEntry entryId
    modify fun b => { b with newBuckets := b.newBuckets.erase slot.xy }

section
variable (slots : SlotFunctions)

def getNewSlot (info : NodeServiceInfo) (source : IPAddress) : Book SlotAddress := do
  Act.require .assert source.isRoutable
  Act.require .assert info.service.endpoint.address.isRoutable
  return slots.newSlot info.service.endpoint source

def getTriedSlot (info : NodeServiceInfo) : Book SlotAddress := do
  Act.require .assert info.service.endpoint.address.isRoutable
  return slots.triedSlot info.service.endpoint

/-- The two assertions that put a reference into a slot: `emplace` must insert, into both. -/
def emplaceNewRef (entryId : Nat) (xy : Nat) : Book Unit := do
  let info ← requireInfo entryId
  Act.require .assert (xy ∉ info.newRefs)
  modify (mapInfo entryId fun info => { info with newRefs := insert xy info.newRefs })
  Act.require .assert ((← get).newBuckets.get xy).isNone
  modify fun b => { b with newBuckets := b.newBuckets.insert xy entryId }

/-- The occupant of a tried slot goes back to the new buckets. -/
def evictTried (tried : SlotAddress) (evictId : Nat) : Book Unit := do
  let evicted ← requireInfo evictId
  Act.require .assert (evicted.triedRef = some tried.xy)
  Act.require .assert (evicted.newRefs = ∅)
  modify (mapInfo evictId fun info => { info with triedRef := none })
  modify fun b => { b with
    triedBuckets := b.triedBuckets.erase tried.xy
    triedEntriesSize := decrement b.triedEntriesSize }
  let slot ← getNewSlot slots evicted evicted.origin
  clearNewSlot slot true
  emplaceNewRef evictId slot.xy
  modify fun b => { b with newEntriesSize := increment b.newEntriesSize }

/-- The branch of `make_entry_tried` that evicts, if there is an occupant. -/
def makeRoomTried (tried : SlotAddress) : Book Unit := do
  match (← get).triedBuckets.get tried.xy with
  | none => return
  | some evictId => evictTried slots tried evictId

def makeEntryTried (entryId : Nat) : Book Unit := do
  let info ← requireInfo entryId
  if info.triedRef.isSome then return
  modify fun b => { b with
    newEntriesSize := if info.newRefs = ∅ then b.newEntriesSize else decrement b.newEntriesSize
    newBuckets := b.newBuckets.eraseAll (info.newRefs.sort (· ≤ ·)) }
  modify (mapInfo entryId fun info => { info with newRefs := ∅ })
  let tried ← getTriedSlot slots info
  makeRoomTried slots tried
  Act.require .assert ((← get).triedBuckets.get tried.xy).isNone
  modify fun b => { b with triedBuckets := b.triedBuckets.insert tried.xy entryId }
  modify (mapInfo entryId fun info => { info with triedRef := some tried.xy })
  modify fun b => { b with triedEntriesSize := increment b.triedEntriesSize }

/-- `insert_entry`. The id is `none` when the index refuses the entry: it is then in `list_` only. -/
def insertEntry (service : NodeService) (source : IPAddress) (timePenalty : Int) : Book (Option Nat) := do
  let newId := (← get).lastUsedId % 2 ^ 32
  modify fun b => { b with lastUsedId := b.lastUsedId + 1 }
  let info : NodeServiceInfo := { service := { service with time := service.time - timePenalty }, origin := source }
  let slot ← getNewSlot slots info source
  clearNewSlot slot true
  -- the reference goes into an empty `new_refs_`, which cannot fail
  Act.require .assert ((← get).newBuckets.get slot.xy).isNone
  modify fun b => { b with newBuckets := b.newBuckets.insert slot.xy newId }
  let randomPos := (← get).randomlyOrderedIds.length % 2 ^ 32
  modify fun b => { b with randomlyOrderedIds := b.randomlyOrderedIds ++ [newId] }
  let taken ← insertIndex newId
    { endpoint := service.endpoint, info := { info with newRefs := {slot.xy}, randomPos := randomPos } }
  modify fun b => { b with newEntriesSize := increment b.newEntriesSize }
  return if taken then some newId else none

/-- What `update_entry` refreshes before it looks at the buckets: the time seen and the services. -/
def refreshed (service : NodeService) (timePenalty clock : Int) (info : NodeServiceInfo) : NodeServiceInfo :=
  let updateInterval : Int := if clock - service.time < 24 * 3600 then 3600 else 24 * 3600
  { info with service := { info.service with
      time := if info.service.time < service.time - updateInterval - timePenalty
        then max kTimeInit (service.time - timePenalty) else info.service.time
      services := info.service.services ||| service.services } }

/-- `update_entry` leaves the buckets alone: the entry has been seen before `service`, is tried, has all its
references, or the draw says so. -/
def leavesBuckets (service : NodeService) (draw : Nat) (entry : NodeServiceInfo) : Bool :=
  entry.service.time < service.time ∨ entry.triedRef.isSome ∨ entry.newRefs.card = kMaxNewBucketReferences
    ∨ randomize 0 (2 ^ entry.newRefs.card - 1) draw ≠ 0

/-- The branch of `update_entry` that clears a slot, if it is taken. -/
def makeRoomNew (entryId : Nat) (slot : SlotAddress) : Book Unit := do
  match (← get).newBuckets.get slot.xy with
  | none => return
  | some occupant =>
    Act.require .assert (occupant ≠ entryId)
    clearNewSlot slot true

def updateEntry (entryId : Nat) (service : NodeService) (source : IPAddress) (timePenalty : Int)
    (choice : Choice) : Book Unit := do
  modify (mapInfo entryId (refreshed service timePenalty choice.clock))
  let entry ← requireInfo entryId
  Act.require .assert (decide (entry.newRefs ≠ ∅) ^^ entry.triedRef.isSome)
  if leavesBuckets service choice.draw entry then return
  let slot ← getNewSlot slots entry source
  if slot.xy ∈ entry.newRefs then
    Act.require .assert ((← get).newBuckets.get slot.xy).isSome
  else
    makeRoomNew entryId slot
    emplaceNewRef entryId slot.xy
    if (← requireInfo entryId).newRefs.card = 1 then
      modify fun b => { b with newEntriesSize := increment b.newEntriesSize }

/-- `insert_or_update_impl`; the result says whether the service was inserted. -/
def insertOrUpdateImpl (service : NodeService) (source : IPAddress) (timePenalty : Int) (choice : Choice) :
    Book Bool := do
  let timePenalty := if IPAddress.operatorEq source service.endpoint.address then 0 else timePenalty
  match (← get).lookupEndpoint service.endpoint with
  | some entryId =>
    updateEntry slots entryId service source timePenalty choice
    return false
  | none =>
    let inserted ← insertEntry slots service source timePenalty
    if let some entryId := inserted then
      modify (mapInfo entryId fun info =>
        { info with service := { info.service with time := max kTimeInit (service.time - timePenalty) } })
    return true

end

end AddressBook

end Znode.Net
