import Mathlib
import Znode.AddressBook.Entries
import Znode.Net.Payloads

/-!
# The calls on an address book

The public functions, and runs of them.

* `insertOrUpdate`, `insertOrUpdateAll` : one service, or the vector of an `addr` message;
* `setGood`, `setFailed`, `setTried` : what is known of an entry after a connection;
* `selectRandom`, `getRandomServices` : every draw is an argument;
* `Call`, `Call.perform`, `runCalls` : sequences of calls, ended by the first one that does not return.
-/

namespace Znode.Net.AddressBook
open Znode.Lib Znode.Core

def size (b : AddressBook) : Nat := b.listIndex.size

section
variable (slots : SlotFunctions)

/-! ## Insertion -/

def insertOrUpdate (service : NodeService) (source : IPAddress) (timePenalty : Int) (choice : Choice) : Book Bool :=
  insertOrUpdateImpl slots service source timePenalty choice

/-- `NodeServicesType::kNodeNetwork` is set. -/
def hasNetworkBit (service : NodeService) : Bool := service.services &&& kNodeNetwork ≠ 0

def adjustTime (now : Int) (service : NodeService) : NodeService :=
  if service.time < kTimeInit ∨ service.time > now + 600 then { service with time := now - 5 * 86400 } else service

/-- The loop of `insert_or_update` over a vector: the services that stay in it. `seen` are the endpoints met
so far; a duplicate is thrown as `std::invalid_argument` and discarded by the handler of the same round. -/
def insertOrUpdateLoop (source : IPAddress) (timePenalty now : Int) :
    List NodeService → List IPEndpoint → (Nat → Choice) → Book (List NodeService)
  | [], _, _ => return []
  | service :: services, seen, choices => do
    let later := fun n => choices (n + 1)
    if !hasNetworkBit service then insertOrUpdateLoop source timePenalty now services seen later
    else if service.endpoint ∈ seen then insertOrUpdateLoop source timePenalty now services seen later
    else
      let service := adjustTime now service
      let inserted ← insertOrUpdateImpl slots service source timePenalty (choices 0)
      let kept ← insertOrUpdateLoop source timePenalty now services (service.endpoint :: seen) later
      return if inserted then service :: kept else kept

/-- `insert_or_update` of a vector: what is left of it, and whether anything was inserted. `added_count` counts
the services left. -/
def insertOrUpdateAll (services : List NodeService) (source : IPAddress) (timePenalty now : Int)
    (choices : Nat → Choice) : Book (List NodeService × Bool) := do
  let kept ← insertOrUpdateLoop slots source timePenalty now services [] choices
  return (kept, 0 < kept.length % 2 ^ 32)

/-! ## Connections -/

/-- What the three `set_` functions share: the entry of `remote` is changed and made tried. -/
def recordConnection (remote : IPEndpoint) (f : NodeServiceInfo → NodeServiceInfo) : Book Bool := do
  match (← get).lookupEndpoint remote with
  | none => return false
  | some entryId =>
    modify (mapInfo entryId f)
    if (← requireInfo entryId).triedRef.isNone then makeEntryTried slots entryId
    return true

def setGood (remote : IPEndpoint) (versionInfo : MsgVersionPayload) (time : Int) : Book Bool :=
  recordConnection slots remote fun info => { info with
    userAgent := versionInfo.userAgent
    service := { info.service with services := versionInfo.services, time := time }
    lastConnectionAttempt := time
    lastConnectionSuccess := time
    connectionAttempts := 0 }

def setFailed (remote : IPEndpoint) (time : Int) : Book Bool :=
  recordConnection slots remote fun info => { info with
    lastConnectionAttempt := time
    connectionAttempts := increment info.connectionAttempts }

def setTried (remote : IPEndpoint) (time : Int) : Book Bool :=
  recordConnection slots remote fun info => { info with lastConnectionAttempt := time }

end

/-! ## Selection -/

/-- `LruSet::insert` with room for 64: whether the endpoint was added, and the list afterwards. -/
def insertRecent (endpoint : IPEndpoint) (recent : List IPEndpoint) : Bool × List IPEndpoint :=
  if endpoint ∈ recent then (false, endpoint :: recent.erase endpoint)
  else (true, (endpoint :: recent).take 64)

/-- One attempt of `select_random`: the item, and whether `randbits` is below the chance. -/
structure Pick where
  item : Nat
  accept : Bool

/-- The attempts of `select_random`. The test is left to `accept` for every entry: one that is bad has chance zero,
but a factor that has grown to infinity makes that a conversion without a defined result. -/
def selectAttempts (bucket : Table Nat) (itemsInSet : Nat) (type : Option IPAddressType) :
    Nat → (Nat → Pick) → Book (Option IPEndpoint × Int)
  | 0, _ => return (none, 0)
  | attempts + 1, picks => do
    let later := fun n => picks (n + 1)
    match bucket.nth (randomize 0 (bucket.size - 1) (picks 0).item % 2 ^ 32) with
    | none => Act.raise .outOfRange
    | some entryId =>
      let info ← requireInfo entryId
      if type.isSome ∧ type ≠ some info.service.endpoint.address.getType then
        selectAttempts bucket itemsInSet type attempts later
      else if (picks 0).accept then
        let (added, recent) := insertRecent info.service.endpoint (← get).recentlySelected
        modify fun b => { b with recentlySelected := recent }
        if ¬ added ∧ itemsInSet > recent.length then selectAttempts bucket itemsInSet type attempts later
        else return (some info.service.endpoint, info.service.time)
      else selectAttempts bucket itemsInSet type attempts later

/-- `select_from_tried`; with entries of both kinds it is a draw. -/
def selectFromTried (b : AddressBook) (newOnly : Bool) (draw : Nat) : Bool :=
  if newOnly ∨ b.triedEntriesSize = 0 then false
  else if b.newEntriesSize = 0 then true
  else randomize 0 1 draw = 1

def selectRandom (newOnly : Bool) (type : Option IPAddressType) (draw : Nat) (picks : Nat → Pick) :
    Book (Option IPEndpoint × Int) := do
  let b ← get
  if b.randomlyOrderedIds = [] then return (none, 0)
  if newOnly ∧ b.newEntriesSize = 0 then return (none, 0)
  if b.selectFromTried newOnly draw then selectAttempts b.triedBuckets b.triedEntriesSize type 50000 picks
  else selectAttempts b.newBuckets b.newEntriesSize type 50000 picks

/-- The loop of `get_random_services` with `rounds` positions left, the next one being `i`. -/
def randomServicesLoop (count : Nat) (type : Option IPAddressType) (now : Int) :
    Nat → Nat → List IPEndpoint → List NodeService → (Nat → Nat) → Book (List NodeService)
  | 0, _, _, ret, _ => return ret
  | rounds + 1, i, selected, ret, draws => do
    if count ≤ ret.length then return ret
    let randomIndex := randomize 0 ((← get).randomlyOrderedIds.length - i - 1) (draws 0) + i
    swapRandomlyOrderedIds (i % 2 ^ 32) (randomIndex % 2 ^ 32)
    match (← get).randomlyOrderedIds[i]? with
    | none => Act.raise .outOfRange
    | some entryId =>
      let info ← requireInfo entryId
      let next := randomServicesLoop count type now rounds (i + 1)
      let later := fun n => draws (n + 1)
      if type.isSome ∧ type ≠ some info.service.endpoint.address.getType then next selected ret later
      else if info.isBad now then next selected ret later
      else if info.service.endpoint ∈ selected then next selected ret later
      else next (info.service.endpoint :: selected) (ret ++ [info.service]) later

/-- How many services `get_random_services` returns at most. -/
def servicesCount (size maxCount maxPercentage : Nat) : Nat :=
  let count := if maxPercentage > 0 then size * maxPercentage / 100 else size
  if maxCount > 0 then min count maxCount else count

def getRandomServices (maxCount maxPercentage : Nat) (type : Option IPAddressType) (now : Int)
    (draws : Nat → Nat) : Book (List NodeService) := do
  let size := (← get).randomlyOrderedIds.length
  if size = 0 then return []
  randomServicesLoop (servicesCount size maxCount maxPercentage) type now size 0 [] [] draws

/-! ## Runs -/

inductive Call where
  | insertOrUpdate (service : NodeService) (source : IPAddress) (timePenalty : Int) (choice : Choice)
  | insertOrUpdateAll (services : List NodeService) (source : IPAddress) (timePenalty now : Int)
      (choices : Nat → Choice)
  | setGood (remote : IPEndpoint) (versionInfo : MsgVersionPayload) (time : Int)
  | setFailed (remote : IPEndpoint) (time : Int)
  | setTried (remote : IPEndpoint) (time : Int)
  | selectRandom (newOnly : Bool) (type : Option IPAddressType) (draw : Nat) (picks : Nat → Pick)
  | getRandomServices (maxCount maxPercentage : Nat) (type : Option IPAddressType) (now : Int) (draws : Nat → Nat)

variable (slots : SlotFunctions)

def Call.perform : Call → Book Unit
  | .insertOrUpdate service source timePenalty choice => do
    let _ ← AddressBook.insertOrUpdate slots service source timePenalty choice
  | .insertOrUpdateAll services source timePenalty now choices => do
    let _ ← AddressBook.insertOrUpdateAll slots services source timePenalty now choices
  | .setGood remote versionInfo time => do let _ ← AddressBook.setGood slots remote versionInfo time
  | .setFailed remote time => do let _ ← AddressBook.setFailed slots remote time
  | .setTried remote time => do let _ ← AddressBook.setTried slots remote time
  | .selectRandom newOnly type draw picks => do let _ ← AddressBook.selectRandom newOnly type draw picks
  | .getRandomServices maxCount maxPercentage type now draws => do
    let _ ← AddressBook.getRandomServices maxCount maxPercentage type now draws

def runCalls : List Call → Book Unit
  | [] => return
  | call :: calls => do
    call.perform slots
    runCalls calls

end Znode.Net.AddressBook
