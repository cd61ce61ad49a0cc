import Mathlib
import Znode.AddressBook.Steps
import Znode.AddressBook.Calls

/-!
# The counter of ids

`last_used_id_` never goes back, whether a call returns or not. So a run in which few entries are inserted has
few ids in use at each of its steps.
-/

namespace Znode.Net.AddressBook
open Znode.Lib Znode.Core Act

theorem grows_requireInfo (id : Nat) : Grows lastUsedId (requireInfo id) := by
  unfold requireInfo
  refine Grows.bind Grows.get fun b => ?_
  split
  · exact Grows.raise _
  · exact Grows.pure _

theorem grows_mapInfo (id : Nat) (f : NodeServiceInfo → NodeServiceInfo) :
    Grows lastUsedId (modify (mapInfo id f) : Book PUnit) :=
  Grows.modify fun b => (mapInfo_lastUsedId id f b).ge

theorem grows_modify {g : AddressBook → AddressBook} (hg : ∀ b, (g b).lastUsedId = b.lastUsedId) :
    Grows lastUsedId (modify g : Book PUnit) := Grows.modify fun b => (hg b).ge

theorem grows_swapRandomlyOrderedIds (i j : Nat) : Grows lastUsedId (swapRandomlyOrderedIds i j) := by
  unfold swapRandomlyOrderedIds
  refine Grows.ite _ (Grows.pure _) (Grows.bind Grows.get fun b => ?_)
  split
  · refine Grows.bind (grows_requireInfo _) fun _ => Grows.bind (grows_requireInfo _) fun _ => ?_
    exact Grows.bind (grows_mapInfo ..) fun _ => Grows.bind (grows_mapInfo ..) fun _ => grows_modify fun _ => rfl
  · exact Grows.raise _

theorem grows_eraseNewEntry (id : Nat) : Grows lastUsedId (eraseNewEntry id) := by
  unfold eraseNewEntry
  refine Grows.ite _ (Grows.pure _) (Grows.bind (grows_requireInfo _) fun _ => ?_)
  refine Grows.bind (Grows.require ..) fun _ => Grows.bind (Grows.require ..) fun _ => ?_
  refine Grows.bind Grows.get fun _ => Grows.bind (grows_swapRandomlyOrderedIds ..) fun _ => ?_
  exact Grows.bind Grows.get fun _ => Grows.bind (Grows.require ..) fun _ => grows_modify fun _ => rfl

theorem grows_clearNewSlot (slot : SlotAddress) (erase : Bool) : Grows lastUsedId (clearNewSlot slot erase) := by
  unfold clearNewSlot
  refine Grows.bind (Grows.require ..) fun _ => Grows.bind Grows.get fun b => ?_
  split
  · exact Grows.pure _
  · refine Grows.bind (grows_requireInfo _) fun _ => Grows.bind (Grows.require ..) fun _ => ?_
    refine Grows.bind (Grows.require ..) fun _ => Grows.bind (grows_mapInfo ..) fun _ => ?_
    exact Grows.ite _ (Grows.bind (grows_eraseNewEntry _) fun _ => grows_modify fun _ => rfl)
      (grows_modify fun _ => rfl)

theorem grows_emplaceNewRef (id xy : Nat) : Grows lastUsedId (emplaceNewRef id xy) := by
  unfold emplaceNewRef
  refine Grows.bind (grows_requireInfo _) fun _ => Grows.bind (Grows.require ..) fun _ => ?_
  refine Grows.bind (grows_mapInfo ..) fun _ => Grows.bind Grows.get fun _ => ?_
  exact Grows.bind (Grows.require ..) fun _ => grows_modify fun _ => rfl

section
variable (slots : SlotFunctions)

theorem grows_getNewSlot (info : NodeServiceInfo) (source : IPAddress) :
    Grows lastUsedId (getNewSlot slots info source) :=
  Grows.bind (Grows.require ..) fun _ => Grows.bind (Grows.require ..) fun _ => Grows.pure _

theorem grows_evictTried (tried : SlotAddress) (id : Nat) : Grows lastUsedId (evictTried slots tried id) := by
  unfold evictTried
  refine Grows.bind (grows_requireInfo _) fun _ => Grows.bind (Grows.require ..) fun _ => ?_
  refine Grows.bind (Grows.require ..) fun _ => Grows.bind (grows_mapInfo ..) fun _ => ?_
  refine Grows.bind (grows_modify fun _ => rfl) fun _ => Grows.bind (grows_getNewSlot ..) fun _ => ?_
  refine Grows.bind (grows_clearNewSlot ..) fun _ => Grows.bind (grows_emplaceNewRef ..) fun _ => ?_
  exact grows_modify fun _ => rfl

theorem grows_makeRoomTried (tried : SlotAddress) : Grows lastUsedId (makeRoomTried slots tried) := by
  unfold makeRoomTried
  refine Grows.bind Grows.get fun b => ?_
  split
  · exact Grows.pure _
  · exact grows_evictTried ..

theorem grows_makeEntryTried (id : Nat) : Grows lastUsedId (makeEntryTried slots id) := by
  unfold makeEntryTried
  refine Grows.bind (grows_requireInfo _) fun _ => Grows.ite _ (Grows.pure _) ?_
  refine Grows.bind (grows_modify fun _ => rfl) fun _ => Grows.bind (grows_mapInfo ..) fun _ => ?_
  refine Grows.bind (Grows.bind (Grows.require ..) fun _ => Grows.pure _) fun _ => ?_
  refine Grows.bind (grows_makeRoomTried ..) fun _ => Grows.bind Grows.get fun _ => ?_
  refine Grows.bind (Grows.require ..) fun _ => Grows.bind (grows_modify fun _ => rfl) fun _ => ?_
  exact Grows.bind (grows_mapInfo ..) fun _ => grows_modify fun _ => rfl

theorem grows_insertIndex (id : Nat) (e : AddressBookEntry) : Grows lastUsedId (insertIndex id e) := by
  constructor
  intro b
  by_cases h : (b.entry id).isSome ∨ (b.lookupEndpoint e.endpoint).isSome <;>
    simp [insertIndex, h, Outcome.state]

theorem grows_insertEntry (service : NodeService) (source : IPAddress) (timePenalty : Int) :
    Grows lastUsedId (insertEntry slots service source timePenalty) := by
  unfold insertEntry
  refine Grows.bind Grows.get fun _ => Grows.bind (Grows.modify fun _ => Nat.le_succ _) fun _ => ?_
  refine Grows.bind (grows_getNewSlot ..) fun _ => Grows.bind (grows_clearNewSlot ..) fun _ => ?_
  refine Grows.bind Grows.get fun _ => Grows.bind (Grows.require ..) fun _ => ?_
  refine Grows.bind (grows_modify fun _ => rfl) fun _ => Grows.bind Grows.get fun _ => ?_
  refine Grows.bind (grows_modify fun _ => rfl) fun _ => Grows.bind (grows_insertIndex ..) fun _ => ?_
  exact Grows.bind (grows_modify fun _ => rfl) fun _ => Grows.pure _

theorem grows_makeRoomNew (id : Nat) (slot : SlotAddress) : Grows lastUsedId (makeRoomNew id slot) := by
  unfold makeRoomNew
  refine Grows.bind Grows.get fun b => ?_
  split
  · exact Grows.pure _
  · exact Grows.bind (Grows.require ..) fun _ => grows_clearNewSlot ..

theorem grows_updateEntry (id : Nat) (service : NodeService) (source : IPAddress) (timePenalty : Int)
    (choice : Choice) : Grows lastUsedId (updateEntry slots id service source timePenalty choice) := by
  unfold updateEntry
  refine Grows.bind (grows_mapInfo ..) fun _ => Grows.bind (grows_requireInfo _) fun _ => ?_
  refine Grows.bind (Grows.require ..) fun _ => Grows.ite _ (Grows.pure _) ?_
  refine Grows.bind (grows_getNewSlot ..) fun _ => Grows.ite _ ?_ ?_
  · exact Grows.bind Grows.get fun _ => Grows.require ..
  · refine Grows.bind (grows_makeRoomNew ..) fun _ => Grows.bind (grows_emplaceNewRef ..) fun _ => ?_
    exact Grows.bind (grows_requireInfo _) fun _ => Grows.ite _ (grows_modify fun _ => rfl) (Grows.pure _)

theorem grows_insertOrUpdateImpl (service : NodeService) (source : IPAddress) (timePenalty : Int)
    (choice : Choice) : Grows lastUsedId (insertOrUpdateImpl slots service source timePenalty choice) := by
  unfold insertOrUpdateImpl
  refine Grows.bind Grows.get fun b => ?_
  split
  · exact Grows.bind (grows_updateEntry ..) fun _ => Grows.pure _
  · refine Grows.bind (grows_insertEntry ..) fun inserted => ?_
    split
    · exact Grows.bind (grows_mapInfo ..) fun _ => Grows.pure _
    · exact Grows.bind (Grows.pure _) fun _ => Grows.pure _

theorem grows_insertOrUpdateLoop (source : IPAddress) (timePenalty now : Int) (services : List NodeService)
    (seen : List IPEndpoint) (choices : Nat → Choice) :
    Grows lastUsedId (insertOrUpdateLoop slots source timePenalty now services seen choices) := by
  induction services generalizing seen choices with
  | nil => exact Grows.pure _
  | cons service services ih =>
      unfold insertOrUpdateLoop
      refine Grows.ite _ (ih ..) (Grows.ite _ (ih ..) ?_)
      exact Grows.bind (grows_insertOrUpdateImpl ..) fun _ => Grows.bind (ih ..) fun _ => Grows.pure _

theorem grows_recordConnection (remote : IPEndpoint) (f : NodeServiceInfo → NodeServiceInfo) :
    Grows lastUsedId (recordConnection slots remote f) := by
  unfold recordConnection
  refine Grows.bind Grows.get fun b => ?_
  split
  · exact Grows.pure _
  · refine Grows.bind (grows_mapInfo ..) fun _ => Grows.bind (grows_requireInfo _) fun _ => ?_
    exact Grows.ite _ (Grows.bind (grows_makeEntryTried ..) fun _ => Grows.pure _)
      (Grows.bind (Grows.pure _) fun _ => Grows.pure _)

end

theorem grows_selectAttempts (bucket : Table Nat) (itemsInSet : Nat) (type : Option IPAddressType) (attempts : Nat)
    (picks : Nat → Pick) : Grows lastUsedId (selectAttempts bucket itemsInSet type attempts picks) := by
  induction attempts generalizing picks with
  | zero => exact Grows.pure _
  | succ attempts ih =>
      unfold selectAttempts
      simp only
      split
      · exact Grows.raise _
      · refine Grows.bind (grows_requireInfo _) fun _ => Grows.ite _ (ih _) (Grows.ite _ ?_ (ih _))
        refine Grows.bind Grows.get fun _ => Grows.bind (grows_modify fun _ => rfl) fun _ => ?_
        exact Grows.ite _ (ih _) (Grows.pure _)

theorem grows_selectRandom (newOnly : Bool) (type : Option IPAddressType) (draw : Nat) (picks : Nat → Pick) :
    Grows lastUsedId (selectRandom newOnly type draw picks) := by
  unfold selectRandom
  refine Grows.bind Grows.get fun _ => Grows.ite _ (Grows.pure _) (Grows.ite _ (Grows.pure _) ?_)
  exact Grows.ite _ (grows_selectAttempts ..) (grows_selectAttempts ..)

theorem grows_randomServicesLoop (count : Nat) (type : Option IPAddressType) (now : Int) (rounds i : Nat)
    (selected : List IPEndpoint) (ret : List NodeService) (draws : Nat → Nat) :
    Grows lastUsedId (randomServicesLoop count type now rounds i selected ret draws) := by
  induction rounds generalizing i selected ret draws with
  | zero => exact Grows.pure _
  | succ rounds ih =>
      unfold randomServicesLoop
      refine Grows.ite _ (Grows.pure _) (Grows.bind Grows.get fun _ => ?_)
      refine Grows.bind (grows_swapRandomlyOrderedIds ..) fun _ => Grows.bind Grows.get fun b => ?_
      split
      · exact Grows.raise _
      · refine Grows.bind (grows_requireInfo _) fun _ => Grows.ite _ (ih ..) (Grows.ite _ (ih ..) ?_)
        exact Grows.ite _ (ih ..) (ih ..)

theorem grows_getRandomServices (maxCount maxPercentage : Nat) (type : Option IPAddressType) (now : Int)
    (draws : Nat → Nat) : Grows lastUsedId (getRandomServices maxCount maxPercentage type now draws) := by
  unfold getRandomServices
  exact Grows.bind Grows.get fun _ => Grows.ite _ (Grows.pure _) (grows_randomServicesLoop ..)

theorem grows_perform (slots : SlotFunctions) (call : Call) : Grows lastUsedId (call.perform slots) := by
  cases call with
  | insertOrUpdate => exact Grows.bind (grows_insertOrUpdateImpl ..) fun _ => Grows.pure _
  | insertOrUpdateAll =>
      exact Grows.bind (Grows.bind (grows_insertOrUpdateLoop ..) fun _ => Grows.pure _) fun _ => Grows.pure _
  | setGood => exact Grows.bind (grows_recordConnection ..) fun _ => Grows.pure _
  | setFailed => exact Grows.bind (grows_recordConnection ..) fun _ => Grows.pure _
  | setTried => exact Grows.bind (grows_recordConnection ..) fun _ => Grows.pure _
  | selectRandom => exact Grows.bind (grows_selectRandom ..) fun _ => Grows.pure _
  | getRandomServices => exact Grows.bind (grows_getRandomServices ..) fun _ => Grows.pure _

theorem grows_runCalls (slots : SlotFunctions) (calls : List Call) : Grows lastUsedId (runCalls slots calls) := by
  induction calls with
  | nil => exact Grows.pure _
  | cons call calls ih => exact Grows.bind (grows_perform slots call) fun _ => ih

end Znode.Net.AddressBook
