import Mathlib
import Znode.AddressBook.Runs

/-!
# Which vectors of services an address book survives

`insert_or_update` over a vector aborts the process when it computes the group of an address that is not
routable. Whether it does can be told from the book before the call.

* `admitsAll` : the first service with each endpoint is admitted by the book before the call;
* `insertOrUpdateLoop_returns_iff` : the loop returns exactly then;
* `Reachable`, `Reachable.valid` : the books of runs whose calls all returned, with any addresses.
-/

namespace Znode.Net.AddressBook
open Znode.Lib Znode.Core Act

/-- The services the loop gets to, the first one with each endpoint, are admitted. -/
def admitsAll (b : AddressBook) (source : IPAddress) (now : Int) :
    List NodeService → List IPEndpoint → (Nat → Choice) → Bool
  | [], _, _ => true
  | service :: services, seen, choices =>
    let later := fun n => choices (n + 1)
    if !hasNetworkBit service then admitsAll b source now services seen later
    else if service.endpoint ∈ seen then admitsAll b source now services seen later
    else admits b (adjustTime now service) source (choices 0) &&
      admitsAll b source now services (service.endpoint :: seen) later

variable {b : AddressBook} (slots : SlotFunctions)

theorem admitsAll_congr {b' : AddressBook} {source : IPAddress} (now : Int) {services : List NodeService}
    {seen : List IPEndpoint} (choices : Nat → Choice)
    (h : ∀ service choice, service.endpoint ∉ seen → admits b' service source choice = admits b service source choice) :
    admitsAll b' source now services seen choices = admitsAll b source now services seen choices := by
  induction services generalizing seen choices with
  | nil => rfl
  | cons service services ih =>
      unfold admitsAll
      dsimp only
      rw [ih _ h]
      split_ifs with hbit hseen
      · rfl
      · rfl
      · rw [h _ _ (by rw [adjustTime_endpoint]; exact hseen), ih]
        intro service' choice' hnot
        exact h service' choice' fun hmem => hnot (List.mem_cons_of_mem _ hmem)

/-- From a routable source, a service is admitted when its own address is routable. -/
theorem Valid.admits_eq (h : Valid b) {source : IPAddress} (hsource : source.isRoutable) (service : NodeService)
    (choice : Choice) : admits b service source choice = service.endpoint.address.isRoutable := by
  cases hlookup : b.lookupEndpoint service.endpoint with
  | none => simp [admits, hlookup, hsource]
  | some id =>
      obtain ⟨e, he, hend⟩ := exists_of_lookupEndpoint hlookup
      have hroutable : service.endpoint.address.isRoutable := by
        rw [← hend]
        exact (h.coherent.filed.entries id _ (content_of_entry he)).routable
      simp [admits, hlookup, info_of_entry he, hsource, hroutable]

/-- An entry is refreshed: the services with other endpoints do not notice. -/
theorem admits_mapInfo (h : Valid b) {id : Nat} {e : AddressBookEntry} (he : b.entry id = some e)
    {f : NodeServiceInfo → NodeServiceInfo} (hf : Touches f) {service : NodeService}
    (hne : e.endpoint ≠ service.endpoint) (source : IPAddress) (choice : Choice) :
    admits (mapInfo id f b) service source choice = admits b service source choice := by
  have h' := h.coherent.touch he hf
  have hlookup : (mapInfo id f b).lookupEndpoint service.endpoint = b.lookupEndpoint service.endpoint := by
    apply Option.ext
    intro k
    rw [h'.filed.lookupEndpoint_eq_some_iff, h.coherent.filed.lookupEndpoint_eq_some_iff]
    by_cases hk : k = id
    · subst hk
      rw [entry_mapInfo_self he, he]
      simp [hne]
    · rw [entry_mapInfo_of_ne hk]
  unfold admits
  rw [hlookup]
  cases hfound : b.lookupEndpoint service.endpoint with
  | none => rfl
  | some k =>
      have hk : k ≠ id := by
        intro hk
        subst hk
        obtain ⟨e', he', hend⟩ := exists_of_lookupEndpoint hfound
        rw [Option.some.inj (he.symm.trans he')] at hne
        exact hne hend
      simp only [Option.bind_some]
      rw [info, info, entry_mapInfo_of_ne hk]

/-- An insertion or update that returns changes nothing for services with other endpoints. -/
theorem admits_after (h : Valid b) {service : NodeService} {source : IPAddress} {timePenalty : Int} {choice : Choice}
    {inserted : Bool} {b' : AddressBook}
    (hrun : (insertOrUpdateImpl slots service source timePenalty choice).run b = .ok inserted b') (h' : Valid b')
    {service' : NodeService} (hne : service.endpoint ≠ service'.endpoint) (choice' : Choice) :
    admits b' service' source choice' = admits b service' source choice' := by
  by_cases hsource : source.isRoutable
  · rw [h'.admits_eq hsource, h.admits_eq hsource]
  · by_cases hadmits : admits b service source choice
    · -- from this source nothing is inserted, and no bucket is touched
      cases hlookup : b.lookupEndpoint service.endpoint with
      | none => simp [admits, hlookup, hsource] at hadmits
      | some id =>
          obtain ⟨e, he, hend⟩ := exists_of_lookupEndpoint hlookup
          simp only [admits, hlookup, Option.bind_some, info_of_entry he, hsource, Bool.or_false] at hadmits
          have hf := touches_refreshed service 0 choice.clock
          have he₁ := entry_mapInfo_self he (refreshed service 0 choice.clock)
          have hsane := (h.coherent.touch he hf).in_one_bucket (h.housed.touch he hf) he₁
          simp only at hsane
          simp [insertOrUpdateImpl, hlookup, IPAddress.operatorEq, updateEntry, requireInfo_run he₁, hsane,
            hadmits] at hrun
          rw [← hrun.2]
          exact admits_mapInfo h he hf (by rw [hend]; exact hne) source choice'
    · obtain ⟨b'', habort⟩ := insertOrUpdateImpl_aborts slots h hadmits timePenalty
      rw [habort] at hrun
      cases hrun

/-- **The loop returns exactly when the book admits the services.** -/
theorem insertOrUpdateLoop_returns_iff (h : Valid b) (source : IPAddress) (timePenalty now : Int)
    {services : List NodeService} (hfew : b.lastUsedId + services.length ≤ 2 ^ 32) (seen : List IPEndpoint)
    (choices : Nat → Choice) :
    (∃ kept b', (insertOrUpdateLoop slots source timePenalty now services seen choices).run b = .ok kept b') ↔
      admitsAll b source now services seen choices := by
  induction services generalizing b seen choices with
  | nil => simp [insertOrUpdateLoop, admitsAll]
  | cons service services ih =>
      rw [List.length_cons] at hfew
      unfold insertOrUpdateLoop admitsAll
      dsimp only
      split_ifs with hbit hseen
      · exact ih h (by omega) ..
      · exact ih h (by omega) ..
      · by_cases hadmits : admits b (adjustTime now service) source (choices 0)
        · obtain ⟨inserted, b₁, hrun, h₁, hlast₁⟩ :=
            insertOrUpdateImpl_ensures slots h (by omega) hadmits timePenalty
          have hstep : inserted.toNat ≤ 1 := Bool.toNat_le inserted
          have hrest := ih h₁ (by omega) (service.endpoint :: seen) fun n => choices (n + 1)
          rw [admitsAll_congr (b := b) now] at hrest
          · rw [hadmits, Bool.true_and, ← hrest]
            simp only [run_bind, hrun, adjustTime_endpoint]
            generalize (insertOrUpdateLoop slots source timePenalty now services (service.endpoint :: seen)
              fun n => choices (n + 1)).run b₁ = rest
            cases rest <;> simp
          · intro service' choice' hnot
            refine admits_after slots h hrun h₁ ?_ choice'
            rw [adjustTime_endpoint]
            intro heq
            exact hnot (heq ▸ List.mem_cons_self)
        · obtain ⟨b', habort⟩ := insertOrUpdateImpl_aborts slots h hadmits timePenalty
          simp [habort, hadmits]

/-! ## Runs with any addresses -/

/-- The book is reached from the empty one by calls that all returned. -/
def Reachable (b : AddressBook) : Prop := ∃ calls, (runCalls slots calls).run {} = .ok () b

/-- An insertion or update that returned was admitted. -/
theorem insertOrUpdateImpl_valid (h : Valid b) (hlast : b.lastUsedId < 2 ^ 32) {service : NodeService}
    {source : IPAddress} {timePenalty : Int} {choice : Choice} {inserted : Bool} {b' : AddressBook}
    (hrun : (insertOrUpdateImpl slots service source timePenalty choice).run b = .ok inserted b') : Valid b' := by
  by_cases hadmits : admits b service source choice
  · exact ((insertOrUpdateImpl_ensures slots h hlast hadmits timePenalty).of_run hrun).1
  · obtain ⟨b'', habort⟩ := insertOrUpdateImpl_aborts slots h hadmits timePenalty
    rw [habort] at hrun
    cases hrun

theorem insertOrUpdateLoop_valid (h : Valid b) {source : IPAddress} {timePenalty now : Int}
    {services kept : List NodeService} {seen : List IPEndpoint} {choices : Nat → Choice} {b' : AddressBook}
    (hrun : (insertOrUpdateLoop slots source timePenalty now services seen choices).run b = .ok kept b')
    (hlast : b'.lastUsedId < 2 ^ 32) : Valid b' := by
  induction services generalizing b seen choices kept with
  | nil =>
      cases hrun
      exact h
  | cons service services ih =>
      unfold insertOrUpdateLoop at hrun
      split_ifs at hrun with hbit hseen
      · exact ih h hrun
      · exact ih h hrun
      · obtain ⟨inserted, b₁, hfirst, hrest⟩ := run_bind_ok hrun
        obtain ⟨kept', b₂, hloop, hpure⟩ := run_bind_ok hrest
        cases hpure
        have hgrows₁ := (grows_insertOrUpdateImpl slots (adjustTime now service) source timePenalty (choices 0)).le b
        have hgrows₂ := (grows_insertOrUpdateLoop slots source timePenalty now services
          ((adjustTime now service).endpoint :: seen) fun n => choices (n + 1)).le b₁
        rw [hfirst] at hgrows₁
        rw [hloop] at hgrows₂
        exact ih (insertOrUpdateImpl_valid slots h ((hgrows₁.trans hgrows₂).trans_lt hlast) hfirst) hloop

theorem perform_valid (h : Valid b) {call : Call} {b' : AddressBook} (hrun : (call.perform slots).run b = .ok () b')
    (hlast : b'.lastUsedId < 2 ^ 32) : Valid b' := by
  have hfew : ((call.perform slots).run b).state.lastUsedId < 2 ^ 32 := by
    rw [hrun]
    exact hlast
  have hother : call.Routable → Valid b' := fun hroutable => (perform_ensures slots h hroutable hfew).of_run hrun
  cases call with
  | insertOrUpdate service source timePenalty choice =>
      obtain ⟨inserted, b₁, himpl, hpure⟩ := run_bind_ok hrun
      cases hpure
      exact insertOrUpdateImpl_valid slots h (((grows_perform slots _).le b).trans_lt hfew) himpl
  | insertOrUpdateAll services source timePenalty now choices =>
      obtain ⟨kept, b₁, hall, hpure⟩ := run_bind_ok hrun
      cases hpure
      obtain ⟨kept', b₂, hloop, hpure⟩ := run_bind_ok hall
      cases hpure
      exact insertOrUpdateLoop_valid slots h hloop hlast
  | setGood => exact hother trivial
  | setFailed => exact hother trivial
  | setTried => exact hother trivial
  | selectRandom => exact hother trivial
  | getRandomServices => exact hother trivial

theorem runCalls_valid (h : Valid b) {calls : List Call} {b' : AddressBook}
    (hrun : (runCalls slots calls).run b = .ok () b') (hlast : b'.lastUsedId < 2 ^ 32) : Valid b' := by
  induction calls generalizing b with
  | nil =>
      cases hrun
      exact h
  | cons call calls ih =>
      obtain ⟨_, b₁, hfirst, hrest⟩ := run_bind_ok hrun
      have hgrows := (grows_runCalls slots calls).le b₁
      rw [hrest] at hgrows
      exact ih (perform_valid slots h hfirst (hgrows.trans_lt hlast)) hrest

theorem Reachable.valid (h : Reachable slots b) (hlast : b.lastUsedId < 2 ^ 32) : Valid b := by
  obtain ⟨calls, hrun⟩ := h
  exact runCalls_valid slots valid_empty hrun hlast

end Znode.Net.AddressBook
