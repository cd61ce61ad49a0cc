import Mathlib
import Znode.AddressBook.Runs

/-!
# What one step does to the peers of a book

* `Step` : one call of `insert_entry`, `update_entry` or `make_entry_tried`;
* `steps_no_unjustified_loss` : the peer a step loses had one reference, to the slot the step takes; a tried
  entry that leaves its slot gets a reference;
* `insertOrUpdate_penalty_iff` : the time a new entry gets. The two addresses that decide on the penalty are
  compared by an `operator==` that finds all addresses equal.
-/

namespace Znode.Net.AddressBook
open Znode.Lib Znode.Core Act

/-! ## Losses -/

inductive Step where
  | insertEntry (service : NodeService) (source : IPAddress) (timePenalty : Int)
  | updateEntry (entryId : Nat) (service : NodeService) (source : IPAddress) (timePenalty : Int) (choice : Choice)
  | makeEntryTried (entryId : Nat)

section
variable (slots : SlotFunctions)

def Step.perform : Step → Book Unit
  | .insertEntry service source timePenalty => do
    let _ ← AddressBook.insertEntry slots service source timePenalty
  | .updateEntry entryId service source timePenalty choice =>
    AddressBook.updateEntry slots entryId service source timePenalty choice
  | .makeEntryTried entryId => AddressBook.makeEntryTried slots entryId

end

def Gone (b b' : AddressBook) (id : Nat) : Prop := (b.entry id).isSome ∧ b'.entry id = none

/-- What a step may do to the peers of `b`. -/
structure NoUnjustifiedLoss (b b' : AddressBook) : Prop where
  at_most_one : ∀ id id', Gone b b' id → Gone b b' id' → id = id'
  /-- The one that is gone had one reference, to a slot of the new buckets that has another id now. -/
  overwritten : ∀ id e, b.entry id = some e → b'.entry id = none → e.info.triedRef = none ∧
    ∃ xy id', e.info.newRefs = {xy} ∧ b.newBuckets.get xy = some id ∧ b'.newBuckets.get xy = some id' ∧ id' ≠ id
  /-- A tried entry stays, in its slot or with a reference to the new buckets. -/
  tried : ∀ id e xy, b.entry id = some e → e.info.triedRef = some xy → ∃ e', b'.entry id = some e' ∧
    (e'.info.triedRef = some xy ∨ e'.info.triedRef = none ∧ e'.info.newRefs ≠ ∅)
  same : ∀ id e e', b.entry id = some e → b'.entry id = some e' → e.SamePeer e'

variable {b b' : AddressBook}

theorem content_eq_none_iff {id : Nat} : b.content id = none ↔ b.entry id = none := Option.map_eq_none_iff

theorem samePeer_of_bare {e e' : AddressBookEntry} (h : e.bare.SamePeer e'.bare) : e.SamePeer e' :=
  ⟨h.endpoint, h.service, h.origin⟩

/-- An entry with the slot among its references is the one in the slot. -/
theorem Coherent.newBuckets_get (h : Coherent b) {id xy : Nat} {e : AddressBookEntry} (he : b.entry id = some e)
    (hrefs : e.info.newRefs = {xy}) : b.newBuckets.get xy = some id := by
  rw [h.filed.new.inverse, newRefsOf_entry he, hrefs]
  exact Finset.mem_singleton_self xy

/-- From the frame of a step, when every slot that is taken is taken by an id that is new or still there. -/
theorem Frame.no_unjustified_loss (hframe : Frame b b') (h : Coherent b)
    (htaken : ∀ xy id, b'.newBuckets.get xy = some id → b.entry id = none ∨ b'.entry id ≠ none)
    (htried : ∀ id e xy, b.entry id = some e → e.info.triedRef = some xy → ∃ e', b'.entry id = some e' ∧
      (e'.info.triedRef = some xy ∨ e'.info.triedRef = none ∧ e'.info.newRefs ≠ ∅)) : NoUnjustifiedLoss b b' := by
  have hgone : ∀ id e, b.entry id = some e → b'.entry id = none → e.info.triedRef = none ∧
      ∃ xy, e.info.newRefs = {xy} ∧ Spares xy b b' ∧ (b'.newBuckets.get xy).isSome := by
    intro id e he hnone
    rcases hframe with hretains | ⟨xy, hspares, hsome⟩
    · obtain ⟨c, hc, -⟩ := hretains id _ (content_of_entry he)
      rw [content_eq_none_iff.mpr hnone] at hc
      cases hc
    · rcases hspares id _ (content_of_entry he) with ⟨c, hc, -⟩ | ⟨-, hrefs, htried'⟩
      · rw [content_eq_none_iff.mpr hnone] at hc
        cases hc
      · exact ⟨htried', xy, hrefs, hspares, hsome⟩
  refine ⟨?_, ?_, htried, ?_⟩
  · rintro id id' ⟨hid, hnone⟩ ⟨hid', hnone'⟩
    obtain ⟨e, he⟩ := Option.isSome_iff_exists.mp hid
    obtain ⟨e', he'⟩ := Option.isSome_iff_exists.mp hid'
    obtain ⟨-, xy, hrefs, hspares, -⟩ := hgone id e he hnone
    -- the second one is gone from the same slot
    rcases hspares id' _ (content_of_entry he') with ⟨c, hc, -⟩ | ⟨-, hrefs', -⟩
    · rw [content_eq_none_iff.mpr hnone'] at hc
      cases hc
    · exact Option.some.inj ((h.newBuckets_get he hrefs).symm.trans (h.newBuckets_get he' hrefs'))
  · intro id e he hnone
    obtain ⟨htried', xy, hrefs, -, hsome⟩ := hgone id e he hnone
    obtain ⟨id', hid'⟩ := Option.isSome_iff_exists.mp hsome
    refine ⟨htried', xy, id', hrefs, h.newBuckets_get he hrefs, hid', ?_⟩
    rintro rfl
    rcases htaken xy id' hid' with hnew | hthere
    · rw [hnew] at he
      cases he
    · exact hthere hnone
  · intro id e e' he he'
    apply samePeer_of_bare
    rcases hframe with hretains | ⟨xy, hspares, -⟩
    · obtain ⟨c, hc, hsame⟩ := hretains id _ (content_of_entry he)
      rw [content_of_entry he'] at hc
      rwa [Option.some.inj hc]
    · rcases hspares id _ (content_of_entry he) with ⟨c, hc, hsame⟩ | ⟨hnone, -⟩
      · rw [content_of_entry he'] at hc
        rwa [Option.some.inj hc]
      · rw [content_of_entry he'] at hnone
        cases hnone

/-- At most one tried slot changes hands, and no entry is left without a place. -/
theorem Valid.tried_stays (h : Valid b) (h' : Valid b') {slot : Nat}
    (hslot : ∀ s, s ≠ slot → b'.triedBuckets.get s = b.triedBuckets.get s) (hframe : Frame b b') {id xy : Nat}
    {e : AddressBookEntry} (he : b.entry id = some e) (htried : e.info.triedRef = some xy) :
    ∃ e', b'.entry id = some e' ∧ (e'.info.triedRef = some xy ∨ e'.info.triedRef = none ∧ e'.info.newRefs ≠ ∅) := by
  have hget : ∀ s, b.triedBuckets.get s = some id ↔ s = xy := by
    intro s
    rw [h.coherent.filed.tried.inverse, triedRefsOf_entry he, htried]
    simp
  have hthere : ∃ c, b'.content id = some c := by
    rcases hframe with hretains | ⟨_, hspares, -⟩
    · obtain ⟨c, hc, -⟩ := hretains id _ (content_of_entry he)
      exact ⟨c, hc⟩
    · rcases hspares id _ (content_of_entry he) with ⟨c, hc, -⟩ | ⟨-, -, hnone⟩
      · exact ⟨c, hc⟩
      · rw [AddressBookEntry.bare_triedRef, htried] at hnone
        cases hnone
  obtain ⟨c, hc⟩ := hthere
  obtain ⟨e', he', rfl⟩ := exists_entry hc
  have hget' : ∀ s, b'.triedBuckets.get s = some id ↔ e'.info.triedRef = some s := by
    intro s
    rw [h'.coherent.filed.tried.inverse, triedRefsOf_entry he']
    simp
  refine ⟨e', he', ?_⟩
  cases htried' : e'.info.triedRef with
  | none =>
      refine Or.inr ⟨rfl, ?_⟩
      have hplace := h'.housed id _ hc (by simp)
      simpa [htried'] using hplace
  | some s =>
      left
      -- two slots of the same id, of which one at most has changed hands
      have hs := (hget' s).mpr htried'
      by_cases hslot' : s = slot
      · by_cases hxy : xy = slot
        · rw [hslot', hxy]
        · have hother := (hget' xy).mp ((hslot xy hxy).trans ((hget xy).mpr rfl))
          rw [← hother, htried']
      · rw [hslot s hslot'] at hs
        rw [(hget s).mp hs]

theorem Coherent.taken_there (h' : Coherent b') (xy id : Nat) (hget : b'.newBuckets.get xy = some id) :
    b.entry id = none ∨ b'.entry id ≠ none := by
  obtain ⟨e, he⟩ := h'.leads_new xy id hget
  exact Or.inr (by rw [he]; exact Option.some_ne_none e)

section
variable (slots : SlotFunctions)

/-- Whether or not the index takes the entry. -/
theorem insertEntry_no_unjustified_loss (h : Valid b) (hlast : b.lastUsedId < 2 ^ 32) {service : NodeService}
    {source : IPAddress} {timePenalty : Int} {taken : Option Nat}
    (hrun : (insertEntry slots service source timePenalty).run b = .ok taken b') : NoUnjustifiedLoss b b' := by
  have hsource : source.isRoutable := by
    by_contra hnot
    simp [insertEntry, getNewSlot, hnot] at hrun
  have hservice : service.endpoint.address.isRoutable := by
    by_contra hnot
    simp [insertEntry, getNewSlot, hsource, hnot] at hrun
  obtain ⟨_, b₁, hclear, h₁, -, hcleared⟩ := clearNewSlot_ensures (b := { b with lastUsedId := b.lastUsedId + 1 })
    (h.coherent.setLastUsedId (Nat.le_succ _)) hlast h.housed (slots.newSlot_lt service.endpoint source)
  have hnew : b.content b.lastUsedId = none := by
    by_contra hsome
    obtain ⟨c, hc⟩ := Option.ne_none_iff_exists'.mp hsome
    exact absurd (h.coherent.filed.entries _ c hc).id_lt (Nat.lt_irrefl _)
  have hnew₁ : b₁.content b.lastUsedId = none := by
    by_contra hsome
    obtain ⟨c, hc⟩ := Option.ne_none_iff_exists'.mp hsome
    obtain ⟨c', hc', -⟩ := hcleared.endpoints _ c hc
    exact absurd (hnew.symm.trans hc') (Option.some_ne_none c').symm
  -- the content changes at the new id only
  obtain ⟨o, hcontent, hbuckets⟩ : ∃ o, b'.content = Function.update b₁.content b.lastUsedId o ∧
      b'.newBuckets = b₁.newBuckets.insert (slots.newSlot service.endpoint source).xy b.lastUsedId := by
    rw [insertEntry_run slots rfl hsource hservice hclear hcleared.empty, Nat.mod_eq_of_lt hlast] at hrun
    dsimp only at hrun
    split_ifs at hrun
    · cases hrun
      exact ⟨none, by rw [← hnew₁, Function.update_eq_self]; rfl, rfl⟩
    · cases hrun
      exact ⟨_, content_eq_update (entry_insert rfl), rfl⟩
  have hne : ∀ id c, b.content id = some c → id ≠ b.lastUsedId := by
    rintro id c hc rfl
    rw [hnew] at hc
    cases hc
  have hframe : Frame b b' := by
    refine Or.inr ⟨(slots.newSlot service.endpoint source).xy, ?_, by simp [hbuckets, Table.get_insert]⟩
    intro id c hc
    rw [hcontent, Function.update_of_ne (hne id c hc)]
    exact hcleared.spares id c hc
  refine hframe.no_unjustified_loss h.coherent ?_ ?_
  · intro xy id hget
    rw [hbuckets, Table.get_insert] at hget
    split_ifs at hget
    · rw [← Option.some.inj hget]
      exact Or.inl (content_eq_none_iff.mp hnew)
    · by_cases hid : id = b.lastUsedId
      · rw [hid]
        exact Or.inl (content_eq_none_iff.mp hnew)
      · obtain ⟨e, he⟩ := h₁.leads_new xy id hget
        right
        rw [Ne, ← content_eq_none_iff, hcontent, Function.update_of_ne hid, content_of_entry he]
        exact Option.some_ne_none _
  · intro id e xy he htried
    have hc := content_of_entry he
    have hrefs : e.bare.info.newRefs = ∅ :=
      (h.coherent.filed.entries id _ hc).disjoint (by rw [AddressBookEntry.bare_triedRef, htried]; rfl)
    have hkept : b'.content id = some e.bare := by
      rw [hcontent, Function.update_of_ne (hne id _ hc), hcleared.keeps id, ← hc]
      · rfl
      · change _ ∉ newRefsOf b.content id
        rw [newRefsOf_some hc, hrefs]
        exact Finset.notMem_empty _
    obtain ⟨e', he', hbare⟩ := exists_entry hkept
    refine ⟨e', he', Or.inl ?_⟩
    rw [← AddressBookEntry.bare_triedRef, hbare, AddressBookEntry.bare_triedRef, htried]

theorem updateEntry_no_unjustified_loss (h : Valid b) (hlast : b.lastUsedId < 2 ^ 32) {id : Nat}
    {service : NodeService} {source : IPAddress} {timePenalty : Int} {choice : Choice}
    (hrun : (updateEntry slots id service source timePenalty choice).run b = .ok () b') : NoUnjustifiedLoss b b' := by
  cases he : b.entry id with
  | none => simp [updateEntry, mapInfo, he, requireInfo, info] at hrun
  | some e =>
      have hgo : leavesBuckets service choice.draw (refreshed service timePenalty choice.clock e.info) ∨
          source.isRoutable := by
        by_contra hnot
        rw [not_or] at hnot
        rw [updateEntry_aborts slots h.coherent h.housed he hnot.1 hnot.2] at hrun
        cases hrun
      obtain ⟨h', hhoused', -, hframe, hbuckets⟩ :=
        (updateEntry_ensures slots h.coherent hlast.le h.housed he hgo).of_run hrun
      refine hframe.no_unjustified_loss h.coherent h'.taken_there fun k c xy hc htried => ?_
      exact h.tried_stays ⟨h', hhoused'⟩ (fun s (_ : s ≠ 0) => by rw [hbuckets]) hframe hc htried

theorem makeEntryTried_no_unjustified_loss (h : Valid b) (hlast : b.lastUsedId < 2 ^ 32) {id : Nat}
    (hrun : (makeEntryTried slots id).run b = .ok () b') : NoUnjustifiedLoss b b' := by
  cases he : b.entry id with
  | none => simp [makeEntryTried, requireInfo, info, he] at hrun
  | some e =>
      obtain ⟨h', hhoused', -, hframe, slot, hslot⟩ :=
        (makeEntryTried_ensures slots h.coherent hlast.le h.housed he).of_run hrun
      refine hframe.no_unjustified_loss h.coherent h'.taken_there fun k c xy hc htried => ?_
      exact h.tried_stays ⟨h', hhoused'⟩ hslot hframe hc htried

/-- **No unjustified loss of peers**, in one step from any book that keeps the invariant. -/
theorem steps_no_unjustified_loss (h : Valid b) (hlast : b.lastUsedId < 2 ^ 32) {step : Step}
    (hrun : (step.perform slots).run b = .ok () b') : NoUnjustifiedLoss b b' := by
  cases step with
  | insertEntry service source timePenalty =>
      obtain ⟨taken, b₁, hinsert, hpure⟩ := run_bind_ok hrun
      cases hpure
      exact insertEntry_no_unjustified_loss slots h hlast hinsert
  | updateEntry entryId service source timePenalty choice => exact updateEntry_no_unjustified_loss slots h hlast hrun
  | makeEntryTried entryId => exact makeEntryTried_no_unjustified_loss slots h hlast hrun

/-- The slots of a hash that is always zero, and the book with the first of two services that collide. -/
def collidingSlots : SlotFunctions := SlotFunctions.ofSipHash (fun _ _ => ⟨List.replicate 8 0, rfl⟩) []

def collidingBook : AddressBook := bookAfter collidingSlots (collidingCalls.take 1)

theorem collidingBook_valid : Valid collidingBook := by
  refine valid_bookAfter collidingSlots ?_ (by decide +kernel)
  intro call hcall
  rw [List.mem_singleton.mp hcall]
  exact ⟨by decide, by decide⟩

/-- The second service takes the slot of the first one, which is gone. -/
def collidingStep : Step :=
  .insertEntry { services := 1, endpoint := { address := .ofV4 1 2 3 5, port := 9033 } } (.ofV4 8 8 8 8) 0

theorem steps_no_unjustified_loss_colliding :
    Gone collidingBook ((collidingStep.perform collidingSlots).run collidingBook).state 1 ∧
      NoUnjustifiedLoss collidingBook ((collidingStep.perform collidingSlots).run collidingBook).state :=
  ⟨⟨by decide +kernel, by decide +kernel⟩, steps_no_unjustified_loss collidingSlots collidingBook_valid
    (by decide +kernel) (Outcome.eq_ok_of_isOk (by decide +kernel))⟩

/-! ## The time penalty -/

/-- The service is inserted with the time of its advertisement, less the penalty unless it advertises itself. -/
def TakesPenalty (b : AddressBook) (service : NodeService) (source : IPAddress) (timePenalty : Int)
    (choice : Choice) : Prop :=
  ∃ b' id e, (insertOrUpdate slots service source timePenalty choice).run b = .ok true b' ∧
    b'.entry id = some e ∧ e.endpoint = service.endpoint ∧
    e.info.service.time =
      if source = service.endpoint.address then max kTimeInit service.time
      else max kTimeInit (service.time - timePenalty)

/-- **The penalty is right exactly when it makes no difference**: the two addresses are always found equal. -/
theorem insertOrUpdate_penalty_iff (h : Valid b) (hlast : b.lastUsedId < 2 ^ 32) {service : NodeService}
    (hfresh : b.lookupEndpoint service.endpoint = none) {source : IPAddress} (hsource : source.isRoutable)
    {timePenalty : Int} (hpenalty : 0 ≤ timePenalty) (choice : Choice) :
    TakesPenalty slots b service source timePenalty choice ↔ service.endpoint.address.isRoutable ∧
      (source = service.endpoint.address ∨ timePenalty = 0 ∨ service.time ≤ kTimeInit) := by
  by_cases hservice : service.endpoint.address.isRoutable
  · obtain ⟨_, b', hrun, rfl, h', -, e, he, hend, htime⟩ :=
      insertOrUpdateImpl_fresh slots h hlast hsource hservice hfresh timePenalty choice
    rw [and_iff_right hservice]
    constructor
    · rintro ⟨b'', id, e', hrun', he', hend', htime'⟩
      cases hrun.symm.trans hrun'
      have hid := h'.coherent.filed.unique _ _ _ _ (content_of_entry he') (content_of_entry he)
        (hend'.trans hend.symm)
      subst hid
      rw [Option.some.inj (he'.symm.trans he), htime] at htime'
      by_cases hself : source = service.endpoint.address
      · exact Or.inl hself
      · rw [if_neg hself] at htime'
        omega
    · intro hwhen
      refine ⟨b', b.lastUsedId, e, hrun, he, hend, ?_⟩
      rw [htime]
      split_ifs with hself
      · rfl
      · have := hwhen.resolve_left hself
        omega
  · refine iff_of_false ?_ fun hwhen => hservice hwhen.1
    rintro ⟨b', id, e, hrun, -⟩
    simp [insertOrUpdate, insertOrUpdateImpl, hfresh, insertEntry, getNewSlot, hsource, hservice] at hrun

/-- A peer that a node of another network has seen an hour ago. -/
def advertisedService : NodeService :=
  { time := 1700000000, services := 1, endpoint := { address := .ofV4 1 2 3 4, port := 9033 } }

theorem insertOrUpdate_penalty_iff_self :
    TakesPenalty collidingSlots {} advertisedService (.ofV4 1 2 3 4) 7200 ⟨1700003600, 0⟩ :=
  (insertOrUpdate_penalty_iff collidingSlots valid_empty (by decide) rfl (by decide) (by decide) _).mpr
    ⟨by decide, Or.inl rfl⟩

/-- Advertised by another address with a penalty of two hours, it keeps its time. -/
theorem penalty_not_taken :
    (IPAddress.ofV4 8 8 8 8).isRoutable ∧
      (((insertOrUpdate collidingSlots advertisedService (.ofV4 8 8 8 8) 7200 ⟨1700003600, 0⟩).run {}).state.info 1).map
        (·.service.time) = some 1700000000 ∧
      max kTimeInit (advertisedService.time - 7200) = 1699992800 := by
  decide +kernel

end

end Znode.Net.AddressBook
