import Mathlib
import Znode.AddressBook.Sampling
import Znode.Net.Push
import Znode.Net.Codecs

/-!
# The reply to `getaddr`

The services `get_random_services` returns have distinct endpoints, so their encodings are distinct and the
`addr` message that holds them passes the checks on outgoing messages.

* `Selection`, `getRandomServices_selects` : what is returned, whatever is drawn;
* `isVector_addr` : the payload is a vector of the grammar;
* `addr_reply_pushed` : the message is made.
-/

namespace Znode.Net.AddressBook
open Znode.Lib Znode.Core Act

/-! ## What is selected -/

/-- At most `count` services of the book, with distinct endpoints. -/
structure Selection (b : AddressBook) (count : Nat) (services : List NodeService) : Prop where
  length_le : services.length ≤ count
  distinct : (services.map (·.endpoint)).Nodup
  listed : ∀ service ∈ services, ∃ id e, b.content id = some e ∧ e.info.service = service

variable {b b' : AddressBook}

theorem requireInfo_ok {id : Nat} {info : NodeServiceInfo} (hrun : (requireInfo id).run b = .ok info b') :
    b' = b ∧ ∃ e, b.entry id = some e ∧ e.info = info := by
  cases he : b.entry id with
  | none => simp [requireInfo, AddressBook.info, he] at hrun
  | some e =>
      rw [requireInfo_run he] at hrun
      cases hrun
      exact ⟨rfl, e, rfl, rfl⟩

/-- A swap that returned changed the order and the positions only. -/
theorem swapRandomlyOrderedIds_content {i j : Nat} (hrun : (swapRandomlyOrderedIds i j).run b = .ok () b') :
    b'.content = b.content := by
  unfold swapRandomlyOrderedIds at hrun
  split_ifs at hrun with hij
  · cases hrun
    rfl
  · obtain ⟨_, _, hget, hrun⟩ := run_bind_ok hrun
    cases hget
    split at hrun
    · rename_i a c _ _
      obtain ⟨_, b₁, ha, hrun⟩ := run_bind_ok hrun
      obtain ⟨_, b₂, hc, hrun⟩ := run_bind_ok hrun
      rw [(requireInfo_ok hc).1, (requireInfo_ok ha).1] at hrun
      cases hrun
      exact (content_setPos c i).trans (content_setPos a j)
    · cases hrun

theorem Selection.push {count : Nat} {services : List NodeService} (h : Selection b count services)
    (hroom : services.length < count) {id : Nat} {e : AddressBookEntry} (he : b.content id = some e)
    (hnew : e.info.service.endpoint ∉ services.map (·.endpoint)) :
    Selection b count (services ++ [e.info.service]) := by
  refine ⟨by rw [List.length_append]; exact hroom, ?_, ?_⟩
  · rw [List.map_append, List.nodup_append_comm]
    exact List.nodup_cons.mpr ⟨hnew, h.distinct⟩
  · intro service hservice
    rcases List.mem_append.mp hservice with hold | hnew
    · exact h.listed service hold
    · rw [List.mem_singleton.mp hnew]
      exact ⟨id, e, he, rfl⟩

theorem Selection.congr {count : Nat} {services : List NodeService} (h : Selection b count services)
    (hcontent : b'.content = b.content) : Selection b' count services :=
  ⟨h.length_le, h.distinct, by rw [hcontent]; exact h.listed⟩

/-- The endpoints kept in `selected` are those of the services so far. -/
theorem randomServicesLoop_selects {count : Nat} {type : Option IPAddressType} {now : Int} {rounds i : Nat}
    {selected : List IPEndpoint} {ret services : List NodeService} {draws : Nat → Nat}
    (hselected : ∀ endpoint, endpoint ∈ ret.map (·.endpoint) → endpoint ∈ selected) (hret : Selection b count ret)
    (hrun : (randomServicesLoop count type now rounds i selected ret draws).run b = .ok services b') :
    Selection b count services := by
  induction rounds generalizing b i selected ret draws with
  | zero =>
      cases hrun
      exact hret
  | succ rounds ih =>
      unfold randomServicesLoop at hrun
      split_ifs at hrun with hcount
      · cases hrun
        exact hret
      obtain ⟨_, _, hget, hrun⟩ := run_bind_ok hrun
      cases hget
      obtain ⟨_, b₁, hswap, hrun⟩ := run_bind_ok hrun
      obtain ⟨_, _, hget, hrun⟩ := run_bind_ok hrun
      cases hget
      have hcontent := swapRandomlyOrderedIds_content hswap
      -- the rest of the loop selects from the book after the swap
      suffices hrest : Selection b₁ count services from hrest.congr hcontent.symm
      have hret₁ : Selection b₁ count ret := hret.congr hcontent
      split at hrun
      · cases hrun
      · obtain ⟨info, b₂, hinfo, hrun⟩ := run_bind_ok hrun
        obtain ⟨rfl, e, he, rfl⟩ := requireInfo_ok hinfo
        split_ifs at hrun with htype hbad hseen
        · exact ih hselected hret₁ hrun
        · exact ih hselected hret₁ hrun
        · exact ih hselected hret₁ hrun
        · refine ih ?_ (hret₁.push (by omega) (content_of_entry he) ?_) hrun
          · intro endpoint hmem
            rw [List.map_append, List.mem_append] at hmem
            rcases hmem with hold | hnew
            · exact List.mem_cons_of_mem _ (hselected endpoint hold)
            · rw [List.mem_singleton.mp hnew]
              exact List.mem_cons_self
          · exact fun hmem => hseen (hselected _ hmem)

theorem servicesCount_le {size maxCount maxPercentage : Nat} (hmax : 0 < maxCount) :
    servicesCount size maxCount maxPercentage ≤ maxCount := by
  unfold servicesCount
  simp only [gt_iff_lt, hmax, if_true]
  exact min_le_right _ _

theorem getRandomServices_selects {maxCount maxPercentage : Nat} {type : Option IPAddressType} {now : Int}
    {draws : Nat → Nat} {services : List NodeService} (hmax : 0 < maxCount)
    (hrun : (getRandomServices maxCount maxPercentage type now draws).run b = .ok services b') :
    Selection b maxCount services := by
  have hnil : ∀ count, Selection b count [] := fun count =>
    ⟨Nat.zero_le count, List.nodup_nil, fun service h => absurd h List.not_mem_nil⟩
  unfold getRandomServices at hrun
  obtain ⟨_, _, hget, hrun⟩ := run_bind_ok hrun
  cases hget
  dsimp only at hrun
  split_ifs at hrun with hsize
  · cases hrun
    exact hnil maxCount
  · have h := randomServicesLoop_selects (fun _ hmem => absurd hmem List.not_mem_nil) (hnil _) hrun
    exact ⟨h.length_le.trans (servicesCount_le hmax), h.distinct, h.listed⟩

/-! ## The message -/

def addrBytes (services : List NodeService) : Bytes :=
  compactBytes services.length ++ services.flatMap fun s => s.cut.encode

variable {services : List NodeService}

theorem length_items (services : List NodeService) :
    (services.flatMap fun s => s.cut.encode).length = services.length * kAddrItemSize := by
  rw [List.flatMap_def, length_flatten_of_length (List.forall_mem_map.mpr fun s _ => s.cut.length_encode),
    List.length_map]
  rfl

/-- Services with distinct endpoints have distinct encodings. -/
theorem nodup_encodings (hdistinct : (services.map (·.endpoint)).Nodup)
    (hmapped : ∀ s ∈ services, ¬ s.endpoint.address.isV4Mapped) :
    (services.map fun s => s.cut.encode).Nodup := by
  refine List.Nodup.map_on ?_ hdistinct.of_map
  intro s hs s' hs' heq
  -- the endpoint is the end of the encoding
  have hversion := (List.append_inj heq (by rw [length_leBytes, length_leBytes])).2
  have hend := (List.append_inj hversion (by rw [length_leBytes, length_leBytes])).2
  exact List.inj_on_of_nodup_map hdistinct hs hs' (IPEndpoint.encode_injective (hmapped s hs) (hmapped s' hs') hend)

theorem isVector_addr (hpos : 0 < services.length) (hmax : services.length ≤ kMaxAddrItems)
    (hdistinct : (services.map (·.endpoint)).Nodup)
    (hmapped : ∀ s ∈ services, ¬ s.endpoint.address.isV4Mapped) :
    IsVector (definitionOf .kAddr) (addrBytes services) := by
  refine ⟨services.length, [], services.flatMap fun s => s.cut.encode, rfl, rfl, hpos, ⟨_, rfl, hmax⟩, ?_⟩
  rintro size ⟨⟩
  refine ⟨?_, ?_⟩
  · rw [addrBytes, List.length_append, length_compactBytes, length_items, if_neg (by decide),
      show Message.vectorOffset (definitionOf .kAddr) = 0 from rfl, Nat.zero_add, Nat.add_zero]
  · rw [List.flatMap_def, dataChunks_flatten (by decide) (List.forall_mem_map.mpr fun s _ => s.cut.length_encode)]
    exact nodup_encodings hdistinct hmapped

theorem push_addr (sha256 : Bytes → Octets 32) (version : Int) (magic : Octets 4) (hpos : 0 < services.length)
    (hmax : services.length ≤ kMaxAddrItems) (hdistinct : (services.map (·.endpoint)).Nodup)
    (hmapped : ∀ s ∈ services, ¬ s.endpoint.address.isV4Mapped) :
    ∃ m, (Message.push sha256 (.addr { identifiers := services })).run (Message.new version magic) = .ok () m := by
  have hsize : (addrBytes services).length = serCompactSizeof services.length + services.length * kAddrItemSize := by
    rw [addrBytes, List.length_append, length_compactBytes, length_items]
  have hcompact := serCompactSizeof_mono hmax
  have hitems := Nat.mul_le_mul_right kAddrItemSize hmax
  have hroom : kMessageHeaderLength + (serCompactSizeof kMaxAddrItems + kMaxAddrItems * kAddrItemSize) ≤
    kMaxStreamSize := by decide
  have hframe : kMessageHeaderLength + (serCompactSizeof kMaxAddrItems + kMaxAddrItems * kAddrItemSize) ≤
    kMaxProtocolMessageLength := by decide
  have hemits : Emits (MessagePayload.serialization .kSerialize) (.addr { identifiers := services })
      (.addr { identifiers := services.map NodeService.cut }) (addrBytes services) := fun s hfit =>
    SerOf.lift_ok (MsgAddrPayload.emits hpos hmax s hfit)
  refine (Message.push_ok_iff sha256 hemits (by omega) version magic).mpr ?_
  refine Message.isMessage_pushed sha256 (MessagePayload.type_ne_missing _) ?_ ?_ (by omega) ?_
  · rintro hi ⟨⟩
    rw [hsize]
    exact Nat.add_le_add hcompact hitems
  · rintro lo ⟨⟩
    rw [hsize]
    exact Nat.add_le_add (serCompactSizeof_pos _) (Nat.le_mul_of_pos_left _ hpos)
  · exact fun _ => isVector_addr hpos hmax hdistinct hmapped

/-- **The reply to `getaddr` can be sent**, whatever was drawn. -/
theorem addr_reply_pushed (sha256 : Bytes → Octets 32) (version : Int) (magic : Octets 4) (h : Valid b)
    (hmapped : ∀ id e, b.entry id = some e → ¬ e.endpoint.address.isV4Mapped) {type : Option IPAddressType} {now : Int}
    {draws : Nat → Nat} (hrun : (getRandomServices kMaxAddrItems 25 type now draws).run b = .ok services b')
    (hne : services ≠ []) :
    ∃ m, (Message.push sha256 (.addr { identifiers := services })).run (Message.new version magic) = .ok () m := by
  have hselects := getRandomServices_selects (by decide) hrun
  refine push_addr sha256 version magic (List.length_pos_of_ne_nil hne) hselects.length_le hselects.distinct ?_
  intro s hs
  obtain ⟨id, c, hc, rfl⟩ := hselects.listed s hs
  obtain ⟨e, he, rfl⟩ := exists_entry hc
  rw [(h.coherent.filed.entries id _ hc).endpoint]
  exact hmapped id e he

/-- A quarter of them is one. -/
theorem addr_reply_pushed_fourBook : ∃ services b',
    (getRandomServices kMaxAddrItems 25 none 1700000000 fun _ => 2).run fourBook = .ok services b' ∧ services ≠ [] ∧
      ∃ m, (Message.push (fun _ => kEmptyHash) (.addr { identifiers := services })).run
        (Message.new 170002 (Octets.zero 4)) = .ok () m := by
  have hcount : (Act.run (do
      let services ← getRandomServices kMaxAddrItems 25 none 1700000000 fun _ => 2
      Act.require .assert (services ≠ [])) fourBook).isOk := by decide +kernel
  have hids : fourBook.randomlyOrderedIds = [1, 2, 3, 4] := by decide +kernel
  have hv4 : ∀ id ∈ [1, 2, 3, 4], (fourBook.entry id).all fun e => !e.endpoint.address.isV4Mapped := by decide +kernel
  obtain ⟨services, b', hrun, -⟩ := getRandomServices_ensures fourBook_valid (by decide +kernel) kMaxAddrItems 25 none
    1700000000 fun _ => 2
  have hne : services ≠ [] := by
    rintro rfl
    simp [hrun, Outcome.isOk] at hcount
  refine ⟨services, b', hrun, hne, addr_reply_pushed _ _ _ fourBook_valid ?_ hrun hne⟩
  intro id e he
  have hid := (fourBook_valid.coherent.ordered.mem_iff id).mpr ⟨e, he⟩
  rw [hids] at hid
  simpa [he] using hv4 id hid

end Znode.Net.AddressBook
