import Mathlib
import Znode.AddressBook.Info
import Znode.Core.Block

/-!
# Sizes of the serializable classes

What `serialized_size` makes of an object of each class, against what `serialize` writes for it.

* Computing the size cuts the times of a service to 32 bits (`NodeService.sized`), as serializing does;
* it resets the type of an inventory item (`InventoryItem.measures`);
* it fails for the vector classes, which read the number of items from the stream (`measureVector_error`);
* it leaves out the extra data of a rejection (`MsgRejectPayload.sizedWhen`).

`Serializable` is an object of one of these classes, and `serializedSize_right_iff` puts them together.
-/

namespace Znode.Net
open Znode.Lib Znode.Core

/-! ## Addresses and services -/

theorem IPAddress.sized_bind (a : IPAddress) : SizedCall (fun action => IPAddress.bind action a) a 16 :=
  ⟨(sized_bindOctets a.mappedBytes).1.map fun _ => a, (counts_addSize 16).map fun _ => a⟩

theorem sized_bindUInt64 (v : UInt64) : SizedCall (fun action => bindUInt64 action v) v 8 := by
  have h := (sized_bindUInt 8 v.toNat).map UInt64.ofNat
  rwa [UInt64.ofNat_toNat] at h

theorem sized_bindTime {t : Int} (h : 0 ≤ t) : SizedCall (fun action => bindTime action t) t 4 := by
  have hsized := (sized_bindUInt 4 t.toNat).map fun n => (n : Int)
  rwa [Int.toNat_of_nonneg h] at hsized

namespace IPEndpoint

theorem sized_bindPort (port : UInt16) : SizedCall (fun action => bindPort action port) port 2 := by
  have h := (sized_bindUInt 2 (bswap16 port.toNat)).map fun p => UInt16.ofNat (bswap16 p)
  rwa [bswap16_bswap16 port.toNat_lt, UInt16.ofNat_toNat] at h

theorem sized (e : IPEndpoint) : Sized serialization e e 18 := by
  have h : Sized serialization e e (16 + 2) :=
    (Sized.field _ e.address.sized_bind).bind (Sized.field _ (sized_bindPort e.port))
  exact h

end IPEndpoint

namespace NodeService

theorem sized_version (s : NodeService) : Sized versionSerialization s s 26 := by
  have h : Sized versionSerialization s s (8 + 18) :=
    (Sized.field _ (sized_bindUInt64 s.services)).bind (Sized.member _ s.endpoint.sized)
  exact h

theorem sized (s : NodeService) : Sized serialization s s.cut 30 := by
  have h : Sized serialization s s.cut (0 + (4 + 26)) :=
    (Sized.update _ s).bind <|
      (Sized.field _ (sized_bindTime (t := s.cut.time) (Int.emod_nonneg _ (by decide)))).bind s.cut.sized_version
  exact h

end NodeService

def timeFits (t : Int) : Prop := 0 ≤ t ∧ t < 2 ^ 32

theorem emod_eq_iff_timeFits (t : Int) : t % 2 ^ 32 = t ↔ timeFits t := by
  unfold timeFits
  omega

theorem NodeService.cut_eq_iff (s : NodeService) : s.cut = s ↔ timeFits s.time := by
  rw [← emod_eq_iff_timeFits]
  constructor
  · intro h
    exact congrArg NodeService.time h
  · intro h
    rw [NodeService.cut, h]

namespace NodeServiceInfo

/-- The entry that is left: its times are cut to 32 bits. -/
def cut (i : NodeServiceInfo) : NodeServiceInfo :=
  { i with
    service := i.service.cut
    lastConnectionAttempt := i.lastConnectionAttempt % 2 ^ 32
    lastConnectionSuccess := i.lastConnectionSuccess % 2 ^ 32 }

theorem sized (i : NodeServiceInfo) :
    Sized serialization i i.cut
      (30 + ((serCompactSizeof i.userAgent.length + i.userAgent.length) + (16 + (0 + (4 + (0 + (4 + (4 + 4)))))))) := by
  refine (Sized.member _ i.service.sized).bind <|
    (Sized.field _ (sized_bindString _)).bind <|
    (Sized.field _ (IPAddress.sized_bind _)).bind <|
    (Sized.update _ _).bind <|
    (Sized.field _ (sized_bindTime ?_)).bind <|
    (Sized.update _ _).bind <|
    (Sized.field _ (sized_bindTime ?_)).bind <|
    (Sized.field _ (sized_bindUInt 4 _)).bind <|
    Sized.field _ (sized_bindUInt 4 _)
  all_goals exact Int.emod_nonneg _ (by decide)

theorem cut_eq_iff (i : NodeServiceInfo) : i.cut = i ↔
    timeFits i.service.time ∧ timeFits i.lastConnectionAttempt ∧ timeFits i.lastConnectionSuccess := by
  simp only [← emod_eq_iff_timeFits]
  constructor
  · intro h
    exact ⟨congrArg (fun i => i.service.time) h, congrArg lastConnectionAttempt h, congrArg lastConnectionSuccess h⟩
  · rintro ⟨hservice, hattempt, hsuccess⟩
    rw [cut, hattempt, hsuccess, NodeService.cut, hservice]

end NodeServiceInfo

/-! ## Payloads -/

theorem H256.sized (h : H256) : Sized H256.serialization h h 32 := Sized.field _ (sized_bindOctets h)

theorem MsgVersionPayload.sized (p : MsgVersionPayload) :
    Sized MsgVersionPayload.bindMembers p p
      (4 + (8 + (8 + (26 + (26 + (8 + ((serCompactSizeof p.userAgent.length + p.userAgent.length) + (4 + 1)))))))) :=
  (Sized.field _ (sized_bindInt 4 p.protocolVersion)).bind <|
    (Sized.field _ (sized_bindUInt64 p.services)).bind <|
    (Sized.field _ (sized_bindInt 8 p.timestamp)).bind <|
    (Sized.member _ p.recipientService.sized_version).bind <|
    (Sized.member _ p.senderService.sized_version).bind <|
    (Sized.field _ (sized_bindUInt64 p.nonce)).bind <|
    (Sized.field _ (sized_bindString p.userAgent)).bind <|
    (Sized.field _ (sized_bindInt 4 p.lastBlockHeight)).bind <|
    Sized.field _ (sized_bindBool p.relay)

namespace InventoryItem

theorem serializes (i : InventoryItem) : Serializes (serialization .kSerialize) i i 36 := by
  have htype : Adds (bindType .kSerialize i.type) i.type 4 := (sized_bindUInt 4 i.type.toNat).1.map fun _ => i.type
  have h : Serializes (serialization .kSerialize) i i (4 + 32) :=
    (Serializes.field _ htype).bind (Serializes.member _ (H256.sized i.identifier).1)
  exact h

/-- The type that was not read is number zero. -/
theorem counts_bindType (t : InventoryType) : Counts (bindType .kComputeSize t) .kError 4 := by
  have h : Counts (bindUInt 4 .kComputeSize 0 >>= fun _ => pure InventoryType.kError) .kError (4 + 0) :=
    (sized_bindUInt 4 0).2.map fun _ => InventoryType.kError
  exact h

theorem measures (i : InventoryItem) : Measures (serialization .kComputeSize) i { i with type := .kError } 36 := by
  have h : Measures (serialization .kComputeSize) i { i with type := .kError } (4 + 32) :=
    (Measures.field _ (counts_bindType i.type)).bind (Measures.member _ (H256.sized _).2)
  exact h

theorem sizedWhen (i : InventoryItem) : SizedWhen serialization i (i.type = .kError) := by
  refine (SizedWhen.of_measures i.serializes i.measures).congr ((and_iff_right rfl).trans ⟨fun h => ?_, fun h => ?_⟩)
  · exact (congrArg InventoryItem.type h).symm
  · rw [← h]

end InventoryItem

/-! ## Vectors -/

section Vectors
variable {τ : Type} {maxItems : Nat}

theorem adds_writeVectorSize (n maxItems : Nat) : Adds (writeVectorSize n maxItems) () (serCompactSizeof n) :=
  ((adds_writeCompact n).guard _).guard _

theorem readVectorSize_fresh {t : SDataStream} (ht : t.Fresh) (maxItems : Nat) :
    ∃ e t', (readVectorSize maxItems).run t = .error e t' := by
  have hread := readCompact_run t (by rw [ht.2]; exact Nat.zero_le _)
  rw [ht.1, List.drop_nil] at hread
  obtain ⟨p, -, hrun⟩ := hread
  exact ⟨_, _, by unfold readVectorSize; rw [EStateM.run_bind, hrun]⟩

/-- Without an item count to read, computing the size of a vector fails. -/
theorem measureVector_error (maxItems : Nat) (item : τ) (bind : Action → SerOf τ Unit) (l : List τ) {t : SDataStream}
    (ht : t.Fresh) :
    ∃ e ys, (vectorSerialization maxItems item bind .kComputeSize).run (l, t) = .error e ys := by
  obtain ⟨e, t', hrun⟩ := readVectorSize_fresh ht maxItems
  refine ⟨e, (l, t'), ?_⟩
  unfold vectorSerialization
  rw [if_neg (by decide), EStateM.run_bind, SerOf.onStream_run, hrun]

theorem serializes_vector {bind : Action → SerOf τ Unit} {f : τ → τ} {n : Nat} (item : τ)
    (h : ∀ x, Serializes (bind .kSerialize) x (f x) n) (l : List τ) :
    Serializes (vectorSerialization maxItems item bind .kSerialize) l (l.map f)
      (serCompactSizeof l.length + l.length * n) :=
  Serializes.get fun _ => Serializes.onStream (adds_writeVectorSize l.length maxItems) (Serializes.each h l)

/-- The size of a class that is one vector is never right. -/
theorem sizedWhen_vector {σ : Type} {get : σ → List τ} {put : List τ → σ → σ} {bind : Action → SerOf τ Unit}
    {f : τ → τ} {n : Nat} (item : τ) (h : ∀ x, Serializes (bind .kSerialize) x (f x) n) (x : σ) :
    SizedWhen (fun action => SerOf.member get put (vectorSerialization maxItems item bind action)) x False := by
  refine SizedWhen.of_error (fun s z s' hrun => ?_) fun t ht => ?_
  · obtain ⟨-, hlen⟩ := Serializes.member put (serializes_vector item h (get x)) s z s' hrun
    have hpos := serCompactSizeof_pos (get x).length
    omega
  · obtain ⟨e, ys, herror⟩ := measureVector_error maxItems item bind (get x) ht
    exact ⟨e, (put ys.1 x, ys.2), by rw [SerOf.member_run, herror]⟩

end Vectors

theorem MsgAddrPayload.sizedWhen (p : MsgAddrPayload) : SizedWhen MsgAddrPayload.serialization p False := by
  unfold MsgAddrPayload.serialization
  exact sizedWhen_vector {} (fun s => (NodeService.sized s).1) p

theorem MsgInventoryPayload.sizedWhen (p : MsgInventoryPayload) :
    SizedWhen MsgInventoryPayload.serialization p False := by
  unfold MsgInventoryPayload.serialization
  exact sizedWhen_vector {} InventoryItem.serializes p

namespace MsgGetHeadersPayload

theorem serializes_rest (p : MsgGetHeadersPayload) (version : Nat) :
    ∃ y n, 0 < n ∧ Serializes (do
      SerOf.update fun p => { p with protocolVersion := version }
      SerOf.field protocolVersion (fun a p => { p with protocolVersion := a }) (bindUInt 4 .kSerialize)
      SerOf.onStream (writeVectorSize (← get).1.blockLocatorHashes.length kMaxGetHeadersItems)
      hashes (SerOf.each (H256.serialization .kSerialize))
      stop .kSerialize) p y n := by
  refine ⟨_, _, ?_, (Serializes.update _ p).bind <| (Serializes.field _ (sized_bindUInt 4 _).1).bind <|
    Serializes.get fun _ => Serializes.onStream (adds_writeVectorSize p.blockLocatorHashes.length _) <|
    (Serializes.member _ (Serializes.each (fun h => (H256.sized h).1) _)).bind
    (Serializes.member _ (H256.sized _).1)⟩
  omega

theorem sizedWhen (p : MsgGetHeadersPayload) : SizedWhen serialization p False := by
  refine SizedWhen.of_error (fun s z s' hrun => ?_) fun t ht => ?_
  · obtain ⟨y, n, hpos, hrest⟩ := p.serializes_rest (s.version % 2 ^ 32).toNat
    obtain ⟨-, hlen⟩ := hrest s z s' hrun
    omega
  · obtain ⟨t', hcount, ht', -⟩ := (sized_bindUInt 4 0).2 t ht
    obtain ⟨e, t₁, hread⟩ := readVectorSize_fresh ht' kMaxHeadersItems
    refine ⟨e, ({ p with protocolVersion := 0 }, t₁), ?_⟩
    unfold serialization
    simp only [reduceCtorEq, if_false, EStateM.run_bind, EStateM.run_get, SerOf.update_run, SerOf.field_run, hcount,
      SerOf.onStream_run, hread]

end MsgGetHeadersPayload

namespace MsgRejectPayload

def extraSize (p : MsgRejectPayload) : Nat := if p.extraData.isSome then 32 else 0

def plainSize (p : MsgRejectPayload) : Nat :=
  (serCompactSizeof p.rejectedCommand.length + p.rejectedCommand.length) +
    (1 + (serCompactSizeof p.reason.length + p.reason.length))

theorem serializes_members (p : MsgRejectPayload) :
    Serializes (serializeMembers p) p p (p.plainSize + p.extraSize) := by
  have hsum : (serCompactSizeof p.rejectedCommand.length + p.rejectedCommand.length) +
      (1 + ((serCompactSizeof p.reason.length + p.reason.length) + p.extraSize)) = p.plainSize + p.extraSize := by
    unfold plainSize
    omega
  rw [← hsum]
  refine (Serializes.field _ (sized_bindString p.rejectedCommand).1).bind <|
    Serializes.onStream (sized_bindInt 1 p.rejectionCode.toInt).1 <|
    (Serializes.field _ (sized_bindString p.reason).1).bind ?_
  change Serializes _ p p p.extraSize
  unfold extraSize
  cases p.extraData with
  | none => exact Serializes.pure p
  | some data => exact Serializes.onStream (k := fun _ => pure ()) (sized_bindOctets data).1 (Serializes.pure p)

theorem serializes (p : MsgRejectPayload) :
    Serializes (serialization .kSerialize) p p (p.plainSize + p.extraSize) :=
  Serializes.get fun _ => (p.serializes_members.guard _).guard _

theorem checks_of_serialize {p x : MsgRejectPayload} {s s' : SDataStream}
    (h : (serialization .kSerialize).run (p, s) = .ok () (x, s')) :
    isKnownCommand p.rejectedCommand ∧ p.reason.length ≤ kMaxReasonSize := by
  change (if !isKnownCommand p.rejectedCommand then _ else _ : SerOf MsgRejectPayload Unit).run (p, s) = _ at h
  split at h
  · cases h
  · rename_i hknown
    split at h
    · cases h
    · rename_i hreason
      exact ⟨by simpa using hknown, not_lt.mp hreason⟩

/-- The extra data does not count: nothing is left to read in the stream. -/
theorem measures {p : MsgRejectPayload} (hknown : isKnownCommand p.rejectedCommand)
    (hreason : p.reason.length ≤ kMaxReasonSize) : Measures (serialization .kComputeSize) p p p.plainSize := by
  change Measures (bindOther .kComputeSize) p p p.plainSize
  unfold bindOther
  refine (Measures.field _ (sized_bindString p.rejectedCommand).2).bind (Measures.get fun _ _ => Measures.guard _ ?_ ?_)
  · simpa using hknown
  refine Measures.onStream (sized_bindInt 1 0).2 (Measures.guard _ (by decide) ?_)
  refine (Measures.field _ (sized_bindString p.reason).2).bind (n := 0)
    (Measures.get fun t ht => Measures.guard _ ?_ ?_)
  · exact not_lt.mpr hreason
  refine Measures.skip ?_
  rw [SDataStream.avail, ht.1, ht.2]
  decide

theorem sizedWhen (p : MsgRejectPayload) : SizedWhen serialization p (p.extraData = none) := by
  intro s x s' t hs hrun ht hzero
  obtain ⟨hknown, hreason⟩ := checks_of_serialize hrun
  have h := SizedWhen.of_measures p.serializes (measures hknown hreason) s x s' t hs hrun ht hzero
  rw [h]
  unfold extraSize
  cases p.extraData <;> simp

end MsgRejectPayload

/-! ## The base class -/

/-- `ser::Serializable`: an object of one of its subclasses. -/
inductive Serializable where
  | blockHeader (h : BlockHeader)
  | inventoryItem (i : InventoryItem)
  | nodeService (s : NodeService)
  | nodeServiceInfo (i : NodeServiceInfo)
  | version (p : MsgVersionPayload)
  | getHeaders (p : MsgGetHeadersPayload)
  | addr (p : MsgAddrPayload)
  | inventory (p : MsgInventoryPayload)
  | reject (p : MsgRejectPayload)
deriving DecidableEq

namespace Serializable

def serialization (action : Action) : SerOf Serializable Unit := fun xs =>
  match xs.1 with
  | blockHeader h => SerOf.lift blockHeader h (BlockHeader.serialization action) xs.2
  | inventoryItem i => SerOf.lift inventoryItem i (InventoryItem.serialization action) xs.2
  | nodeService s => SerOf.lift nodeService s (NodeService.serialization action) xs.2
  | nodeServiceInfo i => SerOf.lift nodeServiceInfo i (NodeServiceInfo.serialization action) xs.2
  | version p => SerOf.lift version p (MsgVersionPayload.serialization action) xs.2
  | getHeaders p => SerOf.lift getHeaders p (MsgGetHeadersPayload.serialization action) xs.2
  | addr p => SerOf.lift addr p (MsgAddrPayload.serialization action) xs.2
  | inventory p => SerOf.lift inventory p (MsgInventoryPayload.serialization action) xs.2
  | reject p => SerOf.lift reject p (MsgRejectPayload.serialization action) xs.2

/-- The objects whose size is right: nothing is cut, reset, read or left out. -/
def SizeRight : Serializable → Prop
  | blockHeader _ | version _ => True
  | inventoryItem i => i.type = .kError
  | nodeService s => timeFits s.time
  | nodeServiceInfo i =>
    timeFits i.service.time ∧ timeFits i.lastConnectionAttempt ∧ timeFits i.lastConnectionSuccess
  | getHeaders _ | addr _ | inventory _ => False
  | reject p => p.extraData = none

/-- What holds of the object of a subclass holds of it as a `Serializable`. -/
theorem sizedWhen_lift {σ : Type} {wrap : σ → Serializable} {F : Action → SerOf σ Unit} {x : σ} {P : Prop}
    (hwrap : Function.Injective wrap)
    (hF : ∀ action s, (serialization action).run (wrap x, s) = SerOf.lift wrap x (F action) s) (h : SizedWhen F x P) :
    SizedWhen serialization (wrap x) P := by
  intro s o s' t hs hrun ht hzero
  have hsize : serializedSize serialization (wrap x) t = ((serializedSize F x t).1, wrap (serializedSize F x t).2) := by
    unfold serializedSize
    rw [hF, SerOf.lift]
    cases (F .kComputeSize).run (x, t) <;> rfl
  rw [hF] at hrun
  obtain ⟨y, hwrite, -⟩ := SerOf.run_of_lift hrun
  rw [← h s y s' t hs hwrite ht hzero, hsize]
  simp only [Prod.ext_iff, hwrap.eq_iff]

theorem sizedWhen (o : Serializable) : SizedWhen serialization o o.SizeRight := by
  cases o with
  | blockHeader h =>
      exact sizedWhen_lift (fun _ _ h => by cases h; rfl) (fun _ _ => rfl)
        (h.sized.sizedWhen.congr (iff_of_true rfl trivial))
  | inventoryItem i => exact sizedWhen_lift (fun _ _ h => by cases h; rfl) (fun _ _ => rfl) i.sizedWhen
  | nodeService s =>
      exact sizedWhen_lift (fun _ _ h => by cases h; rfl) (fun _ _ => rfl) (s.sized.sizedWhen.congr s.cut_eq_iff)
  | nodeServiceInfo i =>
      exact sizedWhen_lift (fun _ _ h => by cases h; rfl) (fun _ _ => rfl) (i.sized.sizedWhen.congr i.cut_eq_iff)
  | version p =>
      have hp : Sized MsgVersionPayload.serialization p p _ := p.sized
      exact sizedWhen_lift (fun _ _ h => by cases h; rfl) (fun _ _ => rfl)
        (hp.sizedWhen.congr (iff_of_true rfl trivial))
  | getHeaders p => exact sizedWhen_lift (fun _ _ h => by cases h; rfl) (fun _ _ => rfl) p.sizedWhen
  | addr p => exact sizedWhen_lift (fun _ _ h => by cases h; rfl) (fun _ _ => rfl) p.sizedWhen
  | inventory p => exact sizedWhen_lift (fun _ _ h => by cases h; rfl) (fun _ _ => rfl) p.sizedWhen
  | reject p => exact sizedWhen_lift (fun _ _ h => by cases h; rfl) (fun _ _ => rfl) p.sizedWhen

/-- **When the size is right.** For an object that can be serialized into an empty stream, `serialized_size` on a
fresh stream returns the number of bytes written and leaves the object as it was, exactly for `SizeRight` ones. -/
theorem serializedSize_right_iff (o o' : Serializable) (s s' t : SDataStream) (hs : s.buffer = [])
    (hrun : (serialization .kSerialize).run (o, s) = .ok () (o', s')) (ht : t.Fresh) (hzero : t.computedSize = 0) :
    serializedSize serialization o t = (s'.buffer.length, o) ↔ o.SizeRight :=
  o.sizedWhen s o' s' t hs hrun ht hzero

/-- A service as a peer advertises it, and at a time of 33 bits. -/
def servedAt (time : Int) : NodeService :=
  { time := time, services := 1, endpoint := { address := .ofV4 1 2 3 4, port := 9033 } }

theorem serializedSize_right_iff_service :
    (∃ o' s', (serialization .kSerialize).run (nodeService (servedAt 1700000000), {}) = .ok () (o', s') ∧
      serializedSize serialization (nodeService (servedAt 1700000000)) {} =
        (s'.buffer.length, nodeService (servedAt 1700000000))) ∧
      ∃ o' s', (serialization .kSerialize).run (nodeService (servedAt (2 ^ 32)), {}) = .ok () (o', s') ∧
        serializedSize serialization (nodeService (servedAt (2 ^ 32))) {} ≠
          (s'.buffer.length, nodeService (servedAt (2 ^ 32))) :=
  ⟨⟨_, _, rfl, (serializedSize_right_iff _ _ {} _ {} rfl rfl ⟨rfl, rfl⟩ rfl).mpr ⟨by decide, by decide⟩⟩,
    ⟨_, _, rfl, (serializedSize_right_iff _ _ {} _ {} rfl rfl ⟨rfl, rfl⟩ rfl).not.mpr
      fun h => absurd h.2 (by decide)⟩⟩

def pingRefused : MsgRejectPayload :=
  { rejectedCommand := [0x70, 0x69, 0x6e, 0x67], rejectionCode := .kInvalid, extraData := some (Octets.zero 32) }

/-- Computing the size of an inventory item changes its type, and that of a rejection leaves out the extra data. -/
theorem serializedSize_wrong :
    (∃ o s, (serialization .kSerialize).run (inventoryItem { type := .kTx }, {}) = .ok () (o, s) ∧
      serializedSize serialization (inventoryItem { type := .kTx }) {} = (s.buffer.length, inventoryItem {})) ∧
    ∃ o s, (serialization .kSerialize).run (reject pingRefused, {}) = .ok () (o, s) ∧
      serializedSize serialization (reject pingRefused) {} = (s.buffer.length - 32, reject pingRefused) :=
  ⟨⟨_, _, rfl, rfl⟩, _, _, rfl, rfl⟩

end Serializable

end Znode.Net
