import Mathlib
import Znode.Net.Addresses
import Znode.Net.Protocol

/-!
# Message payloads

One structure per payload class, with the `serialization` of the class. The classes whose constructor
asserts something about the message type carry it as a field. `MessagePayload` is their common base,
`MessagePayload.fromType` the factory. `WriteStable.messagePayload` and `ReadStable.messagePayload` : what
serializing and deserializing any payload respects.

The vector classes test for `kSerialize` and read in both other cases, also for `kComputeSize`.
-/

namespace Znode.Net
open Znode.Lib Znode.Core

/-! ## Payloads without a vector -/

def nullTypes : List MessageType := [.kVerAck, .kMemPool, .kGetAddr]

structure MsgNullPayload where
  type : MessageType
  accepted : type ∈ nullTypes
deriving DecidableEq, Repr

theorem kVerAck_mem_nullTypes : MessageType.kVerAck ∈ nullTypes := by decide

theorem kGetAddr_mem_nullTypes : MessageType.kGetAddr ∈ nullTypes := by decide

def MsgNullPayload.new (type : MessageType) : Except Fault MsgNullPayload :=
  if h : type ∈ nullTypes then .ok ⟨type, h⟩ else .error .assert

structure MsgVersionPayload where
  protocolVersion : Int := 0
  services : UInt64 := 0
  timestamp : Int := 0
  recipientService : NodeService := {}
  senderService : NodeService := {}
  nonce : UInt64 := 0
  userAgent : Bytes := []
  lastBlockHeight : Int := 0
  relay : Bool := false
deriving DecidableEq, Repr

namespace MsgVersionPayload

def bindMembers (action : Action) : SerOf MsgVersionPayload Unit := do
  SerOf.field protocolVersion (fun a p => { p with protocolVersion := a }) (bindInt 4 action)
  SerOf.field services (fun a p => { p with services := a }) (bindUInt64 action)
  SerOf.field timestamp (fun a p => { p with timestamp := a }) (bindInt 8 action)
  SerOf.member recipientService (fun a p => { p with recipientService := a })
    (NodeService.versionSerialization action)
  SerOf.member senderService (fun a p => { p with senderService := a }) (NodeService.versionSerialization action)
  SerOf.field nonce (fun a p => { p with nonce := a }) (bindUInt64 action)
  SerOf.field userAgent (fun a p => { p with userAgent := a }) (bindString action)
  SerOf.field lastBlockHeight (fun a p => { p with lastBlockHeight := a }) (bindInt 4 action)
  SerOf.field relay (fun a p => { p with relay := a }) (bindBool action)

/-- The checks after deserializing. They look at the fields also when a member could not be read, and
their error then hides that one. -/
def checked (r : EStateM.Result Error (MsgVersionPayload × SDataStream) Unit) :
    EStateM.Result Error (MsgVersionPayload × SDataStream) Unit :=
  let xs := match r with
    | .ok _ xs => xs
    | .error _ xs => xs
  if xs.1.timestamp < 0 then .error (.net .kMessagePayloadInvalidTimestamp) xs
  else if xs.1.lastBlockHeight < 0 then .error (.net .kMessagePayloadInvalidLastBlockHeight) xs
  else r

def serialization (action : Action) : SerOf MsgVersionPayload Unit :=
  match action with
  | .kDeserialize => fun xs => checked ((bindMembers action).run xs)
  | _ => bindMembers action

end MsgVersionPayload

def pingPongTypes : List MessageType := [.kPing, .kPong]

structure MsgPingPongPayload where
  type : MessageType
  accepted : type ∈ pingPongTypes
  nonce : UInt64 := 0
deriving DecidableEq, Repr

def MsgPingPongPayload.new (type : MessageType) (nonce : UInt64) : Except Fault MsgPingPongPayload :=
  if h : type ∈ pingPongTypes then .ok ⟨type, h, nonce⟩ else .error .assert

def MsgPingPongPayload.serialization (action : Action) : SerOf MsgPingPongPayload Unit :=
  SerOf.field nonce (fun a p => { p with nonce := a }) (bindUInt64 action)

/-! ## Vectors -/

abbrev H256 := Octets 32

def H256.serialization (action : Action) : SerOf H256 Unit := SerOf.field id (fun a _ => a) (bindOctets 32 action)

/-- The number of items before they are written. -/
def writeVectorSize (vectorSize maxItems : Nat) : Ser Unit := do
  if vectorSize = 0 then throw (.net .kMessagePayloadEmptyVector)
  if vectorSize > maxItems then throw (.net .kMessagePayloadOversizedVector)
  writeCompact vectorSize

/-- The number of items before they are read. -/
def readVectorSize (maxItems : Nat) : Ser Nat := do
  let expectedVectorSize ← readCompact
  if expectedVectorSize = 0 then throw (.net .kMessagePayloadEmptyVector)
  if expectedVectorSize > maxItems then throw (.net .kMessagePayloadOversizedVector)
  return expectedVectorSize

structure MsgGetHeadersPayload where
  protocolVersion : Nat := 0
  blockLocatorHashes : List H256 := []
  hashStop : H256 := Octets.zero 32
deriving DecidableEq, Repr

namespace MsgGetHeadersPayload

def hashes (bind : SerOf (List H256) Unit) : SerOf MsgGetHeadersPayload Unit :=
  SerOf.member blockLocatorHashes (fun a p => { p with blockLocatorHashes := a }) bind

def stop (action : Action) : SerOf MsgGetHeadersPayload Unit :=
  SerOf.member hashStop (fun a p => { p with hashStop := a }) (H256.serialization action)

/-- The version is the one of the stream, whatever the member was; reading is limited by
`kMaxHeadersItems`. -/
def serialization (action : Action) : SerOf MsgGetHeadersPayload Unit := do
  let (_, stream) ← get
  let version := if action = .kSerialize then (stream.version % 2 ^ 32).toNat else 0
  SerOf.update fun p => { p with protocolVersion := version }
  SerOf.field protocolVersion (fun a p => { p with protocolVersion := a }) (bindUInt 4 action)
  if action = .kSerialize then
    SerOf.onStream (writeVectorSize (← get).1.blockLocatorHashes.length kMaxGetHeadersItems)
    hashes (SerOf.each (H256.serialization .kSerialize))
    stop .kSerialize
  else
    let expectedVectorSize ← SerOf.onStream (readVectorSize kMaxHeadersItems)
    SerOf.update fun p =>
      { p with blockLocatorHashes := resized expectedVectorSize (Octets.zero 32) p.blockLocatorHashes }
    hashes (SerOf.each (H256.serialization .kDeserialize))
    stop .kDeserialize

end MsgGetHeadersPayload

/-- `serialization` of a class with one vector of at most `maxItems` items. -/
def vectorSerialization {τ : Type} (maxItems : Nat) (item : τ) (bind : Action → SerOf τ Unit) (action : Action) :
    SerOf (List τ) Unit := do
  if action = .kSerialize then
    SerOf.onStream (writeVectorSize (← get).1.length maxItems)
    SerOf.each (bind .kSerialize)
  else
    let expectedVectorSize ← SerOf.onStream (readVectorSize maxItems)
    SerOf.update (resized expectedVectorSize item)
    SerOf.each (bind .kDeserialize)

structure MsgAddrPayload where
  identifiers : List NodeService := []
deriving DecidableEq, Repr

def MsgAddrPayload.serialization (action : Action) : SerOf MsgAddrPayload Unit :=
  SerOf.member identifiers (fun a p => { p with identifiers := a })
    (vectorSerialization kMaxAddrItems {} NodeService.serialization action)

inductive InventoryType where
  | kError
  | kTx
  | kBlock
  | kFilteredBlock
deriving DecidableEq, Repr

namespace InventoryType

def toNat : InventoryType → Nat
  | kError => 0
  | kTx => 1
  | kBlock => 2
  | kFilteredBlock => 3

def ofNat? (n : Nat) : Option InventoryType :=
  [kError, kTx, kBlock, kFilteredBlock].find? (·.toNat = n)

end InventoryType

structure InventoryItem where
  type : InventoryType := .kError
  identifier : H256 := Octets.zero 32
deriving DecidableEq, Repr

namespace InventoryItem

/-- The type; an unknown number is refused and leaves the member as it was. -/
def bindType (action : Action) (type : InventoryType) : Ser InventoryType := do
  if action = .kSerialize then
    let _ ← bindUInt 4 action type.toNat
    return type
  else
    match InventoryType.ofNat? (← bindUInt 4 action 0) with
    | none => throw (.ser .kInvalidInventoryType)
    | some type => return type

def serialization (action : Action) : SerOf InventoryItem Unit := do
  SerOf.field type (fun a p => { p with type := a }) (bindType action)
  SerOf.member identifier (fun a p => { p with identifier := a }) (H256.serialization action)

end InventoryItem

def inventoryTypes : List MessageType := [.kInv, .kGetData, .kNotFound]

structure MsgInventoryPayload where
  type : MessageType
  accepted : type ∈ inventoryTypes
  items : List InventoryItem := []
deriving DecidableEq, Repr

def MsgInventoryPayload.new (type : MessageType) : Except Fault MsgInventoryPayload :=
  if h : type ∈ inventoryTypes then .ok ⟨type, h, []⟩ else .error .assert

def MsgInventoryPayload.serialization (action : Action) : SerOf MsgInventoryPayload Unit :=
  SerOf.member items (fun a p => { p with items := a })
    (vectorSerialization kMaxInvItems {} InventoryItem.serialization action)

/-! ## Rejections -/

inductive RejectionCode where
  | kOk
  | kMalformed
  | kInvalid
  | kObsolete
  | kDuplicate
  | kNonstandard
  | kDust
  | kInsufficientFee
  | kCheckpoint
  | kCheckBlockAtHeightNotFound
  | kSideChainIdNotFound
  | kInsufficientSideChainFunds
  | kAbsurdlyHighFee
  | kHasConflicts
  | kNoCoinsForInput
  | kInvalidProof
  | kSideChainCumulativeCommTree
  | kActiveCertDataHash
  | kTooManyCswInputsForSideChain
deriving DecidableEq, Repr

namespace RejectionCode

/-- The enumerators and their values, all of them positive `int8_t`. -/
def enumEntries : List (RejectionCode × Nat) :=
  [(kOk, 0x00), (kMalformed, 0x01), (kInvalid, 0x10), (kObsolete, 0x11), (kDuplicate, 0x12),
    (kNonstandard, 0x40), (kDust, 0x41), (kInsufficientFee, 0x42), (kCheckpoint, 0x43),
    (kCheckBlockAtHeightNotFound, 0x44), (kSideChainIdNotFound, 0x45), (kInsufficientSideChainFunds, 0x46),
    (kAbsurdlyHighFee, 0x47), (kHasConflicts, 0x48), (kNoCoinsForInput, 0x49), (kInvalidProof, 0x4a),
    (kSideChainCumulativeCommTree, 0x4b), (kActiveCertDataHash, 0x4c), (kTooManyCswInputsForSideChain, 0x4d)]

def toInt (c : RejectionCode) : Int := (enumEntries.lookup c).getD 0

def ofInt? (n : Int) : Option RejectionCode := (enumEntries.find? fun p => (p.2 : Int) = n).map Prod.fst

end RejectionCode

structure MsgRejectPayload where
  rejectedCommand : Bytes := []
  rejectionCode : RejectionCode := .kOk
  reason : Bytes := []
  extraData : Option H256 := none
deriving DecidableEq, Repr

namespace MsgRejectPayload

def kMaxReasonSize : Nat := 256

def serializeMembers (p : MsgRejectPayload) : SerOf MsgRejectPayload Unit := do
  SerOf.field rejectedCommand (fun a p => { p with rejectedCommand := a }) (bindString .kSerialize)
  let _ ← SerOf.onStream (bindInt 1 .kSerialize p.rejectionCode.toInt)
  SerOf.field reason (fun a p => { p with reason := a }) (bindString .kSerialize)
  match p.extraData with
  | none => return
  | some extraData =>
    let _ ← SerOf.onStream (bindOctets 32 .kSerialize extraData)

def serialize : SerOf MsgRejectPayload Unit := do
  let (p, _) ← get
  if !isKnownCommand p.rejectedCommand then throw (.net .kUnknownRejectedCommand)
  if p.reason.length > kMaxReasonSize then throw (.ser .kStringTooBig)
  serializeMembers p

/-- The other two actions. The code is checked and not stored. -/
def bindOther (action : Action) : SerOf MsgRejectPayload Unit := do
  SerOf.field rejectedCommand (fun a p => { p with rejectedCommand := a }) (bindString action)
  let (p, _) ← get
  if !isKnownCommand p.rejectedCommand then throw (.net .kUnknownRejectedCommand)
  let code ← SerOf.onStream (bindInt 1 action 0)
  if (RejectionCode.ofInt? code).isNone then throw (.ser .kInvalidRejectionCode)
  SerOf.field reason (fun a p => { p with reason := a }) (bindString action)
  let (p, stream) ← get
  if p.reason.length > kMaxReasonSize then throw (.ser .kStringTooBig)
  if stream.avail ≥ h256Size then
    let extraData ← SerOf.onStream (bindOctets 32 action (Octets.zero 32))
    SerOf.update fun p => { p with extraData := some extraData }

def serialization (action : Action) : SerOf MsgRejectPayload Unit :=
  if action = .kSerialize then serialize else bindOther action

end MsgRejectPayload

/-! ## The payload base class -/

/-- `net::MessagePayload`: an object of one of its subclasses. -/
inductive MessagePayload where
  | null (p : MsgNullPayload)
  | version (p : MsgVersionPayload)
  | pingPong (p : MsgPingPongPayload)
  | getHeaders (p : MsgGetHeadersPayload)
  | addr (p : MsgAddrPayload)
  | inventory (p : MsgInventoryPayload)
  | reject (p : MsgRejectPayload)
deriving DecidableEq, Repr

namespace MessagePayload

def type : MessagePayload → MessageType
  | null p => p.type
  | version _ => .kVersion
  | pingPong p => p.type
  | getHeaders _ => .kGetHeaders
  | addr _ => .kAddr
  | inventory p => p.type
  | reject _ => .kReject

/-- `MessagePayload::from_type`; there is no payload class for `headers`. -/
def fromType (type : MessageType) : Except Fault (Option MessagePayload) :=
  match type with
  | .kVersion => .ok (some (version {}))
  | .kPing | .kPong => (MsgPingPongPayload.new type 0).map (some ∘ pingPong)
  | .kGetHeaders => .ok (some (getHeaders {}))
  | .kAddr => .ok (some (addr {}))
  | .kInv | .kGetData | .kNotFound => (MsgInventoryPayload.new type).map (some ∘ inventory)
  | .kReject => .ok (some (reject {}))
  | .kVerAck | .kMemPool | .kGetAddr | .kMissingOrUnknown => (MsgNullPayload.new type).map (some ∘ null)
  | .kHeaders => .ok none

def serialization (action : Action) : SerOf MessagePayload Unit := fun xs =>
  match xs.1 with
  | null p => .ok () (null p, xs.2)
  | version p => SerOf.lift version p (MsgVersionPayload.serialization action) xs.2
  | pingPong p => SerOf.lift pingPong p (MsgPingPongPayload.serialization action) xs.2
  | getHeaders p => SerOf.lift getHeaders p (MsgGetHeadersPayload.serialization action) xs.2
  | addr p => SerOf.lift addr p (MsgAddrPayload.serialization action) xs.2
  | inventory p => SerOf.lift inventory p (MsgInventoryPayload.serialization action) xs.2
  | reject p => SerOf.lift reject p (MsgRejectPayload.serialization action) xs.2

/-- No payload object has the type of an unknown command. -/
theorem type_ne_missing (p : MessagePayload) : p.type ≠ .kMissingOrUnknown := by
  have key : ∀ {types : List MessageType} {t : MessageType}, t ∈ types → .kMissingOrUnknown ∉ types →
      t ≠ .kMissingOrUnknown := fun hmem hnot heq => hnot (heq ▸ hmem)
  cases p with
  | null p => exact key p.accepted (by decide)
  | pingPong p => exact key p.accepted (by decide)
  | inventory p => exact key p.accepted (by decide)
  | version p => simp [type]
  | getHeaders p => simp [type]
  | addr p => simp [type]
  | reject p => simp [type]

end MessagePayload

end Znode.Net

/-! ## Related streams -/

namespace Znode.Core
open Znode.Lib Znode.Net

section Payloads
variable {R : SDataStream → SDataStream → Prop}

namespace BindStable
variable {action : Action}

theorem h256 (h : BindStable action R) : Respects (Along H256 R) (H256.serialization action) :=
  respects_field fun _ => h.bindOctets _

theorem versionMembers (h : BindStable action R) :
    Respects (Along MsgVersionPayload R) (MsgVersionPayload.bindMembers action) :=
  (respects_field fun _ => h.bindInt _ _).bind fun _ =>
    (respects_field h.bindUInt64).bind fun _ =>
    (respects_field fun _ => h.bindInt _ _).bind fun _ =>
    (respects_member h.versionNodeService).bind fun _ =>
    (respects_member h.versionNodeService).bind fun _ =>
    (respects_field h.bindUInt64).bind fun _ =>
    (respects_field h.bindString).bind fun _ =>
    (respects_field fun _ => h.bindInt _ _).bind fun _ => respects_field h.bindBool

theorem inventoryItem (h : BindStable action R) (htype : ∀ t, Respects R (InventoryItem.bindType action t)) :
    Respects (Along InventoryItem R) (InventoryItem.serialization action) :=
  (respects_field htype).bind fun _ => respects_member h.h256

theorem messagePayload (h : BindStable action R)
    (hversion : Respects (Along MsgVersionPayload R) (MsgVersionPayload.serialization action))
    (hheaders : Respects (Along MsgGetHeadersPayload R) (MsgGetHeadersPayload.serialization action))
    (haddr : Respects (Along MsgAddrPayload R) (MsgAddrPayload.serialization action))
    (hinventory : Respects (Along MsgInventoryPayload R) (MsgInventoryPayload.serialization action))
    (hreject : Respects (Along MsgRejectPayload R) (MsgRejectPayload.serialization action)) :
    Respects (Along MessagePayload R) (MessagePayload.serialization action) := by
  rintro ⟨p, s⟩ ⟨q, t⟩ u ps ⟨rfl, hR⟩ hrun
  cases p with
  | null p =>
      cases hrun
      exact ⟨(.null p, t), rfl, rfl, hR⟩
  | version p => exact respects_lift MessagePayload.version hversion p hR hrun
  | pingPong p => exact respects_lift MessagePayload.pingPong (respects_field h.bindUInt64) p hR hrun
  | getHeaders p => exact respects_lift MessagePayload.getHeaders hheaders p hR hrun
  | addr p => exact respects_lift MessagePayload.addr haddr p hR hrun
  | inventory p => exact respects_lift MessagePayload.inventory hinventory p hR hrun
  | reject p => exact respects_lift MessagePayload.reject hreject p hR hrun

end BindStable

namespace WriteStable

theorem bindType (h : WriteStable R) (t : InventoryType) : Respects R (InventoryItem.bindType .kSerialize t) := by
  rw [InventoryItem.bindType, if_pos rfl]
  exact (h.bindStable.bindUInt _ _).bind fun _ => Respects.pure _

theorem writeVectorSize (h : WriteStable R) (n maxItems : Nat) : Respects R (writeVectorSize n maxItems) := by
  unfold Net.writeVectorSize
  exact Respects.guard _ (Respects.guard _ (h.writeCompact _))

theorem vector (h : WriteStable R) {τ : Type} (maxItems : Nat) (item : τ) {bind : Action → SerOf τ Unit}
    (hb : Respects (Along τ R) (bind .kSerialize)) :
    Respects (Along (List τ) R) (vectorSerialization maxItems item bind .kSerialize) := by
  unfold vectorSerialization
  rw [if_pos rfl]
  refine Respects.get (fun _ => (respects_onStream (h.writeVectorSize _ _)).bind fun _ => respects_each hb) ?_
  rintro ⟨l, s⟩ ⟨l', t⟩ ⟨rfl, -⟩
  rfl

theorem getHeadersPayload (h : WriteStable R) :
    Respects (Along MsgGetHeadersPayload R) (MsgGetHeadersPayload.serialization .kSerialize) := by
  unfold MsgGetHeadersPayload.serialization
  simp only [if_true]
  refine Respects.get (fun xs => ?_) ?_
  · refine (respects_update _).bind fun _ => (respects_field fun _ => h.bindStable.bindUInt _ _).bind fun _ => ?_
    refine Respects.get (fun _ => (respects_onStream (h.writeVectorSize _ _)).bind fun _ =>
      (respects_member (respects_each h.bindStable.h256)).bind fun _ => respects_member h.bindStable.h256) ?_
    rintro ⟨x, s⟩ ⟨y, t⟩ ⟨rfl, -⟩
    rfl
  · rintro ⟨x, s⟩ ⟨y, t⟩ ⟨rfl, hR⟩
    have hv : s.version = t.version := h.version hR
    simp only [hv]

theorem rejectMembers (h : WriteStable R) (p : MsgRejectPayload) :
    Respects (Along MsgRejectPayload R) (MsgRejectPayload.serializeMembers p) := by
  refine (respects_field h.bindStable.bindString).bind fun _ =>
    (respects_onStream (h.bindStable.bindInt _ _)).bind fun _ =>
    (respects_field h.bindStable.bindString).bind fun _ => ?_
  cases p.extraData with
  | none => exact Respects.pure _
  | some extraData => exact (respects_onStream (h.bindStable.bindOctets _)).bind fun _ => Respects.pure _

theorem rejectPayload (h : WriteStable R) :
    Respects (Along MsgRejectPayload R) (MsgRejectPayload.serialization .kSerialize) := by
  unfold MsgRejectPayload.serialization
  rw [if_pos rfl]
  refine Respects.get (fun _ => Respects.guard _ (Respects.guard _ (h.rejectMembers _))) ?_
  rintro ⟨x, s⟩ ⟨y, t⟩ ⟨rfl, -⟩
  rfl

theorem messagePayload (h : WriteStable R) :
    Respects (Along MessagePayload R) (MessagePayload.serialization .kSerialize) :=
  h.bindStable.messagePayload h.bindStable.versionMembers h.getHeadersPayload
    (respects_member (h.vector _ _ h.bindStable.nodeService))
    (respects_member (h.vector _ _ (h.bindStable.inventoryItem h.bindType))) h.rejectPayload

end WriteStable

namespace ReadStable

theorem bindType (h : ReadStable R) (t : InventoryType) :
    Respects R (InventoryItem.bindType .kDeserialize t) := by
  rw [InventoryItem.bindType, if_neg (by decide)]
  refine (h.bindStable.bindUInt _ _).bind fun n => ?_
  cases InventoryType.ofNat? n with
  | none => exact Respects.throw _
  | some type => exact Respects.pure _

theorem readVectorSize (h : ReadStable R) (maxItems : Nat) : Respects R (readVectorSize maxItems) :=
  (h.readCompact _).bind fun _ => Respects.guard _ (Respects.guard _ (Respects.pure _))

theorem vector (h : ReadStable R) {τ : Type} (maxItems : Nat) (item : τ) {bind : Action → SerOf τ Unit}
    (hb : Respects (Along τ R) (bind .kDeserialize)) :
    Respects (Along (List τ) R) (vectorSerialization maxItems item bind .kDeserialize) := by
  unfold vectorSerialization
  rw [if_neg (by decide)]
  exact (respects_onStream (h.readVectorSize _)).bind fun _ => (respects_update _).bind fun _ => respects_each hb

theorem versionPayload (h : ReadStable R) :
    Respects (Along MsgVersionPayload R) (MsgVersionPayload.serialization .kDeserialize) := by
  intro xs ys a xs' hR hrun
  change MsgVersionPayload.checked ((MsgVersionPayload.bindMembers .kDeserialize).run xs) = _ at hrun
  change ∃ ys', MsgVersionPayload.checked ((MsgVersionPayload.bindMembers .kDeserialize).run ys) = _ ∧ _
  cases hmem : (MsgVersionPayload.bindMembers .kDeserialize).run xs with
  | error e xs1 =>
      rw [hmem] at hrun
      simp only [MsgVersionPayload.checked] at hrun
      split_ifs at hrun
  | ok u xs1 =>
      rw [hmem] at hrun
      obtain ⟨ys1, hys, hR1⟩ := h.bindStable.versionMembers xs ys u xs1 hR hmem
      simp only [MsgVersionPayload.checked] at hrun
      split_ifs at hrun with ht hb
      cases hrun
      refine ⟨ys1, ?_, hR1⟩
      rw [hys]
      simp only [MsgVersionPayload.checked, ← hR1.1, if_neg ht, if_neg hb]

theorem getHeadersPayload (h : ReadStable R) :
    Respects (Along MsgGetHeadersPayload R) (MsgGetHeadersPayload.serialization .kDeserialize) := by
  unfold MsgGetHeadersPayload.serialization
  simp only [reduceCtorEq, if_false]
  refine Respects.get (fun _ => ?_) fun _ _ _ => rfl
  exact (respects_update _).bind fun _ => (respects_field fun _ => h.bindStable.bindUInt _ _).bind fun _ =>
    (respects_onStream (h.readVectorSize _)).bind fun _ => (respects_update _).bind fun _ =>
    (respects_member (respects_each h.bindStable.h256)).bind fun _ => respects_member h.bindStable.h256

theorem rejectPayload (h : ReadStable R) :
    Respects (Along MsgRejectPayload R) (MsgRejectPayload.serialization .kDeserialize) := by
  unfold MsgRejectPayload.serialization
  rw [if_neg (by decide)]
  refine (respects_field h.bindStable.bindString).bind fun _ => Respects.get (fun _ => Respects.guard _ ?_) ?_
  · refine (respects_onStream (h.bindStable.bindInt _ _)).bind fun _ => Respects.guard _ ?_
    refine (respects_field h.bindStable.bindString).bind fun _ => Respects.get (fun _ => Respects.guard _ ?_) ?_
    · exact Respects.ite ((respects_onStream (h.bindStable.bindOctets _)).bind fun _ => respects_update _)
        (Respects.pure _)
    · rintro ⟨x, s⟩ ⟨y, t⟩ ⟨rfl, hR⟩
      have ha : s.avail = t.avail := h.avail hR
      simp only [ha]
  · rintro ⟨x, s⟩ ⟨y, t⟩ ⟨rfl, -⟩
    rfl

theorem messagePayload (h : ReadStable R) :
    Respects (Along MessagePayload R) (MessagePayload.serialization .kDeserialize) :=
  h.bindStable.messagePayload h.versionPayload h.getHeadersPayload
    (respects_member (h.vector _ _ h.bindStable.nodeService))
    (respects_member (h.vector _ _ (h.bindStable.inventoryItem h.bindType))) h.rejectPayload

end ReadStable

end Payloads

end Znode.Core
