import Mathlib
import Znode.Core.Codec
import Znode.Net.Payloads

/-!
# The wire format of the payloads

The bytes of addresses, services and payloads, and that reading them gives back what was written.

* `IPAddress.upperHalf` : what reading an address back depends on. An IPv6 address with eight zero bytes at its
  head comes back as IPv4;
* `IPAddress.address_wire` : the wire format of addresses;
* `IPEndpoint.encode`, `NodeService.encode`, `InventoryItem.encode`, `MsgVersionPayload.encode` : the bytes;
* `Sendable` : the payloads that keep within the limits of the format;
* `payload_roundTrip` : what is serialized into an empty stream is deserialized from it, to its end.
-/

namespace Znode.Net
open Znode.Lib Znode.Core

/-! ## Addresses and services -/

namespace IPAddress

/-- IPv4, or IPv6 with an upper half that is not zero. Among the others are the addresses that map an IPv4 one. -/
def upperHalf : IPAddress → Bool
  | v4 _ => true
  | v6 b => b.val.take 8 ≠ List.replicate 8 0

theorem ofMappedBytes_mappedBytes {a : IPAddress} (h : a.upperHalf) : ofMappedBytes a.mappedBytes = a := by
  cases a with
  | v4 b =>
      have hlen := b.property
      have hval : (mappedBytes (v4 b)).val = List.replicate 10 0 ++ [0xFF, 0xFF] ++ b.val :=
        Octets.val_ofBytes (by simp [hlen])
      rw [ofMappedBytes, if_pos (by rw [hval]; rfl), hval]
      simp
  | v6 b => exact if_neg (by simpa [upperHalf, mappedBytes] using h)

theorem puts_bind (a : IPAddress) : Puts (IPAddress.bind .kSerialize a) a a.mappedBytes.val :=
  (puts_bindOctets a.mappedBytes).map fun _ => a

theorem gets_bind (a₀ : IPAddress) {a : IPAddress} (h : a.upperHalf) :
    Gets (IPAddress.bind .kDeserialize a₀) a a.mappedBytes.val := by
  have hget := (gets_octets (Octets.zero 16) a.mappedBytes).map ofMappedBytes
  rwa [ofMappedBytes_mappedBytes h] at hget

/-- In the block `::ffff:0:0/96` of the IPv6 addresses that map an IPv4 one. -/
def isV4Mapped : IPAddress → Bool
  | v4 _ => false
  | v6 b => b.val.take 12 = List.replicate 10 0 ++ [0xFF, 0xFF]

theorem mappedBytes_injective {a b : IPAddress} (ha : ¬ a.isV4Mapped) (hb : ¬ b.isV4Mapped)
    (h : a.mappedBytes = b.mappedBytes) : a = b := by
  have hv4 : ∀ c : Octets 4, (mappedBytes (v4 c)).val = List.replicate 10 0 ++ [0xFF, 0xFF] ++ c.val := fun c =>
    Octets.val_ofBytes (by simp [c.property])
  -- only the mapped block begins like an IPv4 address does
  have hmixed : ∀ (c : Octets 4) (d : Octets 16), ¬ (v6 d).isV4Mapped → mappedBytes (v4 c) ≠ mappedBytes (v6 d) := by
    intro c d hd heq
    have hval : List.replicate 10 0 ++ [0xFF, 0xFF] ++ c.val = d.val := (hv4 c).symm.trans (congrArg Subtype.val heq)
    refine hd ?_
    rw [isV4Mapped, decide_eq_true_eq, ← hval]
    rfl
  cases a with
  | v4 c =>
      cases b with
      | v4 d =>
          have hval := congrArg Subtype.val h
          rw [hv4, hv4, List.append_cancel_left_eq] at hval
          rw [Subtype.ext hval]
      | v6 d => exact absurd h (hmixed c d hb)
  | v6 c =>
      cases b with
      | v4 d => exact absurd h.symm (hmixed d c ha)
      | v6 d => exact congrArg v6 h

/-- The 16 bytes of an address with a zero upper half are read as an IPv4 address. -/
theorem ofMappedBytes_eq_iff (a : IPAddress) : ofMappedBytes a.mappedBytes = a ↔ a.upperHalf := by
  refine ⟨fun h => ?_, ofMappedBytes_mappedBytes⟩
  cases a with
  | v4 b => rfl
  | v6 b =>
      rw [upperHalf, decide_eq_true_eq]
      intro hzero
      rw [mappedBytes, ofMappedBytes, if_pos hzero] at h
      cases h

/-- **The wire format of addresses.** An address outside the mapped block is written as 16 bytes that no other such
address has; it is read back as it was exactly when it is IPv4 or has an upper half. -/
theorem address_wire (a : IPAddress) (ha : ¬ a.isV4Mapped) (s : SDataStream) (hempty : s.buffer = [])
    (hstart : s.readPosition = 0) :
    ∃ t, (IPAddress.bind .kSerialize a).run s = .ok a t ∧ t.buffer.length = 16 ∧
      (∀ a₀, (∃ u, (IPAddress.bind .kDeserialize a₀).run t = .ok a u) ↔ a.upperHalf) ∧
      ∀ b t', ¬ b.isV4Mapped → b ≠ a → (IPAddress.bind .kSerialize b).run s = .ok b t' → t'.buffer ≠ t.buffer := by
  have hwrite : ∀ b : IPAddress, (IPAddress.bind .kSerialize b).run s = .ok b (s.append b.mappedBytes.val) := by
    intro b
    refine puts_bind b s ?_
    rw [hempty, b.mappedBytes.property]
    decide
  have hbuffer : ∀ b : IPAddress, (s.append b.mappedBytes.val).buffer = b.mappedBytes.val := by
    intro b
    rw [SDataStream.append, hempty, List.nil_append]
  refine ⟨_, hwrite a, ?_, fun a₀ => ?_, fun b t' hb hne hrun heq => ?_⟩
  · rw [hbuffer, a.mappedBytes.property]
  · have hahead : (s.append a.mappedBytes.val).Ahead a.mappedBytes.val := by
      refine ⟨(hstart.trans_le (Nat.zero_le _) : s.readPosition ≤ _), ?_⟩
      rw [hbuffer]
      change a.mappedBytes.val <+: a.mappedBytes.val.drop s.readPosition
      rw [hstart, List.drop_zero]
    have hread := (gets_octets (Octets.zero 16) a.mappedBytes).map ofMappedBytes _ hahead
    change (IPAddress.bind .kDeserialize a₀).run (s.append a.mappedBytes.val) = _ at hread
    rw [hread, ← ofMappedBytes_eq_iff]
    constructor
    · rintro ⟨u, hu⟩
      exact (EStateM.Result.ok.inj hu).1
    · intro h
      exact ⟨_, by rw [h]⟩
  · cases (hwrite b).symm.trans hrun
    rw [hbuffer, hbuffer] at heq
    exact hne (mappedBytes_injective hb ha (Subtype.ext heq))

theorem address_wire_ofV4 :
    ¬ (ofV4 1 2 3 4).isV4Mapped ∧ ∃ t, (IPAddress.bind .kSerialize (ofV4 1 2 3 4)).run {} = .ok (ofV4 1 2 3 4) t ∧
      t.buffer.length = 16 ∧
      (∀ a₀, (∃ u, (IPAddress.bind .kDeserialize a₀).run t = .ok (ofV4 1 2 3 4) u) ↔ (ofV4 1 2 3 4).upperHalf) ∧
      ∀ b t', ¬ b.isV4Mapped → b ≠ ofV4 1 2 3 4 → (IPAddress.bind .kSerialize b).run {} = .ok b t' →
        t'.buffer ≠ t.buffer :=
  ⟨by decide, address_wire _ (by decide) {} rfl rfl⟩

/-- `::1` comes back as `0.0.0.1`. -/
theorem address_changed :
    ¬ (v6 ⟨List.replicate 15 0 ++ [1], rfl⟩).isV4Mapped ∧
      ∃ t u, (IPAddress.bind .kSerialize (v6 ⟨List.replicate 15 0 ++ [1], rfl⟩)).run {} =
          .ok (v6 ⟨List.replicate 15 0 ++ [1], rfl⟩) t ∧
        (IPAddress.bind .kDeserialize default).run t = .ok (ofV4 0 0 0 1) u :=
  ⟨by decide, _, _, rfl, rfl⟩

end IPAddress

theorem bswap16_bswap16 {v : Nat} (h : v < 2 ^ 16) : bswap16 (bswap16 v) = v := by
  have hlow : (v % 256 * 256 + v / 256 % 256) % 256 = v / 256 := by omega
  have hhigh : (v % 256 * 256 + v / 256 % 256) / 256 = v % 256 := by omega
  unfold bswap16
  rw [hlow, hhigh]
  omega

theorem bswap16_lt (v : Nat) : bswap16 v < 256 ^ 2 := by
  unfold bswap16
  omega

namespace IPEndpoint

def encode (e : IPEndpoint) : Bytes := e.address.mappedBytes.val ++ leBytes 2 (bswap16 e.port.toNat)

@[simp] theorem length_encode (e : IPEndpoint) : e.encode.length = 18 := by
  simp [encode, e.address.mappedBytes.property]

theorem encode_injective {e e' : IPEndpoint} (ha : ¬ e.address.isV4Mapped) (ha' : ¬ e'.address.isV4Mapped)
    (h : e.encode = e'.encode) : e = e' := by
  have hlen : e.address.mappedBytes.val.length = e'.address.mappedBytes.val.length := by
    rw [e.address.mappedBytes.property, e'.address.mappedBytes.property]
  obtain ⟨haddress, hport⟩ := List.append_inj h hlen
  have hswap := congrArg leVal hport
  rw [leVal_leBytes (bswap16_lt _), leVal_leBytes (bswap16_lt _)] at hswap
  have hnat : e.port.toNat = e'.port.toNat := by
    rw [← bswap16_bswap16 e.port.toNat_lt, hswap, bswap16_bswap16 e'.port.toNat_lt]
  have hboth : e.address = e'.address ∧ e.port = e'.port :=
    ⟨IPAddress.mappedBytes_injective ha ha' (Subtype.ext haddress), UInt16.toNat_inj.mp hnat⟩
  cases e
  cases e'
  simpa using hboth

theorem puts_bindPort (port : UInt16) : Puts (bindPort .kSerialize port) port (leBytes 2 (bswap16 port.toNat)) := by
  have h := (puts_bindUInt 2 (bswap16 port.toNat)).map fun p => UInt16.ofNat (bswap16 p)
  rwa [bswap16_bswap16 port.toNat_lt, UInt16.ofNat_toNat] at h

theorem gets_bindPort (port₀ port : UInt16) :
    Gets (bindPort .kDeserialize port₀) port (leBytes 2 (bswap16 port.toNat)) := by
  have h := (gets_uint (bswap16 port₀.toNat) (bswap16_lt port.toNat)).map fun p => UInt16.ofNat (bswap16 p)
  rwa [bswap16_bswap16 port.toNat_lt, UInt16.ofNat_toNat] at h

theorem writes (e : IPEndpoint) : Writes (serialization .kSerialize) e e.encode :=
  (Writes.field (IPAddress.puts_bind e.address) rfl).bind (Writes.field (puts_bindPort e.port) rfl)

theorem reads (e₀ : IPEndpoint) {e : IPEndpoint} (h : e.address.upperHalf) :
    Reads (serialization .kDeserialize) e₀ e e.encode :=
  (Reads.field _ (IPAddress.gets_bind e₀.address h)).bind (Reads.field _ (gets_bindPort _ e.port))

end IPEndpoint

theorem puts_bindUInt64 (v : UInt64) : Puts (bindUInt64 .kSerialize v) v (leBytes 8 v.toNat) := by
  have h := (puts_bindUInt 8 v.toNat).map UInt64.ofNat
  rwa [UInt64.ofNat_toNat] at h

theorem gets_bindUInt64 (v₀ v : UInt64) : Gets (bindUInt64 .kDeserialize v₀) v (leBytes 8 v.toNat) := by
  have h := (gets_uint v₀.toNat (n := 8) v.toNat_lt).map UInt64.ofNat
  rwa [UInt64.ofNat_toNat] at h

theorem puts_bindTime {t : Int} (h : 0 ≤ t) : Puts (bindTime .kSerialize t) t (leBytes 4 t.toNat) := by
  have hput := (puts_bindUInt 4 t.toNat).map fun n => (n : Int)
  rwa [Int.toNat_of_nonneg h] at hput

theorem gets_bindTime (t₀ : Int) {t : Int} (h : 0 ≤ t) (hlt : t < 2 ^ 32) :
    Gets (bindTime .kDeserialize t₀) t (leBytes 4 t.toNat) := by
  have hget := (gets_uint t₀.toNat (n := 4) (v := t.toNat) (by omega)).map fun n => (n : Int)
  rwa [Int.toNat_of_nonneg h] at hget

namespace NodeService

/-- The time fits in 32 bits, and the address is read back as it is. -/
def Sendable (s : NodeService) : Prop := 0 ≤ s.time ∧ s.time < 2 ^ 32 ∧ s.endpoint.address.upperHalf

instance (s : NodeService) : Decidable s.Sendable := inferInstanceAs (Decidable (_ ∧ _ ∧ _))

/-- A service without its time. -/
def versionEncode (s : NodeService) : Bytes := leBytes 8 s.services.toNat ++ s.endpoint.encode

def encode (s : NodeService) : Bytes := leBytes 4 s.time.toNat ++ s.versionEncode

@[simp] theorem length_encode (s : NodeService) : s.encode.length = 30 := by
  simp [encode, versionEncode]

theorem writes_version (s : NodeService) : Writes (versionSerialization .kSerialize) s s.versionEncode :=
  (Writes.field (puts_bindUInt64 s.services) rfl).bind (Writes.member s.endpoint.writes rfl)

theorem reads_version (s₀ : NodeService) {s : NodeService} (h : s.endpoint.address.upperHalf) :
    Reads (versionSerialization .kDeserialize) s₀ { s with time := s₀.time } s.versionEncode :=
  (Reads.field _ (gets_bindUInt64 _ s.services)).bind (Reads.member _ (IPEndpoint.reads _ h))

/-- The service that is left: its time is cut to 32 bits. -/
def cut (s : NodeService) : NodeService := { s with time := s.time % 2 ^ 32 }

@[simp] theorem cut_endpoint (s : NodeService) : s.cut.endpoint = s.endpoint := rfl

theorem emits (s : NodeService) : Emits (serialization .kSerialize) s s.cut s.cut.encode := by
  have hpos : 0 ≤ s.cut.time := Int.emod_nonneg _ (by decide)
  exact (Emits.update _ s).bind ((Writes.field (puts_bindTime hpos) rfl).bind s.cut.writes_version).emits

theorem writes {s : NodeService} (h : s.Sendable) : Writes (serialization .kSerialize) s s.encode := by
  have hcut : s.cut = s := by rw [cut, Int.emod_eq_of_lt h.1 h.2.1]
  have hemits := s.emits
  rwa [hcut] at hemits

theorem reads (s₀ : NodeService) {s : NodeService} (h : s.Sendable) :
    Reads (serialization .kDeserialize) s₀ s s.encode := by
  obtain ⟨hpos, hlt, haddress⟩ := h
  exact (Reads.update _ s₀).bind ((Reads.field _ (gets_bindTime _ hpos hlt)).bind (reads_version _ haddress))

end NodeService

/-! ## Vectors -/

section Vectors
variable {n maxItems : Nat}

theorem puts_writeVectorSize (hpos : 0 < n) (hmax : n ≤ maxItems) :
    Puts (writeVectorSize n maxItems) () (compactBytes n) := by
  unfold writeVectorSize
  simpa [hpos.ne', not_lt.mpr hmax] using puts_writeCompact n

theorem gets_readVectorSize (hpos : 0 < n) (hmax : n ≤ maxItems) (hcompact : maxItems ≤ kMaxSerializedCompactSize) :
    Gets (readVectorSize maxItems) n (compactBytes n) := by
  intro s hahead
  unfold readVectorSize
  simp [gets_readCompact (hmax.trans hcompact) s hahead, hpos.ne', not_lt.mpr hmax]

variable {τ : Type} {item : τ} {bind : Action → SerOf τ Unit} {l : List τ}

theorem emits_vector {f : τ → τ} {encode : τ → Bytes} (hpos : 0 < l.length) (hmax : l.length ≤ maxItems)
    (h : ∀ x ∈ l, Emits (bind .kSerialize) x (f x) (encode x)) :
    Emits (vectorSerialization maxItems item bind .kSerialize) l (l.map f)
      (compactBytes l.length ++ l.flatMap encode) :=
  Emits.get fun _ => Emits.onStream (puts_writeVectorSize hpos hmax) (Emits.each h)

theorem writes_vector {encode : τ → Bytes} (hpos : 0 < l.length) (hmax : l.length ≤ maxItems)
    (h : ∀ x ∈ l, Writes (bind .kSerialize) x (encode x)) :
    Writes (vectorSerialization maxItems item bind .kSerialize) l (compactBytes l.length ++ l.flatMap encode) :=
  Writes.get fun _ => Writes.onStream (puts_writeVectorSize hpos hmax) (Writes.each h)

/-- Whatever the list was before, it becomes the one the bytes stand for. -/
theorem reads_vector {ws : List Bytes} (l₀ : List τ) (hpos : 0 < l.length) (hmax : l.length ≤ maxItems)
    (hcompact : maxItems ≤ kMaxSerializedCompactSize)
    (h : List.Forall₂ (fun x w => ∀ y, Reads (bind .kDeserialize) y x w) l ws) :
    Reads (vectorSerialization maxItems item bind .kDeserialize) l₀ l (compactBytes l.length ++ ws.flatten) := by
  refine Reads.onStream (gets_readVectorSize hpos hmax hcompact) ?_
  exact (Reads.update _ l₀).bind (Reads.each (length_resized _ _ _) h)

end Vectors

theorem H256.writes (h : H256) : Writes (H256.serialization .kSerialize) h h.val :=
  Writes.field (puts_bindOctets h) rfl

theorem H256.reads (h₀ h : H256) : Reads (H256.serialization .kDeserialize) h₀ h h.val :=
  Reads.field _ (gets_octets h₀ h)

namespace InventoryItem

def encode (i : InventoryItem) : Bytes := leBytes 4 i.type.toNat ++ i.identifier.val

@[simp] theorem length_encode (i : InventoryItem) : i.encode.length = 36 := by
  simp [encode, i.identifier.property]

theorem writes (i : InventoryItem) : Writes (serialization .kSerialize) i i.encode :=
  (Writes.field ((puts_bindUInt 4 i.type.toNat).map fun _ => i.type) rfl).bind (Writes.member i.identifier.writes rfl)

theorem gets_bindType (t₀ t : InventoryType) : Gets (bindType .kDeserialize t₀) t (leBytes 4 t.toNat) := by
  intro s hahead
  have hlt : t.toNat < 256 ^ 4 := by cases t <;> decide
  have hknown : InventoryType.ofNat? t.toNat = some t := by cases t <;> rfl
  simp [bindType, gets_uint 0 hlt s hahead, hknown]

theorem reads (i₀ i : InventoryItem) : Reads (serialization .kDeserialize) i₀ i i.encode :=
  (Reads.field _ (gets_bindType i₀.type i.type)).bind (Reads.member _ (H256.reads _ i.identifier))

end InventoryItem

/-! ## Payloads -/

namespace MsgVersionPayload

/-- The members are in the ranges of their types (`int32_t`, `int64_t`), the two that must not be negative are not,
and the rest is within the limits of the format. -/
structure Sendable (p : MsgVersionPayload) : Prop where
  protocolVersion : -2 ^ 31 ≤ p.protocolVersion ∧ p.protocolVersion < 2 ^ 31
  timestamp : 0 ≤ p.timestamp ∧ p.timestamp < 2 ^ 63
  lastBlockHeight : 0 ≤ p.lastBlockHeight ∧ p.lastBlockHeight < 2 ^ 31
  recipient : p.recipientService.endpoint.address.upperHalf
  sender : p.senderService.endpoint.address.upperHalf
  userAgent : p.userAgent.length ≤ kMaxSerializedCompactSize

def encode (p : MsgVersionPayload) : Bytes :=
  leBytes 4 (p.protocolVersion % 256 ^ 4).toNat ++ (leBytes 8 p.services.toNat ++
    (leBytes 8 (p.timestamp % 256 ^ 8).toNat ++ (p.recipientService.versionEncode ++
      (p.senderService.versionEncode ++ (leBytes 8 p.nonce.toNat ++ ((compactBytes p.userAgent.length ++ p.userAgent) ++
        (leBytes 4 (p.lastBlockHeight % 256 ^ 4).toNat ++ [if p.relay then 1 else 0])))))))

/-- The members that are sent; the times of the two services are not. -/
def received (p : MsgVersionPayload) : MsgVersionPayload :=
  { p with
    recipientService := { p.recipientService with time := kTimeInit }
    senderService := { p.senderService with time := kTimeInit } }

theorem writes (p : MsgVersionPayload) : Writes (serialization .kSerialize) p p.encode :=
  (Writes.field (puts_bindInt 4 p.protocolVersion) rfl).bind <|
    (Writes.field (puts_bindUInt64 p.services) rfl).bind <|
    (Writes.field (puts_bindInt 8 p.timestamp) rfl).bind <|
    (Writes.member p.recipientService.writes_version rfl).bind <|
    (Writes.member p.senderService.writes_version rfl).bind <|
    (Writes.field (puts_bindUInt64 p.nonce) rfl).bind <|
    (Writes.field (puts_bindString p.userAgent) rfl).bind <|
    (Writes.field (puts_bindInt 4 p.lastBlockHeight) rfl).bind <|
    Writes.field (puts_bindBool p.relay) rfl

theorem reads_bindMembers {p : MsgVersionPayload} (h : p.Sendable) :
    Reads (bindMembers .kDeserialize) {} p.received p.encode := by
  obtain ⟨⟨hversion, hversion'⟩, ⟨htime, htime'⟩, ⟨hheight, hheight'⟩, hrecipient, hsender, hagent⟩ := h
  exact (Reads.field _ (gets_int _ (by omega) (by omega))).bind <|
    (Reads.field _ (gets_bindUInt64 _ p.services)).bind <|
    (Reads.field _ (gets_int _ (by omega) (by omega))).bind <|
    (Reads.member _ (NodeService.reads_version _ hrecipient)).bind <|
    (Reads.member _ (NodeService.reads_version _ hsender)).bind <|
    (Reads.field _ (gets_bindUInt64 _ p.nonce)).bind <|
    (Reads.field _ (gets_bindString _ hagent)).bind <|
    (Reads.field _ (gets_int _ (by omega) (by omega))).bind <|
    Reads.field _ (gets_bool _ p.relay)

theorem reads {p : MsgVersionPayload} (h : p.Sendable) :
    Reads (serialization .kDeserialize) {} p.received p.encode := by
  intro s hahead
  have hrun := reads_bindMembers h s hahead
  change checked ((bindMembers .kDeserialize).run ({}, s)) = _
  rw [hrun]
  exact (if_neg (not_lt.mpr h.timestamp.1)).trans (if_neg (not_lt.mpr h.lastBlockHeight.1))

theorem length_encode_le {p : MsgVersionPayload} (h : p.Sendable) : p.encode.length ≤ kMaxStreamSize := by
  have hagent := h.userAgent
  have hsize := serCompactSizeof_le p.userAgent.length
  simp only [encode, NodeService.versionEncode, List.length_append, length_leBytes, length_compactBytes,
    IPEndpoint.length_encode, List.length_singleton]
  unfold kMaxSerializedCompactSize at hagent
  unfold kMaxStreamSize
  omega

end MsgVersionPayload

theorem MsgPingPongPayload.writes (p : MsgPingPongPayload) :
    Writes (serialization .kSerialize) p (leBytes 8 p.nonce.toNat) :=
  Writes.field (puts_bindUInt64 p.nonce) rfl

theorem MsgPingPongPayload.reads (nonce : UInt64) (p : MsgPingPongPayload) :
    Reads (serialization .kDeserialize) { p with nonce := nonce } p (leBytes 8 p.nonce.toNat) :=
  Reads.field _ (gets_bindUInt64 nonce p.nonce)

namespace MsgAddrPayload

def Sendable (p : MsgAddrPayload) : Prop :=
  0 < p.identifiers.length ∧ p.identifiers.length ≤ kMaxAddrItems ∧ ∀ s ∈ p.identifiers, s.Sendable

def encode (p : MsgAddrPayload) : Bytes :=
  compactBytes p.identifiers.length ++ p.identifiers.flatMap NodeService.encode

variable {p : MsgAddrPayload}

/-- With any times: those that do not fit are cut. -/
theorem emits (hpos : 0 < p.identifiers.length) (hmax : p.identifiers.length ≤ kMaxAddrItems) :
    Emits (serialization .kSerialize) p { identifiers := p.identifiers.map NodeService.cut }
      (compactBytes p.identifiers.length ++ p.identifiers.flatMap fun s => s.cut.encode) :=
  Emits.member _ (emits_vector hpos hmax fun s _ => s.emits)

theorem writes (h : p.Sendable) : Writes (serialization .kSerialize) p p.encode :=
  Writes.member (writes_vector h.1 h.2.1 fun _ hs => NodeService.writes (h.2.2 _ hs)) rfl

theorem reads (h : p.Sendable) : Reads (serialization .kDeserialize) {} p p.encode := by
  obtain ⟨hpos, hmax, hsendable⟩ := h
  refine Reads.member _ (reads_vector _ hpos hmax (by decide) ?_)
  rw [List.forall₂_map_right_iff, List.forall₂_same]
  exact fun s hs s₀ => NodeService.reads s₀ (hsendable s hs)

end MsgAddrPayload

namespace MsgInventoryPayload

def Sendable (p : MsgInventoryPayload) : Prop := 0 < p.items.length ∧ p.items.length ≤ kMaxInvItems

def encode (p : MsgInventoryPayload) : Bytes := compactBytes p.items.length ++ p.items.flatMap InventoryItem.encode

variable {p : MsgInventoryPayload}

theorem writes (h : p.Sendable) : Writes (serialization .kSerialize) p p.encode :=
  Writes.member (writes_vector h.1 h.2 fun i _ => i.writes) rfl

theorem reads (h : p.Sendable) : Reads (serialization .kDeserialize) { p with items := [] } p p.encode := by
  obtain ⟨hpos, hmax⟩ := h
  refine Reads.member _ (reads_vector _ hpos hmax (by decide) ?_)
  rw [List.forall₂_map_right_iff, List.forall₂_same]
  exact fun i _ i₀ => InventoryItem.reads i₀ i

end MsgInventoryPayload

theorem length_vector_le {τ : Type} {encode : τ → Bytes} {l : List τ} {n maxItems : Nat}
    (hencode : ∀ x ∈ l, (encode x).length = n) (hmax : l.length ≤ maxItems) :
    (compactBytes l.length ++ l.flatMap encode).length ≤ 9 + maxItems * n := by
  have hsize := serCompactSizeof_le l.length
  have hitems : (l.flatMap encode).length = l.length * n := by
    rw [List.flatMap_def, length_flatten_of_length (List.forall_mem_map.mpr hencode), List.length_map]
  rw [List.length_append, length_compactBytes, hitems]
  have := Nat.mul_le_mul_right n hmax
  omega

namespace MessagePayload

def Sendable : MessagePayload → Prop
  | version p => p.Sendable
  | addr p => p.Sendable
  | inventory p => p.Sendable
  | null _ | pingPong _ => True
  | getHeaders _ | reject _ => False

/-- What the other side has of it. -/
def received : MessagePayload → MessagePayload
  | version p => version p.received
  | p => p

/-- The bytes of a payload, and the object `from_type` makes to read them. -/
theorem exists_codec {p : MessagePayload} (h : p.Sendable) :
    ∃ fresh w, fromType p.type = .ok (some fresh) ∧ w.length ≤ kMaxStreamSize ∧
      Writes (serialization .kSerialize) p w ∧ Reads (serialization .kDeserialize) fresh p.received w := by
  cases p with
  | null p =>
      obtain ⟨t, ht⟩ := p
      refine ⟨.null ⟨t, ht⟩, [], ?_, Nat.zero_le _, fun s _ => ?_, fun s _ => rfl⟩
      · simp only [nullTypes, List.mem_cons, List.not_mem_nil, or_false] at ht
        rcases ht with rfl | rfl | rfl <;> rfl
      · rw [SDataStream.append_nil]
        rfl
  | version p =>
      exact ⟨.version {}, p.encode, rfl, p.length_encode_le h, fun s hfit => SerOf.lift_ok (p.writes s hfit),
        fun s hahead => SerOf.lift_ok (MsgVersionPayload.reads h s hahead)⟩
  | pingPong p =>
      refine ⟨.pingPong { p with nonce := 0 }, _, ?_, ?_, fun s hfit => SerOf.lift_ok (p.writes s hfit),
        fun s hahead => SerOf.lift_ok (p.reads 0 s hahead)⟩
      · obtain ⟨t, ht, nonce⟩ := p
        simp only [pingPongTypes, List.mem_cons, List.not_mem_nil, or_false] at ht
        rcases ht with rfl | rfl <;> rfl
      · rw [length_leBytes]
        decide
  | addr p =>
      exact ⟨.addr {}, p.encode, rfl, (length_vector_le (fun s _ => s.length_encode) h.2.1).trans (by decide),
        fun s hfit => SerOf.lift_ok (MsgAddrPayload.writes h s hfit),
        fun s hahead => SerOf.lift_ok (MsgAddrPayload.reads h s hahead)⟩
  | inventory p =>
      refine ⟨.inventory { p with items := [] }, p.encode, ?_,
        (length_vector_le (fun i _ => i.length_encode) h.2).trans (by decide),
        fun s hfit => SerOf.lift_ok (MsgInventoryPayload.writes h s hfit),
        fun s hahead => SerOf.lift_ok (MsgInventoryPayload.reads h s hahead)⟩
      obtain ⟨t, ht, items⟩ := p
      simp only [inventoryTypes, List.mem_cons, List.not_mem_nil, or_false] at ht
      rcases ht with rfl | rfl | rfl <;> rfl
  | getHeaders p => exact h.elim
  | reject p => exact h.elim

/-- **What is serialized into an empty stream is deserialized from it, to its end**, into the object `from_type`
makes for the type. -/
theorem payload_roundTrip (p : MessagePayload) (h : p.Sendable) (s : SDataStream) (hempty : s.buffer = [])
    (hstart : s.readPosition = 0) :
    ∃ fresh t u, fromType p.type = .ok (some fresh) ∧ (serialization .kSerialize).run (p, s) = .ok () (p, t) ∧
      (serialization .kDeserialize).run (fresh, t) = .ok () (p.received, u) ∧ u.eof := by
  obtain ⟨fresh, w, hfresh, hfit, hwrites, hreads⟩ := exists_codec h
  obtain ⟨t, u, hput, hget, heof⟩ := hwrites.roundTrip hreads hfit s hempty hstart
  exact ⟨fresh, t, u, hfresh, hput, hget, heof⟩

/-- A `version` between an IPv4 and an IPv6 address. -/
def helloVersion : MsgVersionPayload :=
  { protocolVersion := 170002, timestamp := 1700000000, nonce := 7, userAgent := [0x2f, 0x7a, 0x2f], relay := true
    recipientService := { endpoint := { address := .ofV4 1 2 3 4, port := 9033 } }
    senderService :=
      { time := 5, services := 1, endpoint := { address := .v6 (Octets.ofBytes 16 [0x20, 0x01]), port := 9033 } } }

theorem payload_roundTrip_helloVersion :
    (version helloVersion).Sendable ∧ ∃ fresh t u, fromType (version helloVersion).type = .ok (some fresh) ∧
      (serialization .kSerialize).run (version helloVersion, {}) = .ok () (version helloVersion, t) ∧
      (serialization .kDeserialize).run (fresh, t) = .ok () ((version helloVersion).received, u) ∧ u.eof := by
  have h : (version helloVersion).Sendable :=
    ⟨by decide, by decide, by decide, by decide, by decide, by decide⟩
  exact ⟨h, payload_roundTrip _ h {} rfl rfl⟩

end MessagePayload

end Znode.Net
