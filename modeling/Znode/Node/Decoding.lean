import Mathlib
import Znode.Net.Codecs
import Znode.Node.Inbound

/-!
# Framing and the payloads

The framing checks the vector of a message against the table of definitions, and the payload classes read it with
limits of their own. They agree but for `getheaders`: the framing takes up to `kMaxGetHeadersItems` hashes, the
payload at most `kMaxHeadersItems`.

* `Message.payload`, `Message.vectorSize`, `Message.knownItems` : what the bytes of a vectorized message say;
* `takes_addr`, `takes_inventory`, `takes_getHeaders` : the payloads that are read;
* `accepted_decodes_iff` : the accepted messages whose payload is read, to its end.
-/

namespace Znode.Net
open Znode.Lib Znode.Core

/-! ## Bytes of a fixed length -/

theorem gets_any_bindTime {w : Bytes} (hw : w.length = 4) (t : Int) : ∃ t', Gets (bindTime .kDeserialize t) t' w :=
  ⟨_, (gets_bindUInt t.toNat hw).map fun n => (n : Int)⟩

theorem gets_any_bindUInt64 {w : Bytes} (hw : w.length = 8) (v : UInt64) :
    ∃ v', Gets (bindUInt64 .kDeserialize v) v' w :=
  ⟨_, (gets_bindUInt v.toNat hw).map UInt64.ofNat⟩

theorem gets_any_bindPort {w : Bytes} (hw : w.length = 2) (p : UInt16) :
    ∃ p', Gets (IPEndpoint.bindPort .kDeserialize p) p' w :=
  ⟨_, (gets_bindUInt (bswap16 p.toNat) hw).map fun p => UInt16.ofNat (bswap16 p)⟩

theorem gets_any_address {w : Bytes} (hw : w.length = 16) (a : IPAddress) :
    ∃ a', Gets (IPAddress.bind .kDeserialize a) a' w :=
  ⟨_, (gets_bindOctets (Octets.zero 16) hw).map IPAddress.ofMappedBytes⟩

theorem IPEndpoint.takes {w : Bytes} (hw : w.length = 18) : Takes (IPEndpoint.serialization .kDeserialize) w :=
  Takes.bind_of_length (m := 16) (n := 2) (fun _ h => Takes.field (gets_any_address h))
    (fun _ h => Takes.field (gets_any_bindPort h)) hw

theorem NodeService.takes {w : Bytes} (hw : w.length = kAddrItemSize) :
    Takes (NodeService.serialization .kDeserialize) w := by
  refine Takes.bind (w := []) (Takes.update _) (Takes.bind_of_length (m := 4) (n := 26) ?_ ?_ hw)
  · exact fun _ h => Takes.field (gets_any_bindTime h)
  · intro w h
    exact Takes.bind_of_length (m := 8) (n := 18) (fun _ h => Takes.field (gets_any_bindUInt64 h))
      (fun _ h => Takes.member (IPEndpoint.takes h)) h

theorem H256.takes {w : Bytes} (hw : w.length = h256Size) : Takes (H256.serialization .kDeserialize) w :=
  Takes.field fun o => ⟨_, gets_bindOctets o hw⟩

/-- The first four bytes of an item are the number of a known type. -/
def knownItem (w : Bytes) : Bool := (InventoryType.ofNat? (leVal (w.take 4))).isSome

theorem InventoryItem.takes {w : Bytes} (hw : w.length = kInvItemSize) (hknown : knownItem w) :
    Takes (InventoryItem.serialization .kDeserialize) w := by
  have hlen : (w.take 4).length = 4 := by
    rw [List.length_take, hw]
    decide
  have hrest : (w.drop 4).length = h256Size := by
    rw [List.length_drop, hw]
    decide
  obtain ⟨type, htype⟩ := Option.isSome_iff_exists.mp hknown
  rw [← List.take_append_drop 4 w]
  refine Takes.bind (Takes.field fun type₀ => ⟨type, fun s hahead => ?_⟩) (Takes.member (H256.takes hrest))
  simp [bindType, gets_bindUInt 0 hlen s hahead, htype]

/-! ## The payload classes -/

section
variable {n maxItems : Nat}

/-- The vector classes read what has as many items as it says. -/
theorem takes_vector {τ : Type} {item : τ} {bind : Action → SerOf τ Unit} {ws : List Bytes} (hpos : 0 < ws.length)
    (hmax : ws.length ≤ maxItems) (hcompact : maxItems ≤ kMaxSerializedCompactSize)
    (h : ∀ w ∈ ws, Takes (bind .kDeserialize) w) :
    Takes (vectorSerialization maxItems item bind .kDeserialize) (compactBytes ws.length ++ ws.flatten) := by
  refine Takes.onStream (gets_readVectorSize hpos hmax hcompact) ?_
  intro l
  obtain ⟨l', hl'⟩ := Takes.each h (length_resized ws.length item l)
  exact ⟨l', (Reads.update _ l).bind hl'⟩

theorem takes_addr (ws : List Bytes) (hpos : 0 < ws.length) (hmax : ws.length ≤ kMaxAddrItems)
    (h : ∀ w ∈ ws, w.length = kAddrItemSize) :
    Takes (MsgAddrPayload.serialization .kDeserialize) (compactBytes ws.length ++ ws.flatten) :=
  Takes.member (takes_vector hpos hmax (by decide) fun w hw => NodeService.takes (h w hw))

theorem takes_inventory (ws : List Bytes) (hpos : 0 < ws.length) (hmax : ws.length ≤ kMaxInvItems)
    (h : ∀ w ∈ ws, w.length = kInvItemSize ∧ knownItem w) :
    Takes (MsgInventoryPayload.serialization .kDeserialize) (compactBytes ws.length ++ ws.flatten) :=
  Takes.member (takes_vector hpos hmax (by decide) fun w hw => InventoryItem.takes (h w hw).1 (h w hw).2)

variable {front : Bytes} (hfront : front.length = 4)
include hfront

theorem takes_getHeaders (ws : List Bytes) {stop : Bytes} (hpos : 0 < ws.length) (hmax : ws.length ≤ kMaxHeadersItems)
    (h : ∀ w ∈ ws, w.length = h256Size) (hstop : stop.length = h256Size) :
    Takes (MsgGetHeadersPayload.serialization .kDeserialize)
      (front ++ (compactBytes ws.length ++ (ws.flatten ++ stop))) := by
  have hsize := gets_readVectorSize hpos hmax (show kMaxHeadersItems ≤ kMaxSerializedCompactSize by decide)
  have hversion : ∀ v, ∃ v', Gets (bindUInt 4 .kDeserialize v) v' front := fun v => ⟨_, gets_bindUInt v hfront⟩
  unfold MsgGetHeadersPayload.serialization
  simp only [reduceCtorEq, if_false]
  refine Takes.get (Takes.bind (w := []) (Takes.update _) ((Takes.field hversion).bind (Takes.onStream hsize ?_)))
  intro p
  obtain ⟨hashes, hhashes⟩ := Takes.each (fun w hw => H256.takes (h w hw))
    (length_resized ws.length (Octets.zero 32) p.blockLocatorHashes)
  have hstops : Takes (MsgGetHeadersPayload.stop .kDeserialize) stop := Takes.member (H256.takes hstop)
  have hlist : Reads (MsgGetHeadersPayload.hashes (SerOf.each (H256.serialization .kDeserialize)))
      { p with blockLocatorHashes := resized ws.length (Octets.zero 32) p.blockLocatorHashes }
      { p with blockLocatorHashes := hashes } ws.flatten := Reads.member _ hhashes
  obtain ⟨q, hq⟩ := hstops { p with blockLocatorHashes := hashes }
  exact ⟨q, (Reads.update _ p).bind (hlist.bind hq)⟩

/-- The payload refuses a number of hashes the framing may have accepted. -/
theorem getHeaders_oversized (hmax : kMaxHeadersItems < n) (hcompact : n ≤ kMaxSerializedCompactSize) {rest : Bytes}
    {s : SDataStream} (hahead : s.Ahead (front ++ (compactBytes n ++ rest))) (p : MsgGetHeadersPayload) :
    ∃ xs, (MsgGetHeadersPayload.serialization .kDeserialize).run (p, s) =
      .error (.net .kMessagePayloadOversizedVector) xs := by
  obtain ⟨hahead₁, hahead₂⟩ := hahead.of_append
  obtain ⟨hsize, -⟩ := hahead₂.of_append
  have hversion := gets_bindUInt 0 hfront s hahead₁
  have hcount := gets_readCompact hcompact _ hsize
  have hrefuse : (readVectorSize kMaxHeadersItems).run (s.skip front.length) =
      .error (.net .kMessagePayloadOversizedVector) ((s.skip front.length).skip (compactBytes n).length) := by
    unfold readVectorSize
    simp [hcount, hmax, (Nat.zero_le _).trans_lt hmax |>.ne']
  refine ⟨({ p with protocolVersion := leVal front }, (s.skip front.length).skip (compactBytes n).length), ?_⟩
  unfold MsgGetHeadersPayload.serialization
  simp only [reduceCtorEq, if_false, EStateM.run_bind, EStateM.run_get, SerOf.update_run, SerOf.field_run, hversion,
    SerOf.onStream_run, hrefuse]

end

/-! ## Accepted messages -/

namespace Message

def payload (m : Message) : Bytes := m.serStream.buffer.drop kMessageHeaderLength

/-- The number of items a vectorized message announces. -/
def vectorSize (m : Message) : Nat :=
  match parseCompact (m.payload.drop (vectorOffset m.header.getDefinition)) with
  | .ok (n, _) => n
  | .error _ => 0

def items (m : Message) : Bytes :=
  m.payload.drop (vectorOffset m.header.getDefinition + serCompactSizeof m.vectorSize)

/-- The items of an inventory message are all of a known type. -/
def knownItems (m : Message) : Bool :=
  m.getType ∉ inventoryTypes || (dataChunks m.items kInvItemSize).all knownItem

end Message

/-- The vectorized messages with a payload class. -/
def vectorTypes : List MessageType := [.kGetHeaders, .kAddr, .kInv, .kGetData, .kNotFound]

/-- The vector of a message, as the payload classes see it. -/
structure VectorOf (type : MessageType) (n : Nat) (front : Bytes) (items : Bytes) : Prop where
  front_length : front.length = Message.vectorOffset (definitionOf type)
  pos : 0 < n
  le_max : ∃ limit ∈ (definitionOf type).maxVectorItems, n ≤ limit
  items_length : ∀ s ∈ (definitionOf type).vectorItemSize, items.length = n * s + if type = .kGetHeaders then s else 0

theorem exists_vectorOf {type : MessageType} {P : Bytes} (h : IsVector (definitionOf type) P) :
    ∃ n front items, P = front ++ compactBytes n ++ items ∧ VectorOf type n front items := by
  obtain ⟨n, front, items, rfl, hfront, hpos, hmax, hitems⟩ := h
  refine ⟨n, front, items, rfl, hfront, hpos, hmax, fun s hs => ?_⟩
  have hlen := (hitems s hs).1
  rw [List.length_append, List.length_append, length_compactBytes, hfront, messageType_definitionOf] at hlen
  omega

section
variable {n : Nat} {front items : Bytes}

theorem reads_addr (hv : VectorOf .kAddr n front items) :
    ∃ x, Reads (MessagePayload.serialization .kDeserialize) (.addr {}) x (front ++ compactBytes n ++ items) := by
  obtain ⟨limit, hlimit, hmax⟩ := hv.le_max
  cases hlimit
  obtain rfl : front = [] := List.length_eq_zero_iff.mp hv.front_length
  obtain ⟨hcount, hflat, hlen⟩ := dataChunks_spec (by decide) n (hv.items_length kAddrItemSize rfl)
  have htakes := takes_addr (dataChunks items kAddrItemSize) (hv.pos.trans_eq hcount.symm) (hcount.trans_le hmax) hlen
  rw [hcount, hflat] at htakes
  obtain ⟨x, hx⟩ := htakes {}
  exact ⟨.addr x, fun s hahead => SerOf.lift_ok (hx s hahead)⟩

theorem reads_inventory {type : MessageType} (htype : type ∈ inventoryTypes) (hv : VectorOf type n front items)
    (hknown : ∀ c ∈ dataChunks items kInvItemSize, knownItem c) :
    ∃ x, Reads (MessagePayload.serialization .kDeserialize) (.inventory ⟨type, htype, []⟩) x
      (front ++ compactBytes n ++ items) := by
  have hdef : Message.vectorOffset (definitionOf type) = 0 ∧ (definitionOf type).maxVectorItems = some kMaxInvItems ∧
      (definitionOf type).vectorItemSize = some kInvItemSize ∧ type ≠ .kGetHeaders := by
    simp only [inventoryTypes, List.mem_cons, List.not_mem_nil, or_false] at htype
    rcases htype with rfl | rfl | rfl <;> exact ⟨rfl, rfl, rfl, by decide⟩
  obtain ⟨hoffset, hlimit, hsize, hother⟩ := hdef
  obtain ⟨limit, hlimit', hmax⟩ := hv.le_max
  cases hlimit.symm.trans hlimit'
  obtain rfl : front = [] := List.length_eq_zero_iff.mp (hv.front_length.trans hoffset)
  have hitems := hv.items_length kInvItemSize hsize
  rw [if_neg hother] at hitems
  obtain ⟨hcount, hflat, hlen⟩ := dataChunks_spec (by decide) n hitems
  have htakes := takes_inventory (dataChunks items kInvItemSize) (hv.pos.trans_eq hcount.symm)
    (hcount.trans_le hmax) fun c hc => ⟨hlen c hc, hknown c hc⟩
  rw [hcount, hflat] at htakes
  obtain ⟨x, hx⟩ := htakes ⟨type, htype, []⟩
  exact ⟨.inventory x, fun s hahead => SerOf.lift_ok (hx s hahead)⟩

theorem reads_getHeaders (hv : VectorOf .kGetHeaders n front items) (hfew : n ≤ kMaxHeadersItems) :
    ∃ x, Reads (MessagePayload.serialization .kDeserialize) (.getHeaders {}) x (front ++ compactBytes n ++ items) := by
  have hitems : items.length = n * h256Size + h256Size := hv.items_length h256Size rfl
  have hhashes : (items.take (n * h256Size)).length = n * h256Size := by
    rw [List.length_take]
    omega
  have hstop : (items.drop (n * h256Size)).length = h256Size := by
    rw [List.length_drop]
    omega
  obtain ⟨hcount, hflat, hlen⟩ := dataChunks_spec (by decide) n hhashes
  have htakes := takes_getHeaders hv.front_length (dataChunks (items.take (n * h256Size)) h256Size)
    (hv.pos.trans_eq hcount.symm) (hcount.trans_le hfew) hlen hstop
  rw [hcount, hflat, List.take_append_drop, ← List.append_assoc] at htakes
  obtain ⟨x, hx⟩ := htakes {}
  exact ⟨.getHeaders x, fun s hahead => SerOf.lift_ok (hx s hahead)⟩

theorem exists_reads {type : MessageType} (htype : type ∈ vectorTypes) (hv : VectorOf type n front items)
    (hknown : type ∈ inventoryTypes → ∀ c ∈ dataChunks items kInvItemSize, knownItem c)
    (hfew : type = .kGetHeaders → n ≤ kMaxHeadersItems) :
    ∃ blank x, MessagePayload.fromType type = .ok (some blank) ∧
      Reads (MessagePayload.serialization .kDeserialize) blank x (front ++ compactBytes n ++ items) := by
  simp only [vectorTypes, List.mem_cons, List.not_mem_nil, or_false] at htype
  rcases htype with rfl | rfl | rfl | rfl | rfl
  · obtain ⟨x, hx⟩ := reads_getHeaders hv (hfew rfl)
    exact ⟨_, x, rfl, hx⟩
  · obtain ⟨x, hx⟩ := reads_addr hv
    exact ⟨_, x, rfl, hx⟩
  all_goals
    obtain ⟨x, hx⟩ := reads_inventory (by decide) hv (hknown (by decide))
    exact ⟨_, x, rfl, hx⟩

end

end Znode.Net

namespace Znode.Node
open Znode.Lib Znode.Core Znode.Net

section
variable {sha256 : Bytes → Octets 32} {magic : Octets 4} {type : MessageType} {H P : Bytes} (version : Int)

theorem getDefinition_validated (h : IsMessage sha256 magic type H P) :
    (Message.validated version magic true (H ++ P)).header.getDefinition = definitionOf type := by
  change definitionOf (readHeader (H ++ P)).messageType = definitionOf type
  rw [readHeader_append h.length.ge, (messageType_eq_iff h.length.ge h.known).mpr h.command_eq]

theorem getType_validated (h : IsMessage sha256 magic type H P) :
    (Message.validated version magic true (H ++ P)).getType = type := by
  rw [Message.getType, MessageHeader.getType, getDefinition_validated version h, messageType_definitionOf]

theorem payload_validated (h : IsMessage sha256 magic type H P) :
    (Message.validated version magic true (H ++ P)).payload = P := by
  change (H ++ P).drop kMessageHeaderLength = P
  rw [← h.length, List.drop_left]

theorem vector_validated {n : Nat} {front items : Bytes} (hv : VectorOf type n front items)
    (h : IsMessage sha256 magic type H (front ++ compactBytes n ++ items))
    (hvector : (definitionOf type).isVectorized) :
    (Message.validated version magic true (H ++ (front ++ compactBytes n ++ items))).vectorSize = n ∧
      (Message.validated version magic true (H ++ (front ++ compactBytes n ++ items))).items = items := by
  obtain ⟨limit, hlimit, hle⟩ := definitionOf_maxVectorItems hvector
  obtain ⟨limit', hlimit', hmax⟩ := hv.le_max
  cases hlimit.symm.trans hlimit'
  have hsize : (Message.validated version magic true (H ++ (front ++ compactBytes n ++ items))).vectorSize = n := by
    rw [Message.vectorSize, getDefinition_validated version h, payload_validated version h, ← hv.front_length,
      List.append_assoc, List.drop_left, parseCompact_compactBytes (hmax.trans hle)]
  refine ⟨hsize, ?_⟩
  rw [Message.items, hsize, getDefinition_validated version h, payload_validated version h, ← hv.front_length,
    ← length_compactBytes, ← List.length_append, List.drop_left]

theorem ahead_validated (h : IsMessage sha256 magic type H P) :
    (Message.validated version magic true (H ++ P)).serStream.Ahead P := by
  refine ⟨?_, ?_⟩
  · change kMessageHeaderLength ≤ (H ++ P).length
    rw [List.length_append, h.length]
    exact Nat.le_add_right _ _
  · change P <+: (H ++ P).drop kMessageHeaderLength
    rw [← h.length, List.drop_left]

theorem readPayload_of_reads (h : IsMessage sha256 magic type H P) {blank x : MessagePayload}
    (hblank : MessagePayload.fromType type = .ok (some blank))
    (hreads : Reads (MessagePayload.serialization .kDeserialize) blank x P) :
    ∃ m, readPayload.run (Message.validated version magic true (H ++ P)) = .ok x m := by
  have hrun := hreads _ (ahead_validated version h)
  have htype := getType_validated version h
  refine ⟨_, readPayload_ok.mpr ⟨by rw [htype]; exact h.known, blank, _, by rw [htype]; exact hblank, hrun, ?_, rfl⟩⟩
  change decide (kMessageHeaderLength + P.length ≥ (H ++ P).length) = true
  rw [List.length_append, h.length]
  exact decide_eq_true (le_refl _)

/-- A vectorized message and its payload class agree but for the long `getheaders`. -/
theorem readPayload_iff (h : IsMessage sha256 magic type H P) (htype : type ∈ vectorTypes)
    (hknown : (Message.validated version magic true (H ++ P)).knownItems) :
    (∃ x m, readPayload.run (Message.validated version magic true (H ++ P)) = .ok x m) ↔
      (type = .kGetHeaders →
        (Message.validated version magic true (H ++ P)).vectorSize ≤ kMaxHeadersItems) := by
  have hvector : (definitionOf type).isVectorized := by
    simp only [vectorTypes, List.mem_cons, List.not_mem_nil, or_false] at htype
    rcases htype with rfl | rfl | rfl | rfl | rfl <;> rfl
  obtain ⟨n, front, items, rfl, hv⟩ := exists_vectorOf (h.vector hvector)
  obtain ⟨hsize, hitems⟩ := vector_validated version hv h hvector
  rw [Message.knownItems, getType_validated version h, hitems] at hknown
  rw [hsize]
  constructor
  · rintro ⟨x, m, hrun⟩ rfl
    obtain ⟨-, blank, s, hblank, hser, -⟩ := readPayload_ok.mp hrun
    rw [getType_validated version h] at hblank
    cases hblank
    by_contra hmany
    obtain ⟨limit, hlimit, hmax⟩ := hv.le_max
    cases hlimit
    have hahead := ahead_validated version h
    rw [List.append_assoc] at hahead
    obtain ⟨xs, herror⟩ := getHeaders_oversized hv.front_length (not_le.mp hmany) (hmax.trans (by decide)) hahead {}
    simp only [List.append_assoc] at hser
    change SerOf.lift MessagePayload.getHeaders {} (MsgGetHeadersPayload.serialization .kDeserialize) _ = _ at hser
    rw [SerOf.lift, herror] at hser
    cases hser
  · intro hfew
    obtain ⟨blank, x, hblank, hreads⟩ := exists_reads htype hv (fun hinv => by simpa [hinv] using hknown) hfew
    exact ⟨x, readPayload_of_reads version h hblank hreads⟩

end

/-- A message that was accepted, in whatever pieces its bytes came. -/
theorem exists_isMessage {sha256 : Bytes → Octets 32} {version : Int} {magic : Octets 4} {chunks : List Bytes}
    (hne : ∀ c ∈ chunks, c ≠ []) {m : Message} {rest : Bytes}
    (h : feed (Message.writeStep sha256) (Message.new version magic) chunks = some (.done m rest)) :
    ∃ type H P, IsMessage sha256 magic type H P ∧ m = Message.validated version magic true (H ++ P) := by
  have hagrees := (Message.write_follows sha256 version magic).feed_pending (scan_stable sha256) chunks [] rfl hne
  rw [show Message.pending version magic [] = Message.new version magic from rfl, h] at hagrees
  cases hs : scan sha256 version magic ([] ++ chunks.flatten) with
  | more =>
      rw [hs] at hagrees
      cases hagrees
  | fail e =>
      rw [hs] at hagrees
      obtain ⟨e', m', rest', hagrees⟩ := hagrees
      cases hagrees
  | done n =>
      rw [hs] at hagrees
      cases hagrees
      obtain ⟨type, H, P, R, hB, rfl, hmessage⟩ := (scan_done_iff sha256).mp hs
      refine ⟨type, H, P, hmessage, ?_⟩
      rw [hB, List.take_left]

/-- **The payload of an accepted message is read, to its end**, unless it is a `getheaders` with more hashes than
`kMaxHeadersItems`. -/
theorem accepted_decodes_iff (sha256 : Bytes → Octets 32) (version : Int) (magic : Octets 4) (chunks : List Bytes)
    (hne : ∀ c ∈ chunks, c ≠ []) {m : Message} {rest : Bytes}
    (haccepted : feed (Message.writeStep sha256) (Message.new version magic) chunks = some (.done m rest))
    (htype : m.getType ∈ vectorTypes) (hknown : m.knownItems) :
    (∃ payload m', readPayload.run m = .ok payload m') ↔
      (m.getType = .kGetHeaders → m.vectorSize ≤ kMaxHeadersItems) := by
  obtain ⟨type, H, P, hmessage, rfl⟩ := exists_isMessage hne haccepted
  rw [getType_validated version hmessage] at htype ⊢
  exact readPayload_iff version hmessage htype hknown

theorem feed_of_isMessage {sha256 : Bytes → Octets 32} (version : Int) {magic : Octets 4} {type : MessageType}
    {H P : Bytes} (h : IsMessage sha256 magic type H P) :
    feed (Message.writeStep sha256) (Message.new version magic) [H ++ P] =
      some (.done (Message.validated version magic true (H ++ P)) []) := by
  have hne : H ++ P ≠ [] := by
    intro hnil
    have hH := h.length
    rw [(List.append_eq_nil_iff.mp hnil).1] at hH
    cases hH
  have hagrees := (Message.write_follows sha256 version magic).feed_pending (scan_stable sha256) [H ++ P] [] rfl
    (List.forall_mem_singleton.mpr hne)
  have hflat : [] ++ [H ++ P].flatten = H ++ P := by simp
  have hscan : scan sha256 version magic (H ++ P) = .done (H ++ P).length :=
    (scan_done_iff sha256).mpr ⟨type, H, P, [], by simp, rfl, h⟩
  rw [hflat, hscan] at hagrees
  exact hagrees.trans (by rw [List.take_length, List.drop_length])

/-! ## Locators -/

def hashes (n : Nat) : List Bytes := (List.range n).map (leBytes h256Size)

theorem length_of_mem_hashes (n : Nat) : ∀ c ∈ hashes n, c.length = h256Size := by
  simp [hashes]

theorem nodup_hashes {n : Nat} (hn : n ≤ 256 ^ 2) : (hashes n).Nodup := by
  refine List.Nodup.map_on (fun i hi j hj heq => ?_) List.nodup_range
  have hlt : ∀ k ∈ List.range n, k < 256 ^ h256Size := fun k hk =>
    ((List.mem_range.mp hk).trans_le hn).trans_le (by decide)
  have hval := congrArg leVal heq
  rwa [leVal_leBytes (hlt i hi), leVal_leBytes (hlt j hj)] at hval

/-- The payload of a `getheaders` with `n` hashes and the stop hash. -/
def locator (n : Nat) : Bytes := leBytes 4 0 ++ compactBytes n ++ (hashes (n + 1)).flatten

section
variable {n : Nat} (hpos : 1 ≤ n) (hmax : n ≤ kMaxGetHeadersItems)

theorem length_hashes_flatten (n : Nat) : (hashes (n + 1)).flatten.length = n * h256Size + h256Size := by
  rw [length_flatten_of_length (length_of_mem_hashes _), hashes, List.length_map, List.length_range, Nat.add_mul,
    Nat.one_mul]

theorem length_locator (n : Nat) : (locator n).length = 4 + serCompactSizeof n + n * h256Size + h256Size := by
  rw [locator, List.length_append, List.length_append, length_leBytes, length_compactBytes, length_hashes_flatten,
    ← Nat.add_assoc]

include hpos hmax

theorem vectorOf_locator : VectorOf .kGetHeaders n (leBytes 4 0) (hashes (n + 1)).flatten := by
  refine ⟨length_leBytes 4 0, hpos, ⟨_, rfl, hmax⟩, fun s hs => ?_⟩
  cases hs
  exact length_hashes_flatten n

theorem isVector_locator : IsVector (definitionOf .kGetHeaders) (locator n) := by
  refine ⟨n, _, _, rfl, length_leBytes 4 0, hpos, ⟨_, rfl, hmax⟩, fun s hs => ?_⟩
  cases hs
  refine ⟨length_locator n, ?_⟩
  rw [dataChunks_flatten (by decide) (length_of_mem_hashes _)]
  exact nodup_hashes ((Nat.succ_le_succ hmax).trans (by decide))

theorem isMessage_locator (sha256 : Bytes → Octets 32) (magic : Octets 4) :
    IsMessage sha256 magic .kGetHeaders
      (Message.headerBytes (Message.filledHeader sha256 (Message.initialHeader magic .kGetHeaders) (locator n)))
      (locator n) := by
  have hlen := length_locator n
  have hsize : 1 ≤ serCompactSizeof n ∧ serCompactSizeof n ≤ 3 := by
    unfold kMaxGetHeadersItems at hmax
    rcases serCompactSizeof_cases n with h | h | h | h <;> omega
  have h24 : kMessageHeaderLength = 24 := rfl
  refine Message.isMessage_pushed sha256 (by decide) ?_ ?_ ?_ fun _ => isVector_locator hpos hmax
  · intro hi hhi
    cases hhi
    change _ ≤ 4 + 3 + h256Size * (kMaxGetHeadersItems + 1)
    unfold h256Size kMaxGetHeadersItems at *
    omega
  · intro lo hlo
    cases hlo
    unfold h256Size at *
    omega
  · unfold h256Size kMaxGetHeadersItems kMaxProtocolMessageLength at *
    omega

end

/-- The bytes of a `getheaders` with `n` hashes, for the digest function that answers the known digest. -/
def locatorBytes (n : Nat) : Bytes :=
  Message.pushedBytes (fun _ => kEmptyHash) (Octets.zero 4) .kGetHeaders (locator n)

theorem accepted_locator {n : Nat} (hpos : 1 ≤ n) (hmax : n ≤ kMaxGetHeadersItems) :
    ∃ m, feed (Message.writeStep fun _ => kEmptyHash) (Message.new 170002 (Octets.zero 4)) [locatorBytes n] =
      some (.done m []) ∧ m.getType = .kGetHeaders ∧ m.vectorSize = n ∧ m.knownItems ∧
        ((∃ payload m', readPayload.run m = .ok payload m') ↔ n ≤ kMaxHeadersItems) := by
  have hmessage := isMessage_locator hpos hmax (fun _ => kEmptyHash) (Octets.zero 4)
  set m := Message.validated 170002 (Octets.zero 4) true (locatorBytes n)
  have htype : m.getType = .kGetHeaders := getType_validated 170002 hmessage
  have hsize : m.vectorSize = n := (vector_validated 170002 (vectorOf_locator hpos hmax) hmessage rfl).1
  have hknown : m.knownItems := by
    rw [Message.knownItems, htype]
    rfl
  have hiff : (∃ payload m', readPayload.run m = .ok payload m') ↔
      (MessageType.kGetHeaders = .kGetHeaders → m.vectorSize ≤ kMaxHeadersItems) :=
    readPayload_iff 170002 hmessage (by decide) hknown
  rw [hsize, imp_iff_right rfl] at hiff
  exact ⟨m, feed_of_isMessage 170002 hmessage, htype, hsize, hknown, hiff⟩

/-- A `getheaders` with one hash is read. -/
theorem accepted_decodes_iff_oneHash :
    ∃ m, feed (Message.writeStep fun _ => kEmptyHash) (Message.new 170002 (Octets.zero 4)) [locatorBytes 1] =
        some (.done m []) ∧ m.getType = .kGetHeaders ∧ m.vectorSize = 1 ∧
      ∃ payload m', readPayload.run m = .ok payload m' := by
  obtain ⟨m, hfeed, htype, hsize, hknown, -⟩ := accepted_locator (n := 1) (by decide) (by decide)
  have hne : ∀ c ∈ [locatorBytes 1], c ≠ [] := by decide
  have hfew : m.getType = .kGetHeaders → m.vectorSize ≤ kMaxHeadersItems := fun _ => by
    rw [hsize]
    decide
  exact ⟨m, hfeed, htype, hsize, (accepted_decodes_iff (fun _ => kEmptyHash) 170002 (Octets.zero 4) [locatorBytes 1] hne
    hfeed (by rw [htype]; decide) hknown).mpr hfew⟩

/-- A `getheaders` with one hash more than the payload class allows is accepted and not read. -/
theorem accepted_not_decoded :
    ∃ m, feed (Message.writeStep fun _ => kEmptyHash) (Message.new 170002 (Octets.zero 4))
        [locatorBytes (kMaxHeadersItems + 1)] = some (.done m []) ∧
      m.getType = .kGetHeaders ∧ m.vectorSize = kMaxHeadersItems + 1 ∧
      ¬ ∃ payload m', readPayload.run m = .ok payload m' := by
  obtain ⟨m, hfeed, htype, hsize, -, hiff⟩ := accepted_locator (n := kMaxHeadersItems + 1) (by decide) (by decide)
  exact ⟨m, hfeed, htype, hsize, fun hread => absurd (hiff.mp hread) (by decide)⟩

end Znode.Node
