import Mathlib
import Znode.Core.Codec
import Znode.Core.Sizing

/-!
# Block headers

* `bindBytes` : the `bind` of a `Bytes`, which has no length on the wire and so reads all that is left;
* `bindUInt256` : the `bind` of a `uint256_t`. `export_bits` writes no leading zero bytes, so the number stands at
  the start of the 32 bytes;
* `BlockHeader` with its `serialization`, and `BlockHeader.sized` : its size is 140 bytes and the solution;
* `blockHeader_roundTrip_iff` : the headers that are read back as they were written. A nonce with leading zero
  bytes comes back shifted (`importBits_padded`).
-/

namespace Znode.Core
open Znode.Lib

def bindBytes (action : Action) (object : Bytes) : Ser Bytes := do
  match action with
  | .kComputeSize => addSize object.length; return object
  | .kSerialize => write object; return object
  | .kDeserialize => read

def bindInt32 (action : Action) (v : Int32) : Ser Int32 := do
  return Int32.ofInt (← bindInt 4 action v.toInt)

def bindUInt32 (action : Action) (v : UInt32) : Ser UInt32 := do
  return UInt32.ofNat (← bindUInt 4 action v.toNat)

/-- `boost::multiprecision::export_bits` in chunks of 8 bits: the most significant one that is not zero first. -/
def exportBits (v : Nat) : Bytes := (leBytes (v.log2 / 8 + 1) v).reverse

/-- `boost::multiprecision::import_bits` in chunks of 8 bits, the most significant one first. -/
def importBits (bytes : Bytes) : Nat := leVal bytes.reverse

def bindUInt256 (action : Action) (object : BitVec 256) : Ser (BitVec 256) := do
  match action with
  | .kComputeSize => addSize 32; return object
  | .kSerialize => write (Octets.ofBytes 32 (exportBits object.toNat)).val; return object
  | .kDeserialize => return BitVec.ofNat 256 (importBits (← bindOctets 32 action (Octets.zero 32)).val)

structure BlockHeader where
  version : Int32 := 0
  parentHash : Octets 32 := Octets.zero 32
  merkleRoot : Octets 32 := Octets.zero 32
  scctRoot : Octets 32 := Octets.zero 32
  time : UInt32 := 0
  bits : UInt32 := 0
  nonce : BitVec 256 := 0
  solution : Bytes := []
deriving DecidableEq, Repr

def kBlockHeaderSerializedSize : Nat := 140

namespace BlockHeader

/-- `set_version` of the stream, with the version of the header. -/
def setVersion : SerOf BlockHeader Unit := modify fun xs => (xs.1, { xs.2 with version := xs.1.version.toInt })

/-- The members of fixed size after the version. -/
def bindMembers (action : Action) : SerOf BlockHeader Unit := do
  SerOf.field parentHash (fun a h => { h with parentHash := a }) (bindOctets 32 action)
  SerOf.field merkleRoot (fun a h => { h with merkleRoot := a }) (bindOctets 32 action)
  SerOf.field scctRoot (fun a h => { h with scctRoot := a }) (bindOctets 32 action)
  SerOf.field time (fun a h => { h with time := a }) (bindUInt32 action)
  SerOf.field bits (fun a h => { h with bits := a }) (bindUInt32 action)
  SerOf.field nonce (fun a h => { h with nonce := a }) (bindUInt256 action)

def serialization (action : Action) : SerOf BlockHeader Unit := do
  SerOf.field version (fun a h => { h with version := a }) (bindInt32 action)
  setVersion
  bindMembers action
  SerOf.field solution (fun a h => { h with solution := a }) (bindBytes action)

end BlockHeader

theorem sized_bindBytes (b : Bytes) : SizedCall (fun action => bindBytes action b) b b.length :=
  ⟨(adds_write b).map fun _ => b, (counts_addSize b.length).map fun _ => b⟩

theorem sized_bindInt32 (v : Int32) : SizedCall (fun action => bindInt32 action v) v 4 := by
  have h := (sized_bindInt 4 v.toInt).map Int32.ofInt
  rwa [Int32.ofInt_toInt] at h

theorem sized_bindUInt32 (v : UInt32) : SizedCall (fun action => bindUInt32 action v) v 4 := by
  have h := (sized_bindUInt 4 v.toNat).map UInt32.ofNat
  rwa [UInt32.ofNat_toNat] at h

theorem sized_bindUInt256 (v : BitVec 256) : SizedCall (fun action => bindUInt256 action v) v 32 := by
  have hadds := (adds_write (Octets.ofBytes 32 (exportBits v.toNat)).val).map fun _ => v
  rw [(Octets.ofBytes 32 _).property] at hadds
  exact ⟨hadds, (counts_addSize 32).map fun _ => v⟩

/-! ## Sizes -/

namespace BlockHeader

theorem sized_setVersion (h : BlockHeader) : Sized (fun _ => setVersion) h h 0 := by
  refine ⟨?_, fun t ht => ⟨_, rfl, ht, rfl⟩⟩
  rintro s z s' ⟨⟩
  exact ⟨rfl, rfl⟩

theorem sized_bindMembers (h : BlockHeader) : Sized bindMembers h h 136 := by
  have hsum : Sized bindMembers h h (32 + (32 + (32 + (4 + (4 + 32))))) :=
    (Sized.field _ (sized_bindOctets h.parentHash)).bind <|
    (Sized.field _ (sized_bindOctets h.merkleRoot)).bind <|
    (Sized.field _ (sized_bindOctets h.scctRoot)).bind <|
    (Sized.field _ (sized_bindUInt32 h.time)).bind <|
    (Sized.field _ (sized_bindUInt32 h.bits)).bind <|
    Sized.field _ (sized_bindUInt256 h.nonce)
  exact hsum

theorem sized (h : BlockHeader) : Sized serialization h h (kBlockHeaderSerializedSize + h.solution.length) := by
  have hsum : 4 + (0 + (136 + h.solution.length)) = kBlockHeaderSerializedSize + h.solution.length := by
    unfold kBlockHeaderSerializedSize
    omega
  rw [← hsum]
  exact (Sized.field _ (sized_bindInt32 h.version)).bind <|
    h.sized_setVersion.bind <|
    h.sized_bindMembers.bind <|
    Sized.field _ (sized_bindBytes h.solution)

end BlockHeader

/-! ## The nonce -/

theorem length_exportBits (v : Nat) : (exportBits v).length = v.log2 / 8 + 1 := by
  rw [exportBits, List.length_reverse, length_leBytes]

theorem lt_pow_exportBits (v : Nat) : v < 256 ^ (v.log2 / 8 + 1) := by
  have h := Nat.lt_log2_self (n := v)
  refine h.trans_le ?_
  rw [show 256 = 2 ^ 8 from rfl, ← pow_mul]
  exact Nat.pow_le_pow_right (by decide) (by omega)

theorem length_exportBits_le (v : BitVec 256) : (exportBits v.toNat).length ≤ 32 := by
  rw [length_exportBits]
  by_cases h : v.toNat = 0
  · rw [h]
    decide
  · have := (Nat.log2_lt h).mpr v.isLt
    omega

/-- The zeros that fill up the 32 bytes are less significant than the number. -/
theorem importBits_padded (v : BitVec 256) :
    importBits (Octets.ofBytes 32 (exportBits v.toNat)).val =
      256 ^ (32 - (exportBits v.toNat).length) * v.toNat := by
  have hval : (Octets.ofBytes 32 (exportBits v.toNat)).val =
      exportBits v.toNat ++ List.replicate (32 - (exportBits v.toNat).length) 0 := by
    rw [Octets.ofBytes]
    simp only
    rw [List.take_of_length_le (length_exportBits_le v)]
  have hnumber : leVal (exportBits v.toNat).reverse = v.toNat := by
    rw [exportBits, List.reverse_reverse, leVal_leBytes (lt_pow_exportBits v.toNat)]
  rw [hval, importBits, List.reverse_append, List.reverse_replicate, leVal_zeros_append, hnumber]

/-- A nonce that has all its 32 bytes, or none. -/
def FullNonce (v : BitVec 256) : Prop := v = 0 ∨ 2 ^ 248 ≤ v.toNat

theorem length_exportBits_eq_iff {v : BitVec 256} (h : v.toNat ≠ 0) :
    (exportBits v.toNat).length = 32 ↔ 2 ^ 248 ≤ v.toNat := by
  have hlt := (Nat.log2_lt h).mpr v.isLt
  have hge := (Nat.le_log2 (k := 248) h)
  rw [length_exportBits, ← hge]
  omega

theorem nonce_kept_iff (v : BitVec 256) :
    BitVec.ofNat 256 (importBits (Octets.ofBytes 32 (exportBits v.toNat)).val) = v ↔ FullNonce v := by
  have hle := length_exportBits_le v
  set k := (exportBits v.toNat).length with hk
  have hlt : 256 ^ (32 - k) * v.toNat < 2 ^ 256 := by
    have hv : v.toNat < 256 ^ k := by
      rw [hk, length_exportBits]
      exact lt_pow_exportBits v.toNat
    calc 256 ^ (32 - k) * v.toNat < 256 ^ (32 - k) * 256 ^ k := Nat.mul_lt_mul_of_pos_left hv (by positivity)
      _ = 256 ^ 32 := by rw [← pow_add, Nat.sub_add_cancel hle]
      _ = 2 ^ 256 := by norm_num
  rw [importBits_padded, ← BitVec.toNat_inj, BitVec.toNat_ofNat, Nat.mod_eq_of_lt hlt, FullNonce]
  by_cases h : v.toNat = 0
  · rw [h, Nat.mul_zero]
    exact iff_of_true rfl (Or.inl (BitVec.eq_of_toNat_eq h))
  · have hzero : v ≠ 0 := fun hv => h (by rw [hv]; rfl)
    rw [← length_exportBits_eq_iff h, ← hk, or_iff_right hzero]
    constructor
    · intro heq
      have hone : 256 ^ (32 - k) = 1 := Nat.eq_of_mul_eq_mul_right (Nat.pos_of_ne_zero h) (by omega)
      have := (Nat.pow_eq_one.mp hone).resolve_left (by decide)
      omega
    · intro heq
      rw [heq, Nat.sub_self, pow_zero, Nat.one_mul]

/-! ## The wire format -/

theorem puts_bindInt32 (v : Int32) : Puts (bindInt32 .kSerialize v) v (leBytes 4 (v.toInt % 256 ^ 4).toNat) := by
  have h := (puts_bindInt 4 v.toInt).map Int32.ofInt
  rwa [Int32.ofInt_toInt] at h

theorem gets_bindInt32 (v₀ v : Int32) : Gets (bindInt32 .kDeserialize v₀) v (leBytes 4 (v.toInt % 256 ^ 4).toNat) := by
  have hlow := v.le_toInt
  have hhigh := v.toInt_lt
  have h := (gets_int v₀.toInt (n := 4) (v := v.toInt) (by omega) (by omega)).map Int32.ofInt
  rwa [Int32.ofInt_toInt] at h

theorem puts_bindUInt32 (v : UInt32) : Puts (bindUInt32 .kSerialize v) v (leBytes 4 v.toNat) := by
  have h := (puts_bindUInt 4 v.toNat).map UInt32.ofNat
  rwa [UInt32.ofNat_toNat] at h

theorem gets_bindUInt32 (v₀ v : UInt32) : Gets (bindUInt32 .kDeserialize v₀) v (leBytes 4 v.toNat) := by
  have h := (gets_uint v₀.toNat (n := 4) v.toNat_lt).map UInt32.ofNat
  rwa [UInt32.ofNat_toNat] at h

namespace BlockHeader

/-- What is read of a header that was written. -/
def received (h : BlockHeader) : BlockHeader :=
  { h with nonce := BitVec.ofNat 256 (importBits (Octets.ofBytes 32 (exportBits h.nonce.toNat)).val) }

def encodeMembers (h : BlockHeader) : Bytes :=
  h.parentHash.val ++ (h.merkleRoot.val ++ (h.scctRoot.val ++ (leBytes 4 h.time.toNat ++ (leBytes 4 h.bits.toNat ++
    (Octets.ofBytes 32 (exportBits h.nonce.toNat)).val))))

def encode (h : BlockHeader) : Bytes :=
  leBytes 4 (h.version.toInt % 256 ^ 4).toNat ++ ([] ++ (h.encodeMembers ++ h.solution))

theorem length_encode (h : BlockHeader) : h.encode.length = kBlockHeaderSerializedSize + h.solution.length := by
  simp only [encode, encodeMembers, List.length_append, length_leBytes, h.parentHash.property, h.merkleRoot.property,
    h.scctRoot.property, (Octets.ofBytes 32 _).property, List.length_nil, kBlockHeaderSerializedSize]
  omega

theorem writes_bindMembers (h : BlockHeader) : Writes (bindMembers .kSerialize) h h.encodeMembers :=
  (Writes.field (puts_bindOctets h.parentHash) rfl).bind <|
    (Writes.field (puts_bindOctets h.merkleRoot) rfl).bind <|
    (Writes.field (puts_bindOctets h.scctRoot) rfl).bind <|
    (Writes.field (puts_bindUInt32 h.time) rfl).bind <|
    (Writes.field (puts_bindUInt32 h.bits) rfl).bind <|
    Writes.field ((puts_write _).map fun _ => h.nonce) rfl

theorem reads_bindMembers (h₀ h : BlockHeader) :
    Reads (bindMembers .kDeserialize) h₀
      { h.received with version := h₀.version, solution := h₀.solution } h.encodeMembers :=
  (Reads.field _ (gets_octets _ h.parentHash)).bind <|
    (Reads.field _ (gets_octets _ h.merkleRoot)).bind <|
    (Reads.field _ (gets_octets _ h.scctRoot)).bind <|
    (Reads.field _ (gets_bindUInt32 _ h.time)).bind <|
    (Reads.field _ (gets_bindUInt32 _ h.bits)).bind <|
    Reads.field _ ((gets_octets (Octets.zero 32) (Octets.ofBytes 32 (exportBits h.nonce.toNat))).map fun o =>
      BitVec.ofNat 256 (importBits o.val))

theorem appends (h : BlockHeader) : Appends (serialization .kSerialize) h h.encode := by
  have hset : Appends setVersion h [] := fun s _ => ⟨_, rfl, by rw [List.append_nil], rfl⟩
  exact (Writes.field (puts_bindInt32 h.version) rfl).appends.bind <|
    hset.bind <|
    h.writes_bindMembers.appends.bind <|
    (Writes.field ((puts_write h.solution).map fun _ => h.solution) rfl).appends

theorem drains_solution (h : BlockHeader) (w : Bytes) :
    Drains (SerOf.field solution (fun a h => { h with solution := a }) (bindBytes .kDeserialize)) h
      { h with solution := w } w := by
  intro s hs
  refine ⟨s.skip s.avail, ?_, ?_⟩
  · have hall : slice s.buffer s.readPosition s.avail = w := by
      rw [slice, hs.2, hs.avail, List.take_length]
    rw [SerOf.field_run, show (bindBytes .kDeserialize h.solution).run s = _ from read_all_run s, hall]
    rfl
  · rw [← List.append_nil w] at hs
    rw [hs.avail, List.append_nil]
    exact hs.ahead.2.eof

theorem drains (h : BlockHeader) : Drains (serialization .kDeserialize) {} h.received h.encode := by
  have hrest : Drains (do
      bindMembers .kDeserialize
      SerOf.field solution (fun a h => { h with solution := a }) (bindBytes .kDeserialize))
      { version := h.version } h.received (h.encodeMembers ++ h.solution) :=
    Drains.bind (reads_bindMembers { version := h.version } h) (drains_solution _ h.solution)
  -- setting the version of the stream leaves its bytes
  exact Drains.bind (Reads.field _ (gets_bindInt32 _ h.version))
    fun s hs => hrest { s with version := h.version.toInt } hs

theorem length_le_of_serialize {h h' : BlockHeader} {s t : SDataStream}
    (hrun : (serialization .kSerialize).run (h, s) = .ok () (h', t)) : t.buffer.length ≤ kMaxStreamSize := by
  obtain ⟨_, _, -, hrun₁⟩ := bind_eq_ok hrun
  obtain ⟨_, _, -, hrun₂⟩ := bind_eq_ok hrun₁
  obtain ⟨_, ⟨x, s₁⟩, -, hlast⟩ := bind_eq_ok hrun₂
  rw [SerOf.field_run] at hlast
  cases hwrite : (bindBytes .kSerialize x.solution).run s₁ with
  | error e s₂ => simp [hwrite] at hlast
  | ok a s₂ =>
      simp only [hwrite] at hlast
      cases hlast
      obtain ⟨_, s₃, hw, hpure⟩ := bind_eq_ok hwrite
      cases hpure
      rw [write_run] at hw
      split_ifs at hw with hfit
      cases hw
      exact List.length_append.trans_le (not_lt.mp hfit)

/-- **When a header is read back as it was written**: it fits in the stream, and its nonce is zero or has 32
significant bytes. -/
theorem blockHeader_roundTrip_iff (h : BlockHeader) (s : SDataStream) (hempty : s.buffer = [])
    (hstart : s.readPosition = 0) :
    (∃ t u, (serialization .kSerialize).run (h, s) = .ok () (h, t) ∧
        (serialization .kDeserialize).run ({}, t) = .ok () (h, u)) ↔
      FullNonce h.nonce ∧ kBlockHeaderSerializedSize + h.solution.length ≤ kMaxStreamSize := by
  have hreceived : h.received = h ↔ FullNonce h.nonce := by
    rw [← nonce_kept_iff]
    refine ⟨fun heq => congrArg nonce heq, fun heq => ?_⟩
    rw [received, heq]
  constructor
  · rintro ⟨t, u, hwrite, hread⟩
    have hlen := (h.sized.1 s h t hwrite).2
    have hroom := length_le_of_serialize hwrite
    rw [hempty, List.length_nil, Nat.zero_add] at hlen
    rw [hlen] at hroom
    obtain ⟨t', u', hwrite', hread', -⟩ :=
      h.appends.roundTrip h.drains (h.length_encode.trans_le hroom) s hempty hstart
    cases hwrite.symm.trans hwrite'
    have heq : h = h.received ∧ u = u' := by simpa using hread.symm.trans hread'
    exact ⟨hreceived.mp heq.1.symm, hroom⟩
  · rintro ⟨hnonce, hroom⟩
    obtain ⟨t, u, hwrite, hread, -⟩ :=
      h.appends.roundTrip h.drains (h.length_encode.trans_le hroom) s hempty hstart
    rw [hreceived.mpr hnonce] at hread
    exact ⟨t, u, hwrite, hread⟩

/-- A header with a nonce of 32 bytes and a solution. -/
def minedHeader : BlockHeader where
  version := 3
  parentHash := ⟨List.replicate 32 0xab, rfl⟩
  merkleRoot := ⟨List.replicate 32 0xcd, rfl⟩
  time := 1700000000
  bits := 0x1c00ffff
  nonce := BitVec.ofNat 256 (2 ^ 255 + 7)
  solution := [1, 2, 3]

theorem blockHeader_roundTrip_iff_mined :
    ∃ t u, (serialization .kSerialize).run (minedHeader, {}) = .ok () (minedHeader, t) ∧
      (serialization .kDeserialize).run ({}, t) = .ok () (minedHeader, u) :=
  (blockHeader_roundTrip_iff minedHeader {} rfl rfl).mpr ⟨Or.inr (by decide +kernel), by decide⟩

/-- The nonce 1 comes back as `2 ^ 248`. -/
theorem nonce_shifted :
    ∃ t u, (serialization .kSerialize).run ({ nonce := 1 }, {}) = .ok () ({ nonce := 1 }, t) ∧
      (serialization .kDeserialize).run ({}, t) = .ok () ({ nonce := BitVec.ofNat 256 (2 ^ 248) }, u) := by
  have hreceived : received { nonce := 1 } = { nonce := BitVec.ofNat 256 (2 ^ 248) } := by
    have hnonce : BitVec.ofNat 256 (256 ^ (32 - ((1 : BitVec 256).toNat.log2 / 8 + 1)) * (1 : BitVec 256).toNat) =
        BitVec.ofNat 256 (2 ^ 248) := by decide +kernel
    rw [received, importBits_padded, length_exportBits, hnonce]
  obtain ⟨t, u, hwrite, hread, -⟩ :=
    (appends { nonce := 1 }).roundTrip (drains { nonce := 1 }) (by rw [length_encode]; decide) {} rfl rfl
  rw [hreceived] at hread
  exact ⟨t, u, hwrite, hread⟩

end BlockHeader

end Znode.Core
