import Mathlib
import Znode.AddressBook.Entries
import Znode.Net.Codecs

/-!
# Entries on the wire

`NodeServiceInfo.serialization`, the bytes it writes (`NodeServiceInfo.encode`) and that they are read back. The
references into the buckets are not written: what is read has none (`NodeServiceInfo.unreferenced`).
-/

namespace Znode.Net
open Znode.Lib Znode.Core

namespace NodeServiceInfo

/-- A default constructed one. -/
def blank : NodeServiceInfo := { service := {}, origin := default }

def serialization (action : Action) : SerOf NodeServiceInfo Unit := do
  SerOf.member service (fun a i => { i with service := a }) (NodeService.serialization action)
  SerOf.field userAgent (fun a i => { i with userAgent := a }) (bindString action)
  SerOf.field origin (fun a i => { i with origin := a }) (IPAddress.bind action)
  SerOf.update fun i => { i with lastConnectionAttempt := i.lastConnectionAttempt % 2 ^ 32 }
  SerOf.field lastConnectionAttempt (fun a i => { i with lastConnectionAttempt := a }) (bindTime action)
  SerOf.update fun i => { i with lastConnectionSuccess := i.lastConnectionSuccess % 2 ^ 32 }
  SerOf.field lastConnectionSuccess (fun a i => { i with lastConnectionSuccess := a }) (bindTime action)
  SerOf.field connectionAttempts (fun a i => { i with connectionAttempts := a }) (bindUInt 4 action)
  SerOf.field randomPos (fun a i => { i with randomPos := a }) (bindUInt 4 action)

/-- The members are in the ranges of their types, the times fit in 32 bits, and the addresses are read back as
they are. The user agent is read back if it is not too long. -/
structure Storable (i : NodeServiceInfo) : Prop where
  service : i.service.Sendable
  origin : i.origin.upperHalf
  lastConnectionAttempt : 0 ≤ i.lastConnectionAttempt ∧ i.lastConnectionAttempt < 2 ^ 32
  lastConnectionSuccess : 0 ≤ i.lastConnectionSuccess ∧ i.lastConnectionSuccess < 2 ^ 32
  connectionAttempts : i.connectionAttempts < 2 ^ 32
  randomPos : i.randomPos < 2 ^ 32

/-- An entry without its references into the buckets, which are kept in memory only. -/
def unreferenced (i : NodeServiceInfo) : NodeServiceInfo := { i with triedRef := none, newRefs := ∅ }

def encode (i : NodeServiceInfo) : Bytes :=
  i.service.encode ++ ((compactBytes i.userAgent.length ++ i.userAgent) ++ (i.origin.mappedBytes.val ++
    ([] ++ (leBytes 4 i.lastConnectionAttempt.toNat ++ ([] ++ (leBytes 4 i.lastConnectionSuccess.toNat ++
      (leBytes 4 i.connectionAttempts ++ leBytes 4 i.randomPos)))))))

variable {i : NodeServiceInfo}

theorem writes (h : i.Storable) : Writes (serialization .kSerialize) i i.encode := by
  obtain ⟨hservice, -, ⟨hattempt, hattempt'⟩, ⟨hsuccess, hsuccess'⟩, -, -⟩ := h
  have hcutA : { i with lastConnectionAttempt := i.lastConnectionAttempt % 2 ^ 32 } = i := by
    rw [Int.emod_eq_of_lt hattempt hattempt']
  have hcutS : { i with lastConnectionSuccess := i.lastConnectionSuccess % 2 ^ 32 } = i := by
    rw [Int.emod_eq_of_lt hsuccess hsuccess']
  exact (Writes.member (NodeService.writes hservice) rfl).bind <|
    (Writes.field (puts_bindString i.userAgent) rfl).bind <|
    (Writes.field (IPAddress.puts_bind i.origin) rfl).bind <|
    (Writes.update hcutA).bind <|
    (Writes.field (puts_bindTime hattempt) rfl).bind <|
    (Writes.update hcutS).bind <|
    (Writes.field (puts_bindTime hsuccess) rfl).bind <|
    (Writes.field (puts_bindUInt 4 i.connectionAttempts) rfl).bind <|
    Writes.field (puts_bindUInt 4 i.randomPos) rfl

theorem reads (h : i.Storable) (hagent : i.userAgent.length ≤ kMaxSerializedCompactSize) :
    Reads (serialization .kDeserialize) blank i.unreferenced i.encode := by
  obtain ⟨hservice, horigin, ⟨hattempt, hattempt'⟩, ⟨hsuccess, hsuccess'⟩, hattempts, hpos⟩ := h
  exact (Reads.member _ (NodeService.reads _ hservice)).bind <|
    (Reads.field _ (gets_bindString _ hagent)).bind <|
    (Reads.field _ (IPAddress.gets_bind _ horigin)).bind <|
    (Reads.update _ _).bind <|
    (Reads.field _ (gets_bindTime _ hattempt hattempt')).bind <|
    (Reads.update _ _).bind <|
    (Reads.field _ (gets_bindTime _ hsuccess hsuccess')).bind <|
    (Reads.field _ (gets_uint _ (n := 4) hattempts)).bind <|
    Reads.field _ (gets_uint _ (n := 4) hpos)

theorem length_encode (i : NodeServiceInfo) :
    i.encode.length = i.userAgent.length + serCompactSizeof i.userAgent.length + 62 := by
  simp only [encode, List.length_append, length_leBytes, length_compactBytes, NodeService.length_encode,
    i.origin.mappedBytes.property, List.length_nil]
  omega

theorem length_encode_le (h : i.userAgent.length ≤ 2 * kMaxSerializedCompactSize) :
    i.encode.length ≤ kMaxStreamSize := by
  have hsize := serCompactSizeof_le i.userAgent.length
  rw [length_encode]
  unfold kMaxSerializedCompactSize at h
  unfold kMaxStreamSize
  omega

/-- A user agent that is too long is written, and not read back. -/
theorem refuses (h : i.Storable) (hlong : kMaxSerializedCompactSize < i.userAgent.length)
    (hlen : i.userAgent.length < 256 ^ 4) : Refuses (serialization .kDeserialize) blank i.encode :=
  Refuses.bind (Reads.member _ (NodeService.reads _ h.service)) (Refuses.string hlong hlen).bind_left

end NodeServiceInfo

end Znode.Net
