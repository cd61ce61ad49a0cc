import Mathlib
import Znode.Lib.Bytes

/-!
# Message authentication codes

`MessageDigest` wraps a digest of OpenSSL, and `Hmac` computes a keyed code with two of them. Both objects can be used
again after an `init`, whatever was done with them before.

* `Evp` : what is assumed of OpenSSL: from `EVP_DigestInit_ex` on, a context digests the concatenation of its updates;
* `Evp.Digested`, `MessageDigest.Ingested` : the bytes a context or a digest was fed with since its last `init`;
* `Hmac.rfc2104` : the code of a message, from its definition;
* `hmac_eq_rfc2104` : what `finalize` returns after `init` and any updates.
-/

namespace Znode.Core
open Znode.Lib

/-- A digest of OpenSSL, with its contexts. `digestFinal` may fail, but not on a context that was initialised and then
only updated. -/
structure Evp where
  Context : Type
  digestInit : Context → Context
  digestUpdate : Context → Bytes → Context
  digestFinal : Context → Option Bytes × Context
  hash : Bytes → Bytes
  blockSize : Nat
  digestSize : Nat
  digestSize_le : digestSize ≤ blockSize
  length_hash : ∀ data, (hash data).length = digestSize
  digestFinal_eq : ∀ context (chunks : List Bytes),
    (digestFinal (chunks.foldl digestUpdate (digestInit context))).1 = some (hash chunks.flatten)

/-- A digest of one byte, for the length of what it is given. -/
def Evp.lengths : Evp where
  Context := Bytes
  digestInit _ := []
  digestUpdate context data := context ++ data
  digestFinal context := (some [UInt8.ofNat context.length], context)
  hash data := [UInt8.ofNat data.length]
  blockSize := 1
  digestSize := 1
  digestSize_le := le_rfl
  length_hash _ := rfl
  digestFinal_eq context chunks := by
    have hfold : ∀ start : Bytes, chunks.foldl (· ++ ·) start = start ++ chunks.flatten := by
      intro start
      induction chunks generalizing start with
      | nil => simp
      | cons chunk chunks ih => simp [ih]
    rw [hfold, List.nil_append]

namespace Evp
variable {evp : Evp} {context : evp.Context} {data : Bytes}

/-- The bytes the context has digested since it was initialised. -/
def Digested (evp : Evp) (context : evp.Context) (data : Bytes) : Prop :=
  ∃ (start : evp.Context) (chunks : List Bytes),
    context = chunks.foldl evp.digestUpdate (evp.digestInit start) ∧ chunks.flatten = data

theorem digested_init (evp : Evp) (start : evp.Context) : evp.Digested (evp.digestInit start) [] :=
  ⟨start, [], rfl, rfl⟩

theorem Digested.update (h : evp.Digested context data) (more : Bytes) :
    evp.Digested (evp.digestUpdate context more) (data ++ more) := by
  obtain ⟨start, chunks, rfl, rfl⟩ := h
  refine ⟨start, chunks ++ [more], ?_, ?_⟩
  · rw [List.foldl_concat]
  · rw [List.flatten_append, List.flatten_singleton]

theorem Digested.final (h : evp.Digested context data) : (evp.digestFinal context).1 = some (evp.hash data) := by
  obtain ⟨start, chunks, rfl, rfl⟩ := h
  exact evp.digestFinal_eq start chunks

end Evp

structure MessageDigest (evp : Evp) where
  context : evp.Context
  ingestedSize : Nat := 0

namespace MessageDigest
variable {evp : Evp}

def init (d : MessageDigest evp) : MessageDigest evp := { context := evp.digestInit d.context, ingestedSize := 0 }

def update (d : MessageDigest evp) (data : Bytes) : MessageDigest evp :=
  if data = [] then d
  else { context := evp.digestUpdate d.context data, ingestedSize := d.ingestedSize + data.length }

/-- The digest, empty after an error, and the object afterwards. -/
def finalize (d : MessageDigest evp) : Bytes × MessageDigest evp :=
  let (digest, context) := evp.digestFinal d.context
  (digest.getD [], { d with context := context })

/-- The bytes that have been digested since the last `init`. -/
def Ingested (d : MessageDigest evp) (data : Bytes) : Prop := evp.Digested d.context data

variable {d : MessageDigest evp} {data : Bytes}

theorem ingested_init (d : MessageDigest evp) : d.init.Ingested [] := evp.digested_init d.context

theorem Ingested.update (h : d.Ingested data) (more : Bytes) : (d.update more).Ingested (data ++ more) := by
  unfold MessageDigest.update
  split_ifs with hempty
  · rwa [hempty, List.append_nil]
  · exact Evp.Digested.update h more

theorem Ingested.finalize (h : d.Ingested data) : d.finalize.1 = evp.hash data := by
  change (evp.digestFinal d.context).1.getD [] = _
  rw [Evp.Digested.final h, Option.getD_some]

end MessageDigest

structure Hmac (evp : Evp) where
  inner : MessageDigest evp
  outer : MessageDigest evp

namespace Hmac
variable {evp : Evp}

/-- The key or its digest, not yet padded, and the inner digest afterwards. -/
def shorten (inner : MessageDigest evp) (key : Bytes) : Bytes × MessageDigest evp :=
  if key.length > evp.blockSize then
    let (rkey, inner) := (inner.update key).finalize
    (rkey, inner.init)
  else (key, inner)

def init (h : Hmac evp) (key : Bytes) : Hmac evp :=
  let inner := h.inner.init
  let outer := h.outer.init
  let (rkey, inner) := shorten inner key
  let rkey := resized evp.blockSize 0 rkey
  let rkey := rkey.map (· ^^^ 0x5c)
  let outer := outer.update rkey
  let rkey := rkey.map (· ^^^ (0x5c ^^^ 0x36))
  let inner := inner.update rkey
  { inner := inner, outer := outer }

def update (h : Hmac evp) (data : Bytes) : Hmac evp := { h with inner := h.inner.update data }

def finalize (h : Hmac evp) : Bytes × Hmac evp :=
  let (tmp, inner) := h.inner.finalize
  if tmp = [] then (tmp, { h with inner := inner })
  else
    let (digest, outer) := (h.outer.update tmp).finalize
    (digest, { inner := inner, outer := outer })

/-! ## The definition of the code -/

/-- The key, or its hash when it is longer than a block, padded with zeros to a block. -/
def paddedKey (hash : Bytes → Bytes) (blockSize : Nat) (key : Bytes) : Bytes :=
  let key := if key.length > blockSize then hash key else key
  key ++ List.replicate (blockSize - key.length) 0

/-- `H((K' xor opad) || H((K' xor ipad) || message))`. -/
def rfc2104 (hash : Bytes → Bytes) (blockSize : Nat) (key message : Bytes) : Bytes :=
  let key := paddedKey hash blockSize key
  hash (key.map (· ^^^ 0x5c) ++ hash (key.map (· ^^^ 0x36) ++ message))

/-! ## The two agree -/

/-- The inner digest is fed with the one pad and the message, the outer one with the other pad. -/
structure Keyed (h : Hmac evp) (key message : Bytes) : Prop where
  inner : h.inner.Ingested ((paddedKey evp.hash evp.blockSize key).map (· ^^^ 0x36) ++ message)
  outer : h.outer.Ingested ((paddedKey evp.hash evp.blockSize key).map (· ^^^ 0x5c))

/-- A long key leaves nothing in the inner digest. -/
theorem shorten_spec {inner : MessageDigest evp} (h : inner.Ingested []) (key : Bytes) :
    resized evp.blockSize 0 (shorten inner key).1 = paddedKey evp.hash evp.blockSize key ∧
      (shorten inner key).2.Ingested [] := by
  unfold shorten paddedKey
  split_ifs with hlong
  · have hdigest : ((inner.update key).finalize).1 = evp.hash key := (h.update key).finalize
    have hlength : (evp.hash key).length ≤ evp.blockSize := (evp.length_hash key).trans_le evp.digestSize_le
    refine ⟨?_, MessageDigest.ingested_init _⟩
    change resized _ _ (inner.update key).finalize.1 = _
    rw [hdigest, resized_of_length_le hlength]
  · exact ⟨resized_of_length_le (Nat.le_of_not_lt hlong) 0, h⟩

/-- The second pad comes from the first one. -/
theorem xor_pads (b : UInt8) : b ^^^ 0x5c ^^^ (0x5c ^^^ 0x36) = b ^^^ 0x36 := by
  rw [← UInt8.xor_assoc, UInt8.xor_assoc b, UInt8.xor_self, UInt8.xor_zero]

theorem keyed_init (h : Hmac evp) (key : Bytes) : (h.init key).Keyed key [] := by
  obtain ⟨hkey, hinner⟩ := shorten_spec (MessageDigest.ingested_init h.inner) key
  constructor
  · rw [List.append_nil, ← hkey]
    have hpads (rkey : Bytes) : (rkey.map (· ^^^ 0x5c)).map (· ^^^ (0x5c ^^^ 0x36)) = rkey.map (· ^^^ 0x36) := by
      rw [List.map_map]
      exact List.map_congr_left fun b _ => xor_pads b
    rw [← hpads]
    exact hinner.update _
  · rw [← hkey]
    exact (MessageDigest.ingested_init h.outer).update _

theorem Keyed.update {h : Hmac evp} {key message : Bytes} (hkeyed : h.Keyed key message) (data : Bytes) :
    (h.update data).Keyed key (message ++ data) := by
  refine ⟨?_, hkeyed.outer⟩
  rw [← List.append_assoc]
  exact hkeyed.inner.update data

theorem Keyed.updates {h : Hmac evp} {key message : Bytes} (hkeyed : h.Keyed key message) (chunks : List Bytes) :
    (chunks.foldl Hmac.update h).Keyed key (message ++ chunks.flatten) := by
  induction chunks generalizing h message with
  | nil => rwa [List.flatten_nil, List.append_nil]
  | cons data chunks ih =>
      rw [List.flatten_cons, ← List.append_assoc]
      exact ih (hkeyed.update data)

theorem Keyed.finalize {h : Hmac evp} {key message : Bytes} (hkeyed : h.Keyed key message) :
    h.finalize.1 = rfc2104 evp.hash evp.blockSize key message := by
  have htmp := hkeyed.inner.finalize
  have hdigest := (hkeyed.outer.update h.inner.finalize.1).finalize
  rw [htmp] at hdigest
  change (if h.inner.finalize.1 = [] then _ else _ : Bytes × Hmac evp).1 = _
  split_ifs with hempty
  · -- a digest without bytes
    rw [htmp, ← List.length_eq_zero_iff, evp.length_hash] at hempty
    change h.inner.finalize.1 = _
    rw [htmp, rfc2104, List.eq_nil_of_length_eq_zero ((evp.length_hash _).trans hempty),
      List.eq_nil_of_length_eq_zero ((evp.length_hash _).trans hempty)]
  · change (h.outer.update h.inner.finalize.1).finalize.1 = _
    rw [htmp, hdigest, rfc2104]

/-- **`Hmac` follows its definition**: for every key, every state the object was left in and every split of the message
into updates. -/
theorem hmac_eq_rfc2104 (evp : Evp) (h : Hmac evp) (key : Bytes) (chunks : List Bytes) :
    (chunks.foldl update (h.init key)).finalize.1 = rfc2104 evp.hash evp.blockSize key chunks.flatten := by
  have hkeyed := (keyed_init h key).updates chunks
  rw [List.nil_append] at hkeyed
  exact hkeyed.finalize

/-- There are digests with these properties: a context keeps the bytes, and the digest is their sum. -/
example : Nonempty Evp :=
  ⟨{  Context := Bytes
      digestInit := fun _ => []
      digestUpdate := (· ++ ·)
      digestFinal := fun context => (some [context.sum], context)
      hash := fun data => [data.sum]
      blockSize := 64
      digestSize := 1
      digestSize_le := by omega
      length_hash := fun _ => rfl
      digestFinal_eq := fun _ chunks => by
        have hflatten : chunks.foldl (· ++ ·) [] = chunks.flatten :=
          (List.foldl_append_eq_append (f := id)).trans (by simp)
        rw [hflatten] }⟩

end Hmac

end Znode.Core
