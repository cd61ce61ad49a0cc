import Mathlib
import Znode.Net.Codecs
import Znode.Net.Push
import Znode.Net.Sizes

/-!
# Rejections

The wire format of `reject` and what becomes of it.

* `MsgRejectPayload.encode` : the bytes; whether there is extra data is told by the bytes that are left;
* `reject_roundTrip_iff` : the code is read and not stored, so that only `kOk` comes back;
* `reject_push_iff` : the rejections that can be sent. The limit of the framing layer has no room for the length
  prefixes of the two strings.
-/

namespace Znode.Net
open Znode.Lib Znode.Core

namespace RejectionCode

theorem toInt_range (c : RejectionCode) : 0 ≤ c.toInt ∧ c.toInt < 128 := by
  cases c <;> decide

theorem ofInt?_toInt (c : RejectionCode) : ofInt? c.toInt = some c := by
  cases c <;> decide

end RejectionCode

theorem length_le_of_isKnownCommand {command : Bytes} (h : isKnownCommand command) :
    command.length ≤ kMessageHeaderCommandLength := by
  unfold isKnownCommand at h
  split at h
  · cases h
  · rename_i hlen
    simp only [Bool.or_eq_true, decide_eq_true_eq, not_or] at hlen
    exact not_lt.mp hlen.2

namespace MsgRejectPayload

/-- What `serialize` checks: a known command, and a reason that is not too long. -/
def Valid (p : MsgRejectPayload) : Prop := isKnownCommand p.rejectedCommand ∧ p.reason.length ≤ kMaxReasonSize

def extraBytes : Option H256 → Bytes
  | none => []
  | some data => data.val

def encode (p : MsgRejectPayload) : Bytes :=
  (compactBytes p.rejectedCommand.length ++ p.rejectedCommand) ++ (leBytes 1 (p.rejectionCode.toInt % 256 ^ 1).toNat ++
    ((compactBytes p.reason.length ++ p.reason) ++ extraBytes p.extraData))

theorem length_extraBytes (extra : Option H256) : (extraBytes extra).length = if extra.isSome then 32 else 0 := by
  cases extra with
  | none => rfl
  | some data => exact data.property

theorem length_encode (p : MsgRejectPayload) : p.encode.length = p.plainSize + p.extraSize := by
  simp only [encode, List.length_append, length_compactBytes, length_leBytes, length_extraBytes, plainSize, extraSize]
  omega

variable {p : MsgRejectPayload}

theorem length_encode_le (h : p.Valid) : p.encode.length ≤ 305 := by
  obtain ⟨hknown, hreason⟩ := h
  have hcommand := length_le_of_isKnownCommand hknown
  unfold kMessageHeaderCommandLength at hcommand
  unfold kMaxReasonSize at hreason
  rw [length_encode]
  unfold plainSize extraSize serCompactSizeof
  split_ifs <;> omega

theorem writes (h : p.Valid) : Writes (serialization .kSerialize) p p.encode := by
  obtain ⟨hknown, hreason⟩ := h
  have hextra : ∀ extra : Option H256, Writes (match extra with
      | none => pure ()
      | some data => do let _ ← SerOf.onStream (bindOctets 32 .kSerialize data)) p (extraBytes extra) := by
    intro extra
    cases extra with
    | none => exact Writes.pure p
    | some data =>
        have hdata := Writes.onStream (k := fun _ => pure ()) (puts_bindOctets data) (Writes.pure p)
        rwa [List.append_nil] at hdata
  refine Writes.get fun _ => Writes.guard _ ?_ (Writes.guard _ (not_lt.mpr hreason) ?_)
  · simpa using hknown
  · exact (Writes.field (puts_bindString p.rejectedCommand) rfl).bind <|
      Writes.onStream (puts_bindInt 1 p.rejectionCode.toInt) <|
      (Writes.field (puts_bindString p.reason) rfl).bind (hextra p.extraData)

/-- The code of a rejection is not stored. -/
def received (p : MsgRejectPayload) : MsgRejectPayload := { p with rejectionCode := .kOk }

/-- Extra data is there exactly when 32 bytes are left. -/
theorem drains_extra (p : MsgRejectPayload) (extra : Option H256) {s : SDataStream} (hs : s.Holds (extraBytes extra)) :
    Drains (if s.avail ≥ h256Size then do
        let extraData ← SerOf.onStream (bindOctets 32 .kDeserialize (Octets.zero 32))
        SerOf.update fun p => { p with extraData := some extraData }
      else pure ()) { p with extraData := none } { p with extraData := extra } (extraBytes extra) := by
  cases extra with
  | none =>
      rw [if_neg (by rw [hs.avail]; decide)]
      exact Drains.pure _
  | some data =>
      have havail : s.avail = h256Size := hs.avail.trans data.property
      rw [if_pos havail.ge]
      have hdata := Drains.onStream (k := fun data => SerOf.update fun p => { p with extraData := some data })
        (gets_octets (Octets.zero 32) data) (Reads.update _ { p with extraData := none }).drains
      rwa [List.append_nil] at hdata

theorem drains (h : p.Valid) : Drains (serialization .kDeserialize) {} p.received p.encode := by
  obtain ⟨hknown, hreason⟩ := h
  have hcommand := length_le_of_isKnownCommand hknown
  have hcode := p.rejectionCode.toInt_range
  have hmax : kMaxReasonSize ≤ kMaxSerializedCompactSize := by decide
  change Drains (bindOther .kDeserialize) {} p.received p.encode
  refine Drains.bind (Reads.field _ (gets_bindString _ (hcommand.trans (by decide)))) (Drains.get fun _ _ =>
    Drains.guard _ ?_ (Drains.onStream (gets_int _ (by omega) (by omega)) (Drains.guard _ ?_ ?_)))
  · simpa using hknown
  · rw [p.rejectionCode.ofInt?_toInt]
    exact Bool.false_ne_true
  · exact Drains.bind (Reads.field _ (gets_bindString _ (hreason.trans hmax))) (Drains.get fun s hs =>
      Drains.guard _ (not_lt.mpr hreason) (drains_extra p.received p.extraData hs))

/-- **When a rejection is read back as it was written**: its code is `kOk`. -/
theorem reject_roundTrip_iff (p : MsgRejectPayload) (h : p.Valid) (s : SDataStream) (hempty : s.buffer = [])
    (hstart : s.readPosition = 0) :
    (∃ t u, (serialization .kSerialize).run (p, s) = .ok () (p, t) ∧
        (serialization .kDeserialize).run ({}, t) = .ok () (p, u) ∧ u.eof) ↔ p.rejectionCode = .kOk := by
  have hfit : p.encode.length ≤ kMaxStreamSize := (length_encode_le h).trans (by decide)
  obtain ⟨t, u, hwrite, hread, heof⟩ := (writes h).appends.roundTrip (drains h) hfit s hempty hstart
  constructor
  · rintro ⟨t', u', hwrite', hread', -⟩
    cases hwrite.symm.trans hwrite'
    have heq : p = p.received ∧ u' = u := by simpa using hread'.symm.trans hread
    exact congrArg rejectionCode heq.1
  · intro hok
    have heq : p.received = p := by rw [received, ← hok]
    rw [heq] at hread
    exact ⟨t, u, hwrite, hread, heof⟩

def refusedPing (rejectionCode : RejectionCode) : MsgRejectPayload :=
  { rejectedCommand := stringBytes "ping", rejectionCode := rejectionCode }

theorem reject_roundTrip_iff_refusedPing :
    (refusedPing .kInvalid).Valid ∧
      ((∃ t u, (serialization .kSerialize).run (refusedPing .kInvalid, {}) = .ok () (refusedPing .kInvalid, t) ∧
        (serialization .kDeserialize).run ({}, t) = .ok () (refusedPing .kInvalid, u) ∧ u.eof) ↔
          (refusedPing .kInvalid).rejectionCode = .kOk) :=
  ⟨⟨by decide, by decide⟩, reject_roundTrip_iff _ ⟨by decide, by decide⟩ {} rfl rfl⟩

/-- `kInvalid` comes back as `kOk`. -/
theorem rejectionCode_lost :
    (refusedPing .kInvalid).Valid ∧
      ∃ t u, (serialization .kSerialize).run (refusedPing .kInvalid, {}) = .ok () (refusedPing .kInvalid, t) ∧
        (serialization .kDeserialize).run ({}, t) = .ok () (refusedPing .kOk, u) := by
  have h : (refusedPing .kInvalid).Valid := ⟨by decide, by decide⟩
  obtain ⟨t, u, hwrite, hread, -⟩ :=
    (writes h).appends.roundTrip (drains h) ((length_encode_le h).trans (by decide)) {} rfl rfl
  exact ⟨h, t, u, hwrite, hread⟩

/-! ## Sending -/

/-- The strings with their prefixes, the code and the extra data are within the limit of `kMessageReject`. -/
def FitsFrame (p : MsgRejectPayload) : Prop :=
  serCompactSizeof p.rejectedCommand.length + p.rejectedCommand.length + 1 +
    serCompactSizeof p.reason.length + p.reason.length + (if p.extraData.isSome then 32 else 0) ≤ 301

theorem length_encode_le_iff (p : MsgRejectPayload) : p.encode.length ≤ 301 ↔ p.FitsFrame := by
  rw [length_encode]
  unfold plainSize extraSize FitsFrame
  omega

theorem lt_length_encode (p : MsgRejectPayload) : 3 ≤ p.encode.length := by
  have hcommand := serCompactSizeof_pos p.rejectedCommand.length
  have hreason := serCompactSizeof_pos p.reason.length
  rw [length_encode]
  unfold plainSize
  omega

theorem isMessage_iff_fitsFrame (sha256 : Bytes → Octets 32) (magic : Octets 4) (h : p.Valid) :
    IsMessage sha256 magic .kReject
      (Message.headerBytes (Message.filledHeader sha256 (Message.initialHeader magic .kReject) p.encode)) p.encode ↔
        p.FitsFrame := by
  rw [← length_encode_le_iff]
  constructor
  · intro hm
    exact hm.le_max 301 rfl
  · intro hle
    refine Message.isMessage_pushed sha256 (by decide) ?_ ?_ ?_ (fun hvector => absurd hvector (by decide))
    · rintro hi ⟨⟩
      exact hle
    · rintro lo ⟨⟩
      exact p.lt_length_encode
    · have hroom : kMessageHeaderLength + 305 ≤ kMaxProtocolMessageLength := by decide
      have := length_encode_le h
      omega

theorem push_ok_iff_isMessage (sha256 : Bytes → Octets 32) (version : Int) (magic : Octets 4) (h : p.Valid) :
    (∃ m, (Message.push sha256 (.reject p)).run (Message.new version magic) = .ok () m) ↔
      IsMessage sha256 magic .kReject
        (Message.headerBytes (Message.filledHeader sha256 (Message.initialHeader magic .kReject) p.encode))
          p.encode := by
  have hroom : kMessageHeaderLength + 305 ≤ kMaxStreamSize := by decide
  have hlen := length_encode_le h
  have hwrites : Writes (MessagePayload.serialization .kSerialize) (.reject p) p.encode := fun s hfit =>
    SerOf.lift_ok (writes h s hfit)
  exact Message.push_ok_iff sha256 hwrites (by omega) version magic

/-- **When a rejection that can be serialized can be sent**: its parts fit in the frame. -/
theorem reject_push_iff (sha256 : Bytes → Octets 32) (version : Int) (magic : Octets 4) (p x : MsgRejectPayload)
    (s t : SDataStream) (hrun : (serialization .kSerialize).run (p, s) = .ok () (x, t)) :
    (∃ m, (Message.push sha256 (.reject p)).run (Message.new version magic) = .ok () m) ↔ p.FitsFrame := by
  have h : p.Valid := checks_of_serialize hrun
  rw [push_ok_iff_isMessage sha256 version magic h]
  exact isMessage_iff_fitsFrame sha256 magic h

/-- The refusal of a `getheaders`, with a reason of 256 bytes and a hash. -/
def longRefusal : MsgRejectPayload :=
  { rejectedCommand := stringBytes "getheaders", rejectionCode := .kInvalid, reason := List.replicate 256 0x2e
    extraData := some (Octets.zero 32) }

theorem reject_push_iff_refusedPing :
    ∃ x t, (serialization .kSerialize).run (refusedPing .kInvalid, {}) = .ok () (x, t) ∧
      ((∃ m, (Message.push (fun _ => kEmptyHash) (.reject (refusedPing .kInvalid))).run
        (Message.new 170002 (Octets.zero 4)) = .ok () m) ↔ (refusedPing .kInvalid).FitsFrame) :=
  ⟨_, _, rfl, reject_push_iff _ 170002 _ _ _ {} _ rfl⟩

/-- It is serialized to 303 bytes and cannot be sent. -/
theorem longRefusal_not_pushed :
    ∃ t, (serialization .kSerialize).run (longRefusal, {}) = .ok () (longRefusal, t) ∧ t.buffer.length = 303 ∧
      ∀ (sha256 : Bytes → Octets 32) (version : Int) (magic : Octets 4),
        ¬ ∃ m, (Message.push sha256 (.reject longRefusal)).run (Message.new version magic) = .ok () m := by
  have hreason : longRefusal.reason.length = 256 := List.length_replicate
  have h : longRefusal.Valid := ⟨by decide, hreason.le⟩
  have hlen : longRefusal.encode.length = 303 := by
    rw [length_encode]
    unfold plainSize
    rw [hreason]
    rfl
  refine ⟨_, writes h {} (by rw [hlen]; decide), hlen, fun sha256 version magic => ?_⟩
  rw [push_ok_iff_isMessage sha256 version magic h]
  intro hm
  have hmax : longRefusal.encode.length ≤ 301 := hm.le_max 301 rfl
  omega

end MsgRejectPayload

end Znode.Net
