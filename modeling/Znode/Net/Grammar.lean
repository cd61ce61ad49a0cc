import Mathlib
import Znode.Net.Chunks
import Znode.Net.Framing

/-!
# The message grammar

`IsMessage` says what a well-formed message is, header `H` and payload `P`, in terms of the table of
definitions and of the bytes alone. `write` accepts exactly the byte strings that begin with one
(`write_accepts_iff`).
-/

namespace Znode.Net
open Znode.Lib Znode.Core

/-! ## The grammar -/

/-- A command filled with NULs to 12 bytes. -/
def paddedCommand (command : String) : Bytes :=
  stringBytes command ++ List.replicate (12 - command.length) 0

/-- The payload of a vectorized message: after `vectorOffset` bytes the canonical compact size of the
number `n` of items and then the items. Items of a fixed size fill the payload exactly (`getheaders`
has one more, the stop hash) and are pairwise distinct. -/
def IsVector (d : MessageDefinition) (P : Bytes) : Prop :=
  ∃ (n : Nat) (front items : Bytes), P = front ++ compactBytes n ++ items ∧
    front.length = Message.vectorOffset d ∧ 1 ≤ n ∧ (∃ limit ∈ d.maxVectorItems, n ≤ limit) ∧
    ∀ s ∈ d.vectorItemSize,
      P.length = Message.vectorOffset d + serCompactSizeof n + n * s +
        (if d.messageType = .kGetHeaders then s else 0) ∧
      (dataChunks items s).Nodup

/-- A well-formed message with header `H` and payload `P`. -/
structure IsMessage (sha256 : Bytes → Octets 32) (magic : Octets 4) (type : MessageType) (H P : Bytes) :
    Prop where
  length : H.length = kMessageHeaderLength
  known : type ≠ .kMissingOrUnknown
  magic_eq : slice H 0 4 = magic.val
  command_eq : slice H 4 12 = paddedCommand (definitionOf type).command
  payloadLength_eq : leVal (slice H 16 4) = P.length
  le_max : ∀ hi ∈ (definitionOf type).maxPayloadLength, P.length ≤ hi
  min_le : ∀ lo ∈ (definitionOf type).minPayloadLength, lo ≤ P.length
  fits : kMessageHeaderLength + P.length ≤ kMaxProtocolMessageLength
  vector : (definitionOf type).isVectorized → IsVector (definitionOf type) P
  checksum_eq : slice H 20 4 = (hash256 sha256 P).val.take 4

/-! ## The checks on the payload -/

section
variable {h : MessageHeader} {P : Bytes}

theorem checkNumElements_ok_iff {d : MessageDefinition} {L n : Nat} :
    Message.checkNumElements d L n = .ok () ↔ 1 ≤ n ∧ n ≤ d.maxVectorItems.getD kMaxSerializedCompactSize ∧
      ∀ s ∈ d.vectorItemSize, L = Message.expectedPayloadLength d n s := by
  unfold Message.checkNumElements
  cases d.vectorItemSize with
  | none =>
      split_ifs <;> simp_all
      omega
  | some s =>
      split_ifs <;> simp_all
      omega

theorem checkVector_ok_iff {k : Nat} : checkVector h P = .ok k ↔
    ∃ (n : Nat) (front items : Bytes), P = front ++ compactBytes n ++ items ∧
      front.length = Message.vectorOffset h.getDefinition ∧ n ≤ kMaxSerializedCompactSize ∧
      k = Message.vectorOffset h.getDefinition + serCompactSizeof n ∧
      Message.checkNumElements h.getDefinition h.payloadLength n = .ok () := by
  unfold checkVector
  generalize ho : Message.vectorOffset h.getDefinition = o
  constructor
  · intro hc
    split_ifs at hc with hlen
    cases hp : parseCompact (P.drop o) with
    | error e => simp [hp] at hc
    | ok nk =>
        obtain ⟨n, l⟩ := nk
        simp only [hp] at hc
        cases hn : Message.checkNumElements h.getDefinition h.payloadLength n with
        | error e => simp [hn] at hc
        | ok =>
            simp only [hn] at hc
            cases hc
            obtain ⟨hmax, rfl, items, hitems⟩ := parseCompact_ok_iff.mp hp
            refine ⟨n, P.take o, items, ?_, by rw [List.length_take]; omega, hmax, rfl, hn⟩
            rw [List.append_assoc, ← hitems, List.take_append_drop]
  · rintro ⟨n, front, items, rfl, hfront, hmax, rfl, hn⟩
    have hpos : 1 ≤ serCompactSizeof n := by
      rcases serCompactSizeof_cases n with h | h | h | h <;> omega
    rw [if_neg (by simp only [List.length_append, length_compactBytes]; omega), List.append_assoc, ← hfront,
      List.drop_left, parseCompact_compactBytes hmax]
    simp only [hn]

theorem definitionOf_maxVectorItems {t : MessageType} (hv : (definitionOf t).isVectorized) :
    ∃ limit, (definitionOf t).maxVectorItems = some limit ∧ limit ≤ kMaxSerializedCompactSize := by
  revert hv
  cases t <;> first | exact fun h => absurd h (by decide) | exact fun _ => ⟨_, rfl, by decide⟩

/-- The vector check with the search for duplicates accepts exactly the vectors of the grammar. -/
theorem isVector_iff (hv : h.getDefinition.isVectorized) (hL : P.length = h.payloadLength) :
    IsVector h.getDefinition P ↔
      ∃ k, checkVector h P = .ok k ∧ hasDuplicates h.getDefinition (P.drop k) = false := by
  obtain ⟨limit, hlimit, hle⟩ := definitionOf_maxVectorItems (t := h.messageType) hv
  change h.getDefinition.maxVectorItems = some limit at hlimit
  constructor
  · rintro ⟨n, front, items, rfl, hfront, hpos, ⟨limit', hlimit', hn⟩, hitems⟩
    rw [hlimit] at hlimit'
    cases hlimit'
    refine ⟨_, checkVector_ok_iff.mpr ⟨n, front, items, rfl, hfront, by omega, rfl, ?_⟩, ?_⟩
    · refine checkNumElements_ok_iff.mpr ⟨hpos, by rw [hlimit]; exact hn, fun s hs => ?_⟩
      rw [← hL, (hitems s hs).1, Message.expectedPayloadLength]
      omega
    · rw [show Message.vectorOffset h.getDefinition + serCompactSizeof n = (front ++ compactBytes n).length by
        simp [hfront], List.drop_left]
      unfold hasDuplicates
      cases hs : h.getDefinition.vectorItemSize with
      | none => rfl
      | some s => simpa [countDuplicateDataChunks_pos_iff] using (hitems s hs).2
  · rintro ⟨k, hc, hd⟩
    obtain ⟨n, front, items, rfl, hfront, hmax, rfl, hn⟩ := checkVector_ok_iff.mp hc
    obtain ⟨hpos, hlim, hexp⟩ := checkNumElements_ok_iff.mp hn
    rw [hlimit] at hlim
    refine ⟨n, front, items, rfl, hfront, hpos, ⟨limit, hlimit, hlim⟩, fun s hs => ⟨?_, ?_⟩⟩
    · rw [hL, hexp s hs, Message.expectedPayloadLength]
      omega
    · rw [show Message.vectorOffset h.getDefinition + serCompactSizeof n = (front ++ compactBytes n).length by
        simp [hfront], List.drop_left, hasDuplicates, hs] at hd
      simpa [countDuplicateDataChunks_pos_iff] using hd

theorem payloadVerdict_ok_iff (sha256 : Bytes → Octets 32) : payloadVerdict sha256 h P = .ok () ↔
    P.length = h.payloadLength ∧ (hash256 sha256 P).val.take 4 = h.payloadChecksum.val ∧
      (h.getDefinition.isVectorized → IsVector h.getDefinition P) := by
  have hcomplete : checkComplete sha256 h P = .ok () ↔
      P.length = h.payloadLength ∧ (hash256 sha256 P).val.take 4 = h.payloadChecksum.val := by
    unfold checkComplete
    split_ifs <;> simp_all
  unfold payloadVerdict
  split_ifs with hv
  · simp only [hv, true_imp_iff]
    constructor
    · intro hp
      cases hc : checkVector h P with
      | error e => simp [hc] at hp
      | ok k =>
          simp only [hc] at hp
          split_ifs at hp with hd
          obtain ⟨hL, hsum⟩ := hcomplete.mp hp
          exact ⟨hL, hsum, (isVector_iff hv hL).mpr ⟨k, hc, by simpa [hL] using hd⟩⟩
    · rintro ⟨hL, hsum, hvec⟩
      obtain ⟨k, hc, hd⟩ := (isVector_iff hv hL).mp hvec
      simp only [hc, hd, Bool.false_eq_true, and_false, if_false]
      exact hcomplete.mpr ⟨hL, hsum⟩
  · simp [hcomplete, hv]

end

/-! ## The header -/

theorem paddedCommand_eq {t : MessageType} (h : t ≠ .kMissingOrUnknown) :
    paddedCommand (definitionOf t).command = (getCommandFromMessageType t).val := by
  cases t <;> first | decide | exact absurd rfl h

theorem ofBytes_slice_eq_iff {B : Bytes} {off n : Nat} (h : off + n ≤ B.length) (o : Octets n) :
    Octets.ofBytes n (slice B off n) = o ↔ slice B off n = o.val := by
  rw [Subtype.ext_iff, Octets.val_ofBytes (length_slice_of_le h)]

theorem messageType_eq_iff {H : Bytes} (hH : kMessageHeaderLength ≤ H.length) {t : MessageType}
    (ht : t ≠ .kMissingOrUnknown) :
    (readHeader H).messageType = t ↔ slice H 4 12 = paddedCommand (definitionOf t).command := by
  have h24 : 24 ≤ H.length := hH
  rw [paddedCommand_eq ht, ← ofBytes_slice_eq_iff (by omega)]
  exact messageTypeFromCommand_eq_iff ht

/-- The header check and the payload verdict, together, are the grammar. -/
theorem isMessage_iff (sha256 : Bytes → Octets 32) (version : Int) {magic : Octets 4} {H P : Bytes}
    (hH : H.length = kMessageHeaderLength) :
    (∃ type, IsMessage sha256 magic type H P) ↔
      checkHeader version magic H = .ok () ∧ (readHeader H).payloadLength = P.length ∧
        kMessageHeaderLength + P.length ≤ kMaxProtocolMessageLength ∧
        payloadVerdict sha256 (readHeader H) P = .ok () := by
  have h24 : H.length = 24 := hH
  have hmagic : (readHeader H).networkMagic = magic ↔ slice H 0 4 = magic.val :=
    ofBytes_slice_eq_iff (by omega) magic
  have hsum : (readHeader H).payloadChecksum.val = slice H 20 4 :=
    Octets.val_ofBytes (length_slice_of_le (by omega))
  rw [checkHeader_ok_iff, checkFields_ok_iff, payloadVerdict_ok_iff, hmagic, hsum]
  constructor
  · rintro ⟨t, hm⟩
    have ht : (readHeader H).messageType = t := (messageType_eq_iff hH.ge hm.known).mpr hm.command_eq
    have hd : (readHeader H).getDefinition = definitionOf t := by rw [MessageHeader.getDefinition, ht]
    have hL : (readHeader H).payloadLength = P.length := hm.payloadLength_eq
    have hfits := hm.fits
    rw [hd, hL, ht]
    refine ⟨⟨hm.magic_eq, hm.known, by omega, ?_, ?_, fun h0 => ?_⟩, rfl, hfits, rfl, hm.checksum_eq.symm, hm.vector⟩
    · cases hmin : (definitionOf t).minPayloadLength with
      | none => exact Nat.zero_le _
      | some lo => exact hm.min_le lo hmin
    · cases hmax : (definitionOf t).maxPayloadLength with
      | none => simp only [Option.getD_none]; omega
      | some hi => exact hm.le_max hi hmax
    · rw [hm.checksum_eq, hash256, if_pos h0]
  · rintro ⟨⟨hm, hknown, -, hmin, hmax, -⟩, hL, hfits, -, hcheck, hvec⟩
    rw [hL] at hmin hmax
    refine ⟨(readHeader H).messageType, hH, hknown, hm, (messageType_eq_iff hH.ge hknown).mp rfl, hL, ?_, ?_, hfits,
      hvec, hcheck.symm⟩
    · intro hi hhi
      rwa [MessageHeader.getDefinition, hhi] at hmax
    · intro lo hlo
      rwa [MessageHeader.getDefinition, hlo] at hmin

/-! ## What is accepted -/

section
variable (sha256 : Bytes → Octets 32) {version : Int} {magic : Octets 4} {B : Bytes}

/-- An empty payload needs no verdict: its header has already been checked against the known digest. -/
theorem payloadVerdict_empty {h : MessageHeader} (hf : h.checkFields version = .ok ()) (h0 : h.payloadLength = 0) :
    payloadVerdict sha256 h [] = .ok () := by
  obtain ⟨-, -, hmin, -, hsum⟩ := checkFields_ok_iff.mp hf
  refine (payloadVerdict_ok_iff sha256).mpr ⟨h0.symm, (hsum h0).symm, fun hv => ?_⟩
  have := vectorOffset_le (t := h.messageType) hv
  unfold MessageHeader.getDefinition at hmin
  omega

theorem scanPayload_done_iff {h : MessageHeader} {P : Bytes} {n : Nat} (hf : h.checkFields version = .ok ())
    (hP : P.length ≤ h.payloadLength) : scanPayload sha256 h P = .done n ↔
      n = kMessageHeaderLength + h.payloadLength ∧ kMessageHeaderLength + P.length ≤ kMaxProtocolMessageLength ∧
        payloadVerdict sha256 h P = .ok () := by
  unfold scanPayload
  by_cases h0 : h.payloadLength = 0
  · have hnil : P = [] := List.eq_nil_of_length_eq_zero (by omega)
    have hmax : kMessageHeaderLength ≤ kMaxProtocolMessageLength := by decide
    rw [if_pos h0, hnil, payloadVerdict_empty sha256 hf h0, h0]
    simp [hmax, eq_comm]
  · rw [if_neg h0]
    by_cases hmax : kMessageHeaderLength + P.length > kMaxProtocolMessageLength
    · rw [if_pos hmax]
      simp only [reduceCtorEq, false_iff]
      omega
    · rw [if_neg hmax]
      cases payloadVerdict sha256 h P with
      | error e => by_cases hi : Message.isIncomplete e <;> simp [hi]
      | ok => simp only [Verdict.done.injEq, and_true, eq_comm]; omega

/-- A message is complete exactly when the bytes begin with a well-formed one. -/
theorem scan_done_iff {n : Nat} : scan sha256 version magic B = .done n ↔
    ∃ type H P R, B = H ++ P ++ R ∧ n = (H ++ P).length ∧ IsMessage sha256 magic type H P := by
  constructor
  · intro hs
    have hB : kMessageHeaderLength ≤ B.length := le_of_scan sha256 (by rw [hs]; simp)
    have hsplit : B = B.take kMessageHeaderLength ++ B.drop kMessageHeaderLength := (List.take_append_drop _ _).symm
    have hlen : (B.take kMessageHeaderLength).length = kMessageHeaderLength := by rw [List.length_take]; omega
    have hhead : readHeader B = readHeader (B.take kMessageHeaderLength) := by
      conv_lhs => rw [hsplit]
      exact readHeader_append hlen.ge _
    rw [scan_of_le sha256 hB] at hs
    cases hh : checkHeader version magic B with
    | error e => simp [hh] at hs
    | ok =>
        simp only [hh] at hs
        obtain ⟨hn, hmax, hv⟩ :=
          (scanPayload_done_iff sha256 (checkHeader_ok_iff.mp hh).2 (length_payloadOf_le B)).mp hs
        have hL := payloadVerdict_ok sha256 hv
        rw [hsplit, checkHeader_append hlen.ge] at hh
        rw [hhead] at hv
        obtain ⟨t, hm⟩ := (isMessage_iff sha256 version hlen).mpr ⟨hh, by rw [← hhead, hL], hmax, hv⟩
        refine ⟨t, _, payloadOf B, B.drop n, ?_, by rw [List.length_append, hlen, hL, hn], hm⟩
        rw [hn, payloadOf, slice, ← List.drop_drop, List.append_assoc, List.take_append_drop, List.take_append_drop]
  · rintro ⟨t, H, P, R, rfl, rfl, hm⟩
    have hH := hm.length
    obtain ⟨hh, hL, hmax, hv⟩ := (isMessage_iff sha256 version hH).mp ⟨t, hm⟩
    have hP : payloadOf (H ++ P ++ R) = P := by
      rw [payloadOf, List.append_assoc, readHeader_append hH.ge, slice, ← hH, List.drop_left, hL, List.take_left]
    rw [scan_of_le sha256 (by simp only [List.length_append]; omega), List.append_assoc, checkHeader_append hH.ge, hh,
      readHeader_append hH.ge, ← List.append_assoc, hP]
    exact (scanPayload_done_iff sha256 (checkHeader_ok_iff.mp hh).2 hL.ge).mpr
      ⟨by rw [List.length_append, hH, hL], hmax, hv⟩

/-- **`write` on a fresh message accepts exactly the byte strings that begin with a well-formed
message.** -/
theorem write_accepts_iff (version : Int) (magic : Octets 4) (B : Bytes) :
    (∃ rest m, (Message.write sha256 B).run (Message.new version magic) = .ok (.ok (), rest) m) ↔
      ∃ type H P R, B = H ++ P ++ R ∧ IsMessage sha256 magic type H P := by
  have hscan : (∃ n, scan sha256 version magic B = .done n) ↔
      ∃ type H P R, B = H ++ P ++ R ∧ IsMessage sha256 magic type H P := by
    constructor
    · rintro ⟨n, hs⟩
      obtain ⟨t, H, P, R, hB, -, hm⟩ := (scan_done_iff sha256).mp hs
      exact ⟨t, H, P, R, hB, hm⟩
    · rintro ⟨t, H, P, R, hB, hm⟩
      exact ⟨_, (scan_done_iff sha256).mpr ⟨t, H, P, R, hB, rfl, hm⟩⟩
  rw [← hscan]
  by_cases hB : B = []
  · subst hB
    simp [Message.write, Message.new, scan, kMessageHeaderLength]
  · have hw := Message.write_run sha256 version magic (C := []) rfl hB
    rw [List.nil_append] at hw
    change Message.Answers version magic B _ ((Message.write sha256 B).run (Message.new version magic)) at hw
    cases hs : scan sha256 version magic B with
    | more =>
        rw [hs] at hw
        obtain ⟨e, -, hrun⟩ := hw
        simp [hrun]
    | fail e =>
        rw [hs] at hw
        obtain ⟨-, m, rest, hrun⟩ := hw
        simp [hrun]
    | done n =>
        rw [hs] at hw
        exact ⟨fun _ => ⟨n, rfl⟩, fun _ => ⟨_, _, hw⟩⟩

end

end Znode.Net
