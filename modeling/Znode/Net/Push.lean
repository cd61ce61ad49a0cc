import Mathlib
import Znode.Core.Codec
import Znode.Net.Grammar
import Znode.Net.Payloads

/-!
# Outgoing messages

`Message.push` serializes a header with an empty length and checksum, then the payload, and patches the
two fields into the buffer before it validates the message. `push_accepted` : whatever is pushed is
accepted by a peer, as one message of the same type. `push_ok_iff` : what can be pushed.
-/

namespace Znode.Net
open Znode.Lib Znode.Core

namespace Message

/-- `memcpy` into the buffer at `off`. -/
def patch (buffer : Bytes) (off : Nat) (data : Bytes) : Bytes :=
  buffer.take off ++ data ++ buffer.drop (off + data.length)

/-- Calls `serialize` of the payload on the message's stream. What it does to the payload object is
dropped: the callers do not use it afterwards. -/
def serializePayload (payload : MessagePayload) : Msg Unit :=
  Act.zoom (fun m => (payload, m.serStream)) (fun ps m => { m with serStream := ps.2 })
    (MessagePayload.serialization .kSerialize)

section
variable (sha256 : Bytes → Octets 32)

/-- The header with its type and magic, and an empty stream. -/
def startPush (m : Message) (type : MessageType) : Message :=
  { m with
    header := { m.header.setType type with networkMagic := m.networkMagic }
    serStream := m.serStream.clear }

/-- `header_.payload_length`, a `uint32_t`. -/
def setPayloadLength (m : Message) : Message :=
  { m with header := { m.header with
      payloadLength := sizeSub m.serStream.size kMessageHeaderLength % 2 ^ 32 } }

/-- The checksum of the payload, and the two late fields copied into the buffer. -/
def fillHeader (payloadView : Bytes) (m : Message) : Message :=
  let payloadChecksum := Octets.ofBytes 4 ((hash256 sha256 payloadView).val.take 4)
  { m with
    header := { m.header with payloadChecksum := payloadChecksum }
    serStream := { m.serStream with
      buffer := patch (patch m.serStream.buffer 16 (leBytes 4 m.header.payloadLength)) 20 payloadChecksum.val } }

/-- The part of `push` after the payload was serialized: the two late fields of the header. -/
def finishHeader : Msg Unit := do
  modify setPayloadLength
  Act.require .assert ((← seekg kMessageHeaderLength) = kMessageHeaderLength)
  let payloadView ← onStream (read none)
  modify (fillHeader sha256 payloadView)
  Act.require .assert ((← seekg 0) = 0)

def push (payload : MessagePayload) : Msg Unit := do
  let m ← get
  if !m.header.pristine then throw (.net .kMessagePushNotPermitted)
  if payload.type = .kMissingOrUnknown then throw (.net .kMessageUnknownCommand)
  set (m.startPush payload.type)
  serializeHeader .kSerialize
  Act.require .assert ((← get).serStream.size = kMessageHeaderLength)
  serializePayload payload
  finishHeader sha256
  validate sha256

end

/-! ## The bytes of a pushed message -/

def headerBytes (h : MessageHeader) : Bytes :=
  h.networkMagic.val ++ h.command.val ++ leBytes 4 h.payloadLength ++ h.payloadChecksum.val

@[simp] theorem length_headerBytes (h : MessageHeader) : (headerBytes h).length = kMessageHeaderLength := by
  simp [headerBytes, h.networkMagic.property, h.command.property, h.payloadChecksum.property, kMessageHeaderLength,
    kMessageHeaderMagicLength, kMessageHeaderCommandLength, kMessageHeaderChecksumLength]

theorem patch_append (a c : Bytes) {b d : Bytes} (h : d.length = b.length) :
    patch (a ++ (b ++ c)) a.length d = a ++ (d ++ c) := by
  rw [patch, List.take_left, h, List.drop_append, List.drop_eq_nil_of_le (by omega), List.nil_append,
    Nat.add_sub_cancel_left, List.drop_left, List.append_assoc]

theorem patch_headerBytes (h : MessageHeader) (w : Bytes) (L : Nat) (sum : Octets 4) :
    patch (patch (headerBytes h ++ w) 16 (leBytes 4 L)) 20 sum.val =
      headerBytes { h with payloadLength := L, payloadChecksum := sum } ++ w := by
  have h16 : (h.networkMagic.val ++ h.command.val).length = 16 := by
    rw [List.length_append, h.networkMagic.property, h.command.property]
  have h20 : (h.networkMagic.val ++ h.command.val ++ leBytes 4 L).length = 20 := by
    rw [List.length_append, h16, length_leBytes]
  have hfirst : patch (headerBytes h ++ w) 16 (leBytes 4 L) =
      (h.networkMagic.val ++ h.command.val ++ leBytes 4 L) ++ (h.payloadChecksum.val ++ w) := by
    have hlen : (leBytes 4 L).length = (leBytes 4 h.payloadLength).length := by simp
    have hpatch := patch_append (h.networkMagic.val ++ h.command.val) (h.payloadChecksum.val ++ w) hlen
    rw [h16] at hpatch
    simpa [headerBytes] using hpatch
  have hsum : sum.val.length = h.payloadChecksum.val.length := by
    rw [sum.property, h.payloadChecksum.property]
  have hsecond := patch_append (h.networkMagic.val ++ h.command.val ++ leBytes 4 L) w hsum
  rw [h20] at hsecond
  rw [hfirst, hsecond]
  simp [headerBytes]

theorem serialization_run_write (h : MessageHeader) {s : SDataStream}
    (hfit : s.buffer.length + kMessageHeaderLength ≤ kMaxStreamSize) :
    (MessageHeader.serialization .kSerialize).run (h, s) = .ok () (h, s.append (headerBytes h)) := by
  have h24 : kMessageHeaderLength = 24 := rfl
  rw [h24] at hfit
  simp only [MessageHeader.serialization, EStateM.run_bind, SerOf.field_run]
  rw [bindOctets_run_write _ (by omega)]
  simp only
  rw [bindOctets_run_write _ (by simp [SDataStream.append, h.networkMagic.property]; omega)]
  simp only
  rw [bindUInt_run_write _ (by simp [SDataStream.append, h.networkMagic.property, h.command.property]; omega)]
  simp only
  rw [bindOctets_run_write _ (by simp [SDataStream.append, h.networkMagic.property, h.command.property]; omega)]
  simp [SDataStream.append, headerBytes]

section
variable (sha256 : Bytes → Octets 32) {version : Int} {magic : Octets 4}

/-- The header `h` with the length and the checksum of the payload `w`. -/
def filledHeader (h : MessageHeader) (w : Bytes) : MessageHeader :=
  { h with
    payloadLength := w.length % 2 ^ 32
    payloadChecksum := Octets.ofBytes 4 ((hash256 sha256 w).val.take 4) }

theorem finishHeader_run (h : MessageHeader) (w : Bytes) :
    (finishHeader sha256).run (unvalidated version magic h (headerBytes h ++ w)) =
      .ok () (unvalidated version magic (filledHeader sha256 h w) (headerBytes (filledHeader sha256 h w) ++ w)) := by
  set m := unvalidated version magic h (headerBytes h ++ w) with hm
  have hlen : m.serStream.buffer.length = kMessageHeaderLength + w.length := by
    simp [hm, unvalidated]
  have hL : m.setPayloadLength.header.payloadLength = w.length % 2 ^ 32 := by
    change sizeSub m.serStream.buffer.length kMessageHeaderLength % 2 ^ 32 = _
    rw [hlen, sizeSub_of_le (by omega), Nat.add_sub_cancel_left]
  have hseek : (seekg kMessageHeaderLength).run m.setPayloadLength =
      .ok kMessageHeaderLength (m.setPayloadLength.atPos kMessageHeaderLength) := by
    rw [seekg_run, show m.setPayloadLength.serStream.buffer.length = _ from hlen, Nat.min_eq_left (by omega)]
  have hread := read_all_atPos (m := m.setPayloadLength) (p := kMessageHeaderLength)
    (by rw [show m.setPayloadLength.serStream.buffer.length = _ from hlen]; omega)
  have hdrop : m.setPayloadLength.serStream.buffer.drop kMessageHeaderLength = w := by
    change (headerBytes h ++ w).drop kMessageHeaderLength = w
    rw [← length_headerBytes h, List.drop_left]
  rw [hdrop] at hread
  simp only [finishHeader, Act.run_bind, Act.run_modify, hseek, Act.run_require, decide_true, if_true, hread,
    seekg_run, Nat.zero_min]
  simp only [fillHeader, atPos_header, atPos_buffer, hL]
  rw [show m.setPayloadLength.serStream.buffer = headerBytes h ++ w from rfl, patch_headerBytes]
  simp only [atPos, SDataStream.atPos, hm, setPayloadLength, unvalidated, filledHeader]

def initialHeader (magic : Octets 4) (type : MessageType) : MessageHeader where
  networkMagic := magic
  command := getCommandFromMessageType type
  messageType := type

theorem startPush_new {type : MessageType} (ht : type ≠ .kMissingOrUnknown) :
    (new version magic).startPush type = unvalidated version magic (initialHeader magic type) [] := by
  have hpristine : (new version magic).header.pristine = true := by simp [new, MessageHeader.pristine]
  rw [startPush, MessageHeader.setType, if_neg (by rw [hpristine]; decide), command_definitionOf ht]
  rfl

theorem serializeHeader_run (h : MessageHeader) : (serializeHeader .kSerialize).run (unvalidated version magic h []) =
    .ok () (unvalidated version magic h (headerBytes h)) := by
  have hfit : kMessageHeaderLength ≤ kMaxStreamSize := by decide
  have hser := serialization_run_write h (s := { version := version }) (by simpa using hfit)
  rw [serializeHeader, Act.run_zoom]
  simp only [unvalidated, hser]
  rfl

/-- Serializing only appends, and appends the same bytes to a stream that is not longer. -/
theorem serialization_append {payload payload' : MessagePayload} {s s' : SDataStream} {u : Unit}
    (h : (MessagePayload.serialization .kSerialize).run (payload, s) = .ok u (payload', s'))
    (t : SDataStream) (hv : s.version = t.version) (hlen : t.buffer.length ≤ s.buffer.length) :
    ∃ w, s' = s.append w ∧
      (MessagePayload.serialization .kSerialize).run (payload, t) = .ok u (payload', t.append w) := by
  have hrelated : Along MessagePayload (AppendedTo s t) (payload, s) (payload, t) :=
    ⟨rfl, [], s.append_nil.symm, t.append_nil.symm⟩
  obtain ⟨⟨p, t'⟩, ht, hp, w, hs, htw⟩ :=
    (writeStable_appendedTo hv hlen).messagePayload (payload, s) (payload, t) u (payload', s') hrelated h
  simp only at hp hs htw
  subst hp htw
  exact ⟨w, hs, ht⟩

/-- What goes behind other bytes goes into an empty stream. -/
theorem serialization_behind {payload payload' : MessagePayload} {B w : Bytes}
    (h : (MessagePayload.serialization .kSerialize).run (payload, { buffer := B, version := version }) =
      .ok () (payload', { buffer := B ++ w, version := version })) :
    (MessagePayload.serialization .kSerialize).run (payload, { version := version }) =
      .ok () (payload', { buffer := w, version := version }) := by
  obtain ⟨w', hw', hrun⟩ := serialization_append h { version := version } rfl (Nat.zero_le _)
  have heq : w = w' := List.append_cancel_left (congrArg SDataStream.buffer hw')
  rw [heq]
  exact hrun

/-- The header and the payload a push validates. -/
def pushedBytes (magic : Octets 4) (type : MessageType) (w : Bytes) : Bytes :=
  headerBytes (filledHeader sha256 (initialHeader magic type) w) ++ w

/-- A push either fails to serialize the payload, or ends as the validation of the bytes it made. -/
theorem push_run (version : Int) (magic : Octets 4) (payload : MessagePayload) :
    (∃ e ps m, (MessagePayload.serialization .kSerialize).run (payload,
          { buffer := headerBytes (initialHeader magic payload.type), version := version }) = .error e ps ∧
        m.header = initialHeader magic payload.type ∧ (push sha256 payload).run (new version magic) = .error e m) ∨
      ∃ (payload' : MessagePayload) (w : Bytes),
        (MessagePayload.serialization .kSerialize).run (payload,
            { buffer := headerBytes (initialHeader magic payload.type), version := version }) =
          .ok () (payload', { buffer := headerBytes (initialHeader magic payload.type) ++ w, version := version }) ∧
        (push sha256 payload).run (new version magic) = (validate sha256).run
          (unvalidated version magic (filledHeader sha256 (initialHeader magic payload.type) w)
            (pushedBytes sha256 magic payload.type w)) := by
  have hpristine : (new version magic).header.pristine = true := by simp [new, MessageHeader.pristine]
  set h0 := initialHeader magic payload.type
  have hsize : (unvalidated version magic h0 (headerBytes h0)).serStream.size = kMessageHeaderLength :=
    length_headerBytes h0
  have hstart : (push sha256 payload).run (new version magic) =
      (do serializePayload payload; finishHeader sha256; validate sha256 : Msg Unit).run
        (unvalidated version magic h0 (headerBytes h0)) := by
    simp [push, hpristine, payload.type_ne_missing, startPush_new payload.type_ne_missing, serializeHeader_run,
      hsize, h0]
  rw [hstart, Act.run_bind, serializePayload, Act.run_zoom]
  simp only [unvalidated]
  cases hrun : (MessagePayload.serialization .kSerialize).run
    (payload, { buffer := headerBytes h0, version := version }) with
  | error e ps => exact Or.inl ⟨e, ps, _, rfl, rfl, rfl⟩
  | ok u ps =>
      obtain ⟨payload', s⟩ := ps
      obtain ⟨w, rfl, -⟩ := serialization_append hrun { version := version } rfl (Nat.zero_le _)
      refine Or.inr ⟨payload', w, rfl, ?_⟩
      change (do finishHeader sha256; validate sha256 : Msg Unit).run
        (unvalidated version magic h0 (headerBytes h0 ++ w)) = _
      rw [Act.run_bind, finishHeader_run]
      rfl

/-- A push that succeeds has serialized the payload and validated the bytes it made. -/
theorem push_ok {payload : MessagePayload} {m : Message}
    (h : (push sha256 payload).run (new version magic) = .ok () m) :
    ∃ (payload' : MessagePayload) (w : Bytes),
      (MessagePayload.serialization .kSerialize).run (payload, { version := version }) =
        .ok () (payload', { buffer := w, version := version }) ∧
      (validate sha256).run (unvalidated version magic (filledHeader sha256 (initialHeader magic payload.type) w)
        (headerBytes (filledHeader sha256 (initialHeader magic payload.type) w) ++ w)) = .ok () m := by
  rcases push_run sha256 version magic payload with ⟨e, ps, m', -, -, herr⟩ | ⟨payload', w, hser, hrun⟩
  · rw [herr] at h
    cases h
  · exact ⟨payload', w, serialization_behind hser, hrun.symm.trans h⟩

theorem validate_returns (h : MessageHeader) {B : Bytes} (hB : kMessageHeaderLength ≤ B.length) :
    (∃ m, (validate sha256).run (unvalidated version magic h B) = .ok () m) ∨
      ∃ e m, (validate sha256).run (unvalidated version magic h B) = .error e m := by
  by_cases hmax : B.length ≤ kMaxProtocolMessageLength
  · have hheader := validate_run_header version magic sha256 h hB hmax
    cases hcheck : checkHeader version magic B with
    | error e =>
        rw [hcheck] at hheader
        obtain ⟨m, -, hm⟩ := hheader
        exact Or.inr ⟨e, m, hm⟩
    | ok =>
        rw [hcheck] at hheader
        simp only at hheader
        rw [hheader, validate_run_body sha256 hB hmax]
        split_ifs
        · exact Or.inl ⟨_, rfl⟩
        · cases payloadVerdict sha256 (readHeader B) (B.drop kMessageHeaderLength) with
          | error e => exact Or.inr ⟨e, _, rfl⟩
          | ok => exact Or.inl ⟨_, rfl⟩
  · exact Or.inr ⟨_, _, validate_run_overflow sha256 (not_le.mp hmax)⟩

theorem push_returns (version : Int) (magic : Octets 4) (payload : MessagePayload) :
    (∃ m, (push sha256 payload).run (new version magic) = .ok () m) ∨
      ∃ e m, (push sha256 payload).run (new version magic) = .error e m := by
  rcases push_run sha256 version magic payload with ⟨e, ps, m, -, -, herr⟩ | ⟨payload', w, -, hrun⟩
  · exact Or.inr ⟨e, m, herr⟩
  · rw [hrun]
    exact validate_returns sha256 _ (by simp [pushedBytes])

theorem slice_headerBytes (h : MessageHeader) :
    slice (headerBytes h) 0 4 = h.networkMagic.val ∧ slice (headerBytes h) 4 12 = h.command.val ∧
      slice (headerBytes h) 16 4 = leBytes 4 h.payloadLength ∧ slice (headerBytes h) 20 4 = h.payloadChecksum.val := by
  have hm := h.networkMagic.property
  have hc := h.command.property
  refine ⟨?_, ?_, ?_, ?_⟩
  · simp [slice, headerBytes, hm]
  · simp [slice, headerBytes, hm, hc]
  · simp [slice, headerBytes, hm, hc, List.drop_append, List.take_append]
  · have h20 : (h.networkMagic.val ++ h.command.val ++ leBytes 4 h.payloadLength).length = 20 := by simp [hm, hc]
    rw [headerBytes, slice_append_right h20.le, h20, Nat.sub_self, slice_full h.payloadChecksum.property]

theorem readHeader_headerBytes {h : MessageHeader} (hL : h.payloadLength < 2 ^ 32) (w : Bytes) :
    readHeader (headerBytes h ++ w) = { h with messageType := messageTypeFromCommand h.command } := by
  rw [readHeader_append (length_headerBytes h).ge]
  obtain ⟨hmagic, hcommand, hlength, hsum⟩ := slice_headerBytes h
  simp only [readHeader, hmagic, hcommand, hlength, hsum, Octets.ofBytes_val, leVal_leBytes (n := 4) hL]

/-! ## What is left in the message -/

theorem validate_error_command {h : MessageHeader} {B : Bytes} {e : Error} {m : Message}
    (hB : kMessageHeaderLength ≤ B.length) (hcommand : (readHeader B).command = h.command)
    (hv : (validate sha256).run (unvalidated version magic h B) = .error e m) : m.header.command = h.command := by
  by_cases hmax : B.length ≤ kMaxProtocolMessageLength
  · have hrun := validate_run_header version magic sha256 h hB hmax
    cases hcheck : checkHeader version magic B with
    | error e' =>
        rw [hcheck] at hrun
        obtain ⟨m', hm', hrun⟩ := hrun
        rw [hrun] at hv
        cases hv
        exact hm'.trans hcommand
    | ok =>
        rw [hcheck] at hrun
        simp only at hrun
        rw [hrun, validate_run_body sha256 hB hmax] at hv
        split_ifs at hv
        cases hp : payloadVerdict sha256 (readHeader B) (B.drop kMessageHeaderLength) with
        | error e' =>
            rw [hp] at hv
            cases hv
            exact hcommand
        | ok =>
            rw [hp] at hv
            cases hv
  · rw [validate_run_overflow sha256 (not_le.mp hmax)] at hv
    cases hv
    rfl

theorem push_error_command {payload : MessagePayload} {e : Error} {m : Message}
    (h : (push sha256 payload).run (new version magic) = .error e m) :
    m.header.command = getCommandFromMessageType payload.type := by
  rcases push_run sha256 version magic payload with ⟨e', ps, m', -, hheader, herr⟩ | ⟨payload', w, -, hrun⟩
  · rw [herr] at h
    cases h
    rw [hheader]
    rfl
  · rw [hrun] at h
    refine validate_error_command sha256 (by simp [pushedBytes]) ?_ h
    rw [pushedBytes, readHeader_headerBytes (Nat.mod_lt _ (by decide))]

theorem pristine_of_command {h : MessageHeader} {t : MessageType} (ht : t ≠ .kMissingOrUnknown)
    (hcommand : h.command = getCommandFromMessageType t) : h.pristine = false := by
  have hne : h.command ≠ Octets.zero 12 := by
    intro hzero
    apply ht
    rw [← messageTypeFromCommand_command t, ← hcommand, hzero]
    decide
  simp [MessageHeader.pristine, hne]

/-- After a push that failed every other is refused: the header is taken. -/
theorem push_after_error {payload : MessagePayload} {e : Error} {m : Message}
    (h : (push sha256 payload).run (new version magic) = .error e m) (payload' : MessagePayload) :
    (push sha256 payload').run m = .error (.net .kMessagePushNotPermitted) m := by
  have hpristine := pristine_of_command payload.type_ne_missing (push_error_command sha256 h)
  simp [push, hpristine]

theorem length_le_of_validate {m m' : Message} (hv : (validate sha256).run m = .ok () m') :
    m.serStream.buffer.length ≤ kMaxProtocolMessageLength := by
  by_contra hlt
  rw [validate_run_overflow sha256 (by omega)] at hv
  cases hv

/-- A whole message that validates is complete for `scan`. -/
theorem scan_of_validate {h : MessageHeader} {B : Bytes} {m : Message} (hB : kMessageHeaderLength ≤ B.length)
    (hL : (readHeader B).payloadLength = B.length - kMessageHeaderLength)
    (hv : (validate sha256).run (unvalidated version magic h B) = .ok () m) :
    scan sha256 version magic B = .done B.length ∧ m = validated version magic true B := by
  have hmax : B.length ≤ kMaxProtocolMessageLength := length_le_of_validate sha256 hv
  have hrun := validate_run_header version magic sha256 h hB hmax
  have hP : payloadOf B = B.drop kMessageHeaderLength := payloadOf_eq_drop (by omega)
  cases hh : checkHeader version magic B with
  | error e =>
      rw [hh] at hrun
      obtain ⟨m', -, hm'⟩ := hrun
      rw [hm'] at hv
      cases hv
  | ok =>
      rw [hh] at hrun
      simp only at hrun
      rw [hrun] at hv
      rw [scan_of_le sha256 hB, hh]
      simp only
      rw [scanPayload_done_iff sha256 (checkHeader_ok_iff.mp hh).2 (length_payloadOf_le B), hP, List.length_drop]
      by_cases h0 : (readHeader B).payloadLength = 0
      · rw [if_pos h0] at hv
        cases hv
        rw [List.drop_eq_nil_of_le (by omega)]
        exact ⟨⟨by omega, by omega, payloadVerdict_empty sha256 (checkHeader_ok_iff.mp hh).2 h0⟩, rfl⟩
      · rw [if_neg h0, validate_run_body sha256 hB hmax] at hv
        cases hp : payloadVerdict sha256 (readHeader B) (B.drop kMessageHeaderLength) with
        | error e => simp [hp] at hv
        | ok =>
            simp only [hp] at hv
            cases hv
            exact ⟨⟨by omega, by omega, rfl⟩, rfl⟩

/-- A push that succeeds has made a message that is complete for `scan`, and of the payload's type. -/
theorem push_scan {payload : MessagePayload} {m : Message}
    (h : (push sha256 payload).run (new version magic) = .ok () m) :
    ∃ (payload' : MessagePayload) (w : Bytes),
      (MessagePayload.serialization .kSerialize).run (payload, { version := version }) =
        .ok () (payload', { buffer := w, version := version }) ∧
      kMessageHeaderLength + w.length ≤ kMaxProtocolMessageLength ∧
      scan sha256 version magic (pushedBytes sha256 magic payload.type w) =
        .done (pushedBytes sha256 magic payload.type w).length ∧
      m = validated version magic true (pushedBytes sha256 magic payload.type w) ∧ m.getType = payload.type := by
  obtain ⟨payload', w, hser, hv⟩ := push_ok sha256 h
  set hf := filledHeader sha256 (initialHeader magic payload.type) w with hhf
  have hmax : (headerBytes hf ++ w).length ≤ kMaxProtocolMessageLength := length_le_of_validate sha256 hv
  have h32 : kMaxProtocolMessageLength < 2 ^ 32 := by decide
  have hlen : (headerBytes hf ++ w).length = kMessageHeaderLength + w.length := by simp
  have hw : hf.payloadLength = w.length := Nat.mod_eq_of_lt (by omega)
  have hhead := readHeader_headerBytes (h := hf) (by omega) w
  obtain ⟨hscan, rfl⟩ := scan_of_validate sha256 (by omega) (by rw [hhead, hlen]; simp [hw]) hv
  refine ⟨payload', w, hser, by omega, hscan, rfl, ?_⟩
  rw [getType, MessageHeader.getType, MessageHeader.getDefinition, messageType_definitionOf]
  change (readHeader (headerBytes hf ++ w)).messageType = payload.type
  rw [hhead]
  exact messageTypeFromCommand_command payload.type

theorem pushedBytes_eq {type : MessageType} (ht : type ≠ .kMissingOrUnknown) {w : Bytes} (hw : w.length < 2 ^ 32) :
    pushedBytes sha256 magic type w = magic.val ++ paddedCommand (definitionOf type).command ++ leBytes 4 w.length ++
      (hash256 sha256 w).val.take 4 ++ w := by
  have hsum : (filledHeader sha256 (initialHeader magic type) w).payloadChecksum.val = (hash256 sha256 w).val.take 4 :=
    Octets.val_ofBytes (by rw [List.length_take, (hash256 sha256 w).property]; rfl)
  have hlen : (filledHeader sha256 (initialHeader magic type) w).payloadLength = w.length := Nat.mod_eq_of_lt hw
  rw [pushedBytes, headerBytes, hlen, hsum, paddedCommand_eq ht]
  rfl

/-- The header a push makes for a payload goes with it, when the payload is of the right form. -/
theorem isMessage_pushed {type : MessageType} (hknown : type ≠ .kMissingOrUnknown) {w : Bytes}
    (hmax : ∀ hi ∈ (definitionOf type).maxPayloadLength, w.length ≤ hi)
    (hmin : ∀ lo ∈ (definitionOf type).minPayloadLength, lo ≤ w.length)
    (hfits : kMessageHeaderLength + w.length ≤ kMaxProtocolMessageLength)
    (hvector : (definitionOf type).isVectorized → IsVector (definitionOf type) w) :
    IsMessage sha256 magic type (headerBytes (filledHeader sha256 (initialHeader magic type) w)) w := by
  obtain ⟨hmagic, hcommand, hlength, hsum⟩ := slice_headerBytes (filledHeader sha256 (initialHeader magic type) w)
  have h32 : kMaxProtocolMessageLength < 2 ^ 32 := by decide
  have hw : w.length % 2 ^ 32 = w.length := Nat.mod_eq_of_lt (by omega)
  refine ⟨length_headerBytes _, hknown, hmagic, ?_, ?_, hmax, hmin, hfits, hvector, ?_⟩
  · rw [hcommand, paddedCommand_eq hknown]
    rfl
  · rw [hlength]
    change leVal (leBytes 4 (w.length % 2 ^ 32)) = w.length
    rw [hw, leVal_leBytes (by omega)]
  · rw [hsum]
    exact Octets.val_ofBytes (by rw [List.length_take, (hash256 sha256 w).property]; rfl)

/-- A header with its payload passes the validation exactly when they are a message. -/
theorem validate_ok_iff (h : MessageHeader) {H P : Bytes} (hH : H.length = kMessageHeaderLength)
    (hL : (readHeader H).payloadLength = P.length) :
    (∃ m, (validate sha256).run (unvalidated version magic h (H ++ P)) = .ok () m) ↔
      ∃ type, IsMessage sha256 magic type H P := by
  have hlen : (H ++ P).length = kMessageHeaderLength + P.length := by rw [List.length_append, hH]
  have hread : readHeader (H ++ P) = readHeader H := readHeader_append hH.ge P
  have hdrop : (H ++ P).drop kMessageHeaderLength = P := by rw [← hH, List.drop_left]
  rw [isMessage_iff sha256 version hH]
  by_cases hmax : kMessageHeaderLength + P.length ≤ kMaxProtocolMessageLength
  · have hrun := validate_run_header version magic sha256 h (B := H ++ P) (by omega) (by omega)
    rw [checkHeader_append hH.ge] at hrun
    cases hcheck : checkHeader version magic H with
    | error e =>
        rw [hcheck] at hrun
        obtain ⟨m, -, hm⟩ := hrun
        simp [hm]
    | ok =>
        rw [hcheck] at hrun
        simp only at hrun
        rw [hrun, validate_run_body sha256 (by omega) (by omega), hread, hdrop]
        by_cases h0 : (readHeader H).payloadLength = 0
        · have hnil : P = [] := List.eq_nil_of_length_eq_zero (hL.symm.trans h0)
          have hverdict := payloadVerdict_empty sha256 (checkHeader_ok_iff.mp hcheck).2 h0
          rw [← hnil] at hverdict
          rw [if_pos h0]
          exact iff_of_true ⟨_, rfl⟩ ⟨rfl, hL, hmax, hverdict⟩
        · rw [if_neg h0]
          cases payloadVerdict sha256 (readHeader H) P with
          | error e => simp
          | ok => exact iff_of_true ⟨_, rfl⟩ ⟨rfl, hL, hmax, rfl⟩
  · rw [validate_run_overflow sha256 (show _ < (H ++ P).length by omega)]
    simp [hmax]

theorem validate_pushed_iff (magic : Octets 4) (type : MessageType) {w : Bytes} (hw : w.length < 2 ^ 32) :
    (∃ m, (validate sha256).run (unvalidated version magic (filledHeader sha256 (initialHeader magic type) w)
        (pushedBytes sha256 magic type w)) = .ok () m) ↔
      IsMessage sha256 magic type (headerBytes (filledHeader sha256 (initialHeader magic type) w)) w := by
  set hf := filledHeader sha256 (initialHeader magic type) w
  have hlen : hf.payloadLength = w.length := Nat.mod_eq_of_lt hw
  have hhead : readHeader (headerBytes hf) = { hf with messageType := messageTypeFromCommand hf.command } := by
    have h := readHeader_headerBytes (h := hf) (by omega) []
    rwa [List.append_nil] at h
  rw [pushedBytes, validate_ok_iff sha256 hf (length_headerBytes hf) (by rw [hhead]; exact hlen)]
  refine ⟨?_, fun hm => ⟨_, hm⟩⟩
  rintro ⟨type', hm⟩
  -- the command of the header tells the type
  have htype := (messageType_eq_iff hm.length.ge hm.known).mpr hm.command_eq
  rw [hhead, show messageTypeFromCommand hf.command = type from messageTypeFromCommand_command type] at htype
  cases htype
  exact hm

/-- What can be pushed: a payload that makes a message. -/
theorem push_ok_iff {payload payload' : MessagePayload} {w : Bytes}
    (hemits : Emits (MessagePayload.serialization .kSerialize) payload payload' w)
    (hroom : kMessageHeaderLength + w.length ≤ kMaxStreamSize) (version : Int) (magic : Octets 4) :
    (∃ m, (push sha256 payload).run (new version magic) = .ok () m) ↔
      IsMessage sha256 magic payload.type
        (headerBytes (filledHeader sha256 (initialHeader magic payload.type) w)) w := by
  have h32 : kMaxStreamSize < 2 ^ 32 := by decide
  rcases push_run sha256 version magic payload with ⟨e, ps, m, herr, -, -⟩ | ⟨p, w', hser, hrun⟩
  · rw [hemits _ (by simpa using hroom)] at herr
    cases herr
  · cases (hemits _ (by simp only [List.length_nil]; omega)).symm.trans (serialization_behind hser)
    rw [hrun]
    exact validate_pushed_iff sha256 magic payload.type (w := w) (by omega)

/-- The payload can be serialized behind a header, to bytes that messages of its type may have. -/
def Pushable (version : Int) (magic : Octets 4) (payload : MessagePayload) : Prop :=
  ∃ payload' w,
    (MessagePayload.serialization .kSerialize).run
        (payload, { buffer := headerBytes (initialHeader magic payload.type), version := version }) =
      .ok () (payload', { buffer := headerBytes (initialHeader magic payload.type) ++ w, version := version }) ∧
    (∀ hi ∈ (definitionOf payload.type).maxPayloadLength, w.length ≤ hi) ∧
    (∀ lo ∈ (definitionOf payload.type).minPayloadLength, lo ≤ w.length) ∧
    kMessageHeaderLength + w.length ≤ kMaxProtocolMessageLength ∧
    ((definitionOf payload.type).isVectorized → IsVector (definitionOf payload.type) w)

theorem push_ok_iff_pushable (version : Int) (magic : Octets 4) (payload : MessagePayload) :
    (∃ m, (push sha256 payload).run (new version magic) = .ok () m) ↔ Pushable version magic payload := by
  have h32 : kMaxProtocolMessageLength < 2 ^ 32 := by decide
  rcases push_run sha256 version magic payload with ⟨e, ps, m, herr, -, hfails⟩ | ⟨payload', w, hser, hrun⟩
  · -- the payload cannot be serialized
    rw [hfails]
    refine iff_of_false (fun ⟨m', hok⟩ => by cases hok) fun ⟨payload', w, hser, _⟩ => ?_
    rw [herr] at hser
    cases hser
  · rw [hrun]
    constructor
    · rintro ⟨m, hv⟩
      have hlen := length_le_of_validate sha256 hv
      have hw : w.length < 2 ^ 32 := by
        change (headerBytes _ ++ w).length ≤ _ at hlen
        rw [List.length_append] at hlen
        omega
      have hm := (validate_pushed_iff sha256 magic payload.type hw).mp ⟨m, hv⟩
      exact ⟨payload', w, hser, hm.le_max, hm.min_le, hm.fits, hm.vector⟩
    · rintro ⟨p, w', hser', hmax, hmin, hfits, hvector⟩
      cases (serialization_behind hser).symm.trans (serialization_behind hser')
      exact (validate_pushed_iff sha256 magic payload.type (by omega)).mpr
        (isMessage_pushed sha256 payload.type_ne_missing hmax hmin hfits hvector)

/-! ## A push that fails -/

/-- **A push that fails leaves its trace**, whatever it failed for: the message is never what it was, and takes no other
payload. So nothing is left behind exactly by the payloads that can be pushed. -/
theorem push_untraced_iff (version : Int) (magic : Octets 4) (payload : MessagePayload) :
    (∀ e m, (push sha256 payload).run (new version magic) = .error e m →
      m ≠ new version magic ∧
        ∀ payload', (push sha256 payload').run m = .error (.net .kMessagePushNotPermitted) m) ∧
      ((∀ e m, (push sha256 payload).run (new version magic) = .error e m → m = new version magic) ↔
        Pushable version magic payload) := by
  have htraced : ∀ e m, (push sha256 payload).run (new version magic) = .error e m → m ≠ new version magic := by
    rintro e m herr rfl
    have hpristine := pristine_of_command payload.type_ne_missing (push_error_command sha256 herr)
    simp [new, MessageHeader.pristine] at hpristine
  refine ⟨fun e m herr => ⟨htraced e m herr, push_after_error sha256 herr⟩, ?_⟩
  rw [← push_ok_iff_pushable sha256]
  constructor
  · intro huntraced
    rcases push_returns sha256 version magic payload with hok | ⟨e, m, herr⟩
    · exact hok
    · exact absurd (huntraced e m herr) (htraced e m herr)
  · rintro ⟨m, hok⟩ e m' herr
    rw [hok] at herr
    cases herr

/-- An address message without addresses, then a `verack` that a fresh message takes. -/
theorem push_empty_addr : ∃ e m,
    (push (fun _ => kEmptyHash) (.addr { identifiers := [] })).run (new 170002 (Octets.zero 4)) = .error e m ∧
      m ≠ new 170002 (Octets.zero 4) ∧
      (push (fun _ => kEmptyHash) (.null ⟨.kVerAck, kVerAck_mem_nullTypes⟩)).run m =
        .error (.net .kMessagePushNotPermitted) m ∧
      ∃ m', (push (fun _ => kEmptyHash) (.null ⟨.kVerAck, kVerAck_mem_nullTypes⟩)).run (new 170002 (Octets.zero 4)) =
        .ok () m' := by
  have hfails : ((push (fun _ => kEmptyHash) (.addr { identifiers := [] })).run (new 170002 (Octets.zero 4))).isOk =
      false := by decide +kernel
  have hverAck : ((push (fun _ => kEmptyHash) (.null ⟨.kVerAck, kVerAck_mem_nullTypes⟩)).run
      (new 170002 (Octets.zero 4))).isOk := by decide +kernel
  rcases push_returns (fun _ => kEmptyHash) 170002 (Octets.zero 4) (.addr { identifiers := [] }) with
    ⟨m, hok⟩ | ⟨e, m, herr⟩
  · rw [hok] at hfails
    cases hfails
  · refine ⟨e, m, herr, ?_, push_after_error _ herr _, _, Outcome.eq_ok_of_isOk hverAck⟩
    rintro rfl
    have hcommand := push_error_command _ herr
    revert hcommand
    decide

/-- **What a node sends, a node accepts.** -/
theorem push_accepted {payload : MessagePayload} {m1 : Message}
    (h : (push sha256 payload).run (new version magic) = .ok () m1) :
    ∃ payload' w, (MessagePayload.serialization .kSerialize).run (payload, { version := version }) =
        .ok () (payload', { buffer := w, version := version }) ∧
      m1.serStream.buffer = magic.val ++ paddedCommand (definitionOf payload.type).command ++ leBytes 4 w.length ++
        (hash256 sha256 w).val.take 4 ++ w ∧
      ∃ m2, (write sha256 m1.serStream.buffer).run (new version magic) = .ok (.ok (), []) m2 ∧
        m2.isComplete ∧ m2.getType = payload.type ∧ m2.serStream.tellg = kMessageHeaderLength := by
  obtain ⟨payload', w, hser, hmax, hscan, rfl, htype⟩ := push_scan sha256 h
  have h32 : kMaxProtocolMessageLength < 2 ^ 32 := by decide
  have hne : pushedBytes sha256 magic payload.type w ≠ [] :=
    List.ne_nil_of_length_pos (by simp [pushedBytes, kMessageHeaderLength])
  have hwrite := write_run sha256 version magic (C := []) rfl hne
  rw [List.nil_append, hscan] at hwrite
  simp only [Answers, List.drop_length, List.take_length] at hwrite
  exact ⟨payload', w, hser, pushedBytes_eq sha256 payload.type_ne_missing (by omega), _, hwrite, rfl, htype, rfl⟩

/-- The nonce of a ping, pushed with the digest function that answers the known digest. -/
theorem push_accepted_ping : ∃ m1,
    (push (fun _ => kEmptyHash) (.pingPong ⟨.kPing, by decide, 7⟩)).run (new 170002 (Octets.zero 4)) = .ok () m1 ∧
    ∃ payload' w, (MessagePayload.serialization .kSerialize).run
        (.pingPong ⟨.kPing, by decide, 7⟩, { version := 170002 }) =
        .ok () (payload', { buffer := w, version := 170002 }) ∧
      m1.serStream.buffer = (Octets.zero 4).val ++ paddedCommand (definitionOf .kPing).command ++ leBytes 4 w.length ++
        (hash256 (fun _ => kEmptyHash) w).val.take 4 ++ w ∧
      ∃ m2, (write (fun _ => kEmptyHash) m1.serStream.buffer).run (new 170002 (Octets.zero 4)) = .ok (.ok (), []) m2 ∧
        m2.isComplete ∧ m2.getType = .kPing ∧ m2.serStream.tellg = kMessageHeaderLength := by
  have hok : ((push (fun _ => kEmptyHash) (.pingPong ⟨.kPing, by decide, 7⟩)).run
      (new 170002 (Octets.zero 4))).isOk := by
    decide +kernel
  have h := Outcome.eq_ok_of_isOk hok
  exact ⟨_, h, push_accepted _ h⟩

end

end Message

end Znode.Net
