import Mathlib
import Znode.Net.Message

/-!
# What `validate` computes

* `readHeader`, `checkHeader`, `payloadVerdict` : the header and the checks, as functions of the bytes;
* `Message.unvalidated`, `Message.validated` : the states a message is in between two calls;
* `validate_run_short`, `validate_run_header`, `validate_run_body` : `validate` computes those checks,
  and leaves the cursor at the first payload byte.
-/

namespace Znode.Net
open Znode.Lib Znode.Core

/-! ## The checks as functions of the bytes -/

/-- The header in the first 24 bytes, with its type looked up. -/
def readHeader (B : Bytes) : MessageHeader where
  networkMagic := Octets.ofBytes 4 (slice B 0 4)
  command := Octets.ofBytes 12 (slice B 4 12)
  payloadLength := leVal (slice B 16 4)
  payloadChecksum := Octets.ofBytes 4 (slice B 20 4)
  messageType := messageTypeFromCommand (Octets.ofBytes 12 (slice B 4 12))

def checkHeader (version : Int) (magic : Octets 4) (B : Bytes) : Except Error Unit :=
  if (readHeader B).networkMagic ≠ magic then .error (.net .kMessageHeaderInvalidMagic)
  else (readHeader B).checkFields version

/-- The number of items of a vector, checked; returns where the items begin. -/
def checkVector (h : MessageHeader) (P : Bytes) : Except Error Nat :=
  if P.length < Message.vectorOffset h.getDefinition + 1 then .error (.net .kMessageBodyIncomplete)
  else
    match parseCompact (P.drop (Message.vectorOffset h.getDefinition)) with
    | .error e => .error (if e = .kReadOverflow then .net .kMessageBodyIncomplete else .ser e)
    | .ok (numElements, k) =>
      match Message.checkNumElements h.getDefinition h.payloadLength numElements with
      | .error e => .error e
      | .ok _ => .ok (Message.vectorOffset h.getDefinition + k)

/-- Whether the items have a fixed size and one occurs twice. -/
def hasDuplicates (d : MessageDefinition) (items : Bytes) : Bool :=
  d.vectorItemSize.any fun itemSize => 0 < countDuplicateDataChunks items itemSize 1

section
variable (sha256 : Bytes → Octets 32)

/-- The checks that wait for the whole payload. -/
def checkComplete (h : MessageHeader) (P : Bytes) : Except Error Unit :=
  if P.length ≠ h.payloadLength then .error (.net .kMessageBodyIncomplete)
  else if (hash256 sha256 P).val.take 4 ≠ h.payloadChecksum.val then
    .error (.net .kMessageHeaderInvalidChecksum)
  else .ok ()

/-- What `validate_payload` says of the part `P` of the payload that is there. -/
def payloadVerdict (h : MessageHeader) (P : Bytes) : Except Error Unit :=
  if h.getDefinition.isVectorized then
    match checkVector h P with
    | .error e => .error e
    | .ok k =>
      if P.length = h.payloadLength ∧ hasDuplicates h.getDefinition (P.drop k) then
        .error (.net .kMessagePayloadDuplicateVectorItems)
      else checkComplete sha256 h P
  else checkComplete sha256 h P

end

/-! ## The states of a message -/

namespace Message

/-- The bytes `B` before the header was validated. -/
def unvalidated (version : Int) (magic : Octets 4) (h : MessageHeader) (B : Bytes) : Message where
  header := h
  serStream := { buffer := B, version := version }
  networkMagic := magic

/-- The bytes `B` after the header was validated, and the payload if `complete`; the cursor is at the
first payload byte. -/
def validated (version : Int) (magic : Octets 4) (complete : Bool) (B : Bytes) : Message where
  header := readHeader B
  serStream := { buffer := B, readPosition := kMessageHeaderLength, version := version }
  networkMagic := magic
  headerValidated := true
  payloadValidated := complete

def atPos (m : Message) (p : Nat) : Message := { m with serStream := m.serStream.atPos p }

/-! ## Runs of the member functions -/

theorem seekg_run (p : Nat) (m : Message) : (seekg p).run m =
    .ok (min p m.serStream.buffer.length) (m.atPos (min p m.serStream.buffer.length)) := by
  simp [seekg, SDataStream.seekg, atPos, SDataStream.atPos]

theorem onStream_run {α : Type} (c : Ser α) (m : Message) : (onStream c).run m =
    match c.run m.serStream with
    | .ok a s => .ok a { m with serStream := s }
    | .error e s => .error e { m with serStream := s } := by
  rw [onStream, Act.run_zoom]
  cases c.run m.serStream <;> rfl

variable {version : Int} {magic : Octets 4}

theorem serialization_run_read (h : MessageHeader) {s : SDataStream} (hp : s.readPosition = 0)
    (hlen : kMessageHeaderLength ≤ s.buffer.length) :
    (MessageHeader.serialization .kDeserialize).run (h, s) =
      .ok () ({ readHeader s.buffer with messageType := h.messageType }, s.atPos kMessageHeaderLength) := by
  have h24 : kMessageHeaderLength = 24 := rfl
  rw [h24] at hlen
  simp only [MessageHeader.serialization, EStateM.run_bind, SerOf.field_run]
  rw [bindOctets_run_read _ (by omega)]
  simp only
  rw [bindOctets_run_read _ (by simp only [SDataStream.atPos]; omega)]
  simp only
  rw [bindUInt_run_read _ (by simp only [SDataStream.atPos]; omega)]
  simp only
  rw [bindOctets_run_read _ (by simp only [SDataStream.atPos]; omega)]
  simp [SDataStream.atPos, readHeader, hp, h24]

theorem validateHeader_run_short (h : MessageHeader) {B : Bytes} (hB : B.length < kMessageHeaderLength) :
    validateHeader.run (unvalidated version magic h B) =
      .error (.net .kMessageHeaderIncomplete) (unvalidated version magic h B) := by
  simp [validateHeader, unvalidated, SDataStream.size, hB]

theorem validate_readHeader (t : MessageType) (B : Bytes) :
    MessageHeader.validate version magic { readHeader B with messageType := t } =
      if (readHeader B).networkMagic ≠ magic then
        (.error (.net .kMessageHeaderInvalidMagic), { readHeader B with messageType := t })
      else ((readHeader B).checkFields version, readHeader B) := rfl

variable (version magic) in
/-- `validate_header` computes `checkHeader`. The header that was read stays, also when it is refused. -/
theorem validateHeader_run (h : MessageHeader) {B : Bytes} (hB : kMessageHeaderLength ≤ B.length) :
    match checkHeader version magic B with
    | .error e => ∃ m, m.header.command = (readHeader B).command ∧
        validateHeader.run (unvalidated version magic h B) = .error e m
    | .ok _ => validateHeader.run (unvalidated version magic h B) =
        .ok () (validated version magic ((readHeader B).payloadLength = 0) B) := by
  have hs := serialization_run_read h (s := { buffer := B, version := version }) rfl hB
  have hlt : ¬ B.length < kMessageHeaderLength := by omega
  have hrun : validateHeader.run (unvalidated version magic h B) =
      match MessageHeader.validate version magic { readHeader B with messageType := h.messageType } with
      | (.ok _, h') => .ok () { validated version magic (h'.payloadLength = 0) B with header := h' }
      | (.error e, h') =>
        .error e { (unvalidated version magic h' B).atPos kMessageHeaderLength with header := h' } := by
    simp only [validateHeader, unvalidated, SDataStream.size, hlt, serializeHeader, hs, Act.run_bind, Act.run_get,
      Act.run_zoom, if_false, Act.run_set, Act.run_ofExcept, Act.run_modify, Bool.false_eq_true]
    simp only [SDataStream.atPos]
    cases hv : MessageHeader.validate version magic { readHeader B with messageType := h.messageType } with
    | mk r h' => cases r <;> rfl
  rw [hrun, validate_readHeader]
  unfold checkHeader
  split_ifs with hm
  · exact ⟨_, rfl, rfl⟩
  · cases hc : (readHeader B).checkFields version with
    | error e => exact ⟨_, rfl, rfl⟩
    | ok => rfl

@[simp] theorem atPos_header (m : Message) (p : Nat) : (m.atPos p).header = m.header := rfl

@[simp] theorem atPos_buffer (m : Message) (p : Nat) :
    (m.atPos p).serStream.buffer = m.serStream.buffer := rfl

@[simp] theorem atPos_atPos (m : Message) (p q : Nat) : (m.atPos p).atPos q = m.atPos q := rfl

theorem avail_atPos {m : Message} {p : Nat} (h : p ≤ m.serStream.buffer.length) :
    (m.atPos p).serStream.avail = m.serStream.buffer.length - p := SDataStream.avail_of_le h

variable (version magic) in
/-- `validate_payload_vector` computes `checkVector`. -/
theorem validatePayloadVector_run {B : Bytes} (hB : kMessageHeaderLength ≤ B.length) (complete : Bool) :
    match checkVector (readHeader B) (B.drop kMessageHeaderLength) with
    | .error e => ∃ p ≤ B.length, (validatePayloadVector (readHeader B).getDefinition).run
        (validated version magic complete B) = .error e ((validated version magic complete B).atPos p)
    | .ok k => kMessageHeaderLength + k ≤ B.length ∧ (validatePayloadVector (readHeader B).getDefinition).run
        (validated version magic complete B) =
          .ok () ((validated version magic complete B).atPos (kMessageHeaderLength + k)) := by
  set m := validated version magic complete B with hm
  have hbuf : m.serStream.buffer = B := rfl
  have hhead : m.header = readHeader B := rfl
  unfold checkVector
  generalize (readHeader B).getDefinition = d
  generalize ho : vectorOffset d = o
  split_ifs with hlen
  · -- the number of items is not there yet
    rw [List.length_drop] at hlen
    refine ⟨min (kMessageHeaderLength + o) B.length, by omega, ?_⟩
    simp only [validatePayloadVector, ho, Act.run_bind, seekg_run, hbuf, Act.run_get, Act.run_ite, Act.run_throw]
    have havail := avail_atPos (m := m) (p := min (kMessageHeaderLength + o) B.length) (by rw [hbuf]; omega)
    rw [hbuf] at havail
    rw [if_pos (by omega)]
  · rw [List.length_drop] at hlen
    have hpos : min (kMessageHeaderLength + o) B.length = kMessageHeaderLength + o := by omega
    have havail := avail_atPos (m := m) (p := kMessageHeaderLength + o) (by rw [hbuf]; omega)
    have hread := readCompact_run (m.atPos (kMessageHeaderLength + o)).serStream
      (show kMessageHeaderLength + o ≤ B.length by omega)
    have hdrop : (m.atPos (kMessageHeaderLength + o)).serStream.buffer.drop
        (m.atPos (kMessageHeaderLength + o)).serStream.readPosition = (B.drop kMessageHeaderLength).drop o := by
      rw [List.drop_drop]; rfl
    rw [hbuf] at havail
    rw [hdrop] at hread
    simp only [validatePayloadVector, ho, Act.run_bind, seekg_run, hbuf, Act.run_get, Act.run_ite, hpos]
    rw [if_neg (by omega)]
    simp only [Act.run_attempt, onStream_run]
    cases hparse : parseCompact ((B.drop kMessageHeaderLength).drop o) with
    | error e =>
        rw [hparse] at hread
        obtain ⟨p, hp, hrun⟩ := hread
        simp only [hrun]
        refine ⟨p, hp, ?_⟩
        simp only [Act.run_throw, Error.ser.injEq]
        rfl
    | ok nk =>
        obtain ⟨n, k⟩ := nk
        rw [hparse] at hread
        have hk := parseCompact_le_length hparse
        rw [List.length_drop, List.length_drop] at hk
        simp only at hread
        simp only [hread, Act.run_ofExcept, atPos_header, hhead]
        cases checkNumElements d (readHeader B).payloadLength n with
        | error e => exact ⟨kMessageHeaderLength + o + k, by omega, rfl⟩
        | ok => exact ⟨by omega, by rw [← Nat.add_assoc]; rfl⟩

theorem seekg_run_start {B : Bytes} (hB : kMessageHeaderLength ≤ B.length) (complete : Bool) (p : Nat) :
    (seekg kMessageHeaderLength).run ((validated version magic complete B).atPos p) =
      .ok kMessageHeaderLength (validated version magic complete B) := by
  rw [seekg_run, show min kMessageHeaderLength ((validated version magic complete B).atPos p).serStream.buffer.length =
    kMessageHeaderLength from Nat.min_eq_left hB]
  rfl

theorem read_all_atPos {m : Message} {p : Nat} (hp : p ≤ m.serStream.buffer.length) :
    (onStream (read none)).run (m.atPos p) =
      .ok (m.serStream.buffer.drop p) (m.atPos m.serStream.buffer.length) := by
  have hav := avail_atPos hp
  simp only [onStream_run, read_all_run, hav]
  simp only [atPos, SDataStream.atPos, slice, Nat.add_sub_cancel' hp]
  rw [List.take_of_length_le (by simp)]

theorem checkDuplicates_run (d : MessageDefinition) {m : Message} {p : Nat}
    (hp : p ≤ m.serStream.buffer.length) : ∃ q ≤ m.serStream.buffer.length,
      (checkDuplicates d).run (m.atPos p) =
        if hasDuplicates d (m.serStream.buffer.drop p) then
          .error (.net .kMessagePayloadDuplicateVectorItems) (m.atPos q)
        else .ok () (m.atPos q) := by
  cases hd : d.vectorItemSize with
  | none => exact ⟨p, hp, by simp [checkDuplicates, hasDuplicates, hd]⟩
  | some itemSize =>
      refine ⟨m.serStream.buffer.length, le_rfl, ?_⟩
      simp [checkDuplicates, hasDuplicates, hd, read_all_atPos hp]

section
variable (sha256 : Bytes → Octets 32) {B : Bytes}

variable (version magic) in
theorem validatePayloadChecksum_run (hB : B.length = kMessageHeaderLength + (readHeader B).payloadLength) :
    (validatePayloadChecksum sha256).run (validated version magic false B) =
      if (hash256 sha256 (B.drop kMessageHeaderLength)).val.take 4 ≠ (readHeader B).payloadChecksum.val then
        .error (.net .kMessageHeaderInvalidChecksum) ((validated version magic false B).atPos B.length)
      else .ok () ((validated version magic false B).atPos B.length) := by
  have hread : (onStream (read none)).run (validated version magic false B) =
      .ok (B.drop kMessageHeaderLength) ((validated version magic false B).atPos B.length) :=
    read_all_atPos (m := validated version magic false B) (p := kMessageHeaderLength)
      (show kMessageHeaderLength ≤ B.length by omega)
  have hlen : (B.drop kMessageHeaderLength).length = (readHeader B).payloadLength := by
    rw [List.length_drop]; omega
  have hhead : (validated version magic false B).header = readHeader B := rfl
  simp [validatePayloadChecksum, hread, hhead, hlen]

variable (version magic) in
theorem checkCompletePayload_run (hB : kMessageHeaderLength ≤ B.length) {p : Nat} (hp : p ≤ B.length) :
    ∃ q ≤ B.length,
      (checkCompletePayload sha256 !decide (B.length - kMessageHeaderLength = (readHeader B).payloadLength)).run
        ((validated version magic false B).atPos p) =
      match checkComplete sha256 (readHeader B) (B.drop kMessageHeaderLength) with
      | .error e => .error e ((validated version magic false B).atPos q)
      | .ok _ => .ok () ((validated version magic true B).atPos q) := by
  unfold checkComplete
  rw [List.length_drop]
  by_cases hL : B.length - kMessageHeaderLength = (readHeader B).payloadLength
  · refine ⟨B.length, le_rfl, ?_⟩
    have hsum := validatePayloadChecksum_run version magic sha256 (B := B) (by omega)
    rw [if_neg (not_not.mpr hL)]
    by_cases hsha : (hash256 sha256 (B.drop kMessageHeaderLength)).val.take 4 = (readHeader B).payloadChecksum.val
    · rw [if_neg (not_not.mpr hsha)] at hsum ⊢
      simp [checkCompletePayload, hL, seekg_run_start hB, hsum]
      rfl
    · rw [if_pos hsha] at hsum ⊢
      simp [checkCompletePayload, hL, seekg_run_start hB, hsum]
  · exact ⟨p, hp, by simp [checkCompletePayload, hL]⟩

variable (version magic) in
theorem checkPayload_run (hB : kMessageHeaderLength ≤ B.length) : ∃ q ≤ B.length,
    (checkPayload sha256 !decide (B.length - kMessageHeaderLength = (readHeader B).payloadLength)).run
        (validated version magic false B) =
      match payloadVerdict sha256 (readHeader B) (B.drop kMessageHeaderLength) with
      | .error e => .error e ((validated version magic false B).atPos q)
      | .ok _ => .ok () ((validated version magic true B).atPos q) := by
  have hhead : (validated version magic false B).header = readHeader B := rfl
  unfold payloadVerdict checkPayload
  by_cases hv : (readHeader B).getDefinition.isVectorized
  · have hvec := validatePayloadVector_run version magic hB false
    simp only [hv, if_true, Act.run_bind, Act.run_get, hhead]
    cases hc : checkVector (readHeader B) (B.drop kMessageHeaderLength) with
    | error e =>
        rw [hc] at hvec
        obtain ⟨p, hp, hrun⟩ := hvec
        exact ⟨p, hp, by simp [hrun]⟩
    | ok k =>
        rw [hc] at hvec
        obtain ⟨hk, hrun⟩ := hvec
        obtain ⟨p, hp, hdup⟩ := checkDuplicates_run (readHeader B).getDefinition
          (m := validated version magic false B) (p := kMessageHeaderLength + k) hk
        rw [show (validated version magic false B).serStream.buffer.drop (kMessageHeaderLength + k) =
          (B.drop kMessageHeaderLength).drop k by rw [List.drop_drop]; rfl] at hdup
        obtain ⟨q, hq, hend⟩ := checkCompletePayload_run version magic sha256 hB hp
        obtain ⟨q', hq', hend'⟩ := checkCompletePayload_run version magic sha256 hB hk
        simp only [List.length_drop]
        generalize hasDuplicates (readHeader B).getDefinition ((B.drop kMessageHeaderLength).drop k) = dup at hdup ⊢
        by_cases hL : B.length - kMessageHeaderLength = (readHeader B).payloadLength
        · cases dup with
          | true => exact ⟨p, hp, by simp [hrun, hL, hdup]⟩
          | false => exact ⟨q, hq, by simpa [hrun, hL, hdup] using hend⟩
        · exact ⟨q', hq', by simpa [hrun, hL] using hend'⟩
  · obtain ⟨q, hq, hrun⟩ := checkCompletePayload_run version magic sha256 hB hB
    refine ⟨q, hq, ?_⟩
    simp only [hv, Act.run_bind, Act.run_get, hhead]
    exact hrun

variable (version magic) in
/-- `validate_payload` computes `payloadVerdict`, and leaves the cursor at the first payload byte. -/
theorem validatePayload_run (hB : kMessageHeaderLength ≤ B.length) :
    (validatePayload sha256).run (validated version magic false B) =
      match payloadVerdict sha256 (readHeader B) (B.drop kMessageHeaderLength) with
      | .error e => .error e (validated version magic false B)
      | .ok _ => .ok () (validated version magic true B) := by
  obtain ⟨q, -, hrun⟩ := checkPayload_run version magic sha256 hB
  have havail : (validated version magic false B).serStream.avail = B.length - kMessageHeaderLength :=
    SDataStream.avail_of_le hB
  have hhead : (validated version magic false B).header = readHeader B := rfl
  have hh : (validated version magic false B).headerValidated = true := rfl
  have hp : (validated version magic false B).payloadValidated = false := rfl
  cases hv : payloadVerdict sha256 (readHeader B) (B.drop kMessageHeaderLength) with
  | error e => simp [validatePayload, havail, hhead, hh, hp, hrun, hv, seekg_run_start hB]
  | ok => simp [validatePayload, havail, hhead, hh, hp, hrun, hv, seekg_run_start hB]

end

section
variable {version : Int} {magic : Octets 4} (sha256 : Bytes → Octets 32) {B : Bytes}

theorem validate_run_overflow {m : Message} (h : kMaxProtocolMessageLength < m.serStream.buffer.length) :
    (validate sha256).run m = .error (.net .kMessageSizeOverflow) m := by
  simp [validate, SDataStream.size, h]

theorem validate_run_short (h : MessageHeader) (hB : B.length < kMessageHeaderLength) :
    (validate sha256).run (unvalidated version magic h B) =
      .error (.net .kMessageHeaderIncomplete) (unvalidated version magic h B) := by
  have hmax : ¬ kMaxProtocolMessageLength < B.length := by
    have : kMessageHeaderLength < kMaxProtocolMessageLength := by decide
    omega
  have hbuf : (unvalidated version magic h B).serStream.size = B.length := rfl
  have hc : (unvalidated version magic h B).isComplete = false := rfl
  simp [validate, hbuf, hmax, hc, validateHeader_run_short h hB]

theorem validate_run_body (hB : kMessageHeaderLength ≤ B.length) (hmax : B.length ≤ kMaxProtocolMessageLength) :
    (validate sha256).run (validated version magic false B) =
      match payloadVerdict sha256 (readHeader B) (B.drop kMessageHeaderLength) with
      | .error e => .error e (validated version magic false B)
      | .ok _ => .ok () (validated version magic true B) := by
  have hbuf : (validated version magic false B).serStream.size = B.length := rfl
  have hlt : ¬ kMaxProtocolMessageLength < B.length := by omega
  have hc : (validated version magic false B).isComplete = false := rfl
  have hh : validateHeader.run (validated version magic false B) = .ok () (validated version magic false B) := by
    simp [validateHeader, validated]
  have hseek : ∀ c, (seekg kMessageHeaderLength).run (validated version magic c B) =
    .ok kMessageHeaderLength (validated version magic c B) := fun c => seekg_run_start hB c kMessageHeaderLength
  have hp := validatePayload_run version magic sha256 hB
  cases hv : payloadVerdict sha256 (readHeader B) (B.drop kMessageHeaderLength) with
  | error e => simp [validate, hbuf, hlt, hc, hh, hp, hv, hseek]
  | ok => simp [validate, hbuf, hlt, hc, hh, hp, hv, hseek]

variable (version magic) in
theorem validate_run_header (h : MessageHeader) (hB : kMessageHeaderLength ≤ B.length)
    (hmax : B.length ≤ kMaxProtocolMessageLength) :
    match checkHeader version magic B with
    | .error e => ∃ m, m.header.command = (readHeader B).command ∧
        (validate sha256).run (unvalidated version magic h B) = .error e m
    | .ok _ => (validate sha256).run (unvalidated version magic h B) =
        if (readHeader B).payloadLength = 0 then .ok () (validated version magic true B)
        else (validate sha256).run (validated version magic false B) := by
  have hbuf : (unvalidated version magic h B).serStream.size = B.length := rfl
  have hlt : ¬ kMaxProtocolMessageLength < B.length := by omega
  have hc : (unvalidated version magic h B).isComplete = false := rfl
  have hh := validateHeader_run version magic h hB
  cases hcheck : checkHeader version magic B with
  | error e =>
      rw [hcheck] at hh
      obtain ⟨m, hcommand, hm⟩ := hh
      exact ⟨m, hcommand, by simp [validate, hbuf, hlt, hc, hm]⟩
  | ok =>
      rw [hcheck] at hh
      have hseek : ∀ c, (seekg kMessageHeaderLength).run (validated version magic c B) =
        .ok kMessageHeaderLength (validated version magic c B) := fun c => seekg_run_start hB c kMessageHeaderLength
      by_cases hL : (readHeader B).payloadLength = 0
      · have hp : (validatePayload sha256).run (validated version magic true B) =
            .ok () (validated version magic true B) := by simp [validatePayload, validated]
        simp only [hL, decide_true] at hh
        simp [validate, hbuf, hlt, hc, hh, hL, hp, hseek]
      · have hp := validatePayload_run version magic sha256 hB
        simp only [hL, decide_false] at hh
        simp only [hL, if_false, validate_run_body sha256 hB hmax]
        cases hv : payloadVerdict sha256 (readHeader B) (B.drop kMessageHeaderLength) with
        | error e => simp [validate, hbuf, hlt, hc, hh, hp, hv, hseek]
        | ok => simp [validate, hbuf, hlt, hc, hh, hp, hv, hseek]

end

end Message

end Znode.Net
