import Mathlib
import Znode.Lib.Feed
import Znode.Net.Validate

/-!
# Framing: what `write` makes of the bytes seen so far

* `scan` : the verdict on a byte string: more is needed, it is refused, or a message is complete after
  a prefix of it (`scan_stable` : a refusal and a completion survive more bytes);
* `write_follows` : one call of `write` on a message that waits for more answers as `scan` does;
* `write_chunks` : so it does not matter in which chunks the bytes arrive.
-/

namespace Znode.Net
open Znode.Lib Znode.Core

/-! ## The checks and more bytes -/

theorem readHeader_append {C : Bytes} (h : kMessageHeaderLength ≤ C.length) (D : Bytes) :
    readHeader (C ++ D) = readHeader C := by
  have h24 : 24 ≤ C.length := h
  unfold readHeader
  rw [slice_append (by omega), slice_append (by omega), slice_append (by omega), slice_append (by omega)]

theorem checkHeader_append {version : Int} {magic : Octets 4} {C : Bytes}
    (h : kMessageHeaderLength ≤ C.length) (D : Bytes) :
    checkHeader version magic (C ++ D) = checkHeader version magic C := by
  unfold checkHeader
  rw [readHeader_append h]

theorem definitionOf_protocolVersion (t : MessageType) :
    (definitionOf t).minProtocolVersion = none ∧ (definitionOf t).maxProtocolVersion = none := by
  cases t <;> exact ⟨rfl, rfl⟩

theorem clamp_eq_iff {v lo hi : Nat} : MessageHeader.clamp v lo hi = v ↔ lo ≤ v ∧ v ≤ hi := by
  unfold MessageHeader.clamp
  split_ifs <;> omega

theorem checkFields_ok_iff {version : Int} {h : MessageHeader} : h.checkFields version = .ok () ↔
    h.messageType ≠ .kMissingOrUnknown ∧ h.payloadLength ≤ kMaxProtocolMessageLength ∧
      h.getDefinition.minPayloadLength.getD 0 ≤ h.payloadLength ∧
      h.payloadLength ≤ h.getDefinition.maxPayloadLength.getD kMaxProtocolMessageLength ∧
      (h.payloadLength = 0 → h.payloadChecksum.val = kEmptyHash.val.take 4) := by
  obtain ⟨hmin, hmax⟩ := definitionOf_protocolVersion h.messageType
  unfold MessageHeader.checkFields MessageHeader.getDefinition
  simp only [hmin, hmax, Option.any_none, Bool.false_eq_true, if_false, ne_eq, clamp_eq_iff]
  split_ifs with h1 h2 h3 h4
  · simp [h1]
  · simp only [false_iff]
    omega
  · simp only [false_iff]
    exact fun hc => h4.2 (hc.2.2.2.2 h4.1)
  · simp only [true_iff]
    exact ⟨h1, by omega, h3.1, h3.2, fun h0 => by_contra fun hne => h4 ⟨h0, hne⟩⟩
  · simp only [false_iff]
    exact fun hc => h3 ⟨hc.2.2.1, hc.2.2.2.1⟩

theorem checkFields_error {version : Int} {header : MessageHeader} {e : Error}
    (h : header.checkFields version = .error e) : Message.isIncomplete e = false := by
  unfold MessageHeader.checkFields at h
  split_ifs at h <;> cases h <;> rfl

theorem checkHeader_error {version : Int} {magic : Octets 4} {B : Bytes} {e : Error}
    (h : checkHeader version magic B = .error e) : Message.isIncomplete e = false := by
  unfold checkHeader at h
  by_cases hmagic : (readHeader B).networkMagic ≠ magic
  · rw [if_pos hmagic] at h
    cases h
    rfl
  · rw [if_neg hmagic] at h
    exact checkFields_error h

theorem checkHeader_ok_iff {version : Int} {magic : Octets 4} {B : Bytes} :
    checkHeader version magic B = .ok () ↔
      (readHeader B).networkMagic = magic ∧ (readHeader B).checkFields version = .ok () := by
  unfold checkHeader
  split_ifs with hm
  · simpa using fun h => absurd h hm
  · simp [not_not.mp hm]

/-! ## The vector check and more bytes -/

section
variable {h : MessageHeader} {P : Bytes}

theorem checkNumElements_error {d : MessageDefinition} {L n : Nat} {e : Error}
    (h : Message.checkNumElements d L n = .error e) : Message.isIncomplete e = false := by
  unfold Message.checkNumElements at h
  split_ifs at h <;> cases h <;> rfl

/-- The number of items, once it is there, does not change with more bytes. -/
theorem checkVector_append (hc : checkVector h P ≠ .error (.net .kMessageBodyIncomplete)) (R : Bytes) :
    checkVector h (P ++ R) = checkVector h P := by
  unfold checkVector at hc ⊢
  by_cases hlen : P.length < Message.vectorOffset h.getDefinition + 1
  · exact absurd (if_pos hlen) hc
  · rw [if_neg hlen] at hc
    rw [if_neg hlen, if_neg (by rw [List.length_append]; omega), List.drop_append_of_le_length (by omega),
      parseCompact_append]
    intro hover
    rw [hover] at hc
    exact hc rfl

theorem checkVector_incomplete {e : Error} (hc : checkVector h P = .error e) (he : Message.isIncomplete e) :
    P.length < Message.vectorOffset h.getDefinition + 9 := by
  unfold checkVector at hc
  split_ifs at hc with hlen
  · omega
  · cases hp : parseCompact (P.drop (Message.vectorOffset h.getDefinition)) with
    | error e' =>
        rw [hp] at hc
        by_cases he' : e' = .kReadOverflow
        · subst he'
          have := parseCompact_overflow hp
          rw [List.length_drop] at this
          omega
        · cases hc
          simp [he', Message.isIncomplete] at he
    | ok nk =>
        obtain ⟨n, k⟩ := nk
        rw [hp] at hc
        cases hn : Message.checkNumElements h.getDefinition h.payloadLength n with
        | error e' =>
            simp only [hn] at hc
            cases hc
            rw [checkNumElements_error hn] at he
            cases he
        | ok => simp only [hn] at hc; cases hc

/-- A vectorized payload of a length the table allows has room for its number of items. -/
theorem vectorOffset_le {t : MessageType} (hv : (definitionOf t).isVectorized) :
    Message.vectorOffset (definitionOf t) + 9 ≤ (definitionOf t).minPayloadLength.getD 0 := by
  revert hv
  cases t <;> decide

variable (sha256 : Bytes → Octets 32)

/-- A payload of full length is accepted or refused. -/
theorem payloadVerdict_incomplete {version : Int} {e : Error} (hf : h.checkFields version = .ok ())
    (hv : payloadVerdict sha256 h P = .error e) (he : Message.isIncomplete e) : P.length ≠ h.payloadLength := by
  intro hL
  obtain ⟨-, -, hmin, -⟩ := checkFields_ok_iff.mp hf
  have hcomplete : checkComplete sha256 h P ≠ .error e := by
    intro hc
    unfold checkComplete at hc
    rw [if_neg (not_not.mpr hL)] at hc
    split_ifs at hc
    cases hc
    cases he
  unfold payloadVerdict at hv
  split_ifs at hv with hvec
  · cases hc : checkVector h P with
    | error e' =>
        rw [hc] at hv
        cases hv
        have h1 := checkVector_incomplete hc he
        have h2 := vectorOffset_le (t := h.messageType) hvec
        unfold MessageHeader.getDefinition at h1 hmin
        omega
    | ok k =>
        simp only [hc] at hv
        split_ifs at hv
        · cases hv
          cases he
        · exact hcomplete hv
  · exact hcomplete hv

/-- A payload refused before it is complete stays refused. -/
theorem payloadVerdict_append {e : Error} (hL : P.length ≠ h.payloadLength)
    (hv : payloadVerdict sha256 h P = .error e) (he : Message.isIncomplete e = false) (R : Bytes) :
    payloadVerdict sha256 h (P ++ R) = .error e := by
  have hcomplete : checkComplete sha256 h P ≠ .error e := by
    intro hc
    unfold checkComplete at hc
    rw [if_pos hL] at hc
    cases hc
    cases he
  unfold payloadVerdict at hv ⊢
  split_ifs at hv ⊢ with hvec
  · cases hc : checkVector h P with
    | error e' =>
        rw [hc] at hv
        cases hv
        rw [checkVector_append (by rw [hc]; rintro ⟨⟩; cases he), hc]
    | ok k =>
        simp only [hc, hL, false_and, if_false] at hv
        exact absurd hv hcomplete
  · exact absurd hv hcomplete

end

/-! ## The verdict -/

def payloadOf (B : Bytes) : Bytes := slice B kMessageHeaderLength (readHeader B).payloadLength

/-- The verdict on a payload of which the part `P` is there. -/
def scanPayload (sha256 : Bytes → Octets 32) (h : MessageHeader) (P : Bytes) : Verdict Error :=
  if h.payloadLength = 0 then .done kMessageHeaderLength
  else if kMessageHeaderLength + P.length > kMaxProtocolMessageLength then .fail (.net .kMessageSizeOverflow)
  else
    match payloadVerdict sha256 h P with
    | .error e => if Message.isIncomplete e then .more else .fail e
    | .ok _ => .done (kMessageHeaderLength + h.payloadLength)

/-- The verdict on the bytes seen so far. -/
def scan (sha256 : Bytes → Octets 32) (version : Int) (magic : Octets 4) (B : Bytes) : Verdict Error :=
  if B.length < kMessageHeaderLength then .more
  else
    match checkHeader version magic B with
    | .error e => .fail e
    | .ok _ => scanPayload sha256 (readHeader B) (payloadOf B)

section
variable (sha256 : Bytes → Octets 32) {version : Int} {magic : Octets 4} {B C D : Bytes} {h : MessageHeader} {P : Bytes}

theorem payloadVerdict_ok (hv : payloadVerdict sha256 h P = .ok ()) : P.length = h.payloadLength := by
  have hcomplete : checkComplete sha256 h P = .ok () → P.length = h.payloadLength := by
    intro hc
    unfold checkComplete at hc
    split_ifs at hc with hL
    exact not_not.mp hL
  unfold payloadVerdict at hv
  split_ifs at hv
  · cases hc : checkVector h P with
    | error e => simp [hc] at hv
    | ok k =>
        simp only [hc] at hv
        split_ifs at hv
        exact hcomplete hv
  · exact hcomplete hv

theorem length_payloadOf_le (B : Bytes) : (payloadOf B).length ≤ (readHeader B).payloadLength := by
  rw [payloadOf, length_slice]
  omega

theorem payloadOf_eq_drop (h : B.length ≤ kMessageHeaderLength + (readHeader B).payloadLength) :
    payloadOf B = B.drop kMessageHeaderLength := by
  rw [payloadOf, slice, List.take_of_length_le (by simp; omega)]

theorem payloadOf_append (hC : kMessageHeaderLength ≤ C.length) (D : Bytes) :
    payloadOf (C ++ D) = payloadOf C ++ D.take ((readHeader C).payloadLength - (C.length - kMessageHeaderLength)) := by
  unfold payloadOf slice
  rw [readHeader_append hC, List.drop_append_of_le_length hC, List.take_append, List.length_drop]

theorem payloadOf_append_of_full (hC : kMessageHeaderLength ≤ C.length)
    (hL : (payloadOf C).length = (readHeader C).payloadLength) (D : Bytes) : payloadOf (C ++ D) = payloadOf C := by
  rw [payloadOf, length_slice] at hL
  rw [payloadOf_append hC, show (readHeader C).payloadLength - (C.length - kMessageHeaderLength) = 0 by omega,
    List.take_zero, List.append_nil]

theorem scanPayload_fail_append {e : Error}
    (hs : scanPayload sha256 h P = .fail e) (R : Bytes) (hR : P.length = h.payloadLength → R = []) :
    ∃ e', scanPayload sha256 h (P ++ R) = .fail e' := by
  unfold scanPayload at hs ⊢
  by_cases h0 : h.payloadLength = 0
  · rw [if_pos h0] at hs
    cases hs
  rw [if_neg h0] at hs ⊢
  by_cases h1 : kMessageHeaderLength + (P ++ R).length > kMaxProtocolMessageLength
  · exact ⟨_, if_pos h1⟩
  · rw [if_neg h1]
    rw [List.length_append] at h1
    rw [if_neg (by omega)] at hs
    cases hv : payloadVerdict sha256 h P with
    | ok => simp [hv] at hs
    | error e' =>
        simp only [hv] at hs
        split_ifs at hs with hi
        cases hs
        have he : Message.isIncomplete e = false := by simpa using hi
        refine ⟨e, ?_⟩
        by_cases hL : P.length = h.payloadLength
        · rw [hR hL, List.append_nil, hv]
          simp [he]
        · rw [payloadVerdict_append sha256 hL hv he]
          simp [he]

theorem scanPayload_done {n : Nat} (hs : scanPayload sha256 h P = .done n) :
    n = kMessageHeaderLength + h.payloadLength ∧ (P.length = h.payloadLength ∨ h.payloadLength = 0) := by
  unfold scanPayload at hs
  split_ifs at hs with h0 h1
  · cases hs
    exact ⟨by omega, Or.inr h0⟩
  · cases hv : payloadVerdict sha256 h P with
    | ok =>
        simp only [hv] at hs
        cases hs
        exact ⟨rfl, Or.inl (payloadVerdict_ok sha256 hv)⟩
    | error e =>
        simp only [hv] at hs
        split_ifs at hs

theorem scan_of_le (hB : kMessageHeaderLength ≤ B.length) : scan sha256 version magic B =
    match checkHeader version magic B with
    | .error e => .fail e
    | .ok _ => scanPayload sha256 (readHeader B) (payloadOf B) := by
  rw [scan, if_neg (by omega)]

theorem le_of_scan (hs : scan sha256 version magic B ≠ .more) : kMessageHeaderLength ≤ B.length := by
  by_contra hlt
  exact hs (if_pos (by omega))

theorem scan_stable : Stable (scan sha256 version magic) where
  fail := by
    intro C e hs D
    have hC : kMessageHeaderLength ≤ C.length := le_of_scan sha256 (by rw [hs]; simp)
    rw [scan_of_le sha256 hC] at hs
    rw [scan_of_le sha256 (by rw [List.length_append]; omega), checkHeader_append hC, readHeader_append hC,
      payloadOf_append hC]
    cases hh : checkHeader version magic C with
    | error e' => exact ⟨e', rfl⟩
    | ok =>
        rw [hh] at hs
        refine scanPayload_fail_append sha256 hs _ fun hL => ?_
        rw [payloadOf, length_slice] at hL
        rw [show (readHeader C).payloadLength - (C.length - kMessageHeaderLength) = 0 by omega, List.take_zero]
  done := by
    intro C n hs
    have hC : kMessageHeaderLength ≤ C.length := le_of_scan sha256 (by rw [hs]; simp)
    rw [scan_of_le sha256 hC] at hs
    cases hh : checkHeader version magic C with
    | error e' => simp [hh] at hs
    | ok =>
        rw [hh] at hs
        obtain ⟨hn, hL⟩ := scanPayload_done sha256 hs
        have hfull : (payloadOf C).length = (readHeader C).payloadLength := by
          have := length_payloadOf_le C
          omega
        refine ⟨?_, fun D => ?_⟩
        · rw [payloadOf, length_slice] at hfull
          omega
        · rw [scan_of_le sha256 (by rw [List.length_append]; omega), checkHeader_append hC, readHeader_append hC,
            payloadOf_append_of_full hC hfull, hh]
          exact hs

end

theorem scanPayload_more (sha256 : Bytes → Octets 32) {version : Int} {h : MessageHeader} {P : Bytes}
    (hf : h.checkFields version = .ok ()) (hs : scanPayload sha256 h P = .more) : P.length ≠ h.payloadLength := by
  unfold scanPayload at hs
  split_ifs at hs
  cases hv : payloadVerdict sha256 h P with
  | ok => simp [hv] at hs
  | error e =>
      simp only [hv] at hs
      split_ifs at hs with hi
      exact payloadVerdict_incomplete sha256 hf hv hi

/-- More is wanted of an accepted header, whose payload is not all there. -/
theorem scan_more_of_le (sha256 : Bytes → Octets 32) {version : Int} {magic : Octets 4} {C : Bytes}
    (hC : kMessageHeaderLength ≤ C.length) (hs : scan sha256 version magic C = .more) :
    checkHeader version magic C = .ok () ∧ (readHeader C).payloadLength ≤ kMaxProtocolMessageLength ∧
      C.length < kMessageHeaderLength + (readHeader C).payloadLength := by
  rw [scan_of_le sha256 hC] at hs
  cases hh : checkHeader version magic C with
  | error e => simp [hh] at hs
  | ok =>
      rw [hh] at hs
      have hfields := (checkHeader_ok_iff.mp hh).2
      have hpart := scanPayload_more sha256 hfields hs
      rw [payloadOf, length_slice] at hpart
      exact ⟨rfl, (checkFields_ok_iff.mp hfields).2.1, by omega⟩

/-! ## The calls of `write` -/

namespace Message

/-- The message that has taken the bytes `C` and waits for more. -/
def pending (version : Int) (magic : Octets 4) (C : Bytes) : Message :=
  if C.length < kMessageHeaderLength then unvalidated version magic {} C
  else validated version magic false C

/-- What one call of `write` does when the bytes seen so far are `B`, by the verdict on them. -/
def Answers (version : Int) (magic : Octets 4) (B : Bytes) (v : Verdict Error)
    (r : Outcome Error Fault Message (Except Error Unit × Bytes)) : Prop :=
  match v with
  | .more => ∃ e, isIncomplete e ∧ r = .ok (.error e, []) (pending version magic B)
  | .fail e => isIncomplete e = false ∧ ∃ m rest, r = .ok (.error e, rest) m
  | .done n => r = .ok (.ok (), B.drop n) (validated version magic true (B.take n))

def extend (m : Message) (data : Bytes) : Message :=
  { m with serStream := { m.serStream with buffer := m.serStream.buffer ++ data } }

theorem onStream_write_run (data : Bytes) (m : Message) : (onStream (Core.write data)).run m =
    if m.serStream.buffer.length + data.length > kMaxStreamSize then .error (.ser .kInputTooLarge) m
    else .ok () (m.extend data) := by
  rw [onStream_run, Core.write_run]
  split_ifs <;> rfl

section
variable (sha256 : Bytes → Octets 32) {version : Int} {magic : Octets 4} {C D : Bytes}

theorem writeLoop_nil (rounds : Nat) (result : Except Error Unit) (m : Message) :
    (writeLoop sha256 (rounds + 1) result []).run m = .ok (result, []) m := by
  simp [writeLoop]

theorem writeLoop_run (rounds : Nat) (result : Except Error Unit) {input : Bytes} (hne : input ≠ [])
    (m : Message) (hfit : m.serStream.buffer.length + m.bytesToRead input.length ≤ kMaxStreamSize) :
    (writeLoop sha256 (rounds + 1) result input).run m =
      match (validate sha256).run (m.extend (input.take (m.bytesToRead input.length))) with
      | .ok _ m' => .ok (.ok (), input.drop (m.bytesToRead input.length)) m'
      | .error e m' =>
        if isIncomplete e then (writeLoop sha256 rounds (.error e) (input.drop (m.bytesToRead input.length))).run m'
        else .ok (.error e, input.drop (m.bytesToRead input.length)) m'
      | .fault f m' => .fault f m' := by
  have hempty : input.isEmpty = false := by simpa using hne
  have hw : (onStream (Core.write (input.take (m.bytesToRead input.length)))).run m =
      .ok () (m.extend (input.take (m.bytesToRead input.length))) := by
    rw [onStream_write_run, if_neg (by rw [List.length_take]; omega)]
  cases hv : (validate sha256).run (m.extend (input.take (m.bytesToRead input.length))) with
  | ok a m' => simp [writeLoop, hempty, hw, hv]
  | error e m' => simp [writeLoop, hempty, hw, hv]
  | fault f m' => simp [writeLoop, hempty, hw, hv]

variable (version magic) in
theorem bytesToRead_unvalidated (h : MessageHeader) (hC : C.length < kMessageHeaderLength) (n : Nat) :
    (unvalidated version magic h C).bytesToRead n = min (kMessageHeaderLength - C.length) n := by
  have h1 : (unvalidated version magic h C).serStream.avail = C.length := SDataStream.avail_of_le (Nat.zero_le _)
  have h2 : (unvalidated version magic h C).serStream.tellg < kMessageHeaderLength := by
    show 0 < kMessageHeaderLength
    decide
  rw [bytesToRead, if_pos h2, h1, sizeSub_of_le (by omega)]

variable (version magic) in
theorem bytesToRead_validated (hC : kMessageHeaderLength ≤ C.length)
    (hL : C.length ≤ kMessageHeaderLength + (readHeader C).payloadLength) (n : Nat) :
    (validated version magic false C).bytesToRead n =
      min (kMessageHeaderLength + (readHeader C).payloadLength - C.length) n := by
  have h1 : (validated version magic false C).serStream.avail = C.length - kMessageHeaderLength :=
    SDataStream.avail_of_le hC
  have h2 : ¬ (validated version magic false C).serStream.tellg < kMessageHeaderLength :=
    Nat.lt_irrefl _
  have h3 : (validated version magic false C).header = readHeader C := rfl
  rw [bytesToRead, if_neg h2, h1, h3, sizeSub_of_le (by omega)]
  congr 1
  omega

theorem kMaxProtocolMessageLength_fits : kMessageHeaderLength + kMaxProtocolMessageLength ≤ kMaxStreamSize := by
  decide

/-- The rounds of the loop on a known header with an unfinished payload: the first takes what the
payload lacks. -/
theorem writeLoop_run_body (rounds : Nat) (result : Except Error Unit) (hC : kMessageHeaderLength ≤ C.length)
    (hh : checkHeader version magic C = .ok ())
    (hL : C.length < kMessageHeaderLength + (readHeader C).payloadLength) (hD : D ≠ []) :
    Answers version magic (C ++ D) (scan sha256 version magic (C ++ D))
      ((writeLoop sha256 (rounds + 2) result D).run (validated version magic false C)) := by
  set L := (readHeader C).payloadLength with hLdef
  have hfields := (checkHeader_ok_iff.mp hh).2
  have hLmax : L ≤ kMaxProtocolMessageLength := (checkFields_ok_iff.mp hfields).2.1
  have hn := bytesToRead_validated version magic hC hL.le D.length
  set n := (validated version magic false C).bytesToRead D.length
  have hext : (validated version magic false C).extend (D.take n) = validated version magic false (C ++ D.take n) := by
    simp only [validated, extend, readHeader_append hC]
  have hP : payloadOf (C ++ D) = (C ++ D.take n).drop kMessageHeaderLength := by
    rw [payloadOf_append hC, payloadOf_eq_drop hL.le, List.drop_append_of_le_length hC, hn]
    congr 1
    rw [show (readHeader C).payloadLength - (C.length - kMessageHeaderLength) =
      kMessageHeaderLength + L - C.length by omega]
    rw [← List.take_take, List.take_of_length_le le_rfl]
  have hlen : (C ++ D.take n).length = kMessageHeaderLength + (payloadOf (C ++ D)).length := by
    rw [hP, List.length_drop, List.length_append]
    omega
  have hhead : readHeader (C ++ D.take n) = readHeader C := readHeader_append hC _
  have hfit := kMaxProtocolMessageLength_fits
  rw [writeLoop_run sha256 _ _ hD _ (by
    show C.length + n ≤ kMaxStreamSize
    omega), hext, scan_of_le sha256 (by rw [List.length_append]; omega), checkHeader_append hC, hh,
      readHeader_append hC]
  unfold scanPayload
  rw [if_neg (by omega)]
  by_cases hmax : kMaxProtocolMessageLength < (C ++ D.take n).length
  · rw [if_pos (by omega), validate_run_overflow sha256 hmax]
    exact ⟨rfl, _, _, rfl⟩
  · rw [if_neg (by omega), validate_run_body sha256 (by omega) (by omega), ← hP, hhead]
    cases hv : payloadVerdict sha256 (readHeader C) (payloadOf (C ++ D)) with
    | ok =>
        -- the payload is complete: the round took exactly what it lacked
        have hfull := payloadVerdict_ok sha256 hv
        have hn' : n = kMessageHeaderLength + L - C.length := by
          rw [List.length_append, List.length_take] at hlen
          omega
        have hsplit : C.length + n = kMessageHeaderLength + L := by omega
        simp only [Answers]
        rw [← hLdef, ← hsplit, List.drop_length_add_append, List.take_length_add_append]
    | error e =>
        cases hi : isIncomplete e with
        | false =>
            simp only [hi, Bool.false_eq_true, if_false]
            exact ⟨hi, _, _, rfl⟩
        | true =>
            have hpart := payloadVerdict_incomplete sha256 hfields hv hi
            have hall : D.length ≤ n := by
              rw [List.length_append, List.length_take] at hlen
              have := length_payloadOf_le (C ++ D)
              rw [readHeader_append hC] at this
              omega
            simp only [hi, if_true]
            refine ⟨e, hi, ?_⟩
            rw [List.drop_eq_nil_of_le hall, writeLoop_nil, List.take_of_length_le hall, pending,
              if_neg (by rw [List.length_append]; omega)]

/-- Nothing of a payload that is not empty. -/
theorem payloadVerdict_nil {h : MessageHeader} (hL : h.payloadLength ≠ 0) :
    payloadVerdict sha256 h [] = .error (.net .kMessageBodyIncomplete) := by
  have hc : checkComplete sha256 h [] = .error (.net .kMessageBodyIncomplete) := if_pos (by simpa using hL.symm)
  have hv : checkVector h [] = .error (.net .kMessageBodyIncomplete) := if_pos (by simp)
  simp only [payloadVerdict, hc, hv, ite_self]

/-- The rounds of the loop before the header is complete: the first takes what the header lacks. -/
theorem writeLoop_run_header {rounds : Nat} (result : Except Error Unit) (hC : C.length < kMessageHeaderLength)
    (hD : D ≠ []) (hrounds : D.length + 1 ≤ rounds) :
    Answers version magic (C ++ D) (scan sha256 version magic (C ++ D))
      ((writeLoop sha256 rounds result D).run (unvalidated version magic {} C)) := by
  obtain ⟨rounds, rfl⟩ : ∃ r, rounds = r + 2 := ⟨rounds - 2, by have := List.length_pos_of_ne_nil hD; omega⟩
  have hn := bytesToRead_unvalidated version magic {} hC D.length
  set n := (unvalidated version magic {} C).bytesToRead D.length
  have hext : (unvalidated version magic {} C).extend (D.take n) = unvalidated version magic {} (C ++ D.take n) := rfl
  have hfit := kMaxProtocolMessageLength_fits
  have hmax : kMessageHeaderLength ≤ kMaxProtocolMessageLength := by decide
  rw [writeLoop_run sha256 _ _ hD _ (by
    show C.length + n ≤ kMaxStreamSize
    omega), hext]
  by_cases hshort : C.length + D.length < kMessageHeaderLength
  · have hall : D.length ≤ n := by omega
    rw [List.drop_eq_nil_of_le hall, List.take_of_length_le hall,
      validate_run_short sha256 _ (by rw [List.length_append]; omega), scan, if_pos (by rw [List.length_append]; omega)]
    refine ⟨.net .kMessageHeaderIncomplete, rfl, ?_⟩
    rw [pending, if_pos (by rw [List.length_append]; omega)]
    exact writeLoop_nil sha256 rounds _ _
  · -- the header is complete after the first round
    have hsplit : C ++ D = (C ++ D.take n) ++ D.drop n := by rw [List.append_assoc, List.take_append_drop]
    have hH : (C ++ D.take n).length = kMessageHeaderLength := by
      rw [List.length_append, List.length_take]
      omega
    generalize C ++ D.take n = H at hsplit hH
    have hHle : kMessageHeaderLength ≤ H.length := hH.ge
    have hrest : D.drop n ≠ [] → 1 ≤ rounds := by
      intro hne
      have := List.length_pos_of_ne_nil hne
      rw [List.length_drop] at this
      have := List.length_pos_of_ne_nil hD
      omega
    generalize D.drop n = R at hsplit hrest
    rw [hsplit]
    have hv := validate_run_header version magic sha256 {} hHle (by omega)
    cases hh : checkHeader version magic H with
    | error e =>
        rw [hh] at hv
        obtain ⟨m, -, hm⟩ := hv
        have hi := checkHeader_error hh
        rw [hm, scan_of_le sha256 (by rw [List.length_append]; omega), checkHeader_append hHle, hh]
        simp only [hi, Bool.false_eq_true, if_false]
        exact ⟨hi, m, R, rfl⟩
    | ok =>
        rw [hh] at hv
        simp only at hv
        have hdrop : H.drop kMessageHeaderLength = [] := List.drop_eq_nil_of_le hH.le
        by_cases hL : (readHeader H).payloadLength = 0
        · rw [hv, if_pos hL, scan_of_le sha256 (by rw [List.length_append]; omega), checkHeader_append hHle, hh,
            readHeader_append hHle]
          simp only [scanPayload, hL, if_true, Answers]
          rw [← hH, List.drop_left, List.take_left]
        · rw [hv, if_neg hL, validate_run_body sha256 hHle (by omega), hdrop, payloadVerdict_nil sha256 hL]
          simp only [show isIncomplete (.net .kMessageBodyIncomplete) = true from rfl, if_true]
          by_cases hR : R = []
          · subst hR
            rw [List.append_nil, writeLoop_nil, scan_of_le sha256 hHle, hh]
            have hP : payloadOf H = [] := by rw [payloadOf_eq_drop (by omega), hdrop]
            simp only [scanPayload, hL, hP, payloadVerdict_nil sha256 hL, if_false]
            refine ⟨.net .kMessageBodyIncomplete, rfl, ?_⟩
            rw [pending, if_neg (by omega)]
          · obtain ⟨r, rfl⟩ : ∃ r, rounds = r + 1 := ⟨rounds - 1, by have := hrest hR; omega⟩
            exact writeLoop_run_body sha256 r _ hHle hh (by omega) hR

variable (version magic C) in
theorem write_pending (hD : D ≠ []) : (write sha256 D).run (pending version magic C) =
    (writeLoop sha256 (D.length + 1) (.ok ()) D).run (pending version magic C) := by
  have hempty : D.isEmpty = false := by simpa using hD
  have hcomplete : (pending version magic C).isComplete = false := by
    unfold pending
    split_ifs <;> rfl
  simp [write, hempty, hcomplete]

variable (version magic) in
/-- **One call of `write`** on a message that waits for more answers as `scan` does. -/
theorem write_run (hC : scan sha256 version magic C = .more) (hD : D ≠ []) :
    Answers version magic (C ++ D) (scan sha256 version magic (C ++ D))
      ((write sha256 D).run (pending version magic C)) := by
  rw [write_pending sha256 version magic C hD, pending]
  split_ifs with hlen
  · exact writeLoop_run_header sha256 _ hlen hD le_rfl
  · have hC24 : kMessageHeaderLength ≤ C.length := by omega
    obtain ⟨hh, -, hL⟩ := scan_more_of_le sha256 hC24 hC
    obtain ⟨r, hr⟩ : ∃ r, D.length = r + 1 := ⟨D.length - 1, by have := List.length_pos_of_ne_nil hD; omega⟩
    rw [hr]
    exact writeLoop_run_body sha256 r _ hC24 hh hL hD

/-- One call of `write` as a step of a machine fed in pieces. There is no step when the call does not
return, or when it asks for more without having taken all its input. -/
def writeStep (m : Message) (input : Bytes) : Option (Reply UInt8 Message Error) :=
  match (write sha256 input).run m with
  | .ok (.ok _, rest) m' => some (.done m' rest)
  | .ok (.error e, rest) m' =>
    if isIncomplete e then (if rest = [] then some (.more m') else none) else some (.fail e m' rest)
  | .error _ _ => none
  | .fault _ _ => none

variable (version magic) in
theorem write_follows : Follows (scan sha256 version magic) (pending version magic)
    (validated version magic true) (writeStep sha256) where
  more := by
    intro C D hC hD hs
    have h := write_run sha256 version magic hC hD
    rw [hs] at h
    obtain ⟨e, he, hrun⟩ := h
    simp [writeStep, hrun, he]
  fail := by
    intro C D e hC hD hs
    have h := write_run sha256 version magic hC hD
    rw [hs] at h
    obtain ⟨he, m, rest, hrun⟩ := h
    exact ⟨m, rest, by simp [writeStep, hrun, he]⟩
  done := by
    intro C D n hC hD hs
    have h := write_run sha256 version magic hC hD
    rw [hs] at h
    simp only [Answers] at h
    simp [writeStep, h]

/-- The verdicts of two runs on the bytes `B` are the same. When it is completion, both hold the same
message, made of the first 24 + `payload_length` bytes, and have left the bytes after it. -/
def SameVerdict (B : Bytes) : Reply UInt8 Message Error → Reply UInt8 Message Error → Prop
  | .more _, .more _ => True
  | .fail _ _ _, .fail _ _ _ => True
  | .done m rest, .done m' rest' =>
    kMessageHeaderLength + m.header.payloadLength ≤ B.length ∧
      m.serStream.buffer = B.take (kMessageHeaderLength + m.header.payloadLength) ∧
      rest = B.drop (kMessageHeaderLength + m.header.payloadLength) ∧ m' = m ∧ rest' = rest
  | _, _ => False

theorem scan_done {B : Bytes} {n : Nat} (hs : scan sha256 version magic B = .done n) :
    n = kMessageHeaderLength + (readHeader (B.take n)).payloadLength ∧ n ≤ B.length := by
  have hB : kMessageHeaderLength ≤ B.length := le_of_scan sha256 (by rw [hs]; simp)
  have hn := ((scan_stable sha256).done hs).1
  rw [scan_of_le sha256 hB] at hs
  cases hh : checkHeader version magic B with
  | error e => simp [hh] at hs
  | ok =>
      rw [hh] at hs
      have hlen := (scanPayload_done sha256 hs).1
      have hhead : readHeader (B.take n) = readHeader B := by
        conv_rhs => rw [← List.take_append_drop n B]
        rw [readHeader_append (by rw [List.length_take]; omega)]
      exact ⟨by rw [hhead]; exact hlen, hn⟩

/-- **Framing does not depend on how the bytes arrive.** -/
theorem write_chunks (version : Int) (magic : Octets 4) (chunks : List Bytes) (hne : ∀ c ∈ chunks, c ≠ []) :
    ∃ whole parts, writeStep sha256 (new version magic) chunks.flatten = some whole ∧
      feed (writeStep sha256) (new version magic) chunks = some parts ∧
      SameVerdict chunks.flatten whole parts := by
  have hnil : scan sha256 version magic [] = .more := rfl
  have hfollow := write_follows sha256 version magic
  have hparts := hfollow.feed_pending (scan_stable sha256) chunks [] hnil hne
  rw [List.nil_append] at hparts
  by_cases hB : chunks.flatten = []
  · rw [hB] at hparts ⊢
    exact ⟨_, _, rfl, hparts, trivial⟩
  · cases hs : scan sha256 version magic chunks.flatten with
    | more =>
        rw [hs] at hparts
        exact ⟨_, _, hfollow.more hnil hB hs, hparts, trivial⟩
    | fail e =>
        rw [hs] at hparts
        obtain ⟨e', m', rest', hparts⟩ := hparts
        obtain ⟨m, rest, hwhole⟩ := hfollow.fail hnil hB hs
        exact ⟨_, _, hwhole, hparts, trivial⟩
    | done n =>
        rw [hs] at hparts
        obtain ⟨hn, hle⟩ := scan_done sha256 hs
        refine ⟨_, _, hfollow.done hnil hB hs, hparts, ?_⟩
        have hm : (validated version magic true (chunks.flatten.take n)).header.payloadLength =
            (readHeader (chunks.flatten.take n)).payloadLength := rfl
        refine ⟨?_, ?_, ?_, rfl, rfl⟩
        all_goals rw [List.nil_append, hm, ← hn]
        · exact hle
        · rfl

end

def verAckBytes : Bytes :=
  [0x63, 0x61, 0x73, 0x68] ++ (getCommandFromMessageType .kVerAck).val ++ [0, 0, 0, 0] ++
    [0x5d, 0xf6, 0xe0, 0xe2]

theorem write_chunks_verAck : (∀ c ∈ [verAckBytes.take 7, verAckBytes.drop 7], c ≠ []) ∧
    ∃ whole parts, writeStep (fun _ => kEmptyHash) (new 170002 ⟨[0x63, 0x61, 0x73, 0x68], rfl⟩)
        [verAckBytes.take 7, verAckBytes.drop 7].flatten = some whole ∧
      feed (writeStep fun _ => kEmptyHash) (new 170002 ⟨[0x63, 0x61, 0x73, 0x68], rfl⟩)
        [verAckBytes.take 7, verAckBytes.drop 7] = some parts ∧
      SameVerdict [verAckBytes.take 7, verAckBytes.drop 7].flatten whole parts :=
  ⟨by decide, write_chunks (fun _ => kEmptyHash) 170002 ⟨[0x63, 0x61, 0x73, 0x68], rfl⟩ _ (by decide)⟩

end Message

end Znode.Net
