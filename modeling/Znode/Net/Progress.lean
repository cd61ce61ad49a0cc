import Mathlib
import Znode.Net.Framing

/-!
# Progress of `write`

* `loopBody` : one turn of the loop in `write`; `Round` : a turn after which the loop goes on;
* `Waiting` : the messages that calls of `write` lead to as long as none of them completes or rejects the message;
* `round_pending` : a turn takes at least one byte, and leaves a message that waits for more;
* `write_progress` : the loop is entered at most once for each byte of the input, and a whole payload is never said
  to be incomplete.
-/

namespace Znode.Net.Message
open Znode.Lib Znode.Core

section
variable (sha256 : Bytes → Octets 32)

/-- A turn of the loop: the bytes that are lacking go to the stream, which is validated. -/
def loopBody (input : Bytes) : Msg Unit := do
  let bytesToRead := (← get).bytesToRead input.length
  onStream (Core.write (input.take bytesToRead))
  validate sha256

/-- A turn after which the loop goes on, with the rest of the input. -/
def Round (m : Message) (input : Bytes) (m' : Message) (input' : Bytes) : Prop :=
  input ≠ [] ∧ input' = input.drop (m.bytesToRead input.length) ∧
    ∃ e, isIncomplete e ∧ (loopBody sha256 input).run m = .error e m'

/-- `k` turns after which the loop goes on. -/
inductive Rounds (m : Message) (input : Bytes) : Nat → Message → Bytes → Prop where
  | start : Rounds m input 0 m input
  | next {k : Nat} {m₁ m' : Message} {input₁ input' : Bytes} :
      Rounds m input k m₁ input₁ → Round sha256 m₁ input₁ m' input' → Rounds m input (k + 1) m' input'

/-- The messages that calls of `write` lead to as long as they ask for more. -/
inductive Waiting (version : Int) (magic : Octets 4) : Message → Prop where
  | new : Waiting version magic (new version magic)
  | write {m m' : Message} {input rest : Bytes} {e : Error} :
      Waiting version magic m → (write sha256 input).run m = .ok (.error e, rest) m' → isIncomplete e →
        Waiting version magic m'

variable {sha256} {version : Int} {magic : Octets 4} {C D : Bytes} {m m' : Message} {input input' : Bytes}

theorem writeLoop_round (h : Round sha256 m input m' input') (rounds : Nat) (result : Except Error Unit) :
    ∃ e, isIncomplete e ∧
      (writeLoop sha256 (rounds + 1) result input).run m = (writeLoop sha256 rounds (.error e) input').run m' := by
  obtain ⟨hne, rfl, e, he, hbody⟩ := h
  have hempty : input.isEmpty = false := by simpa using hne
  refine ⟨e, he, ?_⟩
  simp only [loopBody, Act.run_bind, Act.run_get] at hbody
  have hw := onStream_write_run (input.take (m.bytesToRead input.length)) m
  split_ifs at hw
  · -- a full stream ends the loop
    rw [hw] at hbody
    cases hbody
    cases he
  · rw [hw] at hbody
    simp only at hbody
    simp [writeLoop, hempty, hw, hbody, he]

theorem loopBody_run (hfit : m.serStream.buffer.length + m.bytesToRead input.length ≤ kMaxStreamSize) :
    (loopBody sha256 input).run m = (validate sha256).run (m.extend (input.take (m.bytesToRead input.length))) := by
  have hw := onStream_write_run (input.take (m.bytesToRead input.length)) m
  rw [if_neg (by rw [List.length_take]; omega)] at hw
  simp [loopBody, hw]

theorem bytesToRead_pending (hC : scan sha256 version magic C = .more) : ∃ lack, 0 < lack ∧
    C.length + lack ≤ kMaxStreamSize ∧ ∀ n, (pending version magic C).bytesToRead n = min lack n := by
  have hfit := kMaxProtocolMessageLength_fits
  have hmax : kMessageHeaderLength ≤ kMaxProtocolMessageLength := by decide
  unfold pending
  split_ifs with hlen
  · exact ⟨kMessageHeaderLength - C.length, by omega, by omega, bytesToRead_unvalidated version magic {} hlen⟩
  · obtain ⟨-, hmax', hL⟩ := scan_more_of_le sha256 (by omega) hC
    exact ⟨kMessageHeaderLength + (readHeader C).payloadLength - C.length, by omega, by omega,
      bytesToRead_validated version magic (by omega) hL.le⟩

theorem answers_incomplete {v : Verdict Error} {e : Error} {rest : Bytes} (he : isIncomplete e)
    (h : Answers version magic C v (.ok (.error e, rest) m')) : v = .more ∧ m' = pending version magic C := by
  cases v with
  | more =>
      obtain ⟨e', -, hrun⟩ := h
      cases hrun
      exact ⟨rfl, rfl⟩
  | fail e' =>
      obtain ⟨he', m₁, rest', hrun⟩ := h
      cases hrun
      rw [he'] at he
      cases he
  | done n => cases h

/-- **One turn** takes at least one byte, and leaves a message that waits for more. -/
theorem round_pending (hC : scan sha256 version magic C = .more)
    (h : Round sha256 (pending version magic C) D m' input') :
    ∃ n, n = (pending version magic C).bytesToRead D.length ∧ 0 < n ∧ n ≤ D.length ∧ input' = D.drop n ∧
      m' = pending version magic (C ++ D.take n) ∧ scan sha256 version magic (C ++ D.take n) = .more := by
  obtain ⟨hne, rfl, e, he, hbody⟩ := h
  obtain ⟨lack, hlack, hfit, hread⟩ := bytesToRead_pending hC
  have hD := List.length_pos_of_ne_nil hne
  set n := (pending version magic C).bytesToRead D.length with hn
  rw [hread] at hn
  refine ⟨n, rfl, by omega, by omega, rfl, ?_⟩
  -- the same turn is the whole of a call of `write` with these bytes only
  have hlen : (D.take n).length = n := List.length_take_of_le (by omega)
  have hne' : D.take n ≠ [] := by
    rw [← List.length_pos_iff_ne_nil, hlen]
    omega
  have hround : Round sha256 (pending version magic C) (D.take n) m' [] := by
    have htake : (D.take n).take ((pending version magic C).bytesToRead (D.take n).length) = D.take n := by
      rw [hread, hlen, List.take_of_length_le (by omega)]
    refine ⟨hne', ?_, e, he, ?_⟩
    · rw [hread, hlen, List.drop_eq_nil_of_le (by omega)]
    · rw [← hbody]
      simp only [loopBody, Act.run_bind, Act.run_get, htake]
      rfl
  obtain ⟨e', he', hloop⟩ := writeLoop_round hround n (.ok ())
  have hcall := write_run sha256 version magic hC hne'
  rw [write_pending sha256 version magic C hne', hlen, hloop, ← Nat.succ_pred_eq_of_pos (by omega : 0 < n),
    writeLoop_nil, Nat.succ_pred_eq_of_pos (by omega)] at hcall
  obtain ⟨hscan, hm'⟩ := answers_incomplete he' hcall
  exact ⟨hm', hscan⟩

/-- **All turns**: each took at least one byte. -/
theorem rounds_pending {k : Nat} (hC : scan sha256 version magic C = .more)
    (h : Rounds sha256 (pending version magic C) D k m' input') :
    k + input'.length ≤ D.length ∧ ∃ C', m' = pending version magic C' ∧ scan sha256 version magic C' = .more := by
  induction h with
  | start => exact ⟨by omega, C, rfl, hC⟩
  | next _ hround ih =>
      obtain ⟨hk, C₁, rfl, hC₁⟩ := ih
      obtain ⟨n, -, hpos, hle, rfl, rfl, hscan⟩ := round_pending hC₁ hround
      refine ⟨?_, _, rfl, hscan⟩
      rw [List.length_drop]
      omega

theorem Waiting.pending (h : Waiting sha256 version magic m) :
    ∃ C, m = Message.pending version magic C ∧ scan sha256 version magic C = .more := by
  induction h with
  | new => exact ⟨[], rfl, rfl⟩
  | @write m m' input rest e _ hrun he ih =>
      obtain ⟨C, rfl, hC⟩ := ih
      by_cases hne : input = []
      · -- nothing was given, and nothing happened
        subst hne
        simp only [Message.write, List.isEmpty_nil, Act.run_bind, Act.run_get, if_true, Act.run_ite, Act.run_pure]
          at hrun
        split_ifs at hrun <;> cases hrun <;> exact ⟨C, rfl, hC⟩
      · have hcall := write_run sha256 version magic hC hne
        rw [hrun] at hcall
        obtain ⟨hscan, rfl⟩ := answers_incomplete he hcall
        exact ⟨_, rfl, hscan⟩

/-- **A whole payload is not incomplete.** -/
theorem body_incomplete (hC : scan sha256 version magic C = .more) (hD : D ≠ [])
    (hbody : (loopBody sha256 D).run (Message.pending version magic C) = .error (.net .kMessageBodyIncomplete) m') :
    m'.headerValidated = true ∧ m'.serStream.avail < m'.header.payloadLength := by
  obtain ⟨n, hn, -, hle, -, rfl, hscan⟩ := round_pending hC ⟨hD, rfl, _, rfl, hbody⟩
  obtain ⟨lack, -, hfit, hread⟩ := bytesToRead_pending hC
  have hlen : (C ++ D.take n).length = C.length + n := by
    rw [List.length_append, List.length_take_of_le hle]
  by_cases hshort : (C ++ D.take n).length < kMessageHeaderLength
  · -- before the header is there, it is the header that is incomplete
    have hC24 : C.length < kMessageHeaderLength := by omega
    have hext : (Message.pending version magic C).extend (D.take n) = unvalidated version magic {} (C ++ D.take n) := by
      rw [Message.pending, if_pos hC24]
      rfl
    have hbuf : (Message.pending version magic C).serStream.buffer.length = C.length := by
      rw [Message.pending, if_pos hC24]
      rfl
    rw [loopBody_run (by rw [hbuf, hread]; omega), ← hn, hext, validate_run_short sha256 _ hshort] at hbody
    cases hbody
  · have hle24 : kMessageHeaderLength ≤ (C ++ D.take n).length := by omega
    obtain ⟨-, -, hL⟩ := scan_more_of_le sha256 hle24 hscan
    rw [Message.pending, if_neg hshort]
    refine ⟨rfl, ?_⟩
    have havail : (validated version magic false (C ++ D.take n)).serStream.avail =
        (C ++ D.take n).length - kMessageHeaderLength := SDataStream.avail_of_le hle24
    rw [havail]
    change _ < (readHeader (C ++ D.take n)).payloadLength
    omega

/-- **Progress of `write`.** Whenever the loop is entered, be it for the `k + 1`-st time, it takes at least one byte,
so that it is entered at most once for each byte of the input and the call returns. A payload said to be incomplete
is shorter than its header says. -/
theorem write_progress (hm : Waiting sha256 version magic m) (hne : input ≠ []) :
    (∀ k m' input', Rounds sha256 m input k m' input' → input' ≠ [] →
      k < input.length ∧ 0 < m'.bytesToRead input'.length ∧ m'.bytesToRead input'.length ≤ input'.length ∧
        ∀ m'', (loopBody sha256 input').run m' = .error (.net .kMessageBodyIncomplete) m'' →
          m''.headerValidated = true ∧ m''.serStream.avail < m''.header.payloadLength) ∧
      ∃ r m', (write sha256 input).run m = .ok r m' := by
  obtain ⟨C, rfl, hC⟩ := hm.pending
  constructor
  · intro k m' input' hrounds hne'
    obtain ⟨hk, C', rfl, hC'⟩ := rounds_pending hC hrounds
    obtain ⟨lack, hlack, -, hread⟩ := bytesToRead_pending hC'
    have hlen := List.length_pos_of_ne_nil hne'
    refine ⟨by omega, by rw [hread]; omega, by rw [hread]; omega, ?_⟩
    exact fun m'' hbody => body_incomplete hC' hne' hbody
  · have hcall := write_run sha256 version magic hC hne
    cases hs : scan sha256 version magic (C ++ input) with
    | more =>
        rw [hs] at hcall
        obtain ⟨e, -, hrun⟩ := hcall
        exact ⟨_, _, hrun⟩
    | fail e =>
        rw [hs] at hcall
        obtain ⟨-, m', rest, hrun⟩ := hcall
        exact ⟨_, _, hrun⟩
    | done n =>
        rw [hs] at hcall
        exact ⟨_, _, hcall⟩

end

/-- Some bytes of a `verack`, and then the rest. -/
theorem write_progress_verAck : ∃ rest m,
    (write (fun _ => kEmptyHash) (verAckBytes.take 10)).run (new 170002 ⟨[0x63, 0x61, 0x73, 0x68], rfl⟩) =
        .ok (.error (.net .kMessageHeaderIncomplete), rest) m ∧
      m.serStream.buffer.length = 10 ∧
        ∃ r m', (write (fun _ => kEmptyHash) (verAckBytes.drop 10)).run m = .ok r m' := by
  refine ⟨_, _, rfl, rfl, ?_⟩
  have hwaiting : Waiting (fun _ => kEmptyHash) 170002 ⟨[0x63, 0x61, 0x73, 0x68], rfl⟩ _ :=
    .write .new (rfl : (write _ (verAckBytes.take 10)).run _ = .ok (.error (.net .kMessageHeaderIncomplete), _) _)
      (by decide)
  exact (write_progress hwaiting (by decide)).2

end Znode.Net.Message
