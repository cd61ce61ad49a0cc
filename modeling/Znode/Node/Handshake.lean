import Mathlib
import Znode.Net.Protocol

/-!
# The protocol handshake

* `validateMessageForProtocolHandshake` : the check every message passes through, in both directions, with
  the status as the number the source keeps;
* `Session` : a run of the check over a sequence of messages, and the messages it accepted;
* `handshake_accepted_once` : the status is the set of the handshake messages accepted, none of them is
  accepted twice, and completion is posted once;
* `handshake_order_iff` : the sequences on which the check keeps the order of the handshake. It does not on
  all of them: the last guard compares the status as a number, and a `verack` makes it large enough.
-/

namespace Znode.Node
open Znode.Core Znode.Net

inductive DataDirectionMode where
  | kOutbound
  | kInbound
deriving DecidableEq, Repr

namespace DataDirectionMode

def toNat : DataDirectionMode → Nat
  | kOutbound => 0
  | kInbound => 1

def opposite : DataDirectionMode → DataDirectionMode
  | kOutbound => kInbound
  | kInbound => kOutbound

end DataDirectionMode

/-! ## The check -/

namespace ProtocolHandShakeStatus

def kNotInitiated : Nat := 0
def kVersionSent : Nat := 1 <<< DataDirectionMode.kOutbound.toNat
def kVersionReceived : Nat := 1 <<< DataDirectionMode.kInbound.toNat
def kVerAckSent : Nat := 4 <<< DataDirectionMode.kOutbound.toNat
def kVerAckReceived : Nat := 4 <<< DataDirectionMode.kInbound.toNat
def kVersionExchanged : Nat := kVersionSent ||| kVersionReceived
def kVerAckExchanged : Nat := kVerAckSent ||| kVerAckReceived
def kCompleted : Nat := kVersionExchanged ||| kVerAckExchanged

end ProtocolHandShakeStatus

open ProtocolHandShakeStatus

/-- The handshake's part of a node. -/
structure Handshake where
  /-- `protocol_handshake_status_`. -/
  status : Nat := kNotInitiated
  /-- How often `on_handshake_completed` was posted. -/
  posted : Nat := 0
deriving DecidableEq, Repr

/-- The bit of a handshake message, zero for every other message. -/
def newStatusFlag (direction : DataDirectionMode) : MessageType → Nat
  | .kVersion => 1 <<< direction.toNat
  | .kVerAck => 4 <<< direction.toNat
  | _ => 0

/-- Sets a bit of the status, and posts the completion when it was the last one. -/
def Handshake.setFlag (h : Handshake) (flag : Nat) : Handshake where
  status := h.status ||| flag
  posted := if h.status ||| flag = kCompleted then h.posted + 1 else h.posted

def validateMessageForProtocolHandshake (direction : DataDirectionMode) (type : MessageType) :
    EStateM Error Handshake Unit := do
  let h ← get
  if h.status = kNotInitiated ∧ type ≠ .kVersion then throw (.net .kInvalidProtocolHandShake)
  if h.status = kCompleted then
    if type = .kVersion ∨ type = .kVerAck then throw (.net .kDuplicateProtocolHandShake)
    return
  let flag := newStatusFlag direction type
  if (type = .kVersion ∨ type = .kVerAck) ∧ h.status &&& flag = flag then
    throw (.net .kDuplicateProtocolHandShake)
  if flag ≠ 0 then
    set (h.setFlag flag)
    return
  if h.status < kVersionExchanged then throw (.net .kInvalidProtocolHandShake)

/-! ## Sessions -/

structure Event where
  direction : DataDirectionMode
  type : MessageType
deriving DecidableEq, Repr

/-- The messages of the handshake. -/
def Event.IsHandshake (e : Event) : Prop := e.type = .kVersion ∨ e.type = .kVerAck

instance (e : Event) : Decidable e.IsHandshake := inferInstanceAs (Decidable (_ ∨ _))

/-- The check's state, and the messages it has accepted. -/
structure Session where
  handshake : Handshake := {}
  accepted : List Event := []
deriving DecidableEq, Repr

namespace Session

def step (s : Session) (e : Event) : Session :=
  match (validateMessageForProtocolHandshake e.direction e.type).run s.handshake with
  | .ok _ h => { handshake := h, accepted := s.accepted ++ [e] }
  | .error _ h => { s with handshake := h }

def accepts (s : Session) (e : Event) : Bool :=
  match (validateMessageForProtocolHandshake e.direction e.type).run s.handshake with
  | .ok _ _ => true
  | .error _ _ => false

/-- The session after a sequence of messages. -/
def run (events : List Event) : Session := events.foldl step {}

@[simp] theorem run_nil : run [] = {} := rfl

@[simp] theorem run_concat (events : List Event) (e : Event) : run (events ++ [e]) = (run events).step e := by
  simp [run]

end Session

/-! ## The status as a set -/

def handshakeMessages : List Event :=
  [⟨.kOutbound, .kVersion⟩, ⟨.kInbound, .kVersion⟩, ⟨.kOutbound, .kVerAck⟩, ⟨.kInbound, .kVerAck⟩]

def Event.flag (e : Event) : Nat := newStatusFlag e.direction e.type

/-- The bits of the messages in `accepted`, and no others. -/
def statusOf (accepted : List Event) : Nat := accepted.foldl (fun status e => status ||| e.flag) kNotInitiated

theorem mem_handshakeMessages_iff (e : Event) : e ∈ handshakeMessages ↔ e.IsHandshake := by
  constructor
  · exact (by decide : ∀ e ∈ handshakeMessages, e.IsHandshake) e
  · intro he
    obtain ⟨d, t⟩ := e
    rcases he with rfl | rfl <;> cases d <;> decide

theorem Event.flag_eq_zero {e : Event} (he : ¬ e.IsHandshake) : e.flag = 0 := by
  unfold flag newStatusFlag
  split
  case h_1 h => exact absurd (Or.inl h) he
  case h_2 h => exact absurd (Or.inr h) he
  case h_3 => rfl

theorem Event.flag_of_isHandshake {P : Event → Prop} (h : ∀ e ∈ handshakeMessages, P e) {e : Event}
    (he : e.IsHandshake) : P e := h e ((mem_handshakeMessages_iff e).mpr he)

theorem Event.flag_ne_zero {e : Event} (he : e.IsHandshake) : e.flag ≠ 0 :=
  Event.flag_of_isHandshake (P := fun e => e.flag ≠ 0) (by decide) he

theorem Event.flag_le (e : Event) : e.flag ≤ kCompleted := by
  by_cases he : e.IsHandshake
  · exact Event.flag_of_isHandshake (P := fun e => e.flag ≤ kCompleted) (by decide) he
  · rw [Event.flag_eq_zero he]
    exact Nat.zero_le _

@[simp] theorem statusOf_nil : statusOf [] = kNotInitiated := rfl

@[simp] theorem statusOf_concat (l : List Event) (e : Event) : statusOf (l ++ [e]) = statusOf l ||| e.flag := by
  simp [statusOf]

theorem statusOf_le (l : List Event) : statusOf l ≤ kCompleted := by
  induction l using List.reverseRecOn with
  | nil => exact Nat.zero_le _
  | append_singleton l e ih =>
      rw [statusOf_concat]
      exact Nat.le_of_lt_succ (Nat.or_lt_two_pow (n := 4) (Nat.lt_succ_of_le ih) (Nat.lt_succ_of_le e.flag_le))

/-- The bit of a handshake message is set when the message was accepted. -/
theorem flag_set_iff (l : List Event) {e : Event} (he : e.IsHandshake) :
    statusOf l &&& e.flag = e.flag ↔ e ∈ l := by
  have hbit : ∀ e ∈ handshakeMessages, ∀ status ≤ kCompleted, ∀ m ∈ handshakeMessages,
      ((status ||| m.flag) &&& e.flag = e.flag ↔ status &&& e.flag = e.flag ∨ e = m) := by decide
  have he' := (mem_handshakeMessages_iff e).mpr he
  induction l using List.reverseRecOn with
  | nil => simpa [kNotInitiated] using (Event.flag_ne_zero he).symm
  | append_singleton l m ih =>
      rw [statusOf_concat, List.mem_append, List.mem_singleton]
      refine Iff.trans ?_ (or_congr_left ih)
      by_cases hm : m.IsHandshake
      · exact hbit e he' _ (statusOf_le l) m ((mem_handshakeMessages_iff m).mpr hm)
      · have hne : e ≠ m := fun h => hm (h ▸ he)
        rw [Event.flag_eq_zero hm, Nat.or_zero]
        simp [hne]

theorem statusOf_eq_zero_iff (l : List Event) :
    statusOf l = kNotInitiated ↔ ∀ e : Event, e.IsHandshake → e ∉ l := by
  have hnone : ∀ status ≤ kCompleted, (∀ e ∈ handshakeMessages, status &&& e.flag ≠ e.flag) →
      status = kNotInitiated := by decide
  constructor
  · intro h e he hmem
    rw [← flag_set_iff l he, h, kNotInitiated, Nat.zero_and] at hmem
    exact Event.flag_ne_zero he hmem.symm
  · intro h
    apply hnone _ (statusOf_le l)
    intro e he hset
    have he' := (mem_handshakeMessages_iff e).mp he
    exact h e he' ((flag_set_iff l he').mp hset)

/-! ## One step -/

/-- The check, with the bit of the message in hand. -/
theorem validate_run (h : Handshake) (e : Event) :
    (validateMessageForProtocolHandshake e.direction e.type).run h =
      if h.status = kNotInitiated ∧ e.type ≠ .kVersion then .error (.net .kInvalidProtocolHandShake) h
      else if h.status = kCompleted then
        if e.IsHandshake then .error (.net .kDuplicateProtocolHandShake) h else .ok () h
      else if e.IsHandshake ∧ h.status &&& e.flag = e.flag then .error (.net .kDuplicateProtocolHandShake) h
      else if e.IsHandshake then .ok () (h.setFlag e.flag)
      else if h.status < kVersionExchanged then .error (.net .kInvalidProtocolHandShake) h
      else .ok () h := by
  have hflag : e.flag ≠ 0 ↔ e.IsHandshake :=
    ⟨fun h => not_not.mp fun he => h (Event.flag_eq_zero he), Event.flag_ne_zero⟩
  unfold validateMessageForProtocolHandshake
  change EStateM.run (do
    let h ← get
    if h.status = kNotInitiated ∧ e.type ≠ .kVersion then throw (.net .kInvalidProtocolHandShake)
    if h.status = kCompleted then
      if e.IsHandshake then throw (.net .kDuplicateProtocolHandShake)
      return
    if e.IsHandshake ∧ h.status &&& e.flag = e.flag then throw (.net .kDuplicateProtocolHandShake)
    if e.flag ≠ 0 then
      set (h.setFlag e.flag)
      return
    if h.status < kVersionExchanged then throw (.net .kInvalidProtocolHandShake) : EStateM Error Handshake Unit) h = _
  simp only [hflag]
  simp only [EStateM.run_bind, EStateM.run_get]
  split_ifs <;> rfl

namespace Session
variable {s : Session} {e : Event}

theorem accepts_iff : s.accepts e = true ↔
    (e.type ≠ .kVersion → s.handshake.status ≠ kNotInitiated) ∧
    (e.IsHandshake → s.handshake.status &&& e.flag ≠ e.flag) ∧
    (¬ e.IsHandshake → kVersionExchanged ≤ s.handshake.status) := by
  have hall : e.IsHandshake → kCompleted &&& e.flag = e.flag :=
    Event.flag_of_isHandshake (P := fun e => kCompleted &&& e.flag = e.flag) (by decide)
  have hver : e.type = .kVersion → e.IsHandshake := Or.inl
  have h3 : kVersionExchanged ≤ kCompleted := by decide
  have h0 : kCompleted ≠ kNotInitiated := by decide
  unfold accepts
  rw [validate_run]
  by_cases he : e.IsHandshake
  · by_cases hc : s.handshake.status = kCompleted
    · simp [he, hc, h0, hall he]
    · simp only [he, hc, true_and, if_true, if_false, not_true, false_imp_iff, and_true, true_imp_iff]
      split_ifs with hstart hdup
      · simp [hstart.1, hstart.2]
      · simp [hdup]
      · simp only [hdup, ne_eq, not_false_eq_true, and_true, true_iff]
        exact fun hv h => hstart ⟨h, hv⟩
  · have hnv : e.type ≠ .kVersion := fun h => he (hver h)
    by_cases hc : s.handshake.status = kCompleted
    · simp [he, hc, h0, h3]
    · simp only [he, hc, hnv, ne_eq, not_false_eq_true, and_true, false_and, if_false, false_imp_iff, true_and,
        true_imp_iff]
      split_ifs with hstart hlow
      · simp [hstart]
      · simp [Nat.not_le.mpr hlow]
      · simp [hstart, Nat.not_lt.mp hlow]

theorem step_of_not_accepts (h : s.accepts e = false) : s.step e = s := by
  unfold accepts at h
  unfold step
  rw [validate_run] at h ⊢
  split_ifs at h ⊢ <;> rfl

theorem step_of_accepts (h : s.accepts e = true) : s.step e =
    { handshake := if e.IsHandshake then s.handshake.setFlag e.flag else s.handshake,
      accepted := s.accepted ++ [e] } := by
  unfold accepts at h
  unfold step
  rw [validate_run] at h ⊢
  split_ifs at h ⊢ <;> rfl

end Session

/-! ## The handshake messages are accepted once -/

/-- The handshake messages accepted so far, counted. -/
def handshakeCount (accepted : List Event) : Nat := accepted.countP fun e => decide e.IsHandshake

def bitCount (status : Nat) : Nat := (handshakeMessages.filter fun m => status &&& m.flag = m.flag).length

theorem bitCount_setFlag {status : Nat} (hle : status ≤ kCompleted) {e : Event} (he : e.IsHandshake)
    (hnew : status &&& e.flag ≠ e.flag) : bitCount (status ||| e.flag) = bitCount status + 1 := by
  have key : ∀ e ∈ handshakeMessages, ∀ status ≤ kCompleted, status &&& e.flag ≠ e.flag →
      bitCount (status ||| e.flag) = bitCount status + 1 := by decide
  exact key e ((mem_handshakeMessages_iff e).mpr he) status hle hnew

theorem bitCount_eq_four_iff {status : Nat} (hle : status ≤ kCompleted) :
    bitCount status = 4 ↔ status = kCompleted := by
  have key : ∀ status ≤ kCompleted, (bitCount status = 4 ↔ status = kCompleted) := by decide
  exact key status hle

namespace Session

/-- What every session keeps. -/
structure Invariant (s : Session) : Prop where
  status : s.handshake.status = statusOf s.accepted
  once : ∀ e : Event, e.IsHandshake → s.accepted.count e ≤ 1
  count : handshakeCount s.accepted = bitCount s.handshake.status
  posted : s.handshake.posted = if s.handshake.status = kCompleted then 1 else 0

theorem Invariant.status_le {s : Session} (h : s.Invariant) : s.handshake.status ≤ kCompleted :=
  h.status ▸ statusOf_le s.accepted

theorem Invariant.completed_iff {s : Session} (h : s.Invariant) :
    s.handshake.status = kCompleted ↔ handshakeCount s.accepted = 4 := by
  rw [h.count, bitCount_eq_four_iff h.status_le]

theorem Invariant.count_le {s : Session} (h : s.Invariant) : handshakeCount s.accepted ≤ 4 := by
  rw [h.count]
  exact List.length_filter_le _ _

theorem handshakeCount_step (s : Session) (e : Event) : handshakeCount (s.step e).accepted =
    handshakeCount s.accepted + if s.accepts e = true ∧ e.IsHandshake then 1 else 0 := by
  cases hacc : s.accepts e with
  | false => simp [step_of_not_accepts hacc]
  | true => simp [step_of_accepts hacc, handshakeCount, List.countP_append, List.countP_singleton]

theorem invariant_initial : Invariant {} where
  status := rfl
  once := by simp
  count := by decide
  posted := by decide

theorem Invariant.step {s : Session} (h : s.Invariant) (e : Event) : (s.step e).Invariant := by
  cases hacc : s.accepts e with
  | false =>
      rw [step_of_not_accepts hacc]
      exact h
  | true =>
      rw [step_of_accepts hacc]
      obtain ⟨-, hnew, -⟩ := accepts_iff.mp hacc
      by_cases he : e.IsHandshake
      · have hnotin : e ∉ s.accepted := by
          rw [← flag_set_iff s.accepted he, ← h.status]
          exact hnew he
        have hnc : s.handshake.status ≠ kCompleted := by
          intro hc
          apply hnew he
          rw [hc]
          exact Event.flag_of_isHandshake (P := fun e => kCompleted &&& e.flag = e.flag) (by decide) he
        simp only [if_pos he]
        refine ⟨?_, ?_, ?_, ?_⟩
        · rw [statusOf_concat, ← h.status]
          rfl
        · intro m hm
          rw [List.count_append, List.count_singleton]
          by_cases hme : e = m
          · subst hme
            rw [List.count_eq_zero_of_not_mem hnotin]
            simp
          · simpa [hme] using h.once m hm
        · simp only [handshakeCount, List.countP_append, List.countP_singleton, he, decide_true, if_true]
          rw [← handshakeCount, h.count]
          exact (bitCount_setFlag h.status_le he (hnew he)).symm
        · simp only [Handshake.setFlag, h.posted, if_neg hnc, Nat.zero_add]
      · simp only [if_neg he]
        refine ⟨?_, ?_, ?_, h.posted⟩
        · rw [statusOf_concat, Event.flag_eq_zero he, Nat.or_zero]
          exact h.status
        · intro m hm
          have hme : e ≠ m := fun heq => he (heq ▸ hm)
          simpa [List.count_append, List.count_singleton, hme] using h.once m hm
        · simpa [handshakeCount, List.countP_append, he] using h.count

theorem invariant_run (events : List Event) : (run events).Invariant := by
  induction events using List.reverseRecOn with
  | nil => exact invariant_initial
  | append_singleton events e ih =>
      rw [run_concat]
      exact ih.step e

end Session

/-- **Handshake uniqueness.** After any sequence of messages the status holds the bits of the messages
accepted, no handshake message was accepted twice, and completion was posted once if all four were
accepted and not at all otherwise. A refused message changes nothing, and the message that posts the
completion is the one that is accepted as the fourth of the handshake. -/
theorem handshake_accepted_once (events : List Event) :
    let s := Session.run events
    (s.handshake.status = statusOf s.accepted ∧
      ∀ e : Event, e.IsHandshake → (s.handshake.status &&& e.flag = e.flag ↔ e ∈ s.accepted)) ∧
    (∀ e : Event, e.IsHandshake → s.accepted.count e ≤ 1) ∧
    (∀ e : Event, s.accepts e = false → (s.step e).handshake = s.handshake) ∧
    (∀ e : Event, (s.step e).handshake.posted = s.handshake.posted +
      if s.accepts e = true ∧ e.IsHandshake ∧ handshakeCount s.accepted = 3 then 1 else 0) ∧
    s.handshake.posted = if handshakeCount s.accepted = 4 then 1 else 0 := by
  intro s
  have hinv : s.Invariant := Session.invariant_run events
  refine ⟨⟨hinv.status, fun e he => ?_⟩, hinv.once, fun e he => ?_, fun e => ?_, ?_⟩
  · rw [hinv.status]
    exact flag_set_iff s.accepted he
  · rw [Session.step_of_not_accepts he]
  · have hcount := Session.handshakeCount_step s e
    have hle := (hinv.step e).count_le
    rw [(hinv.step e).posted, hinv.posted]
    simp only [(hinv.step e).completed_iff, hinv.completed_iff]
    by_cases hfourth : s.accepts e = true ∧ e.IsHandshake
    · rw [if_pos hfourth] at hcount
      simp only [hfourth.1, hfourth.2, true_and]
      split_ifs <;> omega
    · rw [if_neg hfourth] at hcount
      have hnot : ¬ (s.accepts e = true ∧ e.IsHandshake ∧ handshakeCount s.accepted = 3) :=
        fun h => hfourth ⟨h.1, h.2.1⟩
      rw [if_neg hnot, hcount]
      rfl
  · rw [hinv.posted]
    simp only [hinv.completed_iff]

/-! ## The order of the handshake -/

/-- A `version` message was seen. -/
def Begun (before : List Event) : Prop := ∃ d, (⟨d, .kVersion⟩ : Event) ∈ before

/-- A `verack` in direction `d` was seen after some `version` message. -/
def Acknowledged (before : List Event) (d : DataDirectionMode) : Prop :=
  ∃ q r, before = q ++ ⟨d, .kVerAck⟩ :: r ∧ Begun q

theorem Acknowledged.begun {before : List Event} {d : DataDirectionMode} (h : Acknowledged before d) :
    Begun before := by
  obtain ⟨q, r, rfl, d', hd'⟩ := h
  exact ⟨d', List.mem_append_left _ hd'⟩

theorem acknowledged_concat (before : List Event) (e : Event) (d : DataDirectionMode) :
    Acknowledged (before ++ [e]) d ↔ Acknowledged before d ∨ e = ⟨d, .kVerAck⟩ ∧ Begun before := by
  constructor
  · intro h
    obtain ⟨q, r, heq, hq⟩ := h
    rcases List.eq_nil_or_concat r with rfl | ⟨r', e', rfl⟩
    · obtain ⟨rfl, he⟩ := List.append_inj' heq rfl
      exact Or.inr ⟨by simpa using he, hq⟩
    · have heq' : before ++ [e] = (q ++ ⟨d, .kVerAck⟩ :: r') ++ [e'] := by simpa using heq
      obtain ⟨rfl, -⟩ := List.append_inj' heq' rfl
      exact Or.inl ⟨q, r', rfl, hq⟩
  · intro h
    rcases h with ⟨q, r, rfl, hq⟩ | ⟨rfl, hbegun⟩
    · exact ⟨q, r ++ [e], by simp, hq⟩
    · exact ⟨before, [], rfl, hbegun⟩

namespace Session

theorem mem_accepted_step {s : Session} (e m : Event) :
    m ∈ (s.step e).accepted ↔ m ∈ s.accepted ∨ m = e ∧ s.accepts e = true := by
  cases hacc : s.accepts e with
  | false => simp [step_of_not_accepts hacc]
  | true => simp [step_of_accepts hacc]

/-- A `version` message is refused only as a duplicate. -/
theorem version_mem_accepted_iff (before : List Event) (d : DataDirectionMode) :
    (⟨d, .kVersion⟩ : Event) ∈ (run before).accepted ↔ ⟨d, .kVersion⟩ ∈ before := by
  induction before using List.reverseRecOn with
  | nil => simp
  | append_singleton before e ih =>
      rw [run_concat, mem_accepted_step, List.mem_append, List.mem_singleton]
      constructor
      · intro h
        rcases h with h | ⟨h, -⟩
        · exact Or.inl (ih.mp h)
        · exact Or.inr h
      · intro h
        rcases h with h | rfl
        · exact Or.inl (ih.mpr h)
        · by_cases hmem : (⟨d, .kVersion⟩ : Event) ∈ (run before).accepted
          · exact Or.inl hmem
          · refine Or.inr ⟨rfl, accepts_iff.mpr ⟨fun h => absurd rfl h, fun he => ?_, fun he => ?_⟩⟩
            · rw [(invariant_run before).status, ne_eq, flag_set_iff _ he]
              exact hmem
            · exact absurd (Or.inl rfl) he

/-- The status is left at zero exactly until the first `version`, if every accepted `verack` came after it. -/
theorem status_ne_zero_iff {before : List Event}
    (hack : ∀ d, (⟨d, .kVerAck⟩ : Event) ∈ (run before).accepted → Acknowledged before d) :
    (run before).handshake.status ≠ kNotInitiated ↔ Begun before := by
  rw [(invariant_run before).status, ne_eq, statusOf_eq_zero_iff]
  constructor
  · intro h
    push Not at h
    obtain ⟨⟨d, t⟩, he, hmem⟩ := h
    rcases he with rfl | rfl
    · exact ⟨d, (version_mem_accepted_iff before d).mp hmem⟩
    · exact (hack d hmem).begun
  · intro h hnone
    obtain ⟨d, hd⟩ := h
    exact hnone _ (Or.inl rfl) ((version_mem_accepted_iff before d).mpr hd)

/-- A `verack` is accepted as soon as any `version` was, whatever its direction. -/
theorem verAck_mem_accepted_iff (before : List Event) (d : DataDirectionMode) :
    (⟨d, .kVerAck⟩ : Event) ∈ (run before).accepted ↔ Acknowledged before d := by
  induction before using List.reverseRecOn generalizing d with
  | nil => simp [Acknowledged]
  | append_singleton before e ih =>
      have hstatus := status_ne_zero_iff fun d => (ih d).mp
      rw [run_concat, mem_accepted_step, acknowledged_concat, ← ih d]
      constructor
      · intro h
        rcases h with h | ⟨rfl, hacc⟩
        · exact Or.inl h
        · exact Or.inr ⟨rfl, hstatus.mp ((accepts_iff.mp hacc).1 (by simp))⟩
      · intro h
        rcases h with h | ⟨rfl, hbegun⟩
        · exact Or.inl h
        · by_cases hmem : (⟨d, .kVerAck⟩ : Event) ∈ (run before).accepted
          · exact Or.inl hmem
          · refine Or.inr ⟨rfl, accepts_iff.mpr ⟨fun _ => hstatus.mpr hbegun, fun he => ?_, fun he => ?_⟩⟩
            · rw [(invariant_run before).status, ne_eq, flag_set_iff _ he]
              exact hmem
            · exact absurd (Or.inr rfl) he

theorem begun_iff (before : List Event) : (run before).handshake.status ≠ kNotInitiated ↔ Begun before :=
  status_ne_zero_iff fun d => (verAck_mem_accepted_iff before d).mp

/-- What the comparison of the status as a number lets through. -/
theorem versionExchanged_le_iff (before : List Event) : kVersionExchanged ≤ (run before).handshake.status ↔
    (∀ d, (⟨d, .kVersion⟩ : Event) ∈ before) ∨ ∃ d, Acknowledged before d := by
  have hbits : ∀ status ≤ kCompleted, (kVersionExchanged ≤ status ↔
      (∀ m ∈ handshakeMessages, m.type = .kVersion → status &&& m.flag = m.flag) ∨
      ∃ m ∈ handshakeMessages, m.type = .kVerAck ∧ status &&& m.flag = m.flag) := by decide
  have hmem : ∀ m ∈ handshakeMessages, ((run before).handshake.status &&& m.flag = m.flag ↔
      m ∈ (run before).accepted) := by
    intro m hm
    rw [(invariant_run before).status]
    exact flag_set_iff _ ((mem_handshakeMessages_iff m).mp hm)
  rw [hbits _ (invariant_run before).status_le]
  refine or_congr ⟨fun h d => ?_, fun h m hm ht => ?_⟩ ⟨fun h => ?_, fun h => ?_⟩
  · have hm := (mem_handshakeMessages_iff ⟨d, .kVersion⟩).mpr (Or.inl rfl)
    exact (version_mem_accepted_iff before d).mp ((hmem _ hm).mp (h _ hm rfl))
  · obtain ⟨d, t⟩ := m
    simp only at ht
    subst ht
    exact (hmem _ hm).mpr ((version_mem_accepted_iff before d).mpr (h d))
  · obtain ⟨⟨d, t⟩, hm, ht, hset⟩ := h
    simp only at ht
    subst ht
    exact ⟨d, (verAck_mem_accepted_iff before d).mp ((hmem _ hm).mp hset)⟩
  · obtain ⟨d, hd⟩ := h
    have hm := (mem_handshakeMessages_iff ⟨d, .kVerAck⟩).mpr (Or.inr rfl)
    exact ⟨_, hm, rfl, (hmem _ hm).mpr ((verAck_mem_accepted_iff before d).mpr hd)⟩

end Session

/-- The order of the handshake: any other message is accepted only after a `version` in both directions,
and a `verack` only after a `version` in the opposite direction. -/
def OrderKept (events : List Event) : Prop :=
  ∀ before e after, events = before ++ e :: after → (Session.run before).accepts e = true →
    (¬ e.IsHandshake → ∀ d, (⟨d, .kVersion⟩ : Event) ∈ (Session.run before).accepted) ∧
    (e.type = .kVerAck → (⟨e.direction.opposite, .kVersion⟩ : Event) ∈ (Session.run before).accepted)

/-- The sequences the check does not need to reorder: a `verack` that follows some `version` follows the
one of the opposite direction, and any other message that follows such a `verack` follows both. -/
def InOrder (events : List Event) : Prop :=
  ∀ before e after, events = before ++ e :: after →
    (e.type = .kVerAck → Begun before → (⟨e.direction.opposite, .kVersion⟩ : Event) ∈ before) ∧
    (¬ e.IsHandshake → (∃ d, Acknowledged before d) → ∀ d, (⟨d, .kVersion⟩ : Event) ∈ before)

theorem OrderKept.opposite_version {events before after : List Event} (h : OrderKept events)
    (heq : events = before ++ after) {d : DataDirectionMode}
    (hmem : (⟨d, .kVerAck⟩ : Event) ∈ (Session.run before).accepted) : ⟨d.opposite, .kVersion⟩ ∈ before := by
  induction before using List.reverseRecOn generalizing after with
  | nil => simp at hmem
  | append_singleton before e ih =>
      rw [Session.run_concat, Session.mem_accepted_step] at hmem
      have heq' : events = before ++ e :: after := by simpa using heq
      rcases hmem with hmem | ⟨rfl, hacc⟩
      · exact List.mem_append_left _ (ih heq' hmem)
      · have hv := (h before _ after heq' hacc).2 rfl
        exact List.mem_append_left _ ((Session.version_mem_accepted_iff before _).mp hv)

/-- **Handshake order.** The check keeps the order of the handshake on the sequences that are in order,
and on no others. -/
theorem handshake_order_iff (events : List Event) : OrderKept events ↔ InOrder events := by
  constructor
  · intro h before e after heq
    refine ⟨fun ht hbegun => ?_, fun hother hack d => ?_⟩
    · -- either this `verack` is accepted, or an earlier one in its direction was
      have he : e = ⟨e.direction, .kVerAck⟩ := by rw [← ht]
      by_cases hmem : e ∈ (Session.run before).accepted
      · rw [he] at hmem
        exact h.opposite_version heq hmem
      · have hacc : (Session.run before).accepts e = true := by
          refine Session.accepts_iff.mpr ⟨fun _ => (Session.begun_iff before).mpr hbegun, fun hh => ?_, fun hh => ?_⟩
          · rw [(Session.invariant_run before).status, ne_eq, flag_set_iff _ hh]
            exact hmem
          · exact absurd (Or.inr ht) hh
        exact (Session.version_mem_accepted_iff before _).mp ((h before e after heq hacc).2 ht)
    · obtain ⟨d', hd'⟩ := hack
      have hacc : (Session.run before).accepts e = true :=
        Session.accepts_iff.mpr ⟨fun _ => (Session.begun_iff before).mpr hd'.begun, fun hh => absurd hh hother,
          fun _ => (Session.versionExchanged_le_iff before).mpr (Or.inr ⟨d', hd'⟩)⟩
      exact (Session.version_mem_accepted_iff before d).mp ((h before e after heq hacc).1 hother d)
  · intro h before e after heq hacc
    obtain ⟨hstart, -, hlow⟩ := Session.accepts_iff.mp hacc
    obtain ⟨hverack, hothers⟩ := h before e after heq
    refine ⟨fun hother d => ?_, fun ht => ?_⟩
    · apply (Session.version_mem_accepted_iff before d).mpr
      rcases (Session.versionExchanged_le_iff before).mp (hlow hother) with hboth | hack
      · exact hboth d
      · exact hothers hother hack d
    · apply (Session.version_mem_accepted_iff before _).mpr
      have hnv : e.type ≠ .kVersion := by simp [ht]
      exact hverack ht ((Session.begun_iff before).mp (hstart hnv))

/-- The order is not kept on every sequence: a peer that answers our `version` with a `verack` gets its
`ping` accepted without ever sending a `version`, and our own `verack` is accepted before the peer's
`version`. -/
theorem handshake_order_fails :
    ¬ OrderKept [⟨.kOutbound, .kVersion⟩, ⟨.kInbound, .kVerAck⟩, ⟨.kInbound, .kPing⟩] ∧
    ¬ OrderKept [⟨.kOutbound, .kVersion⟩, ⟨.kOutbound, .kVerAck⟩] := by
  constructor
  · intro h
    have hping := (h [⟨.kOutbound, .kVersion⟩, ⟨.kInbound, .kVerAck⟩] ⟨.kInbound, .kPing⟩ [] rfl (by decide)).1
      (by decide) .kInbound
    revert hping
    decide
  · intro h
    have hverack := (h [⟨.kOutbound, .kVersion⟩] ⟨.kOutbound, .kVerAck⟩ [] rfl (by decide)).2 rfl
    revert hverack
    decide

end Znode.Node
