import Mathlib
import Znode.Node.Pings

/-!
# The bytes that go to the socket

`push_message` queues a message and posts `start_write`. That takes a message from the queue, cuts it into slices, and
gives one slice to the socket; `handle_write` gives it what the socket has not accepted, and posts `start_write` when
nothing is left.

* `Outbox`, `Outbox.step` : a node that sends, the executions of `start_write` that are posted, and its socket, which
  accepts any number of the bytes it was given, but at least one. The rest of the node may do anything to its
  other state, and may queue messages, at any time;
* `Sender.unsent` : the bytes of the messages taken from the queue that the socket has not accepted;
* `Outbox.Flowing` : what was accepted and what is unsent are the messages in the order they were taken, and somebody
  will go on with what is left;
* `sent_in_order` : it holds in every run, as long as the node runs and nothing makes it stop.
-/

namespace Znode.Node
open Znode.Lib Znode.Core Znode.Net

def content (m : Message) : Bytes := m.serStream.buffer

def Peer.queued (p : Peer) : List Bytes := p.outboundMessages.map fun item => content item.1

namespace Sender

/-- The bytes of the messages that were taken from the queue. -/
def begun (s : Sender) : Bytes := (s.wire.map content).flatten

/-- The bytes the socket has not accepted: the rest of the slice, and of the message in hand. -/
def unsent (s : Sender) : Bytes :=
  s.sendBuffer ++ (s.outboundMessage.map fun m => (content m).drop m.serStream.readPosition).getD []

/-- The node runs and nothing has told it to stop. -/
def sound (s : Sender) : Bool := s.running && !s.stopping

end Sender

/-! ## A node and its socket -/

structure Outbox where
  sender : Sender
  /-- How many executions of `start_write` are posted. -/
  posted : Nat := 0
  /-- A write is outstanding at the socket. -/
  outstanding : Bool := false
  /-- The bytes the socket has accepted. -/
  accepted : Bytes := []
  /-- The messages that were queued. -/
  pushed : List Bytes := []

inductive OutboxEvent where
  | push (payload : MessagePayload) (priority : MessagePriority)
  | startWrite (choice : Nat)
  | handleWrite (bytesTransferred : Nat)
  | writeFails
  | other (peer : Peer)
  | stop
  | stopCompleted

namespace Outbox

def start (peer : Peer) : Outbox where
  sender := { peer := { peer with outboundMessages := [] } }

variable (sha256 : Bytes → Octets 32) (magic : Octets 4)

def step (s : Outbox) : OutboxEvent → Option Outbox
  | .push payload priority =>
    match (Peer.pushMessage sha256 magic payload priority).run s.sender.peer with
    | .ok _ p => some { s with
        sender := { s.sender with peer := p }
        posted := s.posted + 1
        pushed := s.pushed ++ p.queued.drop s.sender.peer.queued.length }
    | outcome => some { s with sender := { s.sender with peer := outcome.state } }
  | .startWrite choice =>
    if s.posted = 0 then none
    else
      let sender := ((Sender.startWrite choice).run s.sender).state
      -- the flag stays set only behind `async_write_some`
      some { s with
        sender := sender
        posted := s.posted - 1
        outstanding := s.outstanding || (!s.sender.isWriting && sender.isWriting) }
  | .handleWrite bytesTransferred =>
    if s.outstanding ∧ 0 < bytesTransferred ∧ bytesTransferred ≤ s.sender.sendBuffer.length then
      let sender := s.sender.handleWrite false bytesTransferred
      some { s with
        sender := sender
        posted := s.posted + (s.sender.running && !sender.isWriting).toNat
        outstanding := sender.isWriting
        accepted := s.accepted ++ s.sender.sendBuffer.take bytesTransferred }
    else none
  | .writeFails =>
    if s.outstanding then some { s with sender := s.sender.handleWrite true 0, outstanding := false } else none
  | .other peer =>
    some { s with sender := { s.sender with peer := { peer with outboundMessages := s.sender.peer.outboundMessages } } }
  | .stop => some { s with sender := { s.sender with running := false } }
  | .stopCompleted =>
    if s.sender.running then none else some { s with sender := { s.sender with socketOpen := false } }

end Outbox

/-! ## One call -/

theorem content_ne_nil_of_push {sha256 : Bytes → Octets 32} {magic : Octets 4} {version : Int}
    {payload : MessagePayload}
    {m : Message} (h : (Message.push sha256 payload).run (Message.new version magic) = .ok () m) : content m ≠ [] := by
  obtain ⟨payload', w, -, -, -, hm, -⟩ := Message.push_scan sha256 h
  have hlength : (content m).length = kMessageHeaderLength + w.length := by
    rw [hm]
    exact (List.length_append).trans (congrArg (· + w.length) (Message.length_headerBytes _))
  rintro hnil
  rw [hnil] at hlength
  have hpos : 0 < kMessageHeaderLength := by decide
  simp only [List.length_nil] at hlength
  omega

theorem Peer.pushMessage_ok {sha256 : Bytes → Octets 32} {magic : Octets 4} {payload : MessagePayload}
    {priority : MessagePriority} {p p' : Peer}
    (h : (Peer.pushMessage sha256 magic payload priority).run p = .ok () p') :
    ∃ m, content m ≠ [] ∧ p' = { p with outboundMessages := p.outboundMessages ++ [(m, priority)] } := by
  rw [Peer.pushMessage_run] at h
  cases hpush : (Message.push sha256 payload).run (Message.new p.version magic) with
  | ok u m =>
      rw [hpush] at h
      cases h
      exact ⟨m, content_ne_nil_of_push hpush, rfl⟩
  | error e m => rw [hpush] at h; cases h
  | fault f m => rw [hpush] at h; cases h

theorem Peer.pushMessage_state {sha256 : Bytes → Octets 32} {magic : Octets 4} {payload : MessagePayload}
    {priority : MessagePriority} {p : Peer}
    (h : ∀ p', (Peer.pushMessage sha256 magic payload priority).run p ≠ .ok () p') :
    ((Peer.pushMessage sha256 magic payload priority).run p).state = p := by
  rw [Peer.pushMessage_run] at h ⊢
  cases hpush : (Message.push sha256 payload).run (Message.new p.version magic) with
  | ok u m =>
      rw [hpush] at h
      exact absurd rfl (h _)
  | error e m => rfl
  | fault f m => rfl

theorem Peer.takeMessage_perm {p p' : Peer} {choice : Nat} {m : Message} (h : p.takeMessage choice = some (m, p')) :
    p.queued.Perm (content m :: p'.queued) := by
  simp only [Peer.takeMessage, Option.bind_eq_bind, Option.bind_eq_some_iff] at h
  obtain ⟨i, -, item, hitem, heq⟩ := h
  cases heq
  obtain ⟨hi, rfl⟩ := List.getElem?_eq_some_iff.mp hitem
  exact (List.getElem_cons_eraseIdx_perm hi).symm.map fun item : QueueItem => content item.1

theorem Peer.queued_of_takeMessage_eq_none {p : Peer} {choice : Nat} (h : p.takeMessage choice = none) :
    p.queued = [] := by
  by_contra hne
  have hne : p.outboundMessages ≠ [] := fun hnil => hne (by rw [Peer.queued, hnil, List.map_nil])
  obtain ⟨i, hi⟩ : ∃ i, topIndex QueueItem.key choice p.outboundMessages = some i := topIndex_isSome hne choice
  obtain ⟨item, hitem, -⟩ := mem_tops_iff.mp (topIndex_mem hi)
  simp [Peer.takeMessage, hi, hitem] at h

namespace Sender
open Act

/-- A sender between two calls: the message in hand was begun, the flag says whether there is a slice, and every message
in the queue has some bytes. -/
structure Ready (s : Sender) : Prop where
  inHand : s.InHand
  buffer : s.isWriting = true ↔ s.sendBuffer ≠ []
  nonempty : ∀ bytes ∈ s.peer.queued, bytes ≠ []

/-- The messages `taken` went from the queue to the bytes that are to be sent. -/
structure Takes (taken : List Bytes) (s s' : Sender) : Prop where
  begun : s'.wire.map content = s.wire.map content ++ taken
  unsent : s'.unsent = s.unsent ++ taken.flatten
  queued : s.peer.queued.Perm (taken ++ s'.peer.queued)

/-- What an execution of `start_write` leaves: a slice at the socket, or nothing to send. -/
structure Wrote (s s' : Sender) : Prop where
  ready : s'.Ready
  isOpen : s'.socketOpen = true
  takes : ∃ taken, Takes taken s s'
  idle : s'.isWriting = false → s'.peer.queued = [] ∧ s'.unsent = []

variable {s s₁ : Sender} {m : Message}

theorem sendChunk_wrote (taken : List Bytes) (hmore : m.serStream.readPosition < (content m).length)
    (hbuffer : s₁.sendBuffer = []) (hwriting : s₁.isWriting = true) (hopen : s₁.socketOpen = true)
    (hqueue : ∀ bytes ∈ s₁.peer.queued, bytes ≠ []) (hbegun : s₁.wire.map content = s.wire.map content ++ taken)
    (hunsent : (content m).drop m.serStream.readPosition = s.unsent ++ taken.flatten)
    (hperm : s.peer.queued.Perm (taken ++ s₁.peer.queued)) :
    Ensures (sendChunk m) s₁ fun _ s' => Wrote s s' := by
  have hmore : m.serStream.readPosition < m.serStream.buffer.length := hmore
  have havail := SDataStream.avail_of_le hmore.le
  have hpos : 0 < kMaxBytesPerIO := by decide
  set n := min kMaxBytesPerIO m.serStream.avail with hn
  have hfits : m.serStream.readPosition + n ≤ m.serStream.buffer.length := by omega
  unfold Ensures Act.run sendChunk
  rw [← hn, read_run_of_le hfits]
  refine ⟨(), _, rfl, ⟨?_, iff_of_true hwriting ?_, hqueue⟩, hopen, ⟨taken, hbegun, ?_, hperm⟩, ?_⟩
  · rintro m' ⟨⟩
    exact Or.inr (by simp only; omega)
  · apply List.ne_nil_of_length_pos
    rw [List.length_append, length_slice_of_le hfits]
    omega
  · change (s₁.sendBuffer ++ slice m.serStream.buffer m.serStream.readPosition n) ++
      (content m).drop (m.serStream.readPosition + n) = _
    rw [← hunsent, hbuffer, List.nil_append]
    unfold slice content
    rw [← List.drop_drop, List.take_append_drop]
  · intro hidle
    exact absurd (hwriting.symm.trans hidle) (by simp)

theorem beginMessage_takes (hstart : m.serStream.readPosition = 0) (s : Sender) :
    Ensures (beginMessage m) s fun begun s' => s'.stopping = true ∧ begun = false ∨
      begun = true ∧ s'.sendBuffer = s.sendBuffer ∧ s'.isWriting = s.isWriting ∧ s'.socketOpen = s.socketOpen ∧
        s'.wire = s.wire ++ [m] ∧ s'.peer.queued = s.peer.queued := by
  unfold Ensures Act.run beginMessage
  rw [if_neg (show ¬ m.serStream.tellg ≠ 0 from not_not.mpr hstart)]
  simp only
  rcases s.peer.validateHandshake_cases .kOutbound m.header.getType with ⟨e, hrun⟩ | ⟨handshake, hrun, -⟩
  · rw [hrun]
    exact ⟨false, _, rfl, Or.inl ⟨rfl, rfl⟩⟩
  · rw [hrun]
    refine ⟨true, _, rfl, Or.inr ⟨rfl, rfl, rfl, rfl, rfl, ?_⟩⟩
    unfold Peer.queued
    dsimp only
    split_ifs <;> rfl

theorem loadMessage_takes (choice : Nat) (hi : s.InHand) (hqueue : ∀ bytes ∈ s.peer.queued, bytes ≠ []) :
    Ensures (loadMessage choice) s fun loaded s' =>
      match loaded with
      | none => s' = { s with outboundMessage := none, isWriting := false } ∧ s.peer.queued = [] ∧
          s.unsent = s.sendBuffer
      | some m => m.serStream.readPosition < (content m).length ∧ s'.isWriting = s.isWriting ∧
          s'.socketOpen = s.socketOpen ∧ s'.sendBuffer = s.sendBuffer ∧ s'.wire = s.wire ∧
          (s'.peer = s.peer ∧ m.serStream.readPosition ≠ 0 ∧
              s.unsent = s.sendBuffer ++ (content m).drop m.serStream.readPosition ∨
            s.peer.queued.Perm (content m :: s'.peer.queued) ∧ m.serStream.readPosition = 0 ∧
              s.unsent = s.sendBuffer) := by
  unfold Ensures Act.run loadMessage
  cases hcurrent : s.outboundMessage.filter fun m => !m.serStream.eof with
  | some m =>
      obtain ⟨hm, hmore⟩ := Option.filter_eq_some_iff.mp hcurrent
      have hmore : m.serStream.eof ≠ true := by simpa using hmore
      have hlt : m.serStream.readPosition < (content m).length := by
        simpa [SDataStream.eof, content] using hmore
      exact ⟨some m, s, rfl, hlt, rfl, rfl, rfl, rfl,
        Or.inl ⟨rfl, (hi m hm).resolve_left hmore, by rw [unsent, hm]; rfl⟩⟩
  | none =>
      have hrest : s.unsent = s.sendBuffer := by
        unfold unsent
        cases hm : s.outboundMessage with
        | none => exact List.append_nil _
        | some m =>
            have heof : m.serStream.eof = true := by
              rw [Option.filter_eq_none_iff] at hcurrent
              simpa using hcurrent m hm
            have hend : (content m).length ≤ m.serStream.readPosition := by
              simpa [SDataStream.eof, content] using heof
            simp [List.drop_eq_nil_of_le hend]
      cases htake : s.peer.takeMessage choice with
      | none => exact ⟨none, _, rfl, rfl, Peer.queued_of_takeMessage_eq_none htake, hrest⟩
      | some mp =>
          obtain ⟨m, p⟩ := mp
          have hperm := Peer.takeMessage_perm htake
          have hne : content m ≠ [] := hqueue _ (hperm.symm.subset List.mem_cons_self)
          refine ⟨_, _, rfl, ?_, rfl, rfl, rfl, rfl, Or.inr ⟨hperm, Nat.zero_min _, hrest⟩⟩
          exact lt_of_le_of_lt (Nat.zero_min _).le (List.length_pos_of_ne_nil hne)

theorem Ready.sendBuffer_eq_nil (h : s.Ready) (hidle : s.isWriting = false) : s.sendBuffer = [] := by
  by_contra hne
  exact absurd (h.buffer.mpr hne) (by simp [hidle])

/-- **One execution of `start_write`**, when no write is outstanding. -/
theorem startWrite_wrote (choice : Nat) (hready : s.Ready) (hopen : s.socketOpen = true) (hidle : s.isWriting = false) :
    Ensures (startWrite choice) s fun _ s' => s'.stopping = true ∨ Wrote s s' := by
  have hbuffer := hready.sendBuffer_eq_nil hidle
  refine Ensures.step (run_get s) ?_
  rw [if_neg (by simp [hopen]), if_neg (by simp [hidle])]
  refine Ensures.step (run_set _ _)
    ((loadMessage_takes choice (s := { s with isWriting := true }) hready.inHand hready.nonempty).bind ?_)
  rintro (_ | m) s' hloaded
  · obtain ⟨rfl, hqueue, hrest⟩ := hloaded
    have hempty : s.sendBuffer ++ [] = [] := (List.append_nil _).trans hbuffer
    have hunsent : s.unsent = [] := hrest.trans hbuffer
    refine Ensures.pure (Or.inr ⟨⟨fun m hm => (nomatch hm), ?_, hready.nonempty⟩, hopen,
      ⟨[], (List.append_nil _).symm, ?_, List.Perm.refl _⟩, fun _ => ⟨hqueue, hempty⟩⟩)
    · exact iff_of_false Bool.false_ne_true (not_not.mpr hbuffer)
    · rw [hunsent]
      exact hempty
  · obtain ⟨hmore, hwriting, hopen', hbuffer', hwire, ⟨hpeer, hpos, hrest⟩ | ⟨hperm, hzero, hrest⟩⟩ := hloaded
    · -- the message in hand goes on
      have hbegun : (beginMessage m).run s' = .ok true s' := if_pos hpos
      have hpeer : s'.peer = s.peer := hpeer
      refine Ensures.step hbegun ((sendChunk_wrote [] hmore (hbuffer'.trans hbuffer) hwriting
        (hopen'.trans hopen) ?_ ?_ ?_ ?_).mono fun _ _ => Or.inr)
      · rw [hpeer]
        exact hready.nonempty
      · rw [hwire, List.append_nil]
      · rw [List.flatten_nil, List.append_nil]
        exact (hrest.trans (congrArg (· ++ _) hbuffer)).symm
      · rw [hpeer]
        exact List.Perm.refl _
    · refine (beginMessage_takes hzero s').bind ?_
      rintro begun s₁ (⟨hstop, rfl⟩ | ⟨rfl, hbuffer₁, hwriting₁, hopen₁, hwire₁, hqueue₁⟩)
      · exact Ensures.pure (Or.inl hstop)
      · refine (sendChunk_wrote [content m] hmore ((hbuffer₁.trans hbuffer').trans hbuffer)
          (hwriting₁.trans hwriting) ((hopen₁.trans hopen').trans hopen) ?_ ?_ ?_ ?_).mono fun _ _ => Or.inr
        · intro bytes hbytes
          rw [hqueue₁] at hbytes
          exact hready.nonempty bytes (hperm.symm.subset (List.mem_cons_of_mem _ hbytes))
        · rw [hwire₁, hwire, List.map_append, List.map_singleton]
        · have hnil : s.unsent = [] := hrest.trans hbuffer
          rw [hzero, hnil, List.drop_zero, List.flatten_singleton, List.nil_append]
        · rw [hqueue₁]
          exact hperm

theorem startWrite_run_of_writing (choice : Nat) {s : Sender} (hwriting : s.isWriting = true) :
    (startWrite choice).run s = .ok () s := by
  unfold startWrite
  rw [run_bind, run_get]
  dsimp only
  by_cases hopen : s.socketOpen <;> simp [hopen, hwriting]

theorem grows_startWrite (choice : Nat) : Grows (fun s : Sender => (!s.sound).toNat) (startWrite choice) := by
  have hload : Grows (fun s : Sender => (!s.sound).toNat) (loadMessage choice) := by
    refine ⟨fun s => ?_⟩
    simp only [loadMessage, Act.run]
    repeat' split
    all_goals exact le_rfl
  have hbegin : ∀ m, Grows (fun s : Sender => (!s.sound).toNat) (beginMessage m) := by
    refine fun m => ⟨fun s => ?_⟩
    simp only [beginMessage, Act.run]
    repeat' split
    any_goals exact le_rfl
    simpa [Outcome.state, sound] using Bool.toNat_le _
  have hsend : ∀ m, Grows (fun s : Sender => (!s.sound).toNat) (sendChunk m) := by
    refine fun m => ⟨fun s => ?_⟩
    simp only [sendChunk, Act.run]
    split <;> exact le_rfl
  refine ⟨fun s => ?_⟩
  unfold startWrite
  rw [run_bind, run_get]
  dsimp only
  split_ifs
  · exact le_rfl
  · exact le_rfl
  · refine (hload.bind fun loaded => ?_).le { s with isWriting := true }
    cases loaded with
    | none => exact Grows.pure _
    | some m => exact (hbegin m).bind fun begun => Grows.ite _ (hsend m) (Grows.pure _)

theorem sound_of_startWrite (choice : Nat) (h : ((startWrite choice).run s).state.sound = true) : s.sound = true := by
  by_contra hs
  have hle := (grows_startWrite choice).le s
  simp [h, hs] at hle

theorem sound_of_handleWrite (failed : Bool) (bytesTransferred : Nat)
    (h : (s.handleWrite failed bytesTransferred).sound = true) : s.sound = true ∧ failed = false := by
  unfold handleWrite at h
  dsimp only at h
  split_ifs at h with hrun hfail
  · simp only [sound, Bool.and_eq_true] at h
    simp [h.1] at hrun
  · simp [sound] at h
  · exact ⟨h, by simpa using hfail⟩

theorem unsent_handleWrite (hrunning : s.running = true) (bytesTransferred : Nat) :
    s.sendBuffer.take bytesTransferred ++ (s.handleWrite false bytesTransferred).unsent = s.unsent := by
  simp only [handleWrite, hrunning, Bool.not_true, Bool.false_eq_true, if_false, unsent]
  rw [← List.append_assoc, List.take_append_drop]

theorem Ready.handleWrite (h : s.Ready) (hrunning : s.running = true) (bytesTransferred : Nat) :
    (s.handleWrite false bytesTransferred).Ready := by
  simp only [Sender.handleWrite, hrunning, Bool.not_true, Bool.false_eq_true, if_false]
  exact ⟨h.inHand, decide_eq_true_iff, h.nonempty⟩

end Sender

/-! ## Every run -/

namespace Outbox

/-- What was accepted and what is unsent are the messages taken from the queue, and somebody goes on with what is
left. -/
structure Flowing (s : Outbox) : Prop where
  ready : s.sender.Ready
  isOpen : s.sender.socketOpen = true
  outstanding : s.outstanding = s.sender.isWriting
  stream : s.accepted ++ s.sender.unsent = s.sender.begun
  pushed : s.pushed.Perm (s.sender.wire.map content ++ s.sender.peer.queued)
  posted : s.sender.isWriting = false → s.sender.peer.queued ≠ [] ∨ s.sender.unsent ≠ [] → 0 < s.posted

theorem flowing_start (peer : Peer) : (start peer).Flowing where
  ready := ⟨fun m hm => (nomatch hm), iff_of_false Bool.false_ne_true (not_not.mpr rfl), fun bytes h => (nomatch h)⟩
  isOpen := rfl
  outstanding := rfl
  stream := rfl
  pushed := List.Perm.refl _
  posted := fun _ h => absurd h (by simp [start, Peer.queued, Sender.unsent])

variable {sha256 : Bytes → Octets 32} {magic : Octets 4} {s s' : Outbox}

theorem Flowing.push (h : s.Flowing) {payload : MessagePayload} {priority : MessagePriority}
    (hstep : s.step sha256 magic (.push payload priority) = some s') : s'.Flowing := by
  simp only [step] at hstep
  split at hstep
  · rename_i p hrun
    cases hstep
    obtain ⟨m, hne, rfl⟩ := Peer.pushMessage_ok hrun
    have hqueued :
        Peer.queued { s.sender.peer with outboundMessages := s.sender.peer.outboundMessages ++ [(m, priority)] } =
        s.sender.peer.queued ++ [content m] := List.map_append
    refine ⟨⟨h.ready.inHand, h.ready.buffer, ?_⟩, h.isOpen, h.outstanding, h.stream, ?_, fun _ _ => Nat.succ_pos _⟩
    · intro bytes hbytes
      rw [hqueued, List.mem_append, List.mem_singleton] at hbytes
      rcases hbytes with hbytes | rfl
      · exact h.ready.nonempty bytes hbytes
      · exact hne
    · rw [hqueued, List.drop_left, ← List.append_assoc]
      exact h.pushed.append_right _
  · rename_i hfailed
    cases hstep
    rw [Peer.pushMessage_state (fun p' => hfailed () p')]
    exact h

theorem Flowing.startWrite (h : s.Flowing) {choice : Nat} (hsound : s'.sender.sound = true)
    (hstep : s.step sha256 magic (.startWrite choice) = some s') : s'.Flowing := by
  simp only [step] at hstep
  split_ifs at hstep with hposted
  cases hstep
  cases hwriting : s.sender.isWriting with
  | true =>
      rw [Sender.startWrite_run_of_writing choice hwriting]
      refine ⟨h.ready, h.isOpen, ?_, h.stream, h.pushed, fun hidle => ?_⟩
      · rw [h.outstanding]
        simp [Outcome.state, hwriting]
      · exact absurd (hwriting.symm.trans hidle) (by simp)
  | false =>
      obtain ⟨u, sender, hrun, hwrote⟩ := Sender.startWrite_wrote choice h.ready h.isOpen hwriting
      simp only [hrun, Outcome.state] at hsound ⊢
      have hgoes : sender.stopping ≠ true := by
        intro hstop
        simp [Sender.sound, hstop] at hsound
      obtain ⟨hready, hopen, ⟨taken, hbegun, hunsent, hqueued⟩, hidle⟩ := hwrote.resolve_left hgoes
      refine ⟨hready, hopen, ?_, ?_, ?_, fun hoff hleft => ?_⟩
      · simp [h.outstanding, hwriting]
      · rw [hunsent, ← List.append_assoc, h.stream, Sender.begun, Sender.begun, hbegun, List.flatten_append]
      · rw [hbegun, List.append_assoc]
        exact h.pushed.trans (hqueued.append_left _)
      · obtain ⟨hempty, hsent⟩ := hidle hoff
        exact absurd hleft (by simp [hempty, hsent])

theorem Flowing.handleWrite (h : s.Flowing) {bytesTransferred : Nat} (hrunning : s.sender.running = true)
    (hstep : s.step sha256 magic (.handleWrite bytesTransferred) = some s') : s'.Flowing := by
  simp only [step] at hstep
  split_ifs at hstep
  cases hstep
  refine ⟨h.ready.handleWrite hrunning _, ?_, rfl, ?_, ?_, ?_⟩
  · simpa [Sender.handleWrite, hrunning] using h.isOpen
  · rw [List.append_assoc, Sender.unsent_handleWrite hrunning, h.stream]
    simp [Sender.handleWrite, hrunning, Sender.begun]
  · simpa [Sender.handleWrite, hrunning] using h.pushed
  · intro hidle _
    have hidle : (s.sender.handleWrite false bytesTransferred).isWriting = false := hidle
    simp [hrunning, hidle]

theorem sound_of_step {e : OutboxEvent} (hstep : s.step sha256 magic e = some s') (hsound : s'.sender.sound = true) :
    s.sender.sound = true := by
  cases e with
  | push payload priority =>
      simp only [step] at hstep
      split at hstep <;> cases hstep <;> exact hsound
  | startWrite choice =>
      simp only [step] at hstep
      split_ifs at hstep
      cases hstep
      exact Sender.sound_of_startWrite choice hsound
  | handleWrite bytesTransferred =>
      simp only [step] at hstep
      split_ifs at hstep
      cases hstep
      exact (Sender.sound_of_handleWrite false bytesTransferred hsound).1
  | writeFails =>
      simp only [step] at hstep
      split_ifs at hstep
      cases hstep
      exact (Sender.sound_of_handleWrite true 0 hsound).1
  | other peer =>
      cases hstep
      exact hsound
  | stop =>
      cases hstep
      simp [Sender.sound] at hsound
  | stopCompleted =>
      simp only [step] at hstep
      split_ifs at hstep
      cases hstep
      exact hsound

theorem Flowing.step {e : OutboxEvent} (h : s.Flowing) (hstep : s.step sha256 magic e = some s')
    (hsound : s'.sender.sound = true) : s'.Flowing := by
  have hbefore := sound_of_step hstep hsound
  have hrunning : s.sender.running = true := by
    simp only [Sender.sound, Bool.and_eq_true] at hbefore
    exact hbefore.1
  cases e with
  | push payload priority => exact h.push hstep
  | startWrite choice => exact h.startWrite hsound hstep
  | handleWrite bytesTransferred => exact h.handleWrite hrunning hstep
  | writeFails =>
      simp only [Outbox.step] at hstep
      split_ifs at hstep
      cases hstep
      exact absurd (Sender.sound_of_handleWrite true 0 hsound).2 (by simp)
  | other peer =>
      cases hstep
      exact ⟨⟨h.ready.inHand, h.ready.buffer, h.ready.nonempty⟩, h.isOpen, h.outstanding, h.stream, h.pushed, h.posted⟩
  | stop =>
      cases hstep
      simp [Sender.sound] at hsound
  | stopCompleted =>
      simp only [Outbox.step] at hstep
      split_ifs at hstep

end Outbox

/-- **The bytes the socket has accepted are those of the messages, in the order they were taken from the queue**, and
each message that was queued was taken once or is still in the queue. While there is something to send, `start_write`
is posted or a write is outstanding. -/
theorem sent_in_order (sha256 : Bytes → Octets 32) (magic : Octets 4) (peer : Peer) (events : List OutboxEvent)
    {s : Outbox} (hrun : runSystem (Outbox.step sha256 magic) (.start peer) events = some s)
    (hrunning : s.sender.running = true) (hgoes : s.sender.stopping = false) :
    s.accepted <+: (s.sender.wire.map content).flatten ∧
      s.pushed.Perm (s.sender.wire.map content ++ s.sender.peer.queued) ∧
      (s.sender.peer.queued ≠ [] ∨ s.accepted ≠ (s.sender.wire.map content).flatten →
        0 < s.posted ∨ s.outstanding = true) := by
  have hstep : ∀ (s : Outbox) e s', (s.sender.sound = true → s.Flowing) → s.step sha256 magic e = some s' →
      s'.sender.sound = true → s'.Flowing := by
    intro s e s' h hstep hsound
    exact (h (Outbox.sound_of_step hstep hsound)).step hstep hsound
  have hflowing : s.Flowing :=
    runSystem_keeps hstep (fun _ => Outbox.flowing_start peer) hrun (by simp [Sender.sound, hrunning, hgoes])
  have hstream : s.accepted ++ s.sender.unsent = (s.sender.wire.map content).flatten := hflowing.stream
  refine ⟨⟨_, hstream⟩, hflowing.pushed, fun hleft => ?_⟩
  cases hwriting : s.sender.isWriting with
  | true => exact Or.inr (hflowing.outstanding.trans hwriting)
  | false =>
      refine Or.inl (hflowing.posted hwriting (hleft.imp_right fun hne hnil => hne ?_))
      rw [← hstream, hnil, List.append_nil]

/-- A node says hello, in parts, and queues a second message in between. -/
def helloInParts : List OutboxEvent :=
  [.push (.version { protocolVersion := kDefaultProtocolVersion, nonce := 1 }) .kHigh, .startWrite 0, .handleWrite 10,
    .push (.version { protocolVersion := kDefaultProtocolVersion, nonce := 2 }) .kNormal, .startWrite 0, .handleWrite 5]

theorem sent_in_order_hello :
    ∃ s, runSystem (Outbox.step (fun _ => kEmptyHash) (Octets.zero 4)) (.start { connectionType := .kOutbound })
        helloInParts = some s ∧ s.accepted.length = 15 ∧ s.accepted <+: (s.sender.wire.map content).flatten ∧
      s.pushed.Perm (s.sender.wire.map content ++ s.sender.peer.queued) ∧
      (s.sender.peer.queued ≠ [] ∨ s.accepted ≠ (s.sender.wire.map content).flatten →
        0 < s.posted ∨ s.outstanding = true) := by
  have hsome : (runSystem (Outbox.step (fun _ => kEmptyHash) (Octets.zero 4)) (.start { connectionType := .kOutbound })
      helloInParts).any fun s => s.accepted.length = 15 ∧ s.sender.running = true ∧ s.sender.stopping = false := by
    decide +kernel
  rw [Option.any_eq_true] at hsome
  obtain ⟨s, hrun, hs⟩ := hsome
  obtain ⟨haccepted, hrunning, hgoes⟩ := of_decide_eq_true hs
  exact ⟨s, hrun, haccepted, sent_in_order (fun _ => kEmptyHash) (Octets.zero 4) _ helloInParts hrun hrunning hgoes⟩

end Znode.Node
