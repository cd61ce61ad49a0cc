import Mathlib
import Znode.Lib.System
import Znode.Net.Codecs
import Znode.Node.Outbound

/-!
# Sending, and the ping meter

A node asks its peer with a `ping` when its timer fires. The nonce is stored when the message is queued, the sample
is pending from the moment `start_write` takes the message, and the `pong` clears both.

* `Sender` : the sending side of a node, with `startWrite`, `handleWrite` and `onPingTimerExpired`;
* `PingSession`, `PingSession.step` : a node and a peer that answers its pings in order, over a wire that keeps the
  order of the messages;
* `PingView`, `PingMove` : what matters of a session, and what a step can do to it;
* `timely` : the timer does not fire while a `ping` is still queued;
* `pongs_accepted` : then no `pong` of the peer is refused.

Time stamps and log lines are left out.
-/

namespace Znode.Node
open Znode.Lib Znode.Core Znode.Net ProtocolHandShakeStatus

/-! ## The sending side -/

structure Sender where
  peer : Peer
  running : Bool := true
  socketOpen : Bool := true
  isWriting : Bool := false
  outboundMessage : Option Message := none
  outboundMessageMetrics : MessageType → MessageMetrics := fun _ => {}
  sendBuffer : Bytes := []
  /-- `stop` was posted. -/
  stopping : Bool := false
  /-- The messages given to the socket that the peer has not read yet. -/
  wire : List Message := []

abbrev Send := Act Empty Fault Sender

namespace Sender

def kMaxBytesPerIO : Nat := 16 * 1024

/-- The message to go on with: the current one, or the top of the queue once that was sent to its end. -/
def loadMessage (choice : Nat) : Send (Option Message) := fun s =>
  match s.outboundMessage.filter fun m => !m.serStream.eof with
  | some m => .ok (some m) s
  | none =>
    match s.peer.takeMessage choice with
    | some (m, p) =>
      let m := { m with serStream := (m.serStream.seekg 0).2 }
      .ok (some m) { s with peer := p, outboundMessage := some m }
    | none => .ok none { s with outboundMessage := none, isWriting := false }

/-- What precedes the first bytes of a message. The node stops when the handshake does not allow it. -/
def beginMessage (m : Message) : Send Bool := fun s =>
  if m.serStream.tellg ≠ 0 then .ok true s
  else
    let type := m.header.getType
    match (Peer.validateHandshake .kOutbound type).run s.peer with
    | .ok _ p => .ok true { s with
        peer := if type = .kPing then { p with pingMeter := p.pingMeter.startSample } else p
        outboundMessageMetrics :=
          Function.update s.outboundMessageMetrics type ((s.outboundMessageMetrics type).add m.size)
        wire := s.wire ++ [m] }
    | .error _ p => .ok false { s with peer := p, outboundMessage := none, isWriting := false, stopping := true }
    | .fault f p => .fault f { s with peer := p }

/-- The next bytes of the message go to the socket. -/
def sendChunk (m : Message) : Send Unit := fun s =>
  match (read (some (min kMaxBytesPerIO m.serStream.avail))).run m.serStream with
  | .ok data stream => .ok () { s with
      outboundMessage := some { m with serStream := stream }
      sendBuffer := s.sendBuffer ++ data }
  | .error _ _ => .fault .assert s

/-- `start_write`; the choice is the one of the queue. -/
def startWrite (choice : Nat) : Send Unit := do
  let s ← get
  if !s.socketOpen then return
  if s.isWriting then return
  set { s with isWriting := true }
  match ← loadMessage choice with
  | none => return
  | some m => if ← beginMessage m then sendChunk m

/-- `handle_write`. When the buffer is empty `start_write` is posted. -/
def handleWrite (failed : Bool) (bytesTransferred : Nat) (s : Sender) : Sender :=
  if !s.running then { s with isWriting := false }
  else if failed then { s with isWriting := false, stopping := true }
  else
    let sendBuffer := s.sendBuffer.drop bytesTransferred
    { s with sendBuffer := sendBuffer, isWriting := sendBuffer ≠ [] }

section
variable (sha256 : Bytes → Octets 32) (magic : Octets 4)

def onPingTimerExpired (nonce : UInt64) : Send Unit := do
  let s ← get
  if !s.running || s.peer.pingMeter.pingInProgress then return
  match MsgPingPongPayload.new .kPing nonce with
  | .error f => Act.raise f
  | .ok ping =>
    let result ← Act.focus (·.peer) (fun p s => { s with peer := p })
      (Peer.pushMessage sha256 magic (.pingPong ping) .kHigh).attempt
    match result with
    | .error _ => modify fun s => { s with running := false }
    | .ok _ => modify fun s => { s with peer := { s.peer with pingMeter := s.peer.pingMeter.setNonce nonce } }

end

end Sender

/-! ## Sessions with a peer -/

/-- The nonce of a `ping`, as the peer reads it. -/
def pingNonce (m : Message) : Option UInt64 :=
  if m.getType = .kPing then some (UInt64.ofNat (leVal (slice m.serStream.buffer kMessageHeaderLength 8))) else none

/-- A node and a peer that answers each `ping` it reads. -/
structure PingSession where
  sender : Sender
  /-- The nonces of the answers the node has not read yet. -/
  pongs : List UInt64 := []
  /-- The errors the node met in processing them. -/
  pongErrors : List Error := []

inductive PingEvent where
  | timer (nonce : UInt64)
  | push (payload : MessagePayload) (priority : MessagePriority)
  | receive (payload : MessagePayload) (size : Nat)
  | write (choice : Nat)
  | written (failed : Bool) (bytesTransferred : Nat)
  | peerReads
  | pong
  | stop
  | stopCompleted

/-- What happens to a payload that was read from a message of `size` bytes. -/
def Peer.handle (sha256 : Bytes → Octets 32) (magic : Octets 4) (payload : MessagePayload) (size : Nat) :
    PeerM Unit := do
  Peer.validateHandshake .kInbound payload.type
  Peer.processInboundMessage sha256 magic payload
  Peer.countMessage payload.type size

theorem Peer.receive_eq_handle (sha256 : Bytes → Octets 32) (magic : Octets 4) {bytes : Bytes}
    {payload : MessagePayload} (h : (readHeader bytes).getType = payload.type) :
    Peer.receive sha256 magic bytes payload = Peer.handle sha256 magic payload bytes.length := by
  unfold Peer.receive Peer.handle
  rw [h]

namespace PingSession
variable (sha256 : Bytes → Octets 32) (magic : Octets 4)

/-- The node of the session handles a payload; after an error it stops. -/
def process (payload : MessagePayload) (size : Nat) (s : PingSession) : Except Error Unit × PingSession :=
  let outcome := (Peer.handle sha256 magic payload size).run s.sender.peer
  let result := match outcome with
    | .error e _ => .error e
    | _ => .ok ()
  (result, { s with sender := { s.sender with
    peer := outcome.state
    stopping := s.sender.stopping || result.isOk = false } })

/-- One step of the node or of the peer. Only the timer queues a `ping`, and a `pong` comes from the peer. -/
def step (s : PingSession) : PingEvent → Option PingSession
  | .timer nonce => some { s with sender := ((Sender.onPingTimerExpired sha256 magic nonce).run s.sender).state }
  | .push payload priority =>
    if payload.type = .kPing then none
    else some { s with sender := { s.sender with peer := s.sender.peer.pushed sha256 magic payload priority } }
  | .receive payload size => if payload.type = .kPong then none else some (s.process sha256 magic payload size).2
  | .write choice => some { s with sender := ((Sender.startWrite choice).run s.sender).state }
  | .written failed bytesTransferred => some { s with sender := s.sender.handleWrite failed bytesTransferred }
  | .peerReads =>
    match s.sender.wire with
    | [] => none
    | m :: wire => some { s with sender := { s.sender with wire := wire }, pongs := s.pongs ++ (pingNonce m).toList }
  | .pong =>
    match s.pongs with
    | [] => none
    | nonce :: pongs =>
      let (result, s') := s.process sha256 magic (.pingPong ⟨.kPong, by decide, nonce⟩) (kMessageHeaderLength + 8)
      match result with
      | .ok _ => some { s' with pongs := pongs }
      | .error e => some { s' with pongs := pongs, pongErrors := s.pongErrors ++ [e] }
  | .stop => some { s with sender := { s.sender with running := false } }
  | .stopCompleted => some { s with sender := { s.sender with socketOpen := false } }

end PingSession

/-! ## The pings in a queue -/

def Peer.queuedPings (p : Peer) : List UInt64 := p.outboundMessages.filterMap fun item => pingNonce item.1

section
variable {sha256 : Bytes → Octets 32} {magic : Octets 4} {version : Int}

theorem pingNonce_eq_none {payload : MessagePayload} {m : Message} (ht : payload.type ≠ .kPing)
    (h : (Message.push sha256 payload).run (Message.new version magic) = .ok () m) : pingNonce m = none := by
  obtain ⟨payload', w, -, -, -, -, htype⟩ := Message.push_scan sha256 h
  rw [pingNonce, htype, if_neg ht]

theorem pingNonce_ping {q : MsgPingPongPayload} {m : Message} (hq : q.type = .kPing)
    (h : (Message.push sha256 (.pingPong q)).run (Message.new version magic) = .ok () m) :
    pingNonce m = some q.nonce := by
  obtain ⟨payload', w, hser, -, -, hm, htype⟩ := Message.push_scan sha256 h
  have hw : w = leBytes 8 q.nonce.toNat := by
    have hfit : (leBytes 8 q.nonce.toNat).length ≤ kMaxStreamSize := by
      rw [length_leBytes]
      decide
    have hrun : (MessagePayload.serialization .kSerialize).run (.pingPong q, { version := version }) = _ :=
      SerOf.lift_ok (q.writes { version := version } (by simpa using hfit))
    rw [hrun] at hser
    cases hser
    rfl
  rw [pingNonce, htype, if_pos (show (MessagePayload.pingPong q).type = .kPing from hq), hm]
  simp only [Message.validated, Message.pushedBytes]
  rw [slice_append_right (Message.length_headerBytes _).le, Message.length_headerBytes, Nat.sub_self, hw,
    slice_full (length_leBytes _ _), leVal_leBytes q.nonce.toNat_lt, UInt64.ofNat_toNat]

theorem Peer.pushMessage_run (payload : MessagePayload) (priority : MessagePriority) (p : Peer) :
    (Peer.pushMessage sha256 magic payload priority).run p =
      match (Message.push sha256 payload).run (Message.new p.version magic) with
      | .ok _ m => .ok () { p with outboundMessages := p.outboundMessages ++ [(m, priority)] }
      | .error e _ => .error e p
      | .fault f _ => .fault f p := rfl

/-- What concerns the pings: the handshake, the meter and the queue. -/
def Peer.pings (p : Peer) : Nat × PingMeter × List UInt64 := (p.handshake.status, p.pingMeter, p.queuedPings)

theorem Peer.queuedPings_push (p : Peer) (m : Message) (priority : MessagePriority) :
    { p with outboundMessages := p.outboundMessages ++ [(m, priority)] }.queuedPings =
      p.queuedPings ++ (pingNonce m).toList := by
  simp only [Peer.queuedPings, List.filterMap_append]
  cases h : pingNonce m <;> simp [h]

/-- The nonce of the message that is taken leaves the queue. -/
theorem Peer.takeMessage_pings {p p' : Peer} {choice : Nat} {m : Message} (h : p.takeMessage choice = some (m, p')) :
    p'.handshake = p.handshake ∧ p'.pingMeter = p.pingMeter ∧
      ∃ l₁ l₂, p.queuedPings = l₁ ++ (pingNonce m).toList ++ l₂ ∧ p'.queuedPings = l₁ ++ l₂ := by
  simp only [Peer.takeMessage, Option.bind_eq_bind, Option.bind_eq_some_iff] at h
  obtain ⟨i, -, item, hitem, heq⟩ := h
  cases heq
  obtain ⟨hi, rfl⟩ := List.getElem?_eq_some_iff.mp hitem
  refine ⟨rfl, rfl, (p.outboundMessages.take i).filterMap fun item => pingNonce item.1,
    (p.outboundMessages.drop (i + 1)).filterMap fun item => pingNonce item.1, ?_, ?_⟩
  · have hsplit : p.outboundMessages = p.outboundMessages.take i ++ [p.outboundMessages[i]] ++
        p.outboundMessages.drop (i + 1) := by simp
    unfold Peer.queuedPings
    conv_lhs => rw [hsplit, List.filterMap_append, List.filterMap_append]
    cases hn : pingNonce p.outboundMessages[i].1 <;> simp [hn]
  · simp only [Peer.queuedPings, List.eraseIdx_eq_take_drop_succ, List.filterMap_append]

open Act in
theorem keeps_pushMessage {payload : MessagePayload} (ht : payload.type ≠ .kPing) (priority : MessagePriority) :
    Keeps Peer.pings (Peer.pushMessage sha256 magic payload priority) := by
  intro p
  rw [Peer.pushMessage_run]
  cases hpush : (Message.push sha256 payload).run (Message.new p.version magic) with
  | ok u m =>
      refine congrArg (fun queued => (p.handshake.status, p.pingMeter, queued))
        ((p.queuedPings_push m priority).trans ?_)
      rw [pingNonce_eq_none ht hpush]
      exact List.append_nil _
  | error e m => rfl
  | fault f m => rfl

open Act in
/-- Only a `pong` concerns the pings of the node. -/
theorem keeps_processInboundMessage {payload : MessagePayload} (ht : payload.type ≠ .kPong) :
    Keeps Peer.pings (Peer.processInboundMessage sha256 magic payload) :=
  Peer.Untouched.processInboundMessage ⟨fun _ _ _ => rfl, fun _ priority hq => keeps_pushMessage hq priority,
    fun _ _ => Keeps.modify fun _ => rfl, fun hpong => absurd hpong ht⟩

end

/-! ## What a timely step does to the pings -/

/-- What matters of a session: the handshake, the meter, the nonces of the pings in the queue, those of the pings and
answers on their way, and the errors. -/
structure PingView where
  status : Nat
  meter : PingMeter
  queued : List UInt64
  flying : List UInt64
  errors : List Error

def Sender.view (s : Sender) (pongs : List UInt64) (errors : List Error) : PingView where
  status := s.peer.handshake.status
  meter := s.peer.pingMeter
  queued := s.peer.queuedPings
  flying := pongs ++ s.wire.filterMap pingNonce
  errors := errors

def PingSession.view (s : PingSession) : PingView := s.sender.view s.pongs s.pongErrors

inductive PingMove : PingView → PingView → Prop where
  | idle {v : PingView} (status : Nat) (hstatus : v.status ≤ status) : PingMove v { v with status := status }
  | ask {v : PingView} (nonce : UInt64) (hmeter : v.meter.pingInProgress = false) (hqueued : v.queued = []) :
      PingMove v { v with meter := v.meter.setNonce nonce, queued := [nonce] }
  | lose {v : PingView} {l₁ l₂ : List UInt64} {nonce : UInt64} (hqueued : v.queued = l₁ ++ [nonce] ++ l₂) :
      PingMove v { v with queued := l₁ ++ l₂ }
  | send {v : PingView} {l₁ l₂ : List UInt64} {nonce : UInt64} (hqueued : v.queued = l₁ ++ [nonce] ++ l₂)
      (hstatus : kVersionExchanged ≤ v.status) :
      PingMove v { v with meter := v.meter.startSample, queued := l₁ ++ l₂, flying := v.flying ++ [nonce] }
  | answer {v : PingView} {nonce : UInt64} {rest : List UInt64} (hflying : v.flying = nonce :: rest)
      (hmeter : v.meter = ⟨true, some nonce⟩) : PingMove v { v with meter := {}, flying := rest }
  | refuse {v : PingView} {nonce : UInt64} {rest : List UInt64} (e : Error) (hflying : v.flying = nonce :: rest)
      (hmeter : v.status < kVersionExchanged ∨ v.meter ≠ ⟨true, some nonce⟩) :
      PingMove v { v with flying := rest, errors := v.errors ++ [e] }

theorem PingMove.refl (v : PingView) : PingMove v v := .idle v.status le_rfl

/-- The message in hand has been begun, or has no bytes left. -/
def Sender.InHand (s : Sender) : Prop :=
  ∀ m, s.outboundMessage = some m → m.serStream.eof ∨ m.serStream.readPosition ≠ 0

namespace Peer
open Act

theorem validateHandshake_cases (direction : DataDirectionMode) (type : MessageType) (p : Peer) :
    (∃ e, (validateHandshake direction type).run p = .error e p) ∨
      ∃ handshake, (validateHandshake direction type).run p = .ok () { p with handshake := handshake } ∧
        p.handshake.status ≤ handshake.status := by
  have hrun := validate_run p.handshake ⟨direction, type⟩
  rw [validateHandshake, run_zoom, hrun]
  split_ifs
  · exact Or.inl ⟨_, rfl⟩
  · exact Or.inl ⟨_, rfl⟩
  · exact Or.inr ⟨_, rfl, le_rfl⟩
  · exact Or.inl ⟨_, rfl⟩
  · exact Or.inr ⟨_, rfl, Nat.left_le_or⟩
  · exact Or.inl ⟨_, rfl⟩
  · exact Or.inr ⟨_, rfl, le_rfl⟩

/-- The check, for the messages that are not part of the handshake. -/
theorem validateHandshake_other (direction : DataDirectionMode) {type : MessageType} (hversion : type ≠ .kVersion)
    (hverAck : type ≠ .kVerAck) (p : Peer) : (validateHandshake direction type).run p =
      if kVersionExchanged ≤ p.handshake.status then .ok () p else .error (.net .kInvalidProtocolHandShake) p := by
  have hrun := validate_run p.handshake ⟨direction, type⟩
  have hother : ¬ (⟨direction, type⟩ : Event).IsHandshake := not_or.mpr ⟨hversion, hverAck⟩
  have hexchanged : kVersionExchanged ≤ kCompleted := by decide
  have hstarted : ¬ kVersionExchanged ≤ kNotInitiated := by decide
  rw [validateHandshake, run_zoom, hrun]
  simp only [hother, hversion, ne_eq, not_false_eq_true, and_true, false_and, if_false]
  by_cases hopen : kVersionExchanged ≤ p.handshake.status
  · have hbegun : p.handshake.status ≠ kNotInitiated := fun h => hstarted (h ▸ hopen)
    simp [hbegun, hopen, not_lt.mpr hopen]
  · have hopen' : p.handshake.status ≠ kCompleted := fun h => hopen (h ▸ hexchanged)
    simp [hopen', hopen, not_le.mp hopen]

end Peer

namespace Sender
open Act

/-- The message `m` is begun. -/
inductive Begins (m : Message) (s s' : Sender) : Prop where
  | ping (htype : m.getType = .kPing) (hwire : s'.wire = s.wire ++ [m])
      (hopen : kVersionExchanged ≤ s.peer.handshake.status)
      (hpings : s'.peer.pings = (s.peer.handshake.status, s.peer.pingMeter.startSample, s.peer.queuedPings))
  | other (status : Nat) (htype : m.getType ≠ .kPing) (hwire : s'.wire = s.wire ++ [m])
      (hgrows : s.peer.handshake.status ≤ status)
      (hpings : s'.peer.pings = (status, s.peer.pingMeter, s.peer.queuedPings))

theorem sendChunk_ensures {m : Message} (hle : m.serStream.readPosition ≤ m.serStream.buffer.length) (s : Sender) :
    Ensures (sendChunk m) s fun _ s' => s'.peer = s.peer ∧ s'.wire = s.wire ∧ s'.InHand := by
  have havail := SDataStream.avail_of_le hle
  have hread := read_run_of_le (n := min kMaxBytesPerIO m.serStream.avail) (s := m.serStream) (by omega)
  unfold Ensures Act.run sendChunk
  rw [hread]
  refine ⟨(), _, rfl, rfl, rfl, fun m' hm' => ?_⟩
  cases hm'
  have hpos : 0 < kMaxBytesPerIO := by decide
  simp only [SDataStream.eof, decide_eq_true_eq]
  omega

theorem beginMessage_ensures {m : Message} (hstart : m.serStream.readPosition = 0) (s : Sender) :
    Ensures (beginMessage m) s fun begun s' =>
      begun = true ∧ Begins m s s' ∨ begun = false ∧ s'.peer.pings = s.peer.pings ∧ s'.wire = s.wire ∧
        s'.outboundMessage = none := by
  unfold Ensures Act.run beginMessage
  rw [if_neg (show ¬ m.serStream.tellg ≠ 0 from not_not.mpr hstart)]
  simp only
  by_cases hping : m.header.getType = .kPing
  · rw [Peer.validateHandshake_other _ (by rw [hping]; decide) (by rw [hping]; decide)]
    by_cases hopen : kVersionExchanged ≤ s.peer.handshake.status
    · rw [if_pos hopen]
      refine ⟨true, _, rfl, Or.inl ⟨rfl, .ping hping rfl hopen ?_⟩⟩
      simp only [if_pos hping]
      rfl
    · rw [if_neg hopen]
      exact ⟨false, _, rfl, Or.inr ⟨rfl, rfl, rfl, rfl⟩⟩
  · rcases s.peer.validateHandshake_cases .kOutbound m.header.getType with ⟨e, hrun⟩ | ⟨handshake, hrun, hgrows⟩
    · rw [hrun]
      exact ⟨false, _, rfl, Or.inr ⟨rfl, rfl, rfl, rfl⟩⟩
    · rw [hrun]
      refine ⟨true, _, rfl, Or.inl ⟨rfl, .other handshake.status hping rfl hgrows ?_⟩⟩
      simp only [if_neg hping]
      rfl

theorem loadMessage_ensures (choice : Nat) {s : Sender} (hi : s.InHand) :
    Ensures (loadMessage choice) s fun loaded s' => s'.wire = s.wire ∧
      (s'.peer = s.peer ∧ (loaded = none ∧ s'.InHand ∨
          ∃ m, loaded = some m ∧ m.serStream.readPosition ≠ 0 ∧ m.serStream.readPosition ≤ m.serStream.buffer.length) ∨
        ∃ m m', loaded = some m' ∧ s.peer.takeMessage choice = some (m, s'.peer) ∧ pingNonce m' = pingNonce m ∧
          m'.serStream.readPosition = 0) := by
  unfold Ensures Act.run loadMessage
  cases hcurrent : s.outboundMessage.filter fun m => !m.serStream.eof with
  | some m =>
      refine ⟨some m, s, rfl, rfl, Or.inl ⟨rfl, Or.inr ⟨m, rfl, ?_⟩⟩⟩
      obtain ⟨hm, hmore⟩ := Option.filter_eq_some_iff.mp hcurrent
      have hmore : m.serStream.eof ≠ true := by simpa using hmore
      refine ⟨(hi m hm).resolve_left hmore, ?_⟩
      simp only [SDataStream.eof, ne_eq, decide_eq_true_eq, not_le] at hmore
      exact hmore.le
  | none =>
      cases htake : s.peer.takeMessage choice with
      | none => exact ⟨none, _, rfl, rfl, Or.inl ⟨rfl, Or.inl ⟨rfl, fun m hm => by cases hm⟩⟩⟩
      | some mp =>
          obtain ⟨m, p⟩ := mp
          exact ⟨_, _, rfl, rfl, Or.inr ⟨m, _, rfl, rfl, rfl, Nat.zero_min _⟩⟩

section
variable {s s' s₁ : Sender} (pongs : List UInt64) (errors : List Error)

theorem view_of_pings {status : Nat} {meter : PingMeter} {queued : List UInt64} {wire : List Message}
    (hpings : s.peer.pings = (status, meter, queued)) (hwire : s.wire = wire) :
    s.view pongs errors = ⟨status, meter, queued, pongs ++ wire.filterMap pingNonce, errors⟩ := by
  cases hpings
  cases hwire
  rfl

theorem view_congr (hpings : s'.peer.pings = s.peer.pings) (hwire : s'.wire = s.wire) :
    s'.view pongs errors = s.view pongs errors :=
  view_of_pings pongs errors hpings hwire

theorem pingNonce_of_ping {m : Message} (h : m.getType = .kPing) : ∃ nonce, pingNonce m = some nonce :=
  ⟨_, if_pos h⟩

theorem pingNonce_of_other {m : Message} (h : m.getType ≠ .kPing) : pingNonce m = none := if_neg h

/-- A message that is taken is sent or lost. -/
theorem move_taken {choice : Nat} {m m' : Message} (htake : s.peer.takeMessage choice = some (m, s'.peer))
    (hwire : s'.wire = s.wire) (hnonce : pingNonce m' = pingNonce m)
    (h : Begins m' s' s₁ ∨ s₁.peer.pings = s'.peer.pings ∧ s₁.wire = s'.wire) :
    PingMove (s.view pongs errors) (s₁.view pongs errors) := by
  obtain ⟨hstatus, hmeter, l₁, l₂, hbefore, hafter⟩ := Peer.takeMessage_pings htake
  rw [← hnonce] at hbefore
  rcases h with (⟨htype, hwire₁, hopen, hpings⟩ | ⟨status, htype, hwire₁, hgrows, hpings⟩) | ⟨hpings, hwire₁⟩
  · obtain ⟨nonce, hsome⟩ := pingNonce_of_ping htype
    rw [hsome] at hbefore
    rw [hstatus] at hopen
    rw [view_of_pings pongs errors hpings (hwire₁.trans (congrArg (· ++ [m']) hwire)), hstatus, hmeter, hafter,
      List.filterMap_append, List.filterMap_cons_some hsome, List.filterMap_nil, ← List.append_assoc]
    exact PingMove.send hbefore hopen
  · rw [pingNonce_of_other htype, Option.toList_none, List.append_nil] at hbefore
    rw [hstatus] at hgrows
    rw [view_of_pings pongs errors hpings (hwire₁.trans (congrArg (· ++ [m']) hwire)), hmeter, hafter, ← hbefore,
      List.filterMap_append, List.filterMap_cons_none (pingNonce_of_other htype), List.filterMap_nil, List.append_nil]
    exact PingMove.idle (v := s.view pongs errors) status hgrows
  · rw [view_of_pings pongs errors hpings (hwire₁.trans hwire), hstatus, hmeter, hafter]
    cases hsome : pingNonce m' with
    | none =>
        rw [hsome, Option.toList_none, List.append_nil] at hbefore
        rw [← hbefore]
        exact PingMove.refl (s.view pongs errors)
    | some nonce =>
        rw [hsome] at hbefore
        exact PingMove.lose (v := s.view pongs errors) hbefore

end

/-- The message that is taken is sent, or lost when the handshake does not allow it. -/
theorem startWrite_ensures (choice : Nat) {s : Sender} (hi : s.InHand) :
    Ensures (startWrite choice) s fun _ s' => s'.InHand ∧
      ∀ pongs errors, PingMove (s.view pongs errors) (s'.view pongs errors) := by
  refine Ensures.step (run_get s) ?_
  by_cases hopen : s.socketOpen
  swap
  · rw [if_pos (by simpa using hopen)]
    exact Ensures.pure ⟨hi, fun _ _ => PingMove.refl _⟩
  rw [if_neg (by simpa using hopen)]
  by_cases hwriting : s.isWriting
  · rw [if_pos hwriting]
    exact Ensures.pure ⟨hi, fun _ _ => PingMove.refl _⟩
  rw [if_neg hwriting]
  refine Ensures.step (run_set _ _) ((loadMessage_ensures choice (s := { s with isWriting := true }) hi).bind ?_)
  rintro loaded s' ⟨hwire, ⟨hpeer, ⟨rfl, hi'⟩ | ⟨m, rfl, hpos, hle⟩⟩ | ⟨m, m', rfl, htake, hnonce, hzero⟩⟩
  · refine Ensures.pure ⟨hi', fun pongs errors => ?_⟩
    rw [view_congr (s := s) pongs errors (congrArg Peer.pings hpeer) hwire]
    exact PingMove.refl _
  · -- the next bytes of the message in hand
    have hbegun : (beginMessage m).run s' = .ok true s' := if_pos hpos
    refine Ensures.step hbegun ((sendChunk_ensures hle s').mono ?_)
    rintro - s'' ⟨hpeer', hwire', hi''⟩
    refine ⟨hi'', fun pongs errors => ?_⟩
    rw [view_congr (s := s) pongs errors (congrArg Peer.pings (hpeer'.trans hpeer)) (hwire'.trans hwire)]
    exact PingMove.refl _
  · refine (beginMessage_ensures hzero s').bind ?_
    rintro begun s₁ (⟨rfl, hbegins⟩ | ⟨rfl, hpings, hwire₁, hnone⟩)
    · refine (sendChunk_ensures (hzero ▸ Nat.zero_le _) s₁).mono ?_
      rintro - s₂ ⟨hpeer, hwire₂, hi₂⟩
      refine ⟨hi₂, fun pongs errors => ?_⟩
      rw [view_congr pongs errors (congrArg Peer.pings hpeer) hwire₂]
      exact move_taken pongs errors htake hwire hnonce (Or.inl hbegins)
    · refine Ensures.pure ⟨fun m hm => ?_, fun pongs errors => ?_⟩
      · rw [hnone] at hm
        cases hm
      · exact move_taken pongs errors htake hwire hnonce (Or.inr ⟨hpings, hwire₁⟩)

/-- The timer acts when the node runs and waits for no answer. -/
def timerActs (s : Sender) : Bool := s.running && !s.peer.pingMeter.pingInProgress

theorem onPingTimerExpired_run (sha256 : Bytes → Octets 32) (magic : Octets 4) (nonce : UInt64) {s : Sender}
    (hacts : s.timerActs) : (onPingTimerExpired sha256 magic nonce).run s =
      match (Message.push sha256 (.pingPong ⟨.kPing, by decide, nonce⟩)).run (Message.new s.peer.version magic) with
      | .ok _ m => .ok () { s with peer := { s.peer with
          outboundMessages := s.peer.outboundMessages ++ [(m, .kHigh)]
          pingMeter := s.peer.pingMeter.setNonce nonce } }
      | .error _ _ => .ok () { s with running := false }
      | .fault f _ => .fault f s := by
  have hguard : ¬ (!s.running || s.peer.pingMeter.pingInProgress) = true := by
    simpa [timerActs] using hacts
  have hnew : MsgPingPongPayload.new .kPing nonce = .ok ⟨.kPing, by decide, nonce⟩ := rfl
  unfold onPingTimerExpired
  rw [run_bind, run_get]
  simp only [if_neg hguard, hnew, run_bind, run_focus, run_attempt, Peer.pushMessage_run]
  cases (Message.push sha256 (.pingPong ⟨.kPing, by decide, nonce⟩)).run (Message.new s.peer.version magic) <;> rfl

theorem onPingTimerExpired_move (sha256 : Bytes → Octets 32) (magic : Octets 4) (nonce : UInt64) (s : Sender)
    (hqueued : s.timerActs → s.peer.queuedPings = []) :
    ((onPingTimerExpired sha256 magic nonce).run s).state.outboundMessage = s.outboundMessage ∧
      ∀ pongs errors, PingMove (s.view pongs errors)
        (((onPingTimerExpired sha256 magic nonce).run s).state.view pongs errors) := by
  by_cases hacts : s.timerActs
  · rw [onPingTimerExpired_run sha256 magic nonce hacts]
    have hidle : s.peer.pingMeter.pingInProgress = false := by
      simp only [timerActs, Bool.and_eq_true, Bool.not_eq_true'] at hacts
      exact hacts.2
    cases hpush : (Message.push sha256 (.pingPong ⟨.kPing, by decide, nonce⟩)).run
      (Message.new s.peer.version magic) with
    | ok u m =>
        refine ⟨rfl, fun pongs errors => ?_⟩
        have hasked := s.peer.queuedPings_push m .kHigh
        rw [pingNonce_ping rfl hpush, hqueued hacts] at hasked
        have hmove := PingMove.ask (v := s.view pongs errors) nonce hidle (hqueued hacts)
        rw [show [nonce] = _ from hasked.symm] at hmove
        exact hmove
    | error e m => exact ⟨rfl, fun _ _ => PingMove.refl _⟩
    | fault f m => exact ⟨rfl, fun _ _ => PingMove.refl _⟩
  · have hguard : (!s.running || s.peer.pingMeter.pingInProgress) = true := by
      simpa [timerActs, ← Bool.not_eq_true, imp_iff_not_or] using hacts
    have hrun : (onPingTimerExpired sha256 magic nonce).run s = .ok () s := by
      unfold onPingTimerExpired
      rw [run_bind, run_get]
      exact congrArg (fun m : Send Unit => m.run s) (if_pos hguard)
    rw [hrun]
    exact ⟨rfl, fun _ _ => PingMove.refl _⟩

end Sender

section
variable (sha256 : Bytes → Octets 32) (magic : Octets 4)

theorem processInboundMessage_pong (nonce : UInt64) (p : Peer) :
    (p.pingMeter = ⟨true, some nonce⟩ ∧
        (Peer.processInboundMessage sha256 magic (.pingPong ⟨.kPong, by decide, nonce⟩)).run p =
          .ok () { p with pingMeter := {} }) ∨
      (p.pingMeter ≠ ⟨true, some nonce⟩ ∧ ∃ e,
        (Peer.processInboundMessage sha256 magic (.pingPong ⟨.kPong, by decide, nonce⟩)).run p = .error e p) := by
  simp only [Peer.processInboundMessage, Peer.processPingPong, reduceCtorEq, if_false, Act.run_bind, Act.run_get]
  rcases hmeter : p.pingMeter with ⟨_ | _, _ | expected⟩
  · exact Or.inr ⟨by simp, _, rfl⟩
  · exact Or.inr ⟨by simp, _, rfl⟩
  · exact Or.inr ⟨by simp, _, rfl⟩
  · by_cases hnonce : nonce = expected
    · exact Or.inl ⟨by simp [hnonce], by simp [hnonce, PingMeter.endSample]⟩
    · exact Or.inr ⟨by simpa using Ne.symm hnonce, .net .kInvalidPingPongNonce, by simp [hnonce]⟩

theorem handle_other {payload : MessagePayload} (ht : payload.type ≠ .kPong) (size : Nat) (p : Peer) :
    ∃ status, p.handshake.status ≤ status ∧
      ((Peer.handle sha256 magic payload size).run p).state.pings = (status, p.pingMeter, p.queuedPings) := by
  rcases p.validateHandshake_cases .kInbound payload.type with ⟨e, hrun⟩ | ⟨handshake, hrun, hgrows⟩
  · refine ⟨p.handshake.status, le_rfl, ?_⟩
    rw [Peer.handle, Act.run_bind, hrun]
    rfl
  · refine ⟨handshake.status, hgrows, ?_⟩
    rw [Peer.handle, Act.run_bind, hrun]
    have hcount : Act.Keeps Peer.pings (Peer.countMessage payload.type size) := Act.Keeps.modify fun _ => rfl
    exact (keeps_processInboundMessage ht).bind (fun _ => hcount) { p with handshake := handshake }

theorem handle_pong (nonce : UInt64) (size : Nat) (p : Peer) :
    (p.pingMeter = ⟨true, some nonce⟩ ∧
        Act.Ensures (Peer.handle sha256 magic (.pingPong ⟨.kPong, by decide, nonce⟩) size) p
          fun _ p' => p'.pings = (p.handshake.status, {}, p.queuedPings)) ∨
      ((p.handshake.status < kVersionExchanged ∨ p.pingMeter ≠ ⟨true, some nonce⟩) ∧ ∃ e,
        (Peer.handle sha256 magic (.pingPong ⟨.kPong, by decide, nonce⟩) size).run p = .error e p) := by
  have hvalid := Peer.validateHandshake_other .kInbound (show MessageType.kPong ≠ .kVersion by decide) (by decide) p
  by_cases hopen : kVersionExchanged ≤ p.handshake.status
  · rw [if_pos hopen] at hvalid
    rcases processInboundMessage_pong sha256 magic nonce p with ⟨hmeter, hrun⟩ | ⟨hmeter, e, hrun⟩
    · exact Or.inl ⟨hmeter, Act.Ensures.step hvalid (Act.Ensures.step hrun ⟨(), _, rfl, rfl⟩)⟩
    · refine Or.inr ⟨Or.inr hmeter, e, ?_⟩
      simp only [Peer.handle, Act.run_bind, MessagePayload.type, hvalid, hrun]
  · rw [if_neg hopen] at hvalid
    refine Or.inr ⟨Or.inl (not_le.mp hopen), .net .kInvalidProtocolHandShake, ?_⟩
    simp only [Peer.handle, Act.run_bind, MessagePayload.type, hvalid]

namespace PingSession

/-- The timer acts only when no `ping` is left in the queue. -/
def timely (s : PingSession) : PingEvent → Bool
  | .timer _ => !s.sender.timerActs || s.sender.peer.queuedPings = []
  | _ => true

theorem step_move {s s' : PingSession} {e : PingEvent} (hi : s.sender.InHand) (htimely : s.timely e = true)
    (hstep : s.step sha256 magic e = some s') : s'.sender.InHand ∧ PingMove s.view s'.view := by
  have hidle : ∀ {s' : PingSession}, s'.view = s.view → PingMove s.view s'.view := by
    intro s' heq
    rw [heq]
    exact PingMove.refl _
  cases e with
  | timer nonce =>
      cases hstep
      obtain ⟨hmessage, hmove⟩ := Sender.onPingTimerExpired_move sha256 magic nonce s.sender (by
        intro hacts
        simpa [timely, hacts] using htimely)
      refine ⟨fun m hm => hi m (hmessage ▸ hm), hmove _ _⟩
  | push payload priority =>
      simp only [step] at hstep
      split_ifs at hstep with htype
      cases hstep
      exact ⟨hi, hidle (Sender.view_congr _ _ (keeps_pushMessage htype priority _) rfl)⟩
  | receive payload size =>
      simp only [step] at hstep
      split_ifs at hstep with htype
      cases hstep
      obtain ⟨status, hgrows, hpings⟩ := handle_other sha256 magic htype size s.sender.peer
      have hview := Sender.view_of_pings (s := (process sha256 magic payload size s).2.sender)
          s.pongs s.pongErrors hpings rfl
      refine ⟨hi, ?_⟩
      rw [show (process sha256 magic payload size s).2.view = _ from hview]
      exact PingMove.idle status hgrows
  | write choice =>
      cases hstep
      obtain ⟨u, sender, hrun, hi', hmove⟩ := Sender.startWrite_ensures choice hi
      simp only [hrun]
      exact ⟨hi', hmove _ _⟩
  | written failed bytesTransferred =>
      cases hstep
      unfold Sender.handleWrite
      dsimp only
      split_ifs <;> exact ⟨hi, PingMove.refl _⟩
  | peerReads =>
      cases hwire : s.sender.wire with
      | nil => simp [step, hwire] at hstep
      | cons m wire =>
          simp only [step, hwire, Option.some.injEq] at hstep
          subst hstep
          refine ⟨hi, hidle ?_⟩
          cases hnonce : pingNonce m <;> simp [view, Sender.view, hwire, hnonce]
  | pong =>
      cases hpongs : s.pongs with
      | nil => simp [step, hpongs] at hstep
      | cons nonce rest =>
          have hflying : s.view.flying = nonce :: (rest ++ s.sender.wire.filterMap pingNonce) := by
            simp [view, Sender.view, hpongs]
          rcases handle_pong sha256 magic nonce (kMessageHeaderLength + 8) s.sender.peer with
            ⟨hmeter, u, peer, hrun, hpings⟩ | ⟨hmeter, error, hrun⟩
          · simp only [step, hpongs, process, hrun] at hstep
            cases hstep
            have hview := Sender.view_of_pings (s := { s.sender with peer := peer }) rest s.pongErrors hpings rfl
            refine ⟨hi, ?_⟩
            change PingMove s.view (Sender.view { s.sender with peer := peer } rest s.pongErrors)
            rw [hview]
            exact PingMove.answer hflying hmeter
          · simp only [step, hpongs, process, hrun] at hstep
            cases hstep
            exact ⟨hi, PingMove.refuse error hflying hmeter⟩
  | stop =>
      cases hstep
      exact ⟨hi, PingMove.refl _⟩
  | stopCompleted =>
      cases hstep
      exact ⟨hi, PingMove.refl _⟩

end PingSession

end

/-! ## Every answer is expected -/

/-- The states of a session without a surplus `ping`: nothing is asked, the question is in the queue, the question or
its answer is on its way. -/
inductive PingView.Paired : PingView → Prop where
  | quiet (status : Nat) (expected : Option UInt64) : Paired ⟨status, ⟨false, expected⟩, [], [], []⟩
  | asked (status : Nat) (nonce : UInt64) : Paired ⟨status, ⟨false, some nonce⟩, [nonce], [], []⟩
  | sent {status : Nat} (nonce : UInt64) (hopen : kVersionExchanged ≤ status) :
      Paired ⟨status, ⟨true, some nonce⟩, [], [nonce], []⟩

theorem PingView.Paired.errors_eq_nil {v : PingView} (h : v.Paired) : v.errors = [] := by
  cases h <;> rfl

theorem eq_nil_of_singleton {α : Type} {a b : α} {l₁ l₂ : List α} (h : [a] = l₁ ++ [b] ++ l₂) :
    l₁ = [] ∧ a = b ∧ l₂ = [] := by
  have hlen := congrArg List.length h
  simp only [List.length_append, List.length_singleton] at hlen
  obtain rfl : l₁ = [] := List.length_eq_zero_iff.mp (by omega)
  obtain rfl : l₂ = [] := List.length_eq_zero_iff.mp (by omega)
  exact ⟨rfl, List.singleton_inj.mp h, rfl⟩

theorem paired_move {v v' : PingView} (h : v.Paired) (hmove : PingMove v v') : v'.Paired := by
  rcases h with ⟨status, expected⟩ | ⟨status, nonce⟩ | ⟨nonce, hopen⟩
  · cases hmove with
    | idle status' hgrows => exact .quiet status' expected
    | ask nonce hmeter hqueued => exact .asked status nonce
    | lose hqueued => simp at hqueued
    | send hqueued => simp at hqueued
    | answer hflying => cases hflying
    | refuse e hflying => cases hflying
  · cases hmove with
    | idle status' hgrows => exact .asked status' nonce
    | ask nonce' hmeter hqueued => cases hqueued
    | lose hqueued =>
        obtain ⟨rfl, -, rfl⟩ := eq_nil_of_singleton hqueued
        exact .quiet status (some nonce)
    | send hqueued hopen =>
        obtain ⟨rfl, rfl, rfl⟩ := eq_nil_of_singleton hqueued
        exact .sent nonce hopen
    | answer hflying => cases hflying
    | refuse e hflying => cases hflying
  · cases hmove with
    | idle status' hgrows => exact .sent nonce (hopen.trans hgrows)
    | ask nonce' hmeter => cases hmeter
    | lose hqueued => simp at hqueued
    | send hqueued => simp at hqueued
    | answer hflying =>
        cases hflying
        exact .quiet _ none
    | refuse e hflying hmeter =>
        cases hflying
        exact absurd rfl (hmeter.resolve_left (not_lt.mpr hopen))

/-- A node at the start of a connection. -/
def PingSession.start (connectionType : ConnectionType) (localVersion : MsgVersionPayload) : PingSession where
  sender := { peer := { connectionType := connectionType, localVersion := localVersion } }

/-- **A peer that answers each `ping` with its nonce, in order, is never refused**, in any run in which the timer does
not act while a `ping` is in the queue. -/
theorem pongs_accepted (sha256 : Bytes → Octets 32) (magic : Octets 4) (connectionType : ConnectionType)
    (localVersion : MsgVersionPayload) (events : List PingEvent) {s : PingSession}
    (hrun : runSystem (PingSession.step sha256 magic) (.start connectionType localVersion) events = some s)
    (htimely : Throughout (PingSession.step sha256 magic) (fun s e => s.timely e = true)
      (.start connectionType localVersion) events) : s.pongErrors = [] := by
  have hinit : (PingSession.start connectionType localVersion).view.Paired ∧
      (PingSession.start connectionType localVersion).sender.InHand :=
    ⟨.quiet _ none, fun m hm => by cases hm⟩
  have hstep : ∀ (s : PingSession) e s', s.view.Paired ∧ s.sender.InHand → s.timely e = true →
      s.step sha256 magic e = some s' → s'.view.Paired ∧ s'.sender.InHand := by
    intro s e s' hinv hok hstep
    obtain ⟨hi, hmove⟩ := PingSession.step_move sha256 magic hinv.2 hok hstep
    exact ⟨paired_move hinv.1 hmove, hi⟩
  exact (runSystem_invariant hstep hinit htimely hrun).1.errors_eq_nil

/-- The handshake: the peer connects and says hello, the node answers with its version and a `verack`, and the peer
with a `verack`. -/
def greeting : List PingEvent :=
  [.receive (.version { protocolVersion := kDefaultProtocolVersion, nonce := 1 }) 110, .write 0, .written false 1000,
    .peerReads, .write 0, .written false 1000, .peerReads, .receive (.null ⟨.kVerAck, by decide⟩) 24]

def twoAnswers : List PingEvent :=
  greeting ++ [.timer 5, .write 0, .timer 6, .written false 1000, .peerReads, .pong, .timer 7, .write 0, .peerReads,
    .pong]

theorem pongs_accepted_twoAnswers :
    ∃ s, runSystem (PingSession.step (fun _ => kEmptyHash) (Octets.zero 4)) (.start .kInbound {}) twoAnswers = some s ∧
      s.sender.outboundMessageMetrics .kPing = ⟨2, 64⟩ ∧ s.pongErrors = [] := by
  have hsome : ((runSystem (PingSession.step (fun _ => kEmptyHash) (Octets.zero 4)) (.start .kInbound {})
    twoAnswers).any fun s => s.sender.outboundMessageMetrics .kPing = ⟨2, 64⟩) = true := by decide +kernel
  rw [Option.any_eq_true] at hsome
  obtain ⟨s, hrun, hsent⟩ := hsome
  exact ⟨s, hrun, of_decide_eq_true hsent,
    pongs_accepted (fun _ => kEmptyHash) (Octets.zero 4) .kInbound {} twoAnswers hrun (by decide +kernel)⟩

/-- After the handshake, the timer fires again while the first `ping` is in the queue, and stores the nonce of the
second. The answer to the first one is then refused. -/
theorem pong_refused :
    ∃ s, runSystem (PingSession.step (fun _ => kEmptyHash) (Octets.zero 4)) (.start .kInbound {})
        (greeting ++ [.timer 5, .timer 6, .write 0, .peerReads, .pong]) = some s ∧
      s.sender.peer.handshake.status = kCompleted ∧ s.pongErrors = [.net .kInvalidPingPongNonce] := by
  have hsome : ((runSystem (PingSession.step (fun _ => kEmptyHash) (Octets.zero 4)) (.start .kInbound {})
    (greeting ++ [.timer 5, .timer 6, .write 0, .peerReads, .pong])).any fun s =>
      s.sender.peer.handshake.status = kCompleted ∧ s.pongErrors = [.net .kInvalidPingPongNonce]) = true := by
    decide +kernel
  rw [Option.any_eq_true] at hsome
  obtain ⟨s, hrun, herrors⟩ := hsome
  exact ⟨s, hrun, of_decide_eq_true herrors⟩

end Znode.Node
