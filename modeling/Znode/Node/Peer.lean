import Mathlib
import Znode.Net.Push
import Znode.Node.Handshake

/-!
# What a node does with a message

`Peer` is the state of a node apart from the bytes it is receiving: the handshake, the versions of both
sides, the ping meter, the metrics, the messages queued for the peer and those handed to the hub.

* `Peer.pushMessage`, `Peer.pushMessageType` : the two overloads of `push_message`;
* `Peer.processInboundMessage` : the local processing of a payload;
* `Peer.receive` : what happens to a complete message, from the handshake check to the metrics;
* `Peer.Untouched` : what the processing of a message leaves alone.

Time stamps, log lines and the duration of pings are left out.
-/

namespace Znode.Node
open Znode.Lib Znode.Core Znode.Net

inductive ConnectionType where
  | kNone
  | kInbound
  | kOutbound
  | kManualOutbound
  | kSeedOutbound
deriving DecidableEq, Repr

inductive MessagePriority where
  | kHigh
  | kNormal
  | kLow
deriving DecidableEq, Repr

/-- `PingMeter`, without its clock. -/
structure PingMeter where
  pingInProgress : Bool := false
  pingNonce : Option UInt64 := none
deriving DecidableEq, Repr

namespace PingMeter

def startSample (m : PingMeter) : PingMeter := { m with pingInProgress := true }

def setNonce (m : PingMeter) (nonce : UInt64) : PingMeter := { m with pingNonce := some nonce }

def endSample (m : PingMeter) : PingMeter :=
  if m.pingInProgress then { pingInProgress := false, pingNonce := none } else m

end PingMeter

/-- `Node::MessageMetrics`: a `uint32_t` and a `size_t`. -/
structure MessageMetrics where
  count : Nat := 0
  bytes : Nat := 0
deriving DecidableEq, Repr

def MessageMetrics.add (m : MessageMetrics) (size : Nat) : MessageMetrics where
  count := (m.count + 1) % 2 ^ 32
  bytes := (m.bytes + size) % 2 ^ 64

/-- A node, apart from its buffers. -/
structure Peer where
  connectionType : ConnectionType
  version : Int := kDefaultProtocolVersion
  localVersion : MsgVersionPayload := {}
  remoteVersion : MsgVersionPayload := {}
  handshake : Handshake := {}
  pingMeter : PingMeter := {}
  inboundMessageMetrics : MessageType → MessageMetrics := fun _ => {}
  /-- `outbound_messages_queue_`, in the order of insertion. -/
  outboundMessages : List (Message × MessagePriority) := []
  /-- The payloads passed to `on_message_`. -/
  notified : List MessagePayload := []

abbrev PeerM := Act Error Fault Peer

namespace Peer

/-- `validate_message_for_protocol_handshake`, on the node's own status. -/
def validateHandshake (direction : DataDirectionMode) (type : MessageType) : PeerM Unit :=
  Act.zoom handshake (fun h p => { p with handshake := h }) (validateMessageForProtocolHandshake direction type)

def onMessage (payload : MessagePayload) : PeerM Unit :=
  modify fun p => { p with notified := p.notified ++ [payload] }

section
variable (sha256 : Bytes → Octets 32) (magic : Octets 4)

/-- `push_message` of a payload; `magic` is the one of the chain's configuration. -/
def pushMessage (payload : MessagePayload) (priority : MessagePriority) : PeerM Unit := fun p =>
  match (Message.push sha256 payload).run (Message.new p.version magic) with
  | .ok _ m => .ok () { p with outboundMessages := p.outboundMessages ++ [(m, priority)] }
  | .error e _ => .error e p
  | .fault f _ => .fault f p

/-- `push_message` of a type, through a `MsgNullPayload`. -/
def pushMessageType (type : MessageType) (priority : MessagePriority) : PeerM Unit :=
  match MsgNullPayload.new type with
  | .error f => Act.raise f
  | .ok payload => pushMessage sha256 magic (.null payload) priority

/-- `process_inbound_message`, for a `version`. The payload object is swapped with the one stored, so
what goes to the hub is the version the node held before. -/
def processVersion (remote : MsgVersionPayload) : PeerM Unit := do
  let p ← get
  if remote.protocolVersion < kMinSupportedProtocolVersion ∨ kMaxSupportedProtocolVersion < remote.protocolVersion then
    throw (.net .kInvalidProtocolVersion)
  if remote.nonce = p.localVersion.nonce then throw (.net .kConnectedToSelf)
  modify fun p => { p with
    remoteVersion := remote
    version := min p.localVersion.protocolVersion remote.protocolVersion }
  if p.handshake.status &&& ProtocolHandShakeStatus.kVersionSent = 0 then
    let _ ← (pushMessage sha256 magic (.version p.localVersion) .kHigh).attempt
  let _ ← (pushMessageType sha256 magic .kVerAck .kHigh).attempt
  onMessage (.version p.remoteVersion)

/-- `process_inbound_message`, for a `ping` or a `pong`. -/
def processPingPong (payload : MsgPingPongPayload) : PeerM Unit := do
  if payload.type = .kPing then
    match MsgPingPongPayload.new .kPong payload.nonce with
    | .error f => Act.raise f
    | .ok pong => pushMessage sha256 magic (.pingPong pong) .kHigh
  else
    let p ← get
    if !p.pingMeter.pingInProgress then throw (.net .kUnsolicitedPong)
    match p.pingMeter.pingNonce with
    | none => throw (.net .kUnsolicitedPong)
    | some expectedNonce =>
      if payload.nonce ≠ expectedNonce then throw (.net .kInvalidPingPongNonce)
      set { p with pingMeter := p.pingMeter.endSample }

def processInboundMessage (payload : MessagePayload) : PeerM Unit := do
  match payload with
  | .version remote => processVersion sha256 magic remote
  | .pingPong q => processPingPong sha256 magic q
  | .null q =>
    if q.type = .kVerAck then return
    let p ← get
    -- a repeated `getaddr` on an inbound connection is ignored, to avoid fingerprinting
    if q.type = .kGetAddr ∧ p.connectionType = .kInbound ∧ (p.inboundMessageMetrics .kGetAddr).count > 1 then return
    onMessage payload
  | _ => onMessage payload

/-- The metrics after a message of `size` bytes. -/
def countMessage (type : MessageType) (size : Nat) : PeerM Unit :=
  modify fun p => { p with
    inboundMessageMetrics := Function.update p.inboundMessageMetrics type ((p.inboundMessageMetrics type).add size) }

/-- What happens to a complete message with this payload: the handshake check, the processing, the
metrics. -/
def receive (bytes : Bytes) (payload : MessagePayload) : PeerM Unit := do
  validateHandshake .kInbound (readHeader bytes).getType
  processInboundMessage sha256 magic payload
  countMessage (readHeader bytes).getType bytes.length

/-! ## What a message does not touch -/

/-- Nothing that happens to a message of this type concerns `f`. -/
structure Untouched {τ : Type} (f : Peer → τ) (type : MessageType) : Prop where
  version : ∀ (p : Peer) remote version, f { p with remoteVersion := remote, version := version } = f p
  push : ∀ (payload : MessagePayload) priority, payload.type ≠ .kPing →
    Act.Keeps f (pushMessage sha256 magic payload priority)
  notify : ∀ payload : MessagePayload, payload.type = type → Act.Keeps f (onMessage payload)
  sample : type = .kPong → ∀ p : Peer, f { p with pingMeter := p.pingMeter.endSample } = f p

open Act
variable {sha256 magic} {τ : Type} {f : Peer → τ}

theorem Untouched.pushMessageType {type : MessageType} (h : Untouched sha256 magic f type) (t : MessageType)
    (priority : MessagePriority) : Keeps f (pushMessageType sha256 magic t priority) := by
  unfold Peer.pushMessageType
  cases MsgNullPayload.new t with
  | error e => exact Keeps.raise e
  | ok payload =>
      refine h.push _ priority fun hping => ?_
      have hmem := payload.accepted
      rw [show payload.type = .kPing from hping] at hmem
      exact absurd hmem (by decide)

theorem Untouched.processVersion (h : Untouched sha256 magic f .kVersion) (remote : MsgVersionPayload) :
    Keeps f (processVersion sha256 magic remote) := by
  refine Keeps.get.bind fun p => Keeps.guard _ _ (Keeps.guard _ _ (Keeps.bind ?_ fun _ => ?_))
  · exact Keeps.modify fun p => h.version p _ _
  · have hverAck : Keeps f (do
        let _ ← (Peer.pushMessageType sha256 magic .kVerAck .kHigh).attempt
        Peer.onMessage (.version p.remoteVersion)) :=
      (h.pushMessageType _ _).attempt.bind fun _ => h.notify _ rfl
    exact Keeps.ite _ ((h.push _ _ (by simp [MessagePayload.type])).attempt.bind fun _ => hverAck) hverAck

theorem Untouched.processPingPong {payload : MsgPingPongPayload} (h : Untouched sha256 magic f payload.type) :
    Keeps f (processPingPong sha256 magic payload) := by
  unfold Peer.processPingPong
  by_cases hping : payload.type = .kPing
  · rw [if_pos hping]
    exact h.push _ _ (by simp [MessagePayload.type])
  · have hpong : payload.type = .kPong := by
      have hmem := payload.accepted
      simp only [pingPongTypes, List.mem_cons, List.not_mem_nil, or_false] at hmem
      exact hmem.resolve_left hping
    rw [if_neg hping]
    intro p
    simp only [run_bind, run_get, run_ite, run_throw]
    split_ifs
    · rfl
    · cases p.pingMeter.pingNonce with
      | none => rfl
      | some expectedNonce =>
          simp only [run_bind, run_ite, run_throw]
          split_ifs
          · rfl
          · exact h.sample hpong p

theorem Untouched.processInboundMessage {payload : MessagePayload} (h : Untouched sha256 magic f payload.type) :
    Keeps f (processInboundMessage sha256 magic payload) := by
  cases payload with
  | version remote => exact Untouched.processVersion h remote
  | pingPong q => exact Untouched.processPingPong h
  | null q =>
      refine Keeps.ite _ (Keeps.pure _) (Keeps.get.bind fun p => ?_)
      exact Keeps.ite _ (Keeps.pure _) (h.notify _ rfl)
  | getHeaders q => exact h.notify _ rfl
  | addr q => exact h.notify _ rfl
  | inventory q => exact h.notify _ rfl
  | reject q => exact h.notify _ rfl

end

end Peer

end Znode.Node
