import Mathlib
import Znode.Node.Inbound

/-!
# Requests for addresses

On an inbound connection a repeated `getaddr` is not forwarded to the hub. The guard reads the metrics, and a message
is counted only after it was processed.

* `Peer.getAddrs`, `processedGetAddrs` : what the guard depends on, and how many requests it has decided on;
* `Tallied` : the invariant of a session. The first two requests are forwarded;
* `getAddr_forwarded_iff` : at most one is forwarded exactly when at most one comes.
-/

namespace Znode
open Znode.Lib Znode.Core Znode.Net Znode.Node Act

/-! ## The type of a payload -/

namespace Net.MessagePayload

theorem fromType_type {type : MessageType} {blank : MessagePayload} (h : fromType type = .ok (some blank)) :
    blank.type = type := by
  cases type <;> cases h <;> rfl

/-- Reading a payload does not change its type. -/
theorem serialization_type {action : Action} {p q : MessagePayload} {s t : SDataStream}
    (h : (serialization action).run (p, s) = .ok () (q, t)) : q.type = p.type := by
  cases p with
  | null p =>
      cases h
      rfl
  | version p =>
      obtain ⟨y, -, rfl⟩ := SerOf.run_of_lift h
      rfl
  | pingPong p =>
      obtain ⟨y, hrun, rfl⟩ := SerOf.run_of_lift h
      rw [MsgPingPongPayload.serialization, SerOf.field_run] at hrun
      split at hrun
      · cases hrun
        rfl
      · cases hrun
  | getHeaders p =>
      obtain ⟨y, -, rfl⟩ := SerOf.run_of_lift h
      rfl
  | addr p =>
      obtain ⟨y, -, rfl⟩ := SerOf.run_of_lift h
      rfl
  | inventory p =>
      obtain ⟨y, hrun, rfl⟩ := SerOf.run_of_lift h
      rw [MsgInventoryPayload.serialization, SerOf.member_run] at hrun
      split at hrun
      · cases hrun
        rfl
      · cases hrun
  | reject p =>
      obtain ⟨y, -, rfl⟩ := SerOf.run_of_lift h
      rfl

theorem eq_null_of_type {p : MessagePayload} (h : p.type = .kGetAddr) : p = null ⟨.kGetAddr, by decide⟩ := by
  cases p with
  | null q =>
      cases q
      cases h
      rfl
  | pingPong q =>
      have hmem := q.accepted
      rw [show q.type = .kGetAddr from h] at hmem
      exact absurd hmem (by decide)
  | inventory q =>
      have hmem := q.accepted
      rw [show q.type = .kGetAddr from h] at hmem
      exact absurd hmem (by decide)
  | version q => cases h
  | getHeaders q => cases h
  | addr q => cases h
  | reject q => cases h

end Net.MessagePayload

namespace Node

theorem readPayload_type {m m' : Message} {payload : MessagePayload} (h : readPayload.run m = .ok payload m') :
    payload.type = m.getType := by
  obtain ⟨-, blank, s, hblank, hser, -⟩ := readPayload_ok.mp h
  rw [MessagePayload.serialization_type hser, MessagePayload.fromType_type hblank]

/-! ## What is forwarded -/

/-- The requests handed to the hub. -/
def Peer.forwardedGetAddrs (p : Peer) : Nat := p.notified.countP fun payload => payload.type = .kGetAddr

/-- What the guard depends on, and the requests it has let through. -/
def Peer.getAddrs (p : Peer) : ConnectionType × Nat × Nat :=
  (p.connectionType, (p.inboundMessageMetrics .kGetAddr).count, p.forwardedGetAddrs)

/-- The requests that reached `process_inbound_message`. -/
def processedGetAddrs (n : Node) : Nat := n.processed.countP fun x => x.2.type = .kGetAddr

section
variable (sha256 : Bytes → Octets 32) (magic : Octets 4)

theorem Peer.getAddrs_notify (p : Peer) {payload : MessagePayload} (h : payload.type ≠ .kGetAddr) :
    { p with notified := p.notified ++ [payload] }.getAddrs = p.getAddrs := by
  simp [getAddrs, forwardedGetAddrs, List.countP_append, h]

theorem getAddrs_validateHandshake (direction : DataDirectionMode) (type : MessageType) :
    Keeps Peer.getAddrs (Peer.validateHandshake direction type) := by
  intro p
  rw [Peer.validateHandshake, run_zoom]
  cases (validateMessageForProtocolHandshake direction type).run p.handshake <;> rfl

theorem getAddrs_pushMessage (payload : MessagePayload) (priority : MessagePriority) :
    Keeps Peer.getAddrs (Peer.pushMessage sha256 magic payload priority) := by
  intro p
  simp only [Peer.pushMessage, Act.run]
  cases Message.push sha256 payload (Message.new p.version magic) <;> rfl

/-- A message of another type. -/
theorem getAddrs_processInboundMessage {payload : MessagePayload} (h : payload.type ≠ .kGetAddr) :
    Keeps Peer.getAddrs (Peer.processInboundMessage sha256 magic payload) :=
  Peer.Untouched.processInboundMessage
    ⟨fun _ _ _ => rfl, fun q priority _ => getAddrs_pushMessage sha256 magic q priority,
    fun _ hq => Keeps.modify fun p => p.getAddrs_notify (hq ▸ h), fun _ _ => rfl⟩

/-- A request always returns, and is forwarded while at most one was counted. -/
theorem processGetAddr_ensures {payload : MessagePayload} (h : payload.type = .kGetAddr) (p : Peer) :
    (Peer.processInboundMessage sha256 magic payload).Ensures p fun _ p' =>
      p'.connectionType = p.connectionType ∧ p'.inboundMessageMetrics = p.inboundMessageMetrics ∧
        p'.forwardedGetAddrs =
          if p.connectionType = .kInbound ∧ (p.inboundMessageMetrics .kGetAddr).count > 1 then p.forwardedGetAddrs
          else p.forwardedGetAddrs + 1 := by
  obtain rfl := MessagePayload.eq_null_of_type h
  unfold Peer.processInboundMessage
  simp only [reduceCtorEq, if_false, true_and]
  refine Ensures.step (run_get p) ?_
  split_ifs with hguard
  · exact Ensures.pure ⟨rfl, rfl, rfl⟩
  · refine ⟨(), _, rfl, rfl, rfl, ?_⟩
    simp [Peer.forwardedGetAddrs, List.countP_append, MessagePayload.type]

theorem getAddrs_countMessage {type : MessageType} (h : type ≠ .kGetAddr) (size : Nat) :
    Keeps Peer.getAddrs (Peer.countMessage type size) :=
  Keeps.modify fun p => by simp [Peer.getAddrs, Peer.forwardedGetAddrs, Function.update_of_ne (Ne.symm h)]

end

/-! ## The invariant -/

/-- The counts of requests on an inbound connection, with those that were processed. -/
def Tallied (processed : Nat) (getAddrs : ConnectionType × Nat × Nat) : Prop :=
  getAddrs.1 = .kInbound ∧ ((processed = 0 ∧ getAddrs.2 = (0, 0)) ∨ (processed = 1 ∧ getAddrs.2 = (1, 1)) ∨
    (2 ≤ processed ∧ 2 ≤ getAddrs.2.2))

def IsTallied (n : Node) : Prop := Tallied n.processedGetAddrs n.peer.getAddrs

theorem Tallied.request {processed counted forwarded : Nat} {type : ConnectionType}
    (h : Tallied processed (type, counted, forwarded)) :
    Tallied (processed + 1)
      (type, (counted + 1) % 2 ^ 32, if type = .kInbound ∧ counted > 1 then forwarded else forwarded + 1) := by
  obtain ⟨hinbound, ⟨hprocessed, hcounts⟩ | ⟨hprocessed, hcounts⟩ | ⟨hprocessed, hforwarded⟩⟩ := h
  · cases hcounts
    exact ⟨hinbound, Or.inr (Or.inl ⟨by rw [hprocessed], by simp⟩)⟩
  · cases hcounts
    exact ⟨hinbound, Or.inr (Or.inr ⟨by omega, by simp⟩)⟩
  · refine ⟨hinbound, Or.inr (Or.inr ⟨by omega, ?_⟩)⟩
    change 2 ≤ forwarded at hforwarded
    change 2 ≤ if type = .kInbound ∧ counted > 1 then forwarded else forwarded + 1
    split_ifs <;> omega

theorem processedGetAddrs_logProcessed (n : Node) (bytes : Bytes) (payload : MessagePayload) :
    (n.logProcessed (bytes, payload)).processedGetAddrs =
      n.processedGetAddrs + if payload.type = .kGetAddr then 1 else 0 := by
  by_cases h : payload.type = .kGetAddr <;> simp [processedGetAddrs, logProcessed, List.countP_append, h]

section
variable (sha256 : Bytes → Octets 32) (magic : Octets 4)

theorem onPeer_tallied {α : Type} {c : PeerM α} (hc : Keeps Peer.getAddrs c) {f : Parsing} (h : f.node.IsTallied) :
    Within (fun f => f.node.IsTallied) (onPeer c) f fun _ f' =>
      f'.node.IsTallied ∧ f'.node.inboundMessage = f.node.inboundMessage := by
  refine Within.focus ((Within.of_keeps (P := Tallied f.node.processedGetAddrs) hc h).mono fun _ _ hp => ⟨hp, rfl⟩)

theorem processMessage_tallied {f : Parsing} (h : f.node.IsTallied) (bytes : Bytes) (payload : MessagePayload)
    (k : Parsing → Nat) : Within (fun f => f.node.IsTallied) (do
      onNode (logProcessed (bytes, payload))
      onPeer (Peer.processInboundMessage sha256 magic payload)
      onPeer (Peer.countMessage payload.type (k (← get)))
      onNode resetMessage) f fun _ f' => f'.node.IsTallied := by
  refine Within.step (run_modify _ _) ?_
  by_cases ht : payload.type = .kGetAddr
  · -- nothing can go wrong between the guard and the counter
    obtain ⟨_, p', hrun, htype, hmetrics, hforwarded⟩ := processGetAddr_ensures sha256 magic ht f.node.peer
    let n₁ := f.node.logProcessed (bytes, payload)
    have hprocess : (onPeer (Peer.processInboundMessage sha256 magic payload)).run { f with node := n₁ } =
        .ok () { f with node := n₁.setPeer p' } := by
      rw [onPeer, run_focus]
      simp only [peer_logProcessed, hrun, n₁]
    refine Within.step hprocess (Within.step (run_get _) (Within.step rfl ?_))
    change Tallied _ _
    have hnext := Tallied.request h
    rw [ht]
    convert hnext using 1
    · exact (processedGetAddrs_logProcessed ..).trans (by rw [if_pos ht])
    · simp only [Peer.getAddrs, peer_resetMessage, peer_setPeer, htype, hmetrics, Function.update_self,
        Prod.mk.injEq, true_and]
      exact ⟨rfl, hforwarded⟩
  · have h₁ : (f.node.logProcessed (bytes, payload)).IsTallied := by
      unfold IsTallied at h ⊢
      rwa [processedGetAddrs_logProcessed, if_neg ht]
    refine (onPeer_tallied (getAddrs_processInboundMessage sha256 magic ht) h₁).bind fun _ f₂ h₂ => ?_
    refine Within.step (run_get _) ?_
    refine (onPeer_tallied (getAddrs_countMessage ht _) h₂.1).bind fun _ f₃ h₃ => ?_
    exact h₃.1

theorem parseMessage_tallied {f : Parsing} (h : f.node.IsTallied) :
    Within (fun f => f.node.IsTallied) (parseMessage sha256 magic) f fun _ f' => f'.node.IsTallied := by
  unfold parseMessage
  refine Within.step (run_get _) ?_
  refine Within.bind (Q := fun _ f₁ => f₁.node.IsTallied ∧ f₁.node.inboundMessage.isSome)
    (Within.focus (Within.of_forall (fun _ => h) fun _ _ _ => ⟨h, rfl⟩)) ?_
  rintro ⟨result, rest⟩ f₁ ⟨h₁, hsome⟩
  obtain ⟨m, hm⟩ := Option.isSome_iff_exists.mp hsome
  refine Within.step (run_modify _ _) (Within.bind (Within.ofExcept h₁ fun _ _ => rfl) ?_)
  rintro _ f₂ rfl
  refine Within.step (run_get _) ?_
  dsimp only
  refine (onPeer_tallied (f := { f₁ with data := rest }) (getAddrs_validateHandshake _ _) h₁).bind fun _ f₃ h₃ => ?_
  -- the payload has the type of the message
  have hmessage : f₃.node.message magic = f₁.node.message magic := by
    simp only [message, h₃.2, hm, Option.getD_some]
  refine Within.bind (Q := fun payload f₄ =>
    f₄.node.IsTallied ∧ payload.type = (f₁.node.message magic).getType)
    (Within.focus (Within.of_forall (fun _ => h₃.1) fun payload _ hread => ⟨h₃.1, ?_⟩)) ?_
  · rw [readPayload_type hread, hmessage]
  rintro payload f₄ ⟨h₄, htype⟩
  refine Within.step (run_modify _ _) (Within.step (run_get _) ?_)
  split_ifs with hflood
  · exact h₄
  refine Within.step (run_get _) ?_
  dsimp only
  rw [← htype]
  exact processMessage_tallied sha256 magic (f := { f₄ with messagesParsed := f₄.messagesParsed + 1 }) h₄ _ payload
    fun f => (f.node.message magic).size

theorem parseLoop_tallied (rounds : Nat) {f : Parsing} (h : f.node.IsTallied) :
    Within (fun f => f.node.IsTallied) (parseLoop sha256 magic rounds) f fun _ f' => f'.node.IsTallied := by
  induction rounds generalizing f with
  | zero => exact h
  | succ rounds ih =>
      unfold parseLoop
      refine Within.step (run_get _) ?_
      split_ifs
      · exact Within.pure h
      refine Within.bind (parseMessage_tallied sha256 magic h).attempt ?_
      intro r f₁ h₁
      cases r with
      | ok _ => exact ih h₁
      | error e =>
          simp only
          split_ifs
          · exact ih h₁
          · exact h₁

theorem parseMessages_tallied (bytesTransferred : Nat) {n : Node} (h : n.IsTallied) :
    Within IsTallied (parseMessages sha256 magic bytesTransferred) n fun _ n' => n'.IsTallied := by
  have hloop := parseLoop_tallied sha256 magic ((n.receiveBuffer.take bytesTransferred).length + 1)
    (f := { node := n, data := n.receiveBuffer.take bytesTransferred }) h
  simp only [Within, parseMessages, Act.run] at hloop ⊢
  split at hloop <;> simp_all

theorem handleRead_tallied (bytes : Bytes) {n : Node} (h : n.IsTallied) :
    Within IsTallied (handleRead sha256 magic bytes) n fun _ n' => n'.IsTallied := by
  unfold handleRead
  split_ifs
  · exact Within.pure h
  refine Within.step (run_modify _ _) (Within.bind (parseMessages_tallied sha256 magic bytes.length h) ?_)
  intro r n₁ h₁
  refine Within.step (run_modify _ _) ?_
  cases r with
  | ok _ => exact Within.pure h₁
  | error e => exact h₁

theorem handleReads_tallied {reads : List ((Peer → Peer) × Bytes)}
    (hreads : ∀ read ∈ reads, ∀ p, (read.1 p).getAddrs = p.getAddrs) {n : Node} (h : n.IsTallied) :
    Within IsTallied (handleReads sha256 magic reads) n fun _ n' => n'.IsTallied := by
  induction reads generalizing n with
  | nil => exact Within.pure h
  | cons read reads ih =>
      obtain ⟨change, bytes⟩ := read
      unfold handleReads
      refine Within.step (run_modify _ _) ?_
      have hchanged : { n with peer := change n.peer }.IsTallied := by
        change Tallied n.processedGetAddrs (change n.peer).getAddrs
        rw [hreads _ List.mem_cons_self]
        exact h
      refine (handleRead_tallied sha256 magic bytes hchanged).bind fun _ n₁ h₁ => ?_
      exact ih (fun read hread => hreads read (List.mem_cons_of_mem _ hread)) h₁

/-- **At most one `getaddr` is forwarded exactly when at most one is processed**, in any session on an inbound
connection, whatever bytes come and whatever the rest of the node does between the reads. -/
theorem getAddr_forwarded_iff (reads : List ((Peer → Peer) × Bytes))
    (hreads : ∀ read ∈ reads, ∀ p, (read.1 p).getAddrs = p.getAddrs) (n : Node) (hprocessed : n.processed = [])
    (hstart : n.peer.getAddrs = (.kInbound, 0, 0)) :
    ((handleReads sha256 magic reads).run n).state.peer.forwardedGetAddrs ≤ 1 ↔
      ((handleReads sha256 magic reads).run n).state.processedGetAddrs ≤ 1 := by
  have hn : n.IsTallied := by
    unfold IsTallied
    rw [hstart, processedGetAddrs, hprocessed]
    exact ⟨rfl, Or.inl ⟨rfl, rfl⟩⟩
  obtain ⟨-, ⟨hcount, hgets⟩ | ⟨hcount, hgets⟩ | ⟨hcount, hforwarded⟩⟩ :=
    (handleReads_tallied sha256 magic hreads hn).state
  · rw [hcount, show Peer.forwardedGetAddrs _ = 0 from congrArg Prod.snd hgets]
  · rw [hcount, show Peer.forwardedGetAddrs _ = 1 from congrArg Prod.snd hgets]
  · exact iff_of_false (not_le.mpr hforwarded) (not_le.mpr hcount)

end

def messageBytes (payload : MessagePayload) : Bytes :=
  ((Message.push (fun _ => kEmptyHash) payload).run
    (Message.new kDefaultProtocolVersion (Octets.zero 4))).state.serStream.buffer

/-- The node sends its `version` and its `verack`. -/
def sendsHello : PeerM Unit := do
  Peer.validateHandshake .kOutbound .kVersion
  Peer.validateHandshake .kOutbound .kVerAck

/-- A peer that connects, says hello and asks for addresses twice. -/
def asksTwice : List ((Peer → Peer) × Bytes) :=
  [(id, messageBytes (.version { protocolVersion := kDefaultProtocolVersion, nonce := 1 })),
    (fun p => (sendsHello.run p).state, messageBytes (.null ⟨.kVerAck, kVerAck_mem_nullTypes⟩)),
    (id, messageBytes (.null ⟨.kGetAddr, kGetAddr_mem_nullTypes⟩)),
    (id, messageBytes (.null ⟨.kGetAddr, kGetAddr_mem_nullTypes⟩))]

/-- A node that was connected to. -/
def accepting : Node := { peer := { connectionType := .kInbound } }

theorem getAddr_forwarded_iff_once :
    ((handleReads (fun _ => kEmptyHash) (Octets.zero 4) (asksTwice.take 3)).run accepting).state.peer.forwardedGetAddrs
      ≤ 1 := by
  refine (getAddr_forwarded_iff _ _ (asksTwice.take 3) ?_ accepting rfl rfl).mpr (by decide +kernel)
  intro read hread p
  simp only [asksTwice, List.take_succ_cons, List.take_zero, List.mem_cons, List.not_mem_nil, or_false] at hread
  rcases hread with rfl | rfl | rfl
  · rfl
  · exact ((getAddrs_validateHandshake _ _).bind fun _ => getAddrs_validateHandshake _ _ : Keeps _ sendsHello) p
  · rfl

/-- Both requests are forwarded. -/
theorem getAddr_forwarded_twice :
    ((handleReads (fun _ => kEmptyHash) (Octets.zero 4) asksTwice).run accepting).state.stopping = false ∧
      ((handleReads (fun _ => kEmptyHash) (Octets.zero 4) asksTwice).run accepting).state.peer.forwardedGetAddrs =
        2 := by
  decide +kernel

end Node

end Znode
