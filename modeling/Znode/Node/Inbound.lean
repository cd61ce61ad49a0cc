import Mathlib
import Znode.Node.Peer

/-!
# The inbound stream of a node

* `Node.parseMessages`, `Node.handleRead` : the loop over the bytes of one read, with its exceptions;
* `Peer.serve` : the same node on whole messages, without bytes;
* `reads_deliver` : on a stream of acceptable messages the reads do to the node what `serve` does, however
  the stream is cut; every message is processed once, in order, and the unfinished rest is kept.
-/

namespace Znode
open Znode.Lib Znode.Core Znode.Net Znode.Node

/-- A node: its receiving side, and the rest. -/
structure Node where
  peer : Node.Peer
  inboundMessage : Option Message := none
  receiveBuffer : Bytes := []
  /-- The calls of `process_inbound_message`: the bytes of the message and its payload. -/
  processed : List (Bytes × MessagePayload) := []
  /-- `stop` was posted. -/
  stopping : Bool := false

namespace Node

def kMaxMessagesPerRead : Nat := 32

/-- The frame of `parse_messages`: the node, the data not parsed yet, the messages parsed. -/
structure Parsing where
  node : Node
  data : Bytes
  messagesParsed : Nat := 0

abbrev Parse := Act Error Fault Parsing

/-- `*inbound_message_`, which is created when there is none. -/
def message (magic : Octets 4) (n : Node) : Message :=
  n.inboundMessage.getD (Message.new n.peer.version magic)

def setMessage (m : Message) (n : Node) : Node := { n with inboundMessage := some m }

def resetMessage (n : Node) : Node := { n with inboundMessage := none }

def setPeer (p : Peer) (n : Node) : Node := { n with peer := p }

def logProcessed (x : Bytes × MessagePayload) (n : Node) : Node := { n with processed := n.processed ++ [x] }

section
variable (n : Node) (m m' : Message) (p p' : Peer) (x : Bytes × MessagePayload) (magic : Octets 4)

@[simp] theorem message_setMessage : (n.setMessage m).message magic = m := rfl

@[simp] theorem peer_setMessage : (n.setMessage m).peer = n.peer := rfl

@[simp] theorem peer_setPeer : (n.setPeer p).peer = p := rfl

@[simp] theorem peer_logProcessed : (n.logProcessed x).peer = n.peer := rfl

@[simp] theorem peer_resetMessage : n.resetMessage.peer = n.peer := rfl

@[simp] theorem setMessage_setMessage : (n.setMessage m).setMessage m' = n.setMessage m' := rfl

@[simp] theorem setPeer_setPeer : (n.setPeer p).setPeer p' = n.setPeer p' := rfl

@[simp] theorem setPeer_setMessage : (n.setMessage m).setPeer p = (n.setPeer p).setMessage m := rfl

@[simp] theorem logProcessed_setMessage : (n.setMessage m).logProcessed x = (n.logProcessed x).setMessage m := rfl

@[simp] theorem logProcessed_setPeer : (n.setPeer p).logProcessed x = (n.logProcessed x).setPeer p := rfl

@[simp] theorem resetMessage_setMessage : (n.setMessage m).resetMessage = n.resetMessage := rfl

end

def onNode (change : Node → Node) : Parse Unit := modify fun f => { f with node := change f.node }

/-- `deserialize` of a new payload object from the message's stream. -/
def deserializePayload (payload : MessagePayload) : Msg MessagePayload :=
  Act.zoom (fun m => (payload, m.serStream)) (fun ps m => { m with serStream := ps.2 }) do
    MessagePayload.serialization .kDeserialize
    return (← get).1

/-- The payload of a complete message, which must not have more bytes than that. -/
def readPayload : Msg MessagePayload := do
  let m ← get
  Act.require .assert (m.getType ≠ .kMissingOrUnknown)
  match MessagePayload.fromType m.getType with
  | .error f => Act.raise f
  | .ok none => throw (.net .kMessagePayLoadUnhandleable)
  | .ok (some payload) =>
    let payload ← deserializePayload payload
    if !(← get).serStream.eof then throw (.net .kMessagePayloadExtraData)
    return payload

section
variable (sha256 : Bytes → Octets 32) (magic : Octets 4)

def onMessage {α : Type} (c : Msg α) : Parse α :=
  Act.focus (·.node.message magic) (fun m f => { f with node := f.node.setMessage m }) c

def onPeer {α : Type} (c : PeerM α) : Parse α :=
  Act.focus (·.node.peer) (fun p f => { f with node := f.node.setPeer p }) c

/-- The body of the loop, between `try` and `catch`. -/
def parseMessage : Parse Unit := do
  let (result, rest) ← onMessage magic (Message.write sha256 (← get).data)
  modify fun f => { f with data := rest }
  Act.ofExcept result
  let type := ((← get).node.message magic).getType
  onPeer (Peer.validateHandshake .kInbound type)
  let payload ← onMessage magic readPayload
  modify fun f => { f with messagesParsed := f.messagesParsed + 1 }
  if (← get).messagesParsed > kMaxMessagesPerRead then throw (.net .kMessageFloodingDetected)
  onNode (logProcessed (((← get).node.message magic).serStream.buffer, payload))
  onPeer (Peer.processInboundMessage sha256 magic payload)
  onPeer (Peer.countMessage type ((← get).node.message magic).size)
  onNode resetMessage

/-- The loop of `parse_messages`. The first argument bounds the number of rounds. -/
def parseLoop : Nat → Parse (Except Error Unit)
  | 0 => Act.raise .loop
  | rounds + 1 => do
    if (← get).data.isEmpty then return .ok ()
    match ← (parseMessage sha256 magic).attempt with
    | .ok _ => parseLoop rounds
    | .error e =>
      if Message.isIncomplete e then parseLoop rounds
      else
        onNode resetMessage
        return .error e

/-- `parse_messages`, on the first `bytesTransferred` bytes of the buffer. -/
def parseMessages (bytesTransferred : Nat) : Act Error Fault Node (Except Error Unit) := fun n =>
  let data := n.receiveBuffer.take bytesTransferred
  match (parseLoop sha256 magic (data.length + 1)).run { node := n, data := data } with
  | .ok r f => .ok r f.node
  | .error e f => .error e f.node
  | .fault x f => .fault x f.node

/-- `handle_read`, of bytes received without an error. -/
def handleRead (bytes : Bytes) : Act Error Fault Node Unit := do
  if bytes = [] then return
  modify fun n => { n with receiveBuffer := n.receiveBuffer ++ bytes }
  let parseResult ← parseMessages sha256 magic bytes.length
  modify fun n => { n with receiveBuffer := n.receiveBuffer.drop bytes.length }
  match parseResult with
  | .ok _ => return
  | .error _ => modify fun n => { n with stopping := true }

/-- Reads one after the other. Before each of them the rest of the node may have changed: messages were
sent, timers have fired. -/
def handleReads : List ((Peer → Peer) × Bytes) → Act Error Fault Node Unit
  | [] => pure ()
  | (change, bytes) :: reads => do
    modify fun n => { n with peer := change n.peer }
    handleRead sha256 magic bytes
    handleReads reads

end

/-! ## The node on whole messages -/

namespace Peer
variable (sha256 : Bytes → Octets 32) (magic : Octets 4)

def receiveAll : List (Bytes × MessagePayload) → PeerM Unit
  | [] => pure ()
  | x :: items => do
    receive sha256 magic x.1 x.2
    receiveAll items

/-- Receives the messages each read completes, with the changes between the reads. -/
def serve : List ((Peer → Peer) × List (Bytes × MessagePayload)) → PeerM Unit
  | [] => pure ()
  | (change, items) :: reads => do
    modify change
    receiveAll sha256 magic items
    serve reads

end Peer

/-- `Message::write` accepts the bytes as one complete message. -/
def Accepted (sha256 : Bytes → Octets 32) (magic : Octets 4) (bytes : Bytes) : Prop :=
  ∃ version m, (Message.write sha256 bytes).run (Message.new version magic) = .ok (.ok (), []) m

/-- The deserializer of the message's type accepts its payload. -/
def Decodes (magic : Octets 4) (bytes : Bytes) (payload : MessagePayload) : Prop :=
  ∃ version m, readPayload.run (Message.validated version magic true bytes) = .ok payload m

/-! ## The protocol version of a message in flight does not matter -/

theorem checkFields_version (v v' : Int) (h : MessageHeader) : h.checkFields v = h.checkFields v' := by
  obtain ⟨hmin, hmax⟩ := definitionOf_protocolVersion h.messageType
  unfold MessageHeader.checkFields MessageHeader.getDefinition
  simp only [hmin, hmax, Option.any_none]

theorem scan_version (sha256 : Bytes → Octets 32) (v v' : Int) (magic : Octets 4) (B : Bytes) :
    scan sha256 v magic B = scan sha256 v' magic B := by
  unfold scan checkHeader
  rw [checkFields_version v v']

theorem Accepted.scan {sha256 : Bytes → Octets 32} {magic : Octets 4} {bytes : Bytes}
    (h : Accepted sha256 magic bytes) (v : Int) : scan sha256 v magic bytes = .done bytes.length := by
  obtain ⟨v', m, hrun⟩ := h
  have hne : bytes ≠ [] := by
    rintro rfl
    simp [Message.write, Message.new] at hrun
  have hanswer := Message.write_run sha256 v' magic (C := []) rfl hne
  rw [List.nil_append, show Message.pending v' magic [] = Message.new v' magic from rfl, hrun] at hanswer
  rw [scan_version sha256 v v']
  cases hs : Net.scan sha256 v' magic bytes with
  | more =>
      rw [hs] at hanswer
      obtain ⟨e, -, he⟩ := hanswer
      simp at he
  | fail e =>
      rw [hs] at hanswer
      obtain ⟨-, m', rest, he⟩ := hanswer
      simp at he
  | done n =>
      rw [hs] at hanswer
      simp only [Message.Answers, Outcome.ok.injEq, Prod.mk.injEq, true_and] at hanswer
      have hdrop : bytes.length ≤ n := List.drop_eq_nil_iff.mp hanswer.1.symm
      have hn := (Message.scan_done sha256 hs).2
      rw [show n = bytes.length by omega]

theorem deserializePayload_run (payload : MessagePayload) (m : Message) : (deserializePayload payload).run m =
    match (MessagePayload.serialization .kDeserialize).run (payload, m.serStream) with
    | .ok _ ps => .ok ps.1 { m with serStream := ps.2 }
    | .error e ps => .error e { m with serStream := ps.2 } := by
  rw [deserializePayload, Act.run_zoom, EStateM.run_bind]
  cases (MessagePayload.serialization .kDeserialize).run (payload, m.serStream) <;> rfl

theorem readPayload_ok {m m' : Message} {payload : MessagePayload} : readPayload.run m = .ok payload m' ↔
    m.getType ≠ .kMissingOrUnknown ∧ ∃ blank s, MessagePayload.fromType m.getType = .ok (some blank) ∧
      (MessagePayload.serialization .kDeserialize).run (blank, m.serStream) = .ok () (payload, s) ∧
      s.eof = true ∧ m' = { m with serStream := s } := by
  by_cases ht : m.getType = .kMissingOrUnknown
  · simp [readPayload, ht]
  · cases hblank : MessagePayload.fromType m.getType with
    | error f => simp [readPayload, ht, hblank]
    | ok o =>
        cases o with
        | none => simp [readPayload, ht, hblank]
        | some blank =>
            simp only [readPayload, Act.run_bind, Act.run_get, Act.run_require, ht, hblank, deserializePayload_run,
              ne_eq, not_false_eq_true, decide_true, if_true, true_and, Except.ok.injEq, Option.some.injEq]
            cases hser : (MessagePayload.serialization .kDeserialize).run (blank, m.serStream) with
            | error e ps => simp [hser]
            | ok u ps =>
                obtain ⟨q, s⟩ := ps
                by_cases heof : s.eof = true
                · simpa [heof, hser] using fun _ => eq_comm
                · simp [heof, hser]

/-- Reading the payload does not depend on the version, and leaves the bytes. -/
theorem Decodes.run {magic : Octets 4} {bytes : Bytes} {payload : MessagePayload}
    (h : Decodes magic bytes payload) (v : Int) :
    ∃ m, readPayload.run (Message.validated v magic true bytes) = .ok payload m ∧ m.serStream.buffer = bytes := by
  obtain ⟨v', m', hrun⟩ := h
  obtain ⟨ht, blank, s, hblank, hser, heof, -⟩ := readPayload_ok.mp hrun
  have hrelated : Along MessagePayload (SameBytes bytes) (blank, (Message.validated v' magic true bytes).serStream)
      (blank, (Message.validated v magic true bytes).serStream) := ⟨rfl, rfl, v, rfl⟩
  obtain ⟨⟨p, t⟩, ht', hp, hB, v'', hv''⟩ :=
    (readStable_sameBytes bytes).messagePayload _ _ _ _ hrelated hser
  simp only at hp hB hv''
  subst hp hv''
  refine ⟨_, readPayload_ok.mpr ⟨ht, blank, _, hblank, ht', heof, rfl⟩, hB⟩

/-! ## One round of the loop -/

/-- The node holds the bytes `C` of a message that is not complete. -/
def Holds (magic : Octets 4) (n : Node) (C : Bytes) : Prop :=
  C = [] ∧ n.inboundMessage = none ∨ C ≠ [] ∧ ∃ v, n.inboundMessage = some (Message.pending v magic C)

section
variable (sha256 : Bytes → Octets 32) (magic : Octets 4) {f : Parsing} {C : Bytes} {v : Int}

theorem Holds.message {n : Node} (h : Holds magic n C) : ∃ v, n.message magic = Message.pending v magic C := by
  rcases h with ⟨rfl, hnone⟩ | ⟨-, v, hsome⟩
  · exact ⟨n.peer.version, by rw [Node.message, hnone]; rfl⟩
  · exact ⟨v, by rw [Node.message, hsome]; rfl⟩

theorem parseMessage_incomplete (hm : f.node.message magic = Message.pending v magic C)
    (hC : scan sha256 v magic C = .more) (hdata : f.data ≠ []) (hs : scan sha256 v magic (C ++ f.data) = .more) :
    ∃ e, Message.isIncomplete e = true ∧ (parseMessage sha256 magic).run f =
      .error e { f with node := f.node.setMessage (Message.pending v magic (C ++ f.data)), data := [] } := by
  have hanswer := Message.write_run sha256 v magic hC hdata
  rw [hs] at hanswer
  obtain ⟨e, he, hwrite⟩ := hanswer
  refine ⟨e, he, ?_⟩
  simp [parseMessage, onMessage, hm, hwrite]

theorem parseMessage_complete (hm : f.node.message magic = Message.pending v magic C)
    (hC : scan sha256 v magic C = .more) (hdata : f.data ≠ []) {bytes rest : Bytes} {payload : MessagePayload}
    (hcat : C ++ f.data = bytes ++ rest) (hs : scan sha256 v magic bytes = .done bytes.length)
    (hdec : Decodes magic bytes payload) (hcount : f.messagesParsed < kMaxMessagesPerRead) {p : Peer}
    (hreceive : (Peer.receive sha256 magic bytes payload).run f.node.peer = .ok () p) :
    (parseMessage sha256 magic).run f =
      .ok () { node := ((f.node.logProcessed (bytes, payload)).setPeer p).resetMessage,
               data := rest, messagesParsed := f.messagesParsed + 1 } := by
  have hwrite := Message.write_run sha256 v magic hC hdata
  rw [hcat, ((scan_stable sha256).done hs).2 rest] at hwrite
  simp only [Message.Answers, List.drop_left, List.take_left] at hwrite
  obtain ⟨m, hread, hbuf⟩ := hdec.run v
  have hsize : m.size = bytes.length := by rw [Message.size, SDataStream.size, hbuf]
  have htype : (Message.validated v magic true bytes).getType = (readHeader bytes).getType := rfl
  obtain ⟨_, p1, hcheck, hrest⟩ := Act.run_bind_ok hreceive
  obtain ⟨_, p2, hprocess, hmetrics⟩ := Act.run_bind_ok hrest
  simp [parseMessage, onMessage, onPeer, onNode, hm, hwrite, htype, hcheck, hread, Nat.not_lt.mpr hcount, hbuf, hsize,
    hprocess, hmetrics]

/-! ## The loop -/

theorem parseLoop_run_nil (rounds : Nat) (hdata : f.data = []) :
    (parseLoop sha256 magic (rounds + 1)).run f = .ok (.ok ()) f := by
  simp [parseLoop, hdata]

/-- What reading leaves of the node: the messages `done` were processed, and the node holds the bytes `C`
of the next one. -/
structure Parsed (magic : Octets 4) (n n' : Node) (done : List (Bytes × MessagePayload)) (C : Bytes) (p : Peer) :
    Prop where
  peer : n'.peer = p
  processed : n'.processed = n.processed ++ done
  holds : Holds magic n' C
  receiveBuffer : n'.receiveBuffer = n.receiveBuffer
  stopping : n'.stopping = n.stopping

theorem parseLoop_run_incomplete (hholds : Holds magic f.node C) {rounds : Nat} (hrounds : f.data.length < rounds)
    (hs : ∀ v, scan sha256 v magic (C ++ f.data) = .more) :
    ∃ f', (parseLoop sha256 magic rounds).run f = .ok (.ok ()) f' ∧
      Parsed magic f.node f'.node [] (C ++ f.data) f.node.peer := by
  obtain ⟨r, rfl⟩ : ∃ r, rounds = r + 1 := ⟨rounds - 1, by omega⟩
  by_cases hdata : f.data = []
  · refine ⟨f, parseLoop_run_nil sha256 magic r hdata, rfl, by simp, ?_, rfl, rfl⟩
    rw [hdata, List.append_nil]
    exact hholds
  · obtain ⟨v, hm⟩ := hholds.message
    have hC : scan sha256 v magic C = .more := (scan_stable sha256).more_of_append (hs v)
    obtain ⟨e, he, hround⟩ := parseMessage_incomplete sha256 magic hm hC hdata (hs v)
    have hpos := List.length_pos_of_ne_nil hdata
    obtain ⟨r', rfl⟩ : ∃ r', r = r' + 1 := ⟨r - 1, by omega⟩
    refine ⟨{ f with node := f.node.setMessage (Message.pending v magic (C ++ f.data)), data := [] }, ?_,
      rfl, by simp [setMessage], Or.inr ⟨?_, v, rfl⟩, rfl, rfl⟩
    · rw [parseLoop]
      simp [hdata, hround, he, parseLoop_run_nil sha256 magic r']
    · simp [hdata]

/-- **One read.** The messages that end within the data are received, and the rest is kept. -/
theorem parseLoop_run (items : List (Bytes × MessagePayload)) {T R : Bytes}
    (hitems : ∀ x ∈ items, (∀ v, scan sha256 v magic x.1 = .done x.1.length) ∧ Decodes magic x.1 x.2)
    (hT : ∀ v, scan sha256 v magic T = .more) {p : Peer} :
    ∀ (f : Parsing) (C : Bytes) (rounds : Nat), Holds magic f.node C → (∀ v, scan sha256 v magic C = .more) →
      f.data.length < rounds → C ++ f.data ++ R = contents items ++ T →
      f.messagesParsed + (completeWithin items (C.length + f.data.length)).length ≤ kMaxMessagesPerRead →
      (Peer.receiveAll sha256 magic (completeWithin items (C.length + f.data.length))).run f.node.peer = .ok () p →
      ∃ f', (parseLoop sha256 magic rounds).run f = .ok (.ok ()) f' ∧
        Parsed magic f.node f'.node (completeWithin items (C.length + f.data.length))
          ((C ++ f.data).drop (contents (completeWithin items (C.length + f.data.length))).length) p := by
  induction items with
  | nil =>
      intro f C rounds hholds hC hrounds hcat hcount hreceive
      have hs : ∀ v, scan sha256 v magic (C ++ f.data) = .more := by
        intro v
        apply (scan_stable sha256).more_of_append (D := R)
        rw [hcat]
        exact hT v
      cases hreceive
      simpa [completeWithin] using parseLoop_run_incomplete sha256 magic hholds hrounds hs
  | cons x items ih =>
      intro f C rounds hholds hC hrounds hcat hcount hreceive
      obtain ⟨hx, hdec⟩ := hitems x (List.mem_cons_self ..)
      rw [contents_cons, List.append_assoc x.1] at hcat
      unfold completeWithin at hcount hreceive ⊢
      split_ifs at hcount hreceive ⊢ with hlen
      · obtain ⟨E, hE, hrest⟩ := append_split hcat (by rw [List.length_append]; exact hlen)
        have hshort : C.length < x.1.length := (scan_stable sha256).lt_of_more (hC 0) (hx 0) hE
        have hdata : f.data ≠ [] := by
          intro hnil
          rw [hnil, List.length_nil] at hlen
          omega
        obtain ⟨r, rfl⟩ : ∃ r, rounds = r + 1 := ⟨rounds - 1, by omega⟩
        obtain ⟨v, hm⟩ := hholds.message
        obtain ⟨_, p1, hfirst, hothers⟩ := Act.run_bind_ok hreceive
        have hround := parseMessage_complete sha256 magic hm (hC v) hdata hE (hx v) hdec
          (by rw [List.length_cons] at hcount; omega) hfirst
        have hElen : C.length + f.data.length = x.1.length + E.length := by
          rw [← List.length_append, hE, List.length_append]
        have hdiff : C.length + f.data.length - x.1.length = E.length := by omega
        rw [hdiff] at hcount hothers ⊢
        obtain ⟨f', hrun, hparsed⟩ := ih (fun y hy => hitems y (List.mem_cons_of_mem _ hy))
          { node := ((f.node.logProcessed x).setPeer p1).resetMessage, data := E,
            messagesParsed := f.messagesParsed + 1 } [] r (Or.inl ⟨rfl, rfl⟩) (fun _ => rfl)
          (by show E.length < r; omega) hrest.symm
          (by simp only [List.length_nil, Nat.zero_add]; rw [List.length_cons] at hcount; omega)
          (by simpa using hothers)
        refine ⟨f', ?_, ?_⟩
        · rw [parseLoop]
          simp [hdata, hround, hrun]
        · simp only [List.length_nil, Nat.zero_add, List.nil_append] at hparsed
          refine ⟨hparsed.peer, ?_, ?_, hparsed.receiveBuffer, hparsed.stopping⟩
          · rw [hparsed.processed]
            simp [resetMessage, setPeer, logProcessed]
          · rw [hE, contents_cons, List.length_append, ← List.drop_drop, List.drop_left]
            exact hparsed.holds
      · obtain ⟨E, hE, -⟩ := append_split hcat.symm (by rw [List.length_append]; omega)
        have hs : ∀ v, scan sha256 v magic (C ++ f.data) = .more := by
          intro v
          apply (scan_stable sha256).more_of_lt (D := E) (n := x.1.length)
          · rw [← hE]
            exact hx v
          · rw [List.length_append]
            omega
        cases hreceive
        simpa using parseLoop_run_incomplete sha256 magic hholds hrounds hs

theorem handleRead_run {items : List (Bytes × MessagePayload)} {T R bytes : Bytes} {n : Node} {p : Peer}
    (hitems : ∀ x ∈ items, (∀ v, scan sha256 v magic x.1 = .done x.1.length) ∧ Decodes magic x.1 x.2)
    (hT : ∀ v, scan sha256 v magic T = .more) (hholds : Holds magic n C)
    (hC : ∀ v, scan sha256 v magic C = .more) (hbuffer : n.receiveBuffer = [])
    (hcat : C ++ bytes ++ R = contents items ++ T)
    (hcount : (completeWithin items (C ++ bytes).length).length ≤ kMaxMessagesPerRead)
    (hreceive : (Peer.receiveAll sha256 magic (completeWithin items (C ++ bytes).length)).run n.peer = .ok () p) :
    ∃ n', (handleRead sha256 magic bytes).run n = .ok () n' ∧
      Parsed magic n n' (completeWithin items (C ++ bytes).length)
        ((C ++ bytes).drop (contents (completeWithin items (C ++ bytes).length)).length) p := by
  rw [List.length_append] at hcount hreceive ⊢
  by_cases hbytes : bytes = []
  · -- nothing was received, and nothing held completes a message
    subst hbytes
    have hnone : completeWithin items C.length = [] := by
      cases items with
      | nil => rfl
      | cons x items =>
          obtain ⟨hx, -⟩ := hitems x (List.mem_cons_self ..)
          rw [List.append_nil, contents_cons, List.append_assoc] at hcat
          have hlt := (scan_stable sha256).lt_of_more (hC 0) (hx 0) hcat
          rw [completeWithin, if_neg (by omega)]
    rw [List.length_nil, Nat.add_zero, hnone] at hreceive ⊢
    cases hreceive
    exact ⟨n, by simp [handleRead], rfl, by simp, by simpa using hholds, rfl, rfl⟩
  · obtain ⟨f', hrun, hparsed⟩ := parseLoop_run sha256 magic items hitems hT
      { node := { n with receiveBuffer := bytes }, data := bytes } C (bytes.length + 1) hholds hC
      (Nat.lt_succ_self _) hcat (by simpa using hcount) hreceive
    refine ⟨{ f'.node with receiveBuffer := [] }, ?_, hparsed.peer, hparsed.processed, hparsed.holds,
      hbuffer.symm, hparsed.stopping⟩
    have hparse : (parseMessages sha256 magic bytes.length).run { n with receiveBuffer := bytes } =
        .ok (.ok ()) f'.node := by
      simp only [parseMessages, Act.run, List.take_length]
      simp only [Act.run] at hrun
      rw [hrun]
    have hlen : f'.node.receiveBuffer = bytes := hparsed.receiveBuffer
    simp [handleRead, hbytes, hbuffer, hparse, hlen]

theorem handleReads_run {T : Bytes} {p : Peer} (hT : ∀ v, scan sha256 v magic T = .more) :
    ∀ (reads : List ((Peer → Peer) × Bytes)) (items : List (Bytes × MessagePayload)) (C : Bytes) (n : Node),
      (∀ x ∈ items, (∀ v, scan sha256 v magic x.1 = .done x.1.length) ∧ Decodes magic x.1 x.2) →
      Holds magic n C → (∀ v, scan sha256 v magic C = .more) → n.receiveBuffer = [] →
      C ++ (reads.map Prod.snd).flatten = contents items ++ T →
      (∀ done ∈ completions items C.length (reads.map Prod.snd), done.length ≤ kMaxMessagesPerRead) →
      (Peer.serve sha256 magic ((reads.map Prod.fst).zip (completions items C.length (reads.map Prod.snd)))).run
        n.peer = .ok () p →
      ∃ n', (handleReads sha256 magic reads).run n = .ok () n' ∧ Parsed magic n n' items T p := by
  intro reads
  induction reads with
  | nil =>
      intro items C n hitems hholds hC hbuffer hcat hcount hserve
      cases hserve
      cases items with
      | nil =>
          have hCT : C = T := by simpa using hcat
          subst hCT
          exact ⟨n, rfl, rfl, by simp, hholds, rfl, rfl⟩
      | cons x items =>
          obtain ⟨hx, -⟩ := hitems x (List.mem_cons_self ..)
          rw [contents_cons, List.append_assoc] at hcat
          have hlt := (scan_stable sha256).lt_of_more (hC 0) (hx 0) hcat
          have hlen := congrArg List.length hcat
          simp only [List.map_nil, List.flatten_nil, List.append_nil, List.length_append] at hlen
          omega
  | cons read reads ih =>
      obtain ⟨change, bytes⟩ := read
      intro items C n hitems hholds hC hbuffer hcat hcount hserve
      simp only [List.map_cons, List.flatten_cons, ← List.append_assoc] at hcat
      simp only [List.map_cons, completions, ← List.length_append] at hcount hserve
      obtain ⟨_, p0, hchange, hafter⟩ := Act.run_bind_ok hserve
      obtain ⟨_, p1, hreceive, hothers⟩ := Act.run_bind_ok hafter
      cases hchange
      obtain ⟨n1, hrun, hparsed⟩ := handleRead_run sha256 magic (n := n.setPeer (change n.peer)) hitems hT hholds hC
        hbuffer hcat (hcount _ (List.mem_cons_self ..)) hreceive
      set done := completeWithin items (C ++ bytes).length
      set C' := (C ++ bytes).drop (contents done).length
      have hcat' : C' ++ (reads.map Prod.snd).flatten = contents (items.drop done.length) ++ T :=
        contents_drop_completeWithin hcat
      have hitems' : ∀ x ∈ items.drop done.length,
          (∀ v, scan sha256 v magic x.1 = .done x.1.length) ∧ Decodes magic x.1 x.2 :=
        fun x hx => hitems x (List.mem_of_mem_drop hx)
      have hlen : C'.length = (C ++ bytes).length - (contents done).length := List.length_drop
      have hfit : (contents done).length ≤ (C ++ bytes).length := length_contents_completeWithin items _
      have hC' : ∀ v, scan sha256 v magic C' = .more := by
        intro v
        cases hrest : items.drop done.length with
        | nil =>
            rw [hrest, contents_nil, List.nil_append] at hcat'
            apply (scan_stable sha256).more_of_append (D := (reads.map Prod.snd).flatten)
            rw [hcat']
            exact hT v
        | cons x rest =>
            obtain ⟨hx, -⟩ := hitems' x (by rw [hrest]; exact List.mem_cons_self ..)
            have hlt : (C ++ bytes).length < (contents done).length + x.1.length := rest_lt_of_completeWithin hrest
            rw [hrest, contents_cons, List.append_assoc] at hcat'
            obtain ⟨E, hE, -⟩ := append_split hcat'.symm (by omega)
            apply (scan_stable sha256).more_of_lt (D := E) (n := x.1.length)
            · rw [← hE]
              exact hx v
            · omega
      obtain ⟨n', hrun', hparsed'⟩ := ih (items.drop done.length) C' n1 hitems' hparsed.holds hC'
        (by rw [hparsed.receiveBuffer]; exact hbuffer) hcat'
        (by rw [hlen]; exact fun d hd => hcount d (List.mem_cons_of_mem _ hd))
        (by rw [hlen, hparsed.peer]; exact hothers)
      refine ⟨n', ?_, hparsed'.peer, ?_, hparsed'.holds, ?_, ?_⟩
      · rw [handleReads, Act.run_bind, Act.run_modify]
        simp only [Act.run_bind]
        rw [show ({ n with peer := change n.peer } : Node) = n.setPeer (change n.peer) from rfl, hrun]
        exact hrun'
      · rw [hparsed'.processed, hparsed.processed, List.append_assoc, completeWithin_append_drop]
        rfl
      · rw [hparsed'.receiveBuffer, hparsed.receiveBuffer]
        rfl
      · rw [hparsed'.stopping, hparsed.stopping]
        rfl

end

/-- **No message is lost, duplicated or reordered.** The stream is the messages `items` followed by the
beginning `T` of another one, cut into reads in any way that completes at most `kMaxMessagesPerRead`
messages in each. If every message is accepted as it is handled, whatever happened to the rest of the node
between the reads, then no read ends in an error, exactly these messages are processed, in their order, and
the inbound message holds the bytes `T`. -/
theorem reads_deliver (sha256 : Bytes → Octets 32) (magic : Octets 4) (n : Node)
    (items : List (Bytes × MessagePayload)) (T : Bytes) (reads : List ((Peer → Peer) × Bytes)) (p : Peer)
    (hidle : n.inboundMessage = none) (hbuffer : n.receiveBuffer = [])
    (hitems : ∀ x ∈ items, Accepted sha256 magic x.1 ∧ Decodes magic x.1 x.2)
    (hT : T = [] ∨ ∃ X, X ≠ [] ∧ Accepted sha256 magic (T ++ X))
    (hstream : (reads.map Prod.snd).flatten = contents items ++ T)
    (hcount : ∀ done ∈ completions items 0 (reads.map Prod.snd), done.length ≤ kMaxMessagesPerRead)
    (hserve : (Peer.serve sha256 magic ((reads.map Prod.fst).zip (completions items 0 (reads.map Prod.snd)))).run
      n.peer = .ok () p) :
    ∃ n', (handleReads sha256 magic reads).run n = .ok () n' ∧ n'.stopping = n.stopping ∧
      n'.processed = n.processed ++ items ∧ n'.peer = p ∧
      n'.inboundMessage.map (·.serStream.buffer) = if T = [] then none else some T := by
  have hmore : ∀ v, scan sha256 v magic T = .more := by
    intro v
    rcases hT with rfl | ⟨X, hX, haccepted⟩
    · rfl
    · apply (scan_stable sha256).more_of_lt (haccepted.scan v)
      have := List.length_pos_of_ne_nil hX
      rw [List.length_append]
      omega
  obtain ⟨n', hrun, hparsed⟩ := handleReads_run sha256 magic hmore reads items [] n
    (fun x hx => ⟨(hitems x hx).1.scan, (hitems x hx).2⟩) (Or.inl ⟨rfl, hidle⟩) (fun _ => rfl) hbuffer hstream
    hcount hserve
  refine ⟨n', hrun, hparsed.stopping, hparsed.processed, hparsed.peer, ?_⟩
  rcases hparsed.holds with ⟨hnil, hnone⟩ | ⟨hne, v, hsome⟩
  · rw [if_pos hnil, hnone]
    rfl
  · rw [if_neg hne, hsome, Option.map_some, Message.pending]
    split_ifs <;> rfl

/-- A `verack` and the first bytes of another one, cut inside the first, at a node that has sent its
`version`. -/
theorem reads_deliver_verAck : ∃ n', (handleReads (fun _ => kEmptyHash) ⟨[0x63, 0x61, 0x73, 0x68], rfl⟩
      [(id, Message.verAckBytes.take 10), (id, Message.verAckBytes.drop 10 ++ Message.verAckBytes.take 5)]).run
      { peer := { connectionType := .kOutbound, handshake := { status := 1 } } } = .ok () n' ∧
    n'.processed = [(Message.verAckBytes, .null ⟨.kVerAck, by decide⟩)] ∧
    n'.inboundMessage.map (·.serStream.buffer) = some (Message.verAckBytes.take 5) := by
  have haccepted : Accepted (fun _ => kEmptyHash) ⟨[0x63, 0x61, 0x73, 0x68], rfl⟩ Message.verAckBytes :=
    ⟨170002, _, rfl⟩
  have hdecodes : Decodes ⟨[0x63, 0x61, 0x73, 0x68], rfl⟩ Message.verAckBytes (.null ⟨.kVerAck, by decide⟩) :=
    ⟨170002, _, rfl⟩
  have hrest : Message.verAckBytes.take 5 ++ Message.verAckBytes.drop 5 = Message.verAckBytes := by decide
  obtain ⟨n', hrun, -, hprocessed, -, hheld⟩ := reads_deliver (fun _ => kEmptyHash) ⟨[0x63, 0x61, 0x73, 0x68], rfl⟩
    { peer := { connectionType := .kOutbound, handshake := { status := 1 } } }
    [(Message.verAckBytes, .null ⟨.kVerAck, by decide⟩)] (Message.verAckBytes.take 5)
    [(id, Message.verAckBytes.take 10), (id, Message.verAckBytes.drop 10 ++ Message.verAckBytes.take 5)] _ rfl rfl
    (by simpa using ⟨haccepted, hdecodes⟩)
    (Or.inr ⟨Message.verAckBytes.drop 5, by decide, by rw [hrest]; exact haccepted⟩) (by decide) (by decide) rfl
  exact ⟨n', hrun, hprocessed, hheld⟩

end Node

end Znode
