import Mathlib
import Znode.AddressBook.Admission
import Znode.Node.Peer

/-!
# The address book processor of the hub

The task that handles the `addr` and `getaddr` messages of all nodes, one at a time, on the book of the hub
and the node the message came from. An assertion that fails aborts the whole process.

* `Processor`, `Work` : the state, and the calls on it;
* `process` : the handling of one message;
* `process_addr_returns_iff`, `process_getAddr_returns_iff` : when it returns.
-/

namespace Znode.Hub
open Znode.Lib Znode.Core Znode.Net Znode.Net.AddressBook Znode.Node Act

/-- The book of the hub, and the node a message came from. -/
structure Processor where
  book : AddressBook
  peer : Peer

abbrev Work := Act Empty Fault Processor

def onBook {α : Type} (c : Book α) : Work α := Act.focus (·.book) (fun b w => { w with book := b }) c

/-- A call on the node, whose error is returned as a value. -/
def onPeer {α : Type} (c : PeerM α) : Work (Except Error α) :=
  Act.focus (·.peer) (fun p w => { w with peer := p }) c.attempt

/-- `MsgAddrPayload::shuffle`: some order of the same services. -/
structure Shuffle where
  order : List NodeService → List NodeService
  perm : ∀ l, (order l).Perm l

/-- What the handling of a message gets from outside: the clock and the draws. -/
structure Chances where
  now : Int
  shuffle : Shuffle
  choices : Nat → Choice
  draws : Nat → Nat

def kAddrTimePenalty : Int := 2 * 3600

section
variable (slots : SlotFunctions) (sha256 : Bytes → Octets 32) (magic : Octets 4)

/-- The answer to a `getaddr`: a quarter of the book at most. The error of `push_message` is ignored. -/
def processGetAddr (chances : Chances) : Work Unit := do
  let services ← onBook (getRandomServices kMaxAddrItems 25 none chances.now chances.draws)
  if services = [] then
    let _ ← onPeer (Peer.pushMessageType sha256 magic .kNotFound .kNormal)
  else
    let _ ← onPeer (Peer.pushMessage sha256 magic (.addr { identifiers := services }) .kNormal)

/-- One message in `address_book_processor_work`, from a node at `remote`. None of the calls throws the
`std::invalid_argument` it handles. -/
def process (remote : IPEndpoint) (chances : Chances) (payload : MessagePayload) : Work Unit := do
  match payload with
  | .addr p =>
    let _ ← onBook (insertOrUpdateAll slots (chances.shuffle.order p.identifiers) remote.address kAddrTimePenalty
      chances.now chances.choices)
  | .null q => if q.type = .kGetAddr then processGetAddr sha256 magic chances else Act.raise .assert
  | _ => Act.raise .assert

/-! ## Services received -/

/-- **An `addr` message is handled without a failed assertion exactly when the book admits its services.** -/
theorem process_addr_returns_iff {b : AddressBook} (hb : Reachable slots b) (payload : MsgAddrPayload)
    (hfew : b.lastUsedId + payload.identifiers.length < 2 ^ 32) (peer : Peer) (remote : IPEndpoint)
    (chances : Chances) :
    (∃ w, (process slots sha256 magic remote chances (.addr payload)).run ⟨b, peer⟩ = .ok () w) ↔
      admitsAll b remote.address chances.now (chances.shuffle.order payload.identifiers) [] chances.choices := by
  have hlen := (chances.shuffle.perm payload.identifiers).length_eq
  rw [← insertOrUpdateLoop_returns_iff slots (hb.valid slots (by omega)) remote.address kAddrTimePenalty chances.now
    (by omega)]
  simp only [process, onBook, insertOrUpdateAll, run_bind, run_focus]
  generalize (insertOrUpdateLoop slots remote.address kAddrTimePenalty chances.now
    (chances.shuffle.order payload.identifiers) [] chances.choices).run b = outcome
  cases outcome <;> simp

end

theorem reachable_empty (slots : SlotFunctions) : Reachable slots {} := ⟨[], rfl⟩

/-- Slots, and what the rest of a round gets from outside, for the runs below. -/
def firstSlots : SlotFunctions := SlotFunctions.ofSipHash (fun _ _ => Octets.zero 8) []

def noChances : Chances where
  now := 1700000000
  shuffle := ⟨id, fun _ => List.Perm.refl _⟩
  choices _ := ⟨1700000000, 0⟩
  draws _ := 0

/-- An `addr` message with one service of a full node, at `10.0.0.1`. -/
def privateAddr : Bytes :=
  [1, 0, 0xf1, 0x53, 0x65, 1, 0, 0, 0, 0, 0, 0, 0, 0, 0, 0, 0, 0, 0, 0, 0, 0, 0, 0xff, 0xff, 10, 0, 0, 1, 0x23, 0x49]

def remoteNode : IPEndpoint := { address := .ofV4 8 8 8 8, port := 9033 }

/-- A service at a routable address is inserted into the empty book. -/
theorem process_addr_returns_public :
    ∃ w, (process firstSlots (fun _ => Octets.zero 32) (Octets.zero 4) remoteNode noChances
      (.addr { identifiers := [{ services := 1, endpoint := { address := .ofV4 1 2 3 4, port := 9033 } }] })).run
        ⟨{}, { connectionType := .kInbound }⟩ = .ok () w :=
  (process_addr_returns_iff firstSlots _ _ (reachable_empty _) _ (by decide) _ remoteNode noChances).mpr (by decide)

/-- A service at a private address deserializes, and aborts the process. -/
theorem process_addr_aborts_private : ∃ payload s w,
    (MsgAddrPayload.serialization .kDeserialize).run ({}, { buffer := privateAddr }) = .ok () (payload, s) ∧ s.eof ∧
    (process firstSlots (fun _ => Octets.zero 32) (Octets.zero 4) remoteNode noChances (.addr payload)).run
      ⟨{}, { connectionType := .kInbound }⟩ = .fault .assert w := by
  refine ⟨{ identifiers :=
      [{ time := 1700000000, services := 1, endpoint := { address := .ofV4 10 0 0 1, port := 9033 } }] },
    { buffer := privateAddr, readPosition := 31 }, ⟨{ lastUsedId := 2 }, { connectionType := .kInbound }⟩, ?_, ?_, ?_⟩
  · rfl
  · decide
  · rfl

/-! ## Services asked for -/

section
variable (sha256 : Bytes → Octets 32) (magic : Octets 4)

theorem onPeer_pushMessage_returns (payload : MessagePayload) (priority : MessagePriority) (w : Processor) :
    ∃ r w', (onPeer (Peer.pushMessage sha256 magic payload priority)).run w = .ok r w' := by
  have hpush : (Peer.pushMessage sha256 magic payload priority).run w.peer =
      Peer.pushMessage sha256 magic payload priority w.peer := rfl
  simp only [onPeer, run_focus, run_attempt, hpush, Peer.pushMessage]
  rcases Message.push_returns sha256 w.peer.version magic payload with ⟨m, hm⟩ | ⟨e, m, hm⟩
  · simp [hm]
  · simp [hm]

theorem servicesCount_quarter_eq_zero_iff (size : Nat) : servicesCount size kMaxAddrItems 25 = 0 ↔ size < 4 := by
  unfold servicesCount kMaxAddrItems
  rw [if_pos (by decide), if_pos (by decide)]
  omega

theorem allBad_iff {b : AddressBook} (h : Ordered b) (now : Int) :
    AllBad b now b.randomlyOrderedIds ↔ ∀ id info, b.info id = some info → info.isBad now := by
  constructor
  · intro hall id info hinfo
    obtain ⟨e, he, rfl⟩ := Option.map_eq_some_iff.mp hinfo
    exact hall id ((h.mem_iff id).mpr ⟨e, he⟩) e.bare (content_of_entry he)
  · intro hall id _ c hc
    obtain ⟨e, he, rfl⟩ := exists_entry hc
    exact hall id e.info (info_of_entry he)

/-- **A `getaddr` message is handled without a failed assertion exactly when the book has four entries, one of
them not bad.** -/
theorem process_getAddr_returns_iff (slots : SlotFunctions) {b : AddressBook} (hb : Reachable slots b)
    (hfew : b.lastUsedId < 2 ^ 32) (peer : Peer) (remote : IPEndpoint) (chances : Chances) :
    (∃ w, (process slots sha256 magic remote chances (.null ⟨.kGetAddr, by decide⟩)).run ⟨b, peer⟩ = .ok () w) ↔
      4 ≤ b.randomlyOrderedIds.length ∧ ∃ id info, b.info id = some info ∧ ¬ info.isBad chances.now := by
  have hvalid := hb.valid slots hfew
  obtain ⟨services, b', hrun, -, -, hempty⟩ :=
    getRandomServices_ensures hvalid hfew.le kMaxAddrItems 25 none chances.now chances.draws
  have hcond : (4 ≤ b.randomlyOrderedIds.length ∧ ∃ id info, b.info id = some info ∧ ¬ info.isBad chances.now) ↔
      services ≠ [] := by
    rw [Ne, hempty rfl, servicesCount_quarter_eq_zero_iff, allBad_iff hvalid.coherent.ordered]
    push Not
    rfl
  have hbook : (onBook (getRandomServices kMaxAddrItems 25 none chances.now chances.draws)).run ⟨b, peer⟩ =
      .ok services ⟨b', peer⟩ := by
    simp [onBook, hrun]
  rw [hcond]
  simp only [process, processGetAddr, if_true, run_bind, hbook]
  by_cases hservices : services = []
  · -- `MsgNullPayload` is not made for `notfound`
    simp [hservices, onPeer, Peer.pushMessageType, MsgNullPayload.new, nullTypes]
  · obtain ⟨r, w', hpush⟩ := onPeer_pushMessage_returns sha256 magic (.addr { identifiers := services }) .kNormal
      ⟨b', peer⟩
    simp [hservices, hpush]

end

/-- Slots by the port, for a book whose entries do not meet. -/
def portSlots : SlotFunctions where
  newSlot endpoint _ := ⟨0, endpoint.port.toNat % 64⟩
  triedSlot endpoint := ⟨0, endpoint.port.toNat % 64⟩
  newSlot_lt _ _ := ⟨show 0 < 1024 by decide, Nat.mod_lt _ (by decide)⟩
  triedSlot_lt _ := ⟨show 0 < 256 by decide, Nat.mod_lt _ (by decide)⟩

def fourCalls : List Call := [2, 3, 4, 5].map fun port =>
  .insertOrUpdate { time := 1700000000, services := 1, endpoint := { address := .ofV4 1 2 3 4, port := port } }
    remoteNode.address 0 ⟨1700000000, 0⟩

theorem process_getAddr_returns_four : ∃ b w, (runCalls portSlots fourCalls).run {} = .ok () b ∧
    (process portSlots (fun _ => Octets.zero 32) (Octets.zero 4) remoteNode noChances
      (.null ⟨.kGetAddr, by decide⟩)).run ⟨b, { connectionType := .kInbound }⟩ = .ok () w := by
  let b : AddressBook := ((runCalls portSlots fourCalls).run {}).state
  have hrun : (runCalls portSlots fourCalls).run {} = .ok () b := Outcome.eq_ok_of_isOk (by decide +kernel)
  have hlast : b.lastUsedId < 2 ^ 32 := by decide +kernel
  have hlen : 4 ≤ b.randomlyOrderedIds.length := by decide +kernel
  have hgood : (b.info 1).any fun info => !info.isBad noChances.now := by decide +kernel
  rw [Option.any_eq_true] at hgood
  obtain ⟨info, hinfo, hgood⟩ := hgood
  obtain ⟨w, hw⟩ :=
    (process_getAddr_returns_iff (fun _ => Octets.zero 32) (Octets.zero 4) portSlots ⟨fourCalls, hrun⟩ hlast
    { connectionType := .kInbound } remoteNode noChances).mpr ⟨hlen, 1, info, hinfo, by simpa using hgood⟩
  exact ⟨b, w, hrun, hw⟩

/-- The empty book has no services, and the answer aborts the process. -/
theorem process_getAddr_aborts_empty : ∃ w,
    (process firstSlots (fun _ => Octets.zero 32) (Octets.zero 4) remoteNode noChances
      (.null ⟨.kGetAddr, by decide⟩)).run ⟨{}, { connectionType := .kInbound }⟩ = .fault .assert w := ⟨_, rfl⟩

end Znode.Hub
