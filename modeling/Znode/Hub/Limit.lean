import Mathlib
import Znode.Hub.Bookkeeping

/-!
# The limit of connections per IP

Connections reach the node factory on two routes. The connector looks an address up in `connected_addresses_` before
it connects, and the address is counted there only once the factory has registered the node; the acceptor does not
look at all.

* `NodeHub.load` : the live nodes of an address, and its connections on their way to the factory;
* `LetIn`, `load_step` : the load grows only where the acceptor or the check of the connector lets a connection in;
* `NodeHub.unseen` : the part of the load that `connected_addresses_` does not count;
* `admissible` : a connection that is let in finds room below the limit when that part is counted too;
* `liveNodes_le_limit` : in a run where it does, the limit is kept in every state.
-/

namespace Znode.Hub
open Znode.Lib Znode.Core Znode.Net Znode.Net.AddressBook Znode.Node

/-- The connection that has passed the check of the connector. -/
def ConnectorTask.admitted : ConnectorTask → List Connection
  | .connecting c | .sending c => [c]
  | _ => []

def AcceptorTask.inHand : AcceptorTask → List Connection
  | .sending remote => [⟨remote, .kInbound⟩]
  | _ => []

def unregistered (nodes : List HubNode) (p : Connection → Bool) : Nat :=
  nodes.countP fun n => !n.connected && p n.connection

namespace NodeHub

/-- The connections of an address that were let in and have no node yet. -/
def underway (h : NodeHub) (address : IPAddress) : Nat :=
  h.connector.admitted.countP (Connection.isAt address) + h.acceptor.inHand.countP (Connection.isAt address) +
    h.nodeFactoryFeed.countP (Connection.isAt address)

def load (h : NodeHub) (address : IPAddress) : Nat :=
  liveNodes h.nodes (Connection.isAt address) + h.underway address

/-- What `connected_addresses_` does not count: the connections on their way, and the nodes that are not registered. -/
def unseen (h : NodeHub) (address : IPAddress) : Nat :=
  h.underway address + unregistered h.nodes (Connection.isAt address)

end NodeHub

section Live
variable {nodes : List HubNode} {i : Nat} {n : HubNode} (p : Connection → Bool)

@[simp] theorem liveNodes_start (c : Connection) :
    liveNodes (nodes ++ [{ connection := c }]) p = liveNodes nodes p + (p c).toNat := by
  cases hc : p c <;> simp [liveNodes, List.countP_append, hc]

theorem liveNodes_register (hn : nodes[i]? = some n) :
    liveNodes (nodes.set i { n with connected := true }) p = liveNodes nodes p := by
  have h := countP_set_add hn { n with connected := true } fun n => !n.disconnected && p n.connection
  simpa [liveNodes] using h

theorem liveNodes_disconnect_le (hn : nodes[i]? = some n) :
    liveNodes (nodes.set i { n with disconnected := true }) p ≤ liveNodes nodes p := by
  have h := countP_set_add hn { n with disconnected := true } fun n => !n.disconnected && p n.connection
  simp only [Bool.not_true, Bool.false_and, Bool.toNat_false, Nat.add_zero] at h
  exact le_of_add_le_left h.le

theorem liveNodes_eq_add_unregistered (h : disconnectedCalls nodes p ≤ connectedCalls nodes p) :
    liveNodes nodes p = openCalls nodes p + unregistered nodes p := by
  have hlive := liveNodes_add_disconnectedCalls p nodes
  have hconnected : unregistered nodes p + connectedCalls nodes p = nodes.countP fun n => p n.connection :=
    countP_not_add p (·.connected) nodes
  unfold openCalls
  omega

end Live

/-! ## Where the load grows -/

inductive LetIn (settings : Settings) (h : NodeHub) : Event → Connection → Prop where
  | accept (remote : IPEndpoint) (hrunning : h.running = true)
      (hroom : h.currentActiveConnections < settings.maxActiveConnections) :
      LetIn settings h (.accept remote) ⟨remote, .kInbound⟩
  | check (c : Connection) (hchecking : h.connector = .checking c) (hrunning : h.running = true)
      (hpassed : h.overflows settings c.endpoint.address = false) : LetIn settings h .connectorCheck c

section Load
variable {settings : Settings} {h h' : NodeHub}

theorem load_le_of_sublist {address : IPAddress} (hnodes : h'.nodes = h.nodes)
    (hconnector : h'.connector.admitted.Sublist h.connector.admitted)
    (hacceptor : h'.acceptor.inHand.Sublist h.acceptor.inHand)
    (hfeed : h'.nodeFactoryFeed.Sublist h.nodeFactoryFeed) : h'.load address ≤ h.load address := by
  unfold NodeHub.load NodeHub.underway
  rw [hnodes]
  have h₁ := hconnector.countP_le (p := Connection.isAt address)
  have h₂ := hacceptor.countP_le (p := Connection.isAt address)
  have h₃ := hfeed.countP_le (p := Connection.isAt address)
  omega

/-- The connector has no connection in hand that it has let in. -/
theorem load_le_of_idle {address : IPAddress} (hnodes : h'.nodes = h.nodes) (hconnector : h'.connector.admitted = [])
    (hacceptor : h'.acceptor = h.acceptor) (hfeed : h'.nodeFactoryFeed = h.nodeFactoryFeed) :
    h'.load address ≤ h.load address := by
  apply load_le_of_sublist hnodes
  · rw [hconnector]
    exact List.nil_sublist _
  · rw [hacceptor]
  · rw [hfeed]

theorem load_pass {c : Connection} (hconnector : h.connector.admitted = [c]) (address : IPAddress) :
    NodeHub.load { h with nodeFactoryFeed := h.nodeFactoryFeed ++ [c], connector := .receiving } address =
      h.load address := by
  unfold NodeHub.load NodeHub.underway
  rw [hconnector]
  simp only [ConnectorTask.admitted, List.countP_nil, List.countP_append]
  omega

theorem load_sendToConnector (settings : Settings) (c : Connection) (address : IPAddress) :
    (h.sendToConnector settings c).load address = h.load address := by
  unfold NodeHub.sendToConnector
  split_ifs <;> rfl

theorem load_selectorPick {found : Option IPEndpoint} (hstep : h.selectorPick settings found = some h')
    (address : IPAddress) : h'.load address = h.load address := by
  obtain ⟨left, -, ⟨-, rfl⟩ | ⟨-, rfl⟩ | ⟨endpoint, -, rfl⟩⟩ := NodeHub.selectorPick_cases hstep
  · rfl
  · rfl
  · exact load_sendToConnector settings ⟨endpoint, .kOutbound⟩ address

theorem load_connectorConnect {connected : Bool} (hstep : h.connectorConnect settings connected = some h')
    (address : IPAddress) : h'.load address ≤ h.load address := by
  obtain ⟨c, hconnector, ⟨-, rfl⟩ | ⟨-, -, rfl⟩ | rfl | rfl⟩ := NodeHub.connectorConnect_cases hstep
  · exact load_le_of_idle rfl rfl rfl rfl
  · exact load_le_of_idle rfl rfl rfl rfl
  · exact (load_pass (by rw [hconnector]; rfl) address).le
  · refine load_le_of_sublist rfl ?_ (List.Sublist.refl _) (List.Sublist.refl _)
    rw [hconnector]
    exact List.Sublist.refl _

theorem load_connectorSend (hstep : h.connectorSend settings = some h') (address : IPAddress) :
    h'.load address ≤ h.load address := by
  obtain ⟨c, hconnector, ⟨-, rfl⟩ | rfl⟩ := NodeHub.connectorSend_cases hstep
  · exact load_le_of_idle rfl rfl rfl rfl
  · exact (load_pass (by rw [hconnector]; rfl) address).le

theorem load_acceptorSend (hstep : h.acceptorSend settings = some h') (address : IPAddress) :
    h'.load address ≤ h.load address := by
  obtain ⟨remote, hacceptor, rfl | rfl⟩ := NodeHub.acceptorSend_cases hstep
  · exact load_le_of_sublist rfl (List.Sublist.refl _) (List.nil_sublist _) (List.Sublist.refl _)
  · unfold NodeHub.load NodeHub.underway
    rw [hacceptor]
    simp only [AcceptorTask.inHand, List.countP_nil, List.countP_append]
    omega

theorem load_factoryTake {socketOpen : Bool} (hstep : h.factoryTake settings socketOpen = some h')
    (address : IPAddress) : h'.load address ≤ h.load address := by
  rcases NodeHub.factoryTake_cases hstep with ⟨-, rfl⟩ | ⟨c, rest, -, hfeed, rfl | ⟨-, rfl⟩⟩
  · exact le_rfl
  · refine load_le_of_sublist rfl (List.Sublist.refl _) (List.Sublist.refl _) ?_
    rw [hfeed]
    exact List.sublist_cons_self c rest
  · -- the connection leaves the feed and becomes a node
    unfold NodeHub.load NodeHub.underway
    rw [hfeed, List.countP_cons]
    simp only [liveNodes_start, NodeHub.taken]
    cases c.isAt address <;> simp; omega

theorem load_accept {remote : IPEndpoint} (hstep : h.accept settings remote = some h') :
    (∀ address, h'.load address ≤ h.load address) ∨
      LetIn settings h (.accept remote) ⟨remote, .kInbound⟩ ∧ ∀ address,
        h'.load address = h.load address + ((⟨remote, .kInbound⟩ : Connection).isAt address).toNat := by
  obtain ⟨haccepting, rfl | rfl | ⟨hrunning, hroom, rfl | rfl⟩⟩ := NodeHub.accept_cases hstep
  · exact Or.inl fun _ => load_le_of_sublist rfl (List.Sublist.refl _) (List.nil_sublist _) (List.Sublist.refl _)
  · exact Or.inl fun _ => le_rfl
  · refine Or.inr ⟨.accept remote hrunning hroom, fun address => ?_⟩
    unfold NodeHub.load NodeHub.underway
    rw [List.countP_append, List.countP_singleton]
    cases Connection.isAt address ⟨remote, .kInbound⟩ <;> simp; omega
  · refine Or.inr ⟨.accept remote hrunning hroom, fun address => ?_⟩
    unfold NodeHub.load NodeHub.underway
    rw [haccepting]
    simp only [AcceptorTask.inHand, List.countP_singleton, List.countP_nil]
    cases Connection.isAt address ⟨remote, .kInbound⟩ <;> simp; omega

theorem load_connectorCheck (hstep : h.connectorCheck settings = some h') :
    (∀ address, h'.load address ≤ h.load address) ∨
      ∃ c, LetIn settings h .connectorCheck c ∧ ∀ address,
        h'.load address = h.load address + (c.isAt address).toNat := by
  obtain ⟨c, hchecking, ⟨-, rfl⟩ | ⟨hrunning, ⟨-, rfl⟩ | ⟨hpassed, rfl⟩⟩⟩ := NodeHub.connectorCheck_cases hstep
  · exact Or.inl fun _ => load_le_of_idle rfl rfl rfl rfl
  · exact Or.inl fun _ => load_le_of_idle rfl rfl rfl rfl
  · refine Or.inr ⟨c, .check c hchecking hrunning hpassed, fun address => ?_⟩
    unfold NodeHub.load NodeHub.underway
    rw [hchecking]
    simp only [ConnectorTask.admitted, List.countP_singleton, List.countP_nil]
    cases c.isAt address <;> simp; omega

/-- **Where the load grows.** -/
theorem load_step {e : Event} (hstep : step settings h e = some h') :
    (∀ address, h'.load address ≤ h.load address) ∨
      ∃ c, LetIn settings h e c ∧ ∀ address, h'.load address = h.load address + (c.isAt address).toNat := by
  cases e with
  | timer bookEmpty =>
      rw [← Option.some.inj hstep]
      unfold NodeHub.onServiceTimerExpired
      dsimp only
      split_ifs <;> exact Or.inl fun _ => le_rfl
  | selectorWake =>
      obtain ⟨-, ⟨-, rfl⟩ | ⟨k, -, rfl⟩⟩ := NodeHub.selectorWake_cases hstep <;> exact Or.inl fun _ => le_rfl
  | selectorPick found => exact Or.inl fun address => (load_selectorPick hstep address).le
  | feed c =>
      change h.feed settings c = some h' at hstep
      unfold NodeHub.feed at hstep
      split_ifs at hstep
      rw [← Option.some.inj hstep]
      exact Or.inl fun address => (load_sendToConnector settings c address).le
  | connectorReceive =>
      obtain ⟨-, ⟨-, rfl⟩ | ⟨c, rest, -, rfl⟩⟩ := NodeHub.connectorReceive_cases hstep <;>
        exact Or.inl fun _ => load_le_of_idle rfl rfl rfl rfl
  | connectorCheck => exact load_connectorCheck hstep
  | connectorConnect connected => exact Or.inl (load_connectorConnect hstep)
  | connectorSend => exact Or.inl (load_connectorSend hstep)
  | accept remote => exact (load_accept hstep).imp_right fun hin => ⟨_, hin⟩
  | acceptorSend => exact Or.inl (load_acceptorSend hstep)
  | factoryTake socketOpen => exact Or.inl (load_factoryTake hstep)
  | factoryRegister =>
      obtain ⟨i, n, -, hn, rfl⟩ := NodeHub.factoryRegister_cases hstep
      refine Or.inl fun address => (Nat.add_le_add_right ?_ _ : _ + h.underway address ≤ _)
      exact (liveNodes_register _ hn).le
  | disconnect i =>
      obtain ⟨n, hn, -, rfl⟩ := NodeHub.disconnect_cases hstep
      refine Or.inl fun address => (Nat.add_le_add_right ?_ _ : _ + h.underway address ≤ _)
      exact liveNodes_disconnect_le _ hn
  | stop =>
      rw [← Option.some.inj hstep]
      exact Or.inl fun _ => le_rfl

end Load

/-! ## The limit -/

/-- There is room for one more connection of the address, those that are not seen yet counted too. -/
def NodeHub.hasRoomFor (settings : Settings) (h : NodeHub) (address : IPAddress) : Bool :=
  h.connectionsTo address + h.unseen address < settings.maxActiveConnectionsPerIp

/-- A connection that the acceptor or the check of the connector lets in finds room. -/
def admissible (settings : Settings) (h : NodeHub) : Event → Bool
  | .accept remote =>
    !h.running || settings.maxActiveConnections ≤ h.currentActiveConnections || h.hasRoomFor settings remote.address
  | .connectorCheck =>
    match h.connector with
    | .checking c =>
      !h.running || h.overflows settings c.endpoint.address || h.hasRoomFor settings c.endpoint.address
    | _ => true
  | _ => true

/-- The books are right, and no address has more than its share. -/
structure Limited (settings : Settings) (h : NodeHub) : Prop where
  registered : Registered settings h
  load_le : ∀ address, h.load address ≤ settings.maxActiveConnectionsPerIp

section Limit
variable {settings : Settings} {h h' : NodeHub}

/-- The load is what `connected_addresses_` has, and what it does not count. -/
theorem load_eq_add_unseen (hi : Registered settings h) (address : IPAddress) :
    h.load address = h.connectionsTo address + h.unseen address := by
  have hlive := liveNodes_eq_add_unregistered _ (hi.ordered address)
  unfold NodeHub.load NodeHub.unseen
  rw [hlive, hi.connectionsTo_eq]
  omega

theorem load_lt_of_letIn (hi : Registered settings h) {e : Event} {c : Connection}
    (hok : admissible settings h e = true) (hin : LetIn settings h e c) :
    h.load c.endpoint.address < settings.maxActiveConnectionsPerIp := by
  have hroom : h.hasRoomFor settings c.endpoint.address = true := by
    cases hin with
    | accept remote hrunning hroom => simpa [admissible, hrunning, not_le.mpr hroom] using hok
    | check c hchecking hrunning hpassed => simpa [admissible, hchecking, hrunning, hpassed] using hok
  rw [load_eq_add_unseen hi]
  exact of_decide_eq_true hroom

theorem limited_step (h : NodeHub) (e : Event) (h' : NodeHub) (hi : Limited settings h)
    (hok : announced h e = true ∧ admissible settings h e = true) (hstep : step settings h e = some h') :
    Limited settings h' := by
  refine ⟨registered_step h e h' hi.registered hok.1 hstep, fun address => ?_⟩
  rcases load_step hstep with hless | ⟨c, hin, hmore⟩
  · exact (hless address).trans (hi.load_le address)
  · rw [hmore]
    by_cases hat : c.isAt address
    · have haddress : c.endpoint.address = address := by simpa [Connection.isAt] using hat
      have hroom := load_lt_of_letIn hi.registered hok.2 hin
      rw [haddress] at hroom
      rw [hat]
      exact hroom
    · rw [Bool.eq_false_of_not_eq_true hat]
      exact hi.load_le address

end Limit

/-- **No address has more live nodes than the limit**, in every state of a run in which the limit was kept where the
connections were let in and no node that disconnected missed its address. -/
theorem liveNodes_le_limit (settings : Settings) (events : List Event) {h : NodeHub}
    (hrun : runSystem (step settings) {} events = some h)
    (hok : Throughout (step settings) (fun h e => announced h e = true ∧ admissible settings h e = true) {} events)
    (address : IPAddress) : liveNodes h.nodes (Connection.isAt address) ≤ settings.maxActiveConnectionsPerIp := by
  have hinit : Limited settings {} := ⟨Registered.init settings, fun _ => Nat.zero_le _⟩
  have hi := runSystem_invariant limited_step hinit hok hrun
  exact le_of_add_le_left (hi.load_le address)

/-- A node is registered before the connector looks its address up; the second connection is discarded. -/
def secondDiscarded : List Event :=
  [.accept remotePeer, .factoryTake true, .factoryRegister, .feed ⟨remotePeer, .kSeedOutbound⟩, .connectorReceive,
    .connectorCheck]

theorem liveNodes_le_limit_secondDiscarded : ∃ h, runSystem (step twoConnections) {} secondDiscarded = some h ∧
    h.nodes.length = 1 ∧ h.connector = .receiving ∧
      liveNodes h.nodes (Connection.isAt remotePeer.address) ≤ twoConnections.maxActiveConnectionsPerIp := by
  have hsome : ((runSystem (step twoConnections) {} secondDiscarded).any fun h =>
    h.nodes.length = 1 ∧ h.connector = .receiving) = true := rfl
  rw [Option.any_eq_true] at hsome
  obtain ⟨h, hrun, hstate⟩ := hsome
  obtain ⟨hone, hreceiving⟩ := of_decide_eq_true hstate
  exact ⟨h, hrun, hone, hreceiving, liveNodes_le_limit twoConnections _ hrun (by decide) remotePeer.address⟩

/-- Two connections come in from one address, where one is allowed. Nor does the check of the connector help while
the first connection is on its way. -/
theorem liveNodes_exceed_limit :
    (∃ h, runSystem (step twoConnections) {} [.accept remotePeer, .accept { remotePeer with port := 9034 },
        .factoryTake true, .factoryRegister, .factoryTake true] = some h ∧
      twoConnections.maxActiveConnectionsPerIp < liveNodes h.nodes (Connection.isAt remotePeer.address)) ∧
      ∃ h, runSystem (step twoConnections) {} [.feed ⟨remotePeer, .kManualOutbound⟩, .feed ⟨remotePeer, .kSeedOutbound⟩,
          .connectorReceive, .connectorCheck, .connectorConnect true, .connectorReceive, .connectorCheck,
          .connectorConnect true, .factoryTake true, .factoryRegister, .factoryTake true] = some h ∧
        twoConnections.maxActiveConnectionsPerIp < liveNodes h.nodes (Connection.isAt remotePeer.address) :=
  ⟨⟨_, rfl, by decide⟩, ⟨_, rfl, by decide⟩⟩

end Znode.Hub
