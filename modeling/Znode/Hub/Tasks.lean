import Mathlib
import Znode.Lib.System
import Znode.AddressBook.Entries
import Znode.Node.Peer

/-!
# The tasks of the hub

The service timer, the address book selector, the connector, the acceptor and the node factory run at the same
time and pass connections on through two bounded channels. A task is cut into steps where it waits and where it
lets go of what it shares with the others; `step` is one step of one of them, or of the world outside.

* `NodeHub` : what the tasks share, and where each of them is;
* `Event`, `step` : all their steps. What comes from outside (the address book, the network, the remote nodes) is
  part of the event;
* `Event.stop` : closes the channels. A task that finds its channel closed ends, with what it has in hand.

The remote endpoint of a node is the endpoint of its connection. Log lines, totals and the list of the nodes to be
stopped are left out.
-/

namespace Znode.Hub
open Znode.Lib Znode.Core Znode.Net Znode.Net.AddressBook Znode.Node

/-- `net::Connection`, without its socket. -/
structure Connection where
  endpoint : IPEndpoint
  type : ConnectionType
deriving DecidableEq, Repr

/-- The settings the tasks read, of type `uint32_t`. -/
structure Settings where
  maxActiveConnections : Nat
  maxActiveConnectionsPerIp : Nat
  minOutgoingConnections : Nat
  maxActiveConnections_lt : maxActiveConnections < 2 ^ 32
  minOutgoingConnections_lt : minOutgoingConnections < 2 ^ 32

def Settings.ofUInt32 (maxActive maxActivePerIp minOutgoing : UInt32) : Settings :=
  ⟨maxActive.toNat, maxActivePerIp.toNat, minOutgoing.toNat, maxActive.toNat_lt, minOutgoing.toNat_lt⟩

/-- Where `address_book_selector_work` is; `selecting left` is in the middle of a round. -/
inductive SelectorTask where
  | waiting
  | selecting (left : Nat)
  | stopped
deriving DecidableEq, Repr

/-- Where `connector_work` is, with the connection in hand. `sending` waits for room in the factory's feed. -/
inductive ConnectorTask where
  | receiving
  | checking (c : Connection)
  | connecting (c : Connection)
  | sending (c : Connection)
  | stopped
deriving DecidableEq, Repr

/-- Where `acceptor_work` is; `sending` waits for room in the factory's feed. -/
inductive AcceptorTask where
  | accepting
  | sending (remote : IPEndpoint)
  | stopped
deriving DecidableEq, Repr

/-- Where `node_factory_work` is; `registering` is between `start` and `on_node_connected`. -/
inductive FactoryTask where
  | receiving
  | registering (node : Nat)
  | stopped
deriving DecidableEq, Repr

/-- A node that was started, and which of its two calls to the hub have been made. -/
structure HubNode where
  connection : Connection
  connected : Bool := false
  disconnected : Bool := false
deriving DecidableEq, Repr

/-- The address `connected_addresses_` has the node under. -/
def HubNode.address (n : HubNode) : IPAddress := n.connection.endpoint.address

/-- `net::NodeHub`: what the tasks share, and where each of them is. -/
structure NodeHub where
  running : Bool := true
  neededConnectionsCount : Nat := 0
  /-- The notification in `need_connections_`, with the number of connections the timer asked for. -/
  needConnections : Option Nat := none
  connectorFeed : List Connection := []
  nodeFactoryFeed : List Connection := []
  selector : SelectorTask := .waiting
  connector : ConnectorTask := .receiving
  acceptor : AcceptorTask := .accepting
  factory : FactoryTask := .receiving
  currentActiveConnections : Nat := 0
  currentActiveInboundConnections : Nat := 0
  currentActiveOutboundConnections : Nat := 0
  connectedAddresses : IPAddress → Option Nat := fun _ => none
  /-- The nodes in the order they were started. -/
  nodes : List HubNode := []

/-- A step of a task, or of the world outside. -/
inductive Event where
  | timer (bookEmpty : Bool)
  | selectorWake
  | selectorPick (found : Option IPEndpoint)
  | feed (c : Connection)
  | connectorReceive
  | connectorCheck
  | connectorConnect (connected : Bool)
  | connectorSend
  | accept (remote : IPEndpoint)
  | acceptorSend
  | factoryTake (socketOpen : Bool)
  | factoryRegister
  | disconnect (node : Nat)
  | stop
deriving DecidableEq, Repr

namespace NodeHub
variable (settings : Settings) (h : NodeHub)

/-! ## The service timer and the selector -/

/-- The end of `on_service_timer_expired`. The other parts of it stop nodes. -/
def onServiceTimerExpired (bookEmpty : Bool) : NodeHub :=
  let outbounds := h.currentActiveOutboundConnections
  if outbounds < settings.minOutgoingConnections ∧ !bookEmpty ∧ h.neededConnectionsCount = 0 then
    let needed := settings.minOutgoingConnections - outbounds
    { h with neededConnectionsCount := needed, needConnections := some needed }
  else h

/-- A round of the selector, of which `left` addresses are to be picked. -/
def selecting (left : Nat) : NodeHub := { h with selector := if left = 0 then .waiting else .selecting left }

/-- The notification is taken, and the number of connections needed is read. -/
def selectorWake : Option NodeHub :=
  match h.selector, h.needConnections with
  | .waiting, some _ =>
    if h.running then some (selecting { h with needConnections := none } h.neededConnectionsCount)
    else some { h with selector := .stopped }
  | .waiting, none => if h.running then none else some { h with selector := .stopped }
  | _, _ => none

/-- `try_send` to the connector; its result is ignored. -/
def sendToConnector (c : Connection) : NodeHub :=
  if h.running ∧ h.connectorFeed.length < settings.maxActiveConnections then
    { h with connectorFeed := h.connectorFeed ++ [c] }
  else h

def selectorPick (found : Option IPEndpoint) : Option NodeHub :=
  match h.selector with
  | .selecting (left + 1) =>
    if !h.running then some { h with selector := .stopped }
    else
      match found with
      | none => some (selecting { h with neededConnectionsCount := decrement h.neededConnectionsCount } left)
      | some endpoint => some (selecting (sendToConnector settings h ⟨endpoint, .kOutbound⟩) left)
  | _ => none

/-- One endpoint of `feed_connections_from_cli` or `feed_connections_from_dns`. -/
def feed (c : Connection) : Option NodeHub :=
  if c.type = .kManualOutbound ∨ c.type = .kSeedOutbound then some (sendToConnector settings h c) else none

/-! ## The connector -/

def connectorReceive : Option NodeHub :=
  match h.connector, h.connectorFeed with
  | .receiving, c :: rest =>
    if h.running then some { h with connectorFeed := rest, connector := .checking c }
    else some { h with connector := .stopped }
  | .receiving, [] => if h.running then none else some { h with connector := .stopped }
  | _, _ => none

def connectionsTo (address : IPAddress) : Nat := (h.connectedAddresses address).getD 0

def overflows (address : IPAddress) : Bool :=
  (h.connectedAddresses address).isSome ∧ settings.maxActiveConnectionsPerIp ≤ h.connectionsTo address

def connectorCheck : Option NodeHub :=
  match h.connector with
  | .checking c =>
    if !h.running then some { h with connector := .stopped }
    else if h.overflows settings c.endpoint.address then
      some { h with neededConnectionsCount := decrement h.neededConnectionsCount, connector := .receiving }
    else some { h with connector := .connecting c }
  | _ => none

/-- There is room in the factory's feed, and it is open. -/
def factoryHasRoom : Bool := h.running ∧ h.nodeFactoryFeed.length < settings.maxActiveConnections

/-- `async_connect`, and the first attempt to pass the connection on. -/
def connectorConnect (connected : Bool) : Option NodeHub :=
  match h.connector with
  | .connecting c =>
    if !connected then
      some { h with neededConnectionsCount := decrement h.neededConnectionsCount, connector := .receiving }
    else if !h.running then some { h with connector := .stopped }
    else if h.factoryHasRoom settings then
      some { h with nodeFactoryFeed := h.nodeFactoryFeed ++ [c], connector := .receiving }
    else some { h with connector := .sending c }
  | _ => none

def connectorSend : Option NodeHub :=
  match h.connector with
  | .sending c =>
    if !h.running then some { h with connector := .stopped }
    else if h.factoryHasRoom settings then
      some { h with nodeFactoryFeed := h.nodeFactoryFeed ++ [c], connector := .receiving }
    else none
  | _ => none

/-! ## The acceptor -/

/-- An incoming connection; there is no check of the connections per IP. -/
def accept (remote : IPEndpoint) : Option NodeHub :=
  match h.acceptor with
  | .accepting =>
    if !h.running then some { h with acceptor := .stopped }
    else if settings.maxActiveConnections ≤ h.currentActiveConnections then some h
    else if h.factoryHasRoom settings then
      some { h with nodeFactoryFeed := h.nodeFactoryFeed ++ [⟨remote, .kInbound⟩] }
    else some { h with acceptor := .sending remote }
  | _ => none

def acceptorSend : Option NodeHub :=
  match h.acceptor with
  | .sending remote =>
    if !h.running then some { h with acceptor := .stopped }
    else if h.factoryHasRoom settings then
      some { h with nodeFactoryFeed := h.nodeFactoryFeed ++ [⟨remote, .kInbound⟩], acceptor := .accepting }
    else none
  | _ => none

/-! ## The node factory -/

/-- A connection is taken from the feed and accounted. -/
def taken (c : Connection) (rest : List Connection) : NodeHub :=
  { h with
    nodeFactoryFeed := rest
    neededConnectionsCount :=
      if c.type = .kOutbound then decrement h.neededConnectionsCount else h.neededConnectionsCount }

/-- A connection is taken from the feed, up to the start of its node. -/
def factoryTake (socketOpen : Bool) : Option NodeHub :=
  match h.factory, h.nodeFactoryFeed with
  | .receiving, c :: rest =>
    if !h.running then some { h with factory := .stopped }
    else if !socketOpen then some (h.taken c rest)
    else if settings.maxActiveConnections ≤ h.currentActiveConnections then some (h.taken c rest)
    else some { h.taken c rest with nodes := h.nodes ++ [{ connection := c }], factory := .registering h.nodes.length }
  | .receiving, [] => if h.running then none else some { h with factory := .stopped }
  | _, _ => none

def onNodeConnected (n : HubNode) : NodeHub :=
  { h with
    connectedAddresses := Function.update h.connectedAddresses n.address (some (increment (h.connectionsTo n.address)))
    currentActiveConnections := increment h.currentActiveConnections
    currentActiveInboundConnections :=
      if n.connection.type = .kInbound then increment h.currentActiveInboundConnections
      else h.currentActiveInboundConnections
    currentActiveOutboundConnections :=
      if n.connection.type = .kInbound then h.currentActiveOutboundConnections
      else increment h.currentActiveOutboundConnections }

def onNodeDisconnected (n : HubNode) : NodeHub :=
  { h with
    connectedAddresses :=
      match h.connectedAddresses n.address with
      | none => h.connectedAddresses
      | some k => Function.update h.connectedAddresses n.address (if decrement k = 0 then none else some (decrement k))
    currentActiveConnections := decrement h.currentActiveConnections
    currentActiveInboundConnections :=
      if n.connection.type = .kInbound then decrement h.currentActiveInboundConnections
      else h.currentActiveInboundConnections
    currentActiveOutboundConnections :=
      if n.connection.type = .kInbound then h.currentActiveOutboundConnections
      else decrement h.currentActiveOutboundConnections }

def factoryRegister : Option NodeHub :=
  match h.factory with
  | .registering i =>
    match h.nodes[i]? with
    | some n =>
      some { h.onNodeConnected n with
        nodes := h.nodes.set i { n with connected := true }
        factory := .receiving }
    | none => none
  | _ => none

/-- `on_stop_completed` of a node. -/
def disconnect (i : Nat) : Option NodeHub :=
  match h.nodes[i]? with
  | some n =>
    if n.disconnected then none
    else some { h.onNodeDisconnected n with nodes := h.nodes.set i { n with disconnected := true } }
  | none => none

/-! ## What a step can do -/

variable {settings h} {h' : NodeHub}

theorem selectorWake_cases (hstep : h.selectorWake = some h') :
    h.selector = .waiting ∧ ((h.running = false ∧ h' = { h with selector := .stopped }) ∨
      ∃ k, h.needConnections = some k ∧
        h' = selecting { h with needConnections := none } h.neededConnectionsCount) := by
  unfold selectorWake at hstep
  split at hstep
  · rename_i k hselector hneed
    refine ⟨hselector, ?_⟩
    split_ifs at hstep with hrunning
    · exact Or.inr ⟨k, hneed, (Option.some.inj hstep).symm⟩
    · exact Or.inl ⟨Bool.eq_false_of_not_eq_true hrunning, (Option.some.inj hstep).symm⟩
  · rename_i hselector hneed
    split_ifs at hstep with hrunning
    exact ⟨hselector, Or.inl ⟨Bool.eq_false_of_not_eq_true hrunning, (Option.some.inj hstep).symm⟩⟩
  · cases hstep

theorem selectorPick_cases {found : Option IPEndpoint} (hstep : h.selectorPick settings found = some h') :
    ∃ left, h.selector = .selecting (left + 1) ∧
      ((h.running = false ∧ h' = { h with selector := .stopped }) ∨
        (found = none ∧
          h' = selecting { h with neededConnectionsCount := decrement h.neededConnectionsCount } left) ∨
        ∃ endpoint, found = some endpoint ∧
          h' = selecting (sendToConnector settings h ⟨endpoint, .kOutbound⟩) left) := by
  unfold selectorPick at hstep
  split at hstep
  · rename_i left hselector
    refine ⟨left, hselector, ?_⟩
    split_ifs at hstep with hrunning
    · exact Or.inl ⟨by simpa using hrunning, (Option.some.inj hstep).symm⟩
    · cases found with
      | none => exact Or.inr (Or.inl ⟨rfl, (Option.some.inj hstep).symm⟩)
      | some endpoint => exact Or.inr (Or.inr ⟨endpoint, rfl, (Option.some.inj hstep).symm⟩)
  · cases hstep

theorem connectorReceive_cases (hstep : h.connectorReceive = some h') :
    h.connector = .receiving ∧ ((h.running = false ∧ h' = { h with connector := .stopped }) ∨
      ∃ c rest, h.connectorFeed = c :: rest ∧
        h' = { h with connectorFeed := rest, connector := .checking c }) := by
  unfold connectorReceive at hstep
  split at hstep
  · rename_i c rest hconnector hfeed
    refine ⟨hconnector, ?_⟩
    split_ifs at hstep with hrunning
    · exact Or.inr ⟨c, rest, hfeed, (Option.some.inj hstep).symm⟩
    · exact Or.inl ⟨Bool.eq_false_of_not_eq_true hrunning, (Option.some.inj hstep).symm⟩
  · rename_i hconnector hfeed
    split_ifs at hstep with hrunning
    exact ⟨hconnector, Or.inl ⟨Bool.eq_false_of_not_eq_true hrunning, (Option.some.inj hstep).symm⟩⟩
  · cases hstep

theorem connectorCheck_cases (hstep : h.connectorCheck settings = some h') :
    ∃ c, h.connector = .checking c ∧
      ((h.running = false ∧ h' = { h with connector := .stopped }) ∨
        h.running = true ∧
          ((h.overflows settings c.endpoint.address = true ∧
              h' = { h with neededConnectionsCount := decrement h.neededConnectionsCount, connector := .receiving }) ∨
            (h.overflows settings c.endpoint.address = false ∧ h' = { h with connector := .connecting c }))) := by
  unfold connectorCheck at hstep
  split at hstep
  · rename_i c hconnector
    refine ⟨c, hconnector, ?_⟩
    split_ifs at hstep with hrunning hlimit
    · exact Or.inl ⟨by simpa using hrunning, (Option.some.inj hstep).symm⟩
    · exact Or.inr ⟨by simpa using hrunning, Or.inl ⟨hlimit, (Option.some.inj hstep).symm⟩⟩
    · exact Or.inr ⟨by simpa using hrunning,
        Or.inr ⟨Bool.eq_false_of_not_eq_true hlimit, (Option.some.inj hstep).symm⟩⟩
  · cases hstep

theorem connectorConnect_cases {connected : Bool} (hstep : h.connectorConnect settings connected = some h') :
    ∃ c, h.connector = .connecting c ∧
      ((connected = false ∧
          h' = { h with neededConnectionsCount := decrement h.neededConnectionsCount, connector := .receiving }) ∨
        (connected = true ∧ h.running = false ∧ h' = { h with connector := .stopped }) ∨
        h' = { h with nodeFactoryFeed := h.nodeFactoryFeed ++ [c], connector := .receiving } ∨
        h' = { h with connector := .sending c }) := by
  unfold connectorConnect at hstep
  split at hstep
  · rename_i c hconnector
    refine ⟨c, hconnector, ?_⟩
    split_ifs at hstep with hconnected hrunning
    · exact Or.inl ⟨by simpa using hconnected, (Option.some.inj hstep).symm⟩
    · exact Or.inr (Or.inl ⟨by simpa using hconnected, by simpa using hrunning, (Option.some.inj hstep).symm⟩)
    · exact Or.inr (Or.inr (Or.inl (Option.some.inj hstep).symm))
    · exact Or.inr (Or.inr (Or.inr (Option.some.inj hstep).symm))
  · cases hstep

theorem connectorSend_cases (hstep : h.connectorSend settings = some h') :
    ∃ c, h.connector = .sending c ∧
      ((h.running = false ∧ h' = { h with connector := .stopped }) ∨
        h' = { h with nodeFactoryFeed := h.nodeFactoryFeed ++ [c], connector := .receiving }) := by
  unfold connectorSend at hstep
  split at hstep
  · rename_i c hconnector
    refine ⟨c, hconnector, ?_⟩
    split_ifs at hstep with hrunning
    · exact Or.inl ⟨by simpa using hrunning, (Option.some.inj hstep).symm⟩
    · exact Or.inr (Option.some.inj hstep).symm
  · cases hstep

theorem accept_cases {remote : IPEndpoint} (hstep : h.accept settings remote = some h') :
    h.acceptor = .accepting ∧
      (h' = { h with acceptor := .stopped } ∨ h' = h ∨
        h.running = true ∧ h.currentActiveConnections < settings.maxActiveConnections ∧
          (h' = { h with nodeFactoryFeed := h.nodeFactoryFeed ++ [⟨remote, .kInbound⟩] } ∨
            h' = { h with acceptor := .sending remote })) := by
  unfold accept at hstep
  split at hstep
  · refine ⟨by assumption, ?_⟩
    split_ifs at hstep with hrunning hmax
    · exact Or.inl (Option.some.inj hstep).symm
    · exact Or.inr (Or.inl (Option.some.inj hstep).symm)
    · exact Or.inr (Or.inr ⟨by simpa using hrunning, not_le.mp hmax, Or.inl (Option.some.inj hstep).symm⟩)
    · exact Or.inr (Or.inr ⟨by simpa using hrunning, not_le.mp hmax, Or.inr (Option.some.inj hstep).symm⟩)
  · cases hstep

theorem acceptorSend_cases (hstep : h.acceptorSend settings = some h') :
    ∃ remote, h.acceptor = .sending remote ∧
      (h' = { h with acceptor := .stopped } ∨
        h' = { h with nodeFactoryFeed := h.nodeFactoryFeed ++ [⟨remote, .kInbound⟩], acceptor := .accepting }) := by
  unfold acceptorSend at hstep
  split at hstep
  · rename_i remote hacceptor
    refine ⟨remote, hacceptor, ?_⟩
    split_ifs at hstep
    · exact Or.inl (Option.some.inj hstep).symm
    · exact Or.inr (Option.some.inj hstep).symm
  · cases hstep

theorem factoryTake_cases {socketOpen : Bool} (hstep : h.factoryTake settings socketOpen = some h') :
    (h.running = false ∧ h' = { h with factory := .stopped }) ∨
      ∃ c rest, h.factory = .receiving ∧ h.nodeFactoryFeed = c :: rest ∧
        (h' = h.taken c rest ∨
          h.currentActiveConnections < settings.maxActiveConnections ∧
            h' = { h.taken c rest with
              nodes := h.nodes ++ [{ connection := c }], factory := .registering h.nodes.length }) := by
  unfold factoryTake at hstep
  split at hstep
  · rename_i c rest hfactory hfeed
    split_ifs at hstep with hrunning hopen hmax
    · exact Or.inl ⟨by simpa using hrunning, (Option.some.inj hstep).symm⟩
    · exact Or.inr ⟨c, rest, hfactory, hfeed, Or.inl (Option.some.inj hstep).symm⟩
    · exact Or.inr ⟨c, rest, hfactory, hfeed, Or.inl (Option.some.inj hstep).symm⟩
    · exact Or.inr ⟨c, rest, hfactory, hfeed, Or.inr ⟨not_le.mp hmax, (Option.some.inj hstep).symm⟩⟩
  · split_ifs at hstep with hrunning
    exact Or.inl ⟨Bool.eq_false_of_not_eq_true hrunning, (Option.some.inj hstep).symm⟩
  · cases hstep

theorem factoryRegister_cases (hstep : h.factoryRegister = some h') :
    ∃ i n, h.factory = .registering i ∧ h.nodes[i]? = some n ∧
      h' = { h.onNodeConnected n with nodes := h.nodes.set i { n with connected := true }, factory := .receiving } := by
  unfold factoryRegister at hstep
  split at hstep
  · rename_i i hfactory
    split at hstep
    · rename_i n hn
      exact ⟨i, n, hfactory, hn, (Option.some.inj hstep).symm⟩
    · cases hstep
  · cases hstep

theorem disconnect_cases {i : Nat} (hstep : h.disconnect i = some h') :
    ∃ n, h.nodes[i]? = some n ∧ n.disconnected = false ∧
      h' = { h.onNodeDisconnected n with nodes := h.nodes.set i { n with disconnected := true } } := by
  unfold disconnect at hstep
  split at hstep
  · rename_i n hn
    split_ifs at hstep with hdone
    exact ⟨n, hn, by simpa using hdone, (Option.some.inj hstep).symm⟩
  · cases hstep

end NodeHub

def step (settings : Settings) (h : NodeHub) : Event → Option NodeHub
  | .timer bookEmpty => some (h.onServiceTimerExpired settings bookEmpty)
  | .selectorWake => h.selectorWake
  | .selectorPick found => h.selectorPick settings found
  | .feed c => h.feed settings c
  | .connectorReceive => h.connectorReceive
  | .connectorCheck => h.connectorCheck settings
  | .connectorConnect connected => h.connectorConnect settings connected
  | .connectorSend => h.connectorSend settings
  | .accept remote => h.accept settings remote
  | .acceptorSend => h.acceptorSend settings
  | .factoryTake socketOpen => h.factoryTake settings socketOpen
  | .factoryRegister => h.factoryRegister
  | .disconnect node => h.disconnect node
  | .stop => some { h with running := false }

end Znode.Hub
