import Mathlib
import Znode.AddressBook.Steps
import Znode.Lib.Counts
import Znode.Hub.Tasks

/-!
# The bookkeeping of the connected nodes

The node factory starts a node and then calls `on_node_connected` for it; the node itself calls
`on_node_disconnected` when it has stopped, which may come first.

* `connectedCalls`, `disconnectedCalls` : how many of either call were made, of the nodes whose connection meets a
  condition;
* `NodeMove` : what a step can do to the nodes and to what is kept about them;
* `announced` : a node that disconnects finds an entry for its address in `connected_addresses_`;
* `Registered` : the invariant of the runs where each does. The map has the difference of the calls for every
  address, and so have the counters;
* `bookkeeping_balanced` : what this says once no call is pending.
-/

namespace Znode.Hub
open Znode.Lib Znode.Core Znode.Net Znode.Net.AddressBook Znode.Node

/-! ## The calls made -/

def connectedCalls (nodes : List HubNode) (p : Connection → Bool) : Nat :=
  nodes.countP fun n => n.connected && p n.connection

def disconnectedCalls (nodes : List HubNode) (p : Connection → Bool) : Nat :=
  nodes.countP fun n => n.disconnected && p n.connection

/-- The calls of `on_node_connected` that no call of `on_node_disconnected` answers. -/
def openCalls (nodes : List HubNode) (p : Connection → Bool) : Nat :=
  connectedCalls nodes p - disconnectedCalls nodes p

/-- The nodes started and not yet disconnected. -/
def liveNodes (nodes : List HubNode) (p : Connection → Bool) : Nat :=
  nodes.countP fun n => !n.disconnected && p n.connection

def Connection.isAt (address : IPAddress) (c : Connection) : Bool := c.endpoint.address = address

def Connection.isInbound (c : Connection) : Bool := c.type = .kInbound

section Calls
variable {nodes : List HubNode} {i : Nat} {n : HubNode} (p : Connection → Bool)

@[simp] theorem connectedCalls_start (c : Connection) :
    connectedCalls (nodes ++ [{ connection := c }]) p = connectedCalls nodes p := by
  simp [connectedCalls, List.countP_append]

@[simp] theorem disconnectedCalls_start (c : Connection) :
    disconnectedCalls (nodes ++ [{ connection := c }]) p = disconnectedCalls nodes p := by
  simp [disconnectedCalls, List.countP_append]

@[simp] theorem openCalls_start (c : Connection) :
    openCalls (nodes ++ [{ connection := c }]) p = openCalls nodes p := by
  simp [openCalls]

theorem connectedCalls_register (hn : nodes[i]? = some n) (hfresh : n.connected = false) :
    connectedCalls (nodes.set i { n with connected := true }) p = connectedCalls nodes p + (p n.connection).toNat := by
  have h := countP_set_add hn { n with connected := true } fun n => n.connected && p n.connection
  simpa [hfresh, connectedCalls] using h

theorem disconnectedCalls_register (hn : nodes[i]? = some n) :
    disconnectedCalls (nodes.set i { n with connected := true }) p = disconnectedCalls nodes p := by
  have h := countP_set_add hn { n with connected := true } fun n => n.disconnected && p n.connection
  simpa [disconnectedCalls] using h

theorem connectedCalls_disconnect (hn : nodes[i]? = some n) :
    connectedCalls (nodes.set i { n with disconnected := true }) p = connectedCalls nodes p := by
  have h := countP_set_add hn { n with disconnected := true } fun n => n.connected && p n.connection
  simpa [connectedCalls] using h

theorem disconnectedCalls_disconnect (hn : nodes[i]? = some n) (hlive : n.disconnected = false) :
    disconnectedCalls (nodes.set i { n with disconnected := true }) p =
      disconnectedCalls nodes p + (p n.connection).toNat := by
  have h := countP_set_add hn { n with disconnected := true } fun n => n.disconnected && p n.connection
  simpa [hlive, disconnectedCalls] using h

theorem openCalls_register (hn : nodes[i]? = some n) (hfresh : n.connected = false)
    (hle : disconnectedCalls nodes p ≤ connectedCalls nodes p) :
    openCalls (nodes.set i { n with connected := true }) p = openCalls nodes p + (p n.connection).toNat := by
  unfold openCalls
  rw [connectedCalls_register p hn hfresh, disconnectedCalls_register p hn]
  omega

theorem openCalls_disconnect (hn : nodes[i]? = some n) (hlive : n.disconnected = false) :
    openCalls (nodes.set i { n with disconnected := true }) p = openCalls nodes p - (p n.connection).toNat := by
  unfold openCalls
  rw [connectedCalls_disconnect p hn, disconnectedCalls_disconnect p hn hlive]
  omega

/-- A call that was made for every node was made for as many as there are. -/
theorem connectedCalls_of_all (h : ∀ n ∈ nodes, n.connected = true) :
    connectedCalls nodes p = nodes.countP fun n => p n.connection :=
  List.countP_congr fun n hn => by simp [h n hn]

theorem disconnectedCalls_of_all (h : ∀ n ∈ nodes, n.disconnected = true) :
    disconnectedCalls nodes p = nodes.countP fun n => p n.connection :=
  List.countP_congr fun n hn => by simp [h n hn]

theorem countP_not_add (called : HubNode → Bool) (nodes : List HubNode) :
    (nodes.countP fun n => !called n && p n.connection) + (nodes.countP fun n => called n && p n.connection) =
      nodes.countP fun n => p n.connection := by
  induction nodes with
  | nil => rfl
  | cons n nodes ih =>
      simp only [List.countP_cons]
      cases called n <;> cases p n.connection <;> simp <;> omega

theorem liveNodes_add_disconnectedCalls (nodes : List HubNode) :
    liveNodes nodes p + disconnectedCalls nodes p = nodes.countP fun n => p n.connection :=
  countP_not_add p (·.disconnected) nodes

/-- The calls for an address, as a number of occurrences in the list of the addresses called for. -/
theorem connectedCalls_eq_count (address : IPAddress) :
    connectedCalls nodes (Connection.isAt address) =
      ((nodes.filter (·.connected)).map HubNode.address).count address :=
  (count_map_filter HubNode.address (·.connected) nodes address).symm

theorem disconnectedCalls_eq_count (address : IPAddress) :
    disconnectedCalls nodes (Connection.isAt address) =
      ((nodes.filter (·.disconnected)).map HubNode.address).count address :=
  (count_map_filter HubNode.address (·.disconnected) nodes address).symm

/-- The calls that are open for one address are not more than those that are open. -/
theorem openCalls_le
    (h : ∀ address, disconnectedCalls nodes (Connection.isAt address) ≤ connectedCalls nodes (Connection.isAt address))
    (address : IPAddress) :
    disconnectedCalls nodes (fun _ => true) ≤ connectedCalls nodes (fun _ => true) ∧
      openCalls nodes (Connection.isAt address) ≤ openCalls nodes (fun _ => true) := by
  unfold openCalls
  simp only [connectedCalls_eq_count, disconnectedCalls_eq_count] at h ⊢
  have hlength := length_le_of_count_le h
  have hone := count_sub_le h address
  simp only [List.length_map, ← List.countP_eq_length_filter] at hlength hone
  simpa [connectedCalls, disconnectedCalls] using And.intro hlength hone

end Calls

/-! ## Counters that wrap -/

/-- A `uint32_t` that was incremented and decremented so many times. -/
structure Tracks (counter up down : Nat) : Prop where
  lt : counter < 2 ^ 32
  balance : (counter + down) % 2 ^ 32 = up % 2 ^ 32

namespace Tracks
variable {counter up down : Nat}

theorem increment (h : Tracks counter up down) : Tracks (increment counter) (up + 1) down := by
  have hbalance := h.balance
  refine ⟨Nat.mod_lt _ (by decide), ?_⟩
  unfold AddressBook.increment
  omega

theorem decrement (h : Tracks counter up down) : Tracks (decrement counter) up (down + 1) := by
  have hbalance := h.balance
  have hlt := h.lt
  unfold AddressBook.decrement
  split_ifs with hzero <;> constructor <;> omega

theorem eq_sub (h : Tracks counter up down) (hle : down ≤ up) (hlt : up - down < 2 ^ 32) : counter = up - down := by
  have hbalance := h.balance
  have hcounter := h.lt
  omega

end Tracks

/-! ## What a step does to the nodes -/

/-- What is kept about the nodes stays as it is. -/
structure Unmoved (h h' : NodeHub) : Prop where
  nodes : h'.nodes = h.nodes
  addresses : h'.connectedAddresses = h.connectedAddresses
  active : h'.currentActiveConnections = h.currentActiveConnections
  inbound : h'.currentActiveInboundConnections = h.currentActiveInboundConnections
  outbound : h'.currentActiveOutboundConnections = h.currentActiveOutboundConnections
  registering : ∀ i, h'.factory = .registering i → h.factory = .registering i

inductive NodeMove (settings : Settings) (h h' : NodeHub) (e : Event) : Prop where
  | none (hmove : Unmoved h h')
  | start (c : Connection) (rest : List Connection) (hidle : h.factory = .receiving)
      (hroom : h.currentActiveConnections < settings.maxActiveConnections) (hfeed : h.nodeFactoryFeed = c :: rest)
      (heq : h' =
        { h.taken c rest with nodes := h.nodes ++ [{ connection := c }], factory := .registering h.nodes.length })
  | register (i : Nat) (n : HubNode) (hbusy : h.factory = .registering i) (hn : h.nodes[i]? = some n)
      (heq : h' =
        { h.onNodeConnected n with nodes := h.nodes.set i { n with connected := true }, factory := .receiving })
  | disconnect (i : Nat) (n : HubNode) (hevent : e = .disconnect i) (hn : h.nodes[i]? = some n)
      (hlive : n.disconnected = false)
      (heq : h' = { h.onNodeDisconnected n with nodes := h.nodes.set i { n with disconnected := true } })

section Moves
variable {settings : Settings} {h h' : NodeHub}

theorem Unmoved.refl (h : NodeHub) : Unmoved h h := ⟨rfl, rfl, rfl, rfl, rfl, fun _ => id⟩

theorem unmoved_sendToConnector (settings : Settings) (h : NodeHub) (c : Connection) :
    Unmoved h (h.sendToConnector settings c) := by
  unfold NodeHub.sendToConnector
  split_ifs
  · exact ⟨rfl, rfl, rfl, rfl, rfl, fun _ => id⟩
  · exact Unmoved.refl h

theorem unmoved_selectorPick {found : Option IPEndpoint} (hstep : h.selectorPick settings found = some h') :
    Unmoved h h' := by
  obtain ⟨left, -, ⟨-, rfl⟩ | ⟨-, rfl⟩ | ⟨endpoint, -, rfl⟩⟩ := NodeHub.selectorPick_cases hstep
  · exact ⟨rfl, rfl, rfl, rfl, rfl, fun _ => id⟩
  · exact ⟨rfl, rfl, rfl, rfl, rfl, fun _ => id⟩
  · obtain ⟨hnodes, haddresses, hactive, hinbound, houtbound, hregistering⟩ :=
      unmoved_sendToConnector settings h ⟨endpoint, .kOutbound⟩
    exact ⟨hnodes, haddresses, hactive, hinbound, houtbound, hregistering⟩

/-- **What a step does to the nodes.** -/
theorem step_nodeMove {e : Event} (hstep : step settings h e = some h') : NodeMove settings h h' e := by
  cases e with
  | timer bookEmpty =>
      rw [← Option.some.inj hstep]
      apply NodeMove.none
      unfold NodeHub.onServiceTimerExpired
      dsimp only
      split_ifs
      · exact ⟨rfl, rfl, rfl, rfl, rfl, fun _ => id⟩
      · exact Unmoved.refl h
  | selectorWake =>
      obtain ⟨-, ⟨-, rfl⟩ | ⟨k, -, rfl⟩⟩ := NodeHub.selectorWake_cases hstep <;>
        exact .none ⟨rfl, rfl, rfl, rfl, rfl, fun _ => id⟩
  | selectorPick found => exact .none (unmoved_selectorPick hstep)
  | feed c =>
      change h.feed settings c = some h' at hstep
      unfold NodeHub.feed at hstep
      split_ifs at hstep
      rw [← Option.some.inj hstep]
      exact .none (unmoved_sendToConnector settings h c)
  | connectorReceive =>
      obtain ⟨-, ⟨-, rfl⟩ | ⟨c, rest, -, rfl⟩⟩ := NodeHub.connectorReceive_cases hstep <;>
        exact .none ⟨rfl, rfl, rfl, rfl, rfl, fun _ => id⟩
  | connectorCheck =>
      obtain ⟨c, -, ⟨-, rfl⟩ | ⟨-, ⟨-, rfl⟩ | ⟨-, rfl⟩⟩⟩ := NodeHub.connectorCheck_cases hstep <;>
        exact .none ⟨rfl, rfl, rfl, rfl, rfl, fun _ => id⟩
  | connectorConnect connected =>
      obtain ⟨c, -, ⟨-, rfl⟩ | ⟨-, -, rfl⟩ | rfl | rfl⟩ := NodeHub.connectorConnect_cases hstep <;>
        exact .none ⟨rfl, rfl, rfl, rfl, rfl, fun _ => id⟩
  | connectorSend =>
      obtain ⟨c, -, ⟨-, rfl⟩ | rfl⟩ := NodeHub.connectorSend_cases hstep <;>
        exact .none ⟨rfl, rfl, rfl, rfl, rfl, fun _ => id⟩
  | accept remote =>
      obtain ⟨-, rfl | rfl | ⟨-, -, rfl | rfl⟩⟩ := NodeHub.accept_cases hstep <;>
        exact .none ⟨rfl, rfl, rfl, rfl, rfl, fun _ => id⟩
  | acceptorSend =>
      obtain ⟨remote, -, rfl | rfl⟩ := NodeHub.acceptorSend_cases hstep <;>
        exact .none ⟨rfl, rfl, rfl, rfl, rfl, fun _ => id⟩
  | factoryTake socketOpen =>
      rcases NodeHub.factoryTake_cases hstep with ⟨-, rfl⟩ | ⟨c, rest, hidle, hfeed, rfl | ⟨hroom, heq⟩⟩
      · exact .none ⟨rfl, rfl, rfl, rfl, rfl, fun i hi => by cases hi⟩
      · exact .none ⟨rfl, rfl, rfl, rfl, rfl, fun _ => id⟩
      · exact .start c rest hidle hroom hfeed heq
  | factoryRegister =>
      obtain ⟨i, n, hbusy, hn, heq⟩ := NodeHub.factoryRegister_cases hstep
      exact .register i n hbusy hn heq
  | disconnect i =>
      obtain ⟨n, hn, hlive, heq⟩ := NodeHub.disconnect_cases hstep
      exact .disconnect i n rfl hn hlive heq
  | stop =>
      rw [← Option.some.inj hstep]
      exact .none ⟨rfl, rfl, rfl, rfl, rfl, fun _ => id⟩

end Moves

/-! ## The invariant -/

/-- A node that disconnects finds its address in `connected_addresses_`. -/
def announced (h : NodeHub) : Event → Bool
  | .disconnect i => (h.nodes[i]?).all fun n => (h.connectedAddresses n.address).isSome
  | _ => true

/-- An entry of `connected_addresses_`; there is none with the value zero. -/
def entryOf (count : Nat) : Option Nat := if count = 0 then none else some count

theorem getD_entryOf (count : Nat) : (entryOf count).getD 0 = count := by
  unfold entryOf
  split_ifs with h
  · exact h.symm
  · rfl

/-- What is kept about the nodes is what their calls add up to. -/
structure Registered (settings : Settings) (h : NodeHub) : Prop where
  registering : ∀ i, h.factory = .registering i →
    h.currentActiveConnections < settings.maxActiveConnections ∧ ∃ n, h.nodes[i]? = some n ∧ n.connected = false
  ordered : ∀ address, disconnectedCalls h.nodes (Connection.isAt address) ≤
    connectedCalls h.nodes (Connection.isAt address)
  addresses : ∀ address, h.connectedAddresses address =
    entryOf (openCalls h.nodes (Connection.isAt address))
  active : h.currentActiveConnections = openCalls h.nodes fun _ => true
  active_le : h.currentActiveConnections ≤ settings.maxActiveConnections
  inbound : Tracks h.currentActiveInboundConnections (connectedCalls h.nodes Connection.isInbound)
    (disconnectedCalls h.nodes Connection.isInbound)
  outbound : Tracks h.currentActiveOutboundConnections (connectedCalls h.nodes fun c => !c.isInbound)
    (disconnectedCalls h.nodes fun c => !c.isInbound)

namespace Registered
variable {settings : Settings} {h h' : NodeHub} {i : Nat} {n : HubNode}

theorem init (settings : Settings) : Registered settings {} where
  registering := fun i hi => by cases hi
  ordered := fun _ => le_rfl
  addresses := fun _ => rfl
  active := rfl
  active_le := Nat.zero_le _
  inbound := ⟨by decide, rfl⟩
  outbound := ⟨by decide, rfl⟩

theorem connectionsTo_eq (hi : Registered settings h) (address : IPAddress) :
    h.connectionsTo address = openCalls h.nodes (Connection.isAt address) := by
  unfold NodeHub.connectionsTo
  rw [hi.addresses, getD_entryOf]

theorem connectionsTo_le (hi : Registered settings h) (address : IPAddress) :
    h.connectionsTo address ≤ h.currentActiveConnections := by
  rw [hi.connectionsTo_eq, hi.active]
  exact (openCalls_le hi.ordered address).2

theorem unmoved (hi : Registered settings h) (hmove : Unmoved h h') : Registered settings h' := by
  obtain ⟨hnodes, haddresses, hactive, hinbound, houtbound, hregistering⟩ := hmove
  constructor
  · intro i hbusy
    rw [hnodes, hactive]
    exact hi.registering i (hregistering i hbusy)
  · rw [hnodes]
    exact hi.ordered
  · rw [hnodes, haddresses]
    exact hi.addresses
  · rw [hnodes, hactive]
    exact hi.active
  · rw [hactive]
    exact hi.active_le
  · rw [hnodes, hinbound]
    exact hi.inbound
  · rw [hnodes, houtbound]
    exact hi.outbound

theorem start (hi : Registered settings h) {c : Connection} {rest : List Connection}
    (hroom : h.currentActiveConnections < settings.maxActiveConnections) :
    Registered settings
      { h.taken c rest with nodes := h.nodes ++ [{ connection := c }], factory := .registering h.nodes.length } where
  registering := by
    intro i hbusy
    cases hbusy
    exact ⟨hroom, { connection := c }, List.getElem?_concat_length, rfl⟩
  ordered := by simpa [NodeHub.taken] using hi.ordered
  addresses := by simpa [NodeHub.taken] using hi.addresses
  active := by simpa [NodeHub.taken] using hi.active
  active_le := hi.active_le
  inbound := by simpa [NodeHub.taken] using hi.inbound
  outbound := by simpa [NodeHub.taken] using hi.outbound

/-- The map after a call for one address, which opens or closes no call for another one. -/
theorem update_entries (hi : Registered settings h) {nodes : List HubNode} {a : IPAddress}
    (hother : ∀ address, address ≠ a →
      openCalls nodes (Connection.isAt address) = openCalls h.nodes (Connection.isAt address)) (address : IPAddress) :
    Function.update h.connectedAddresses a (entryOf (openCalls nodes (Connection.isAt a))) address =
      entryOf (openCalls nodes (Connection.isAt address)) := by
  by_cases ha : address = a
  · rw [ha, Function.update_self]
  · rw [Function.update_of_ne ha, hi.addresses, hother address ha]

theorem isAt_self (n : HubNode) : (n.connection.isAt n.address).toNat = 1 := by
  simp [Connection.isAt, HubNode.address]

theorem isAt_of_ne {n : HubNode} {address : IPAddress} (hne : address ≠ n.address) :
    (n.connection.isAt address).toNat = 0 := by
  simpa [Connection.isAt, HubNode.address] using hne.symm

theorem register (hi : Registered settings h) (hbusy : h.factory = .registering i) (hn : h.nodes[i]? = some n) :
    Registered settings
      { h.onNodeConnected n with nodes := h.nodes.set i { n with connected := true }, factory := .receiving } := by
  obtain ⟨hroom, m, hm, hfresh⟩ := hi.registering i hbusy
  obtain rfl : n = m := Option.some.inj (hn.symm.trans hm)
  have hmax := settings.maxActiveConnections_lt
  have hopen := fun address => openCalls_register _ hn hfresh (hi.ordered address)
  have hall := openCalls_register _ hn hfresh (openCalls_le hi.ordered n.address).1
  have hactive : increment h.currentActiveConnections = h.currentActiveConnections + 1 :=
    increment_of_lt (by omega)
  constructor
  · intro j hj
    cases hj
  · intro address
    rw [connectedCalls_register _ hn hfresh, disconnectedCalls_register _ hn]
    exact le_add_right (hi.ordered address)
  · have hle := hi.connectionsTo_le n.address
    have hentry : some (increment (h.connectionsTo n.address)) =
        entryOf (openCalls (h.nodes.set i { n with connected := true }) (Connection.isAt n.address)) := by
      rw [increment_of_lt (by omega), hopen, isAt_self, hi.connectionsTo_eq]
      rfl
    change ∀ address, Function.update h.connectedAddresses n.address
      (some (increment (h.connectionsTo n.address))) address = _
    rw [hentry]
    refine hi.update_entries fun address hne => ?_
    rw [hopen, isAt_of_ne hne, Nat.add_zero]
  · change increment h.currentActiveConnections = _
    rw [hactive, hall, hi.active]
    rfl
  · change increment h.currentActiveConnections ≤ _
    omega
  · rw [connectedCalls_register _ hn hfresh, disconnectedCalls_register _ hn]
    have htracks := hi.inbound
    by_cases htype : n.connection.type = .kInbound
    · simpa [NodeHub.onNodeConnected, htype, Connection.isInbound] using htracks.increment
    · simpa [NodeHub.onNodeConnected, htype, Connection.isInbound] using htracks
  · rw [connectedCalls_register _ hn hfresh, disconnectedCalls_register _ hn]
    have htracks := hi.outbound
    by_cases htype : n.connection.type = .kInbound
    · simpa [NodeHub.onNodeConnected, htype, Connection.isInbound] using htracks
    · simpa [NodeHub.onNodeConnected, htype, Connection.isInbound] using htracks.increment

theorem disconnect (hi : Registered settings h) (hn : h.nodes[i]? = some n) (hlive : n.disconnected = false)
    (hfound : (h.connectedAddresses n.address).isSome) :
    Registered settings { h.onNodeDisconnected n with nodes := h.nodes.set i { n with disconnected := true } } := by
  obtain ⟨k, hk⟩ := Option.isSome_iff_exists.mp hfound
  have hcount : h.connectionsTo n.address = k := by
    unfold NodeHub.connectionsTo
    rw [hk]
    rfl
  have hpos : 0 < k := by
    rw [hi.addresses, entryOf] at hk
    split_ifs at hk
    rw [← Option.some.inj hk]
    omega
  have hle := hi.connectionsTo_le n.address
  have hactive_le := hi.active_le
  have hmax := settings.maxActiveConnections_lt
  have hactive : decrement h.currentActiveConnections = h.currentActiveConnections - 1 :=
    decrement_of_pos (by omega) (by omega)
  have hself := hi.connectionsTo_eq n.address
  constructor
  · intro j hj
    obtain ⟨hroom, m, hm, hfresh⟩ := hi.registering j hj
    refine ⟨?_, ?_⟩
    · change decrement h.currentActiveConnections < _
      omega
    · by_cases hij : i = j
      · subst hij
        obtain rfl : n = m := Option.some.inj (hn.symm.trans hm)
        exact ⟨{ n with disconnected := true }, List.getElem?_set_self (List.getElem?_eq_some_iff.mp hn).1, hfresh⟩
      · exact ⟨m, (List.getElem?_set_ne hij).trans hm, hfresh⟩
  · intro address
    rw [connectedCalls_disconnect _ hn, disconnectedCalls_disconnect _ hn hlive]
    have hordered := hi.ordered address
    by_cases ha : address = n.address
    · rw [ha, isAt_self]
      unfold openCalls at hself
      omega
    · rw [isAt_of_ne ha]
      exact hordered
  · have hentry : entryOf (decrement k) =
        entryOf (openCalls (h.nodes.set i { n with disconnected := true }) (Connection.isAt n.address)) := by
      rw [decrement_of_pos hpos (by omega), openCalls_disconnect _ hn hlive, isAt_self, ← hself, hcount]
    have hmap : (h.onNodeDisconnected n).connectedAddresses =
        Function.update h.connectedAddresses n.address (entryOf (decrement k)) := by
      simp only [NodeHub.onNodeDisconnected, hk]
      rfl
    change ∀ address, (h.onNodeDisconnected n).connectedAddresses address = _
    rw [hmap, hentry]
    refine hi.update_entries fun address hne => ?_
    rw [openCalls_disconnect _ hn hlive, isAt_of_ne hne, Nat.sub_zero]
  · change decrement h.currentActiveConnections = _
    rw [hactive, openCalls_disconnect _ hn hlive, hi.active]
    rfl
  · change decrement h.currentActiveConnections ≤ _
    omega
  · rw [connectedCalls_disconnect _ hn, disconnectedCalls_disconnect _ hn hlive]
    have htracks := hi.inbound
    by_cases htype : n.connection.type = .kInbound
    · simpa [NodeHub.onNodeDisconnected, htype, Connection.isInbound] using htracks.decrement
    · simpa [NodeHub.onNodeDisconnected, htype, Connection.isInbound] using htracks
  · rw [connectedCalls_disconnect _ hn, disconnectedCalls_disconnect _ hn hlive]
    have htracks := hi.outbound
    by_cases htype : n.connection.type = .kInbound
    · simpa [NodeHub.onNodeDisconnected, htype, Connection.isInbound] using htracks
    · simpa [NodeHub.onNodeDisconnected, htype, Connection.isInbound] using htracks.decrement

end Registered

/-- Every step of the tasks keeps the books, and so does a node that disconnects and finds its address. -/
theorem registered_step {settings : Settings} (h : NodeHub) (e : Event) (h' : NodeHub) (hi : Registered settings h)
    (hok : announced h e = true) (hstep : step settings h e = some h') : Registered settings h' := by
  cases step_nodeMove hstep with
  | none hmove => exact hi.unmoved hmove
  | start c rest _ hroom _ heq =>
      rw [heq]
      exact hi.start hroom
  | register i n hbusy hn heq =>
      rw [heq]
      exact hi.register hbusy hn
  | disconnect i n hevent hn hlive heq =>
      rw [heq]
      refine hi.disconnect hn hlive ?_
      simpa [hevent, announced, hn] using hok

/-- **The books balance.** In every state of a run in which no node that disconnects misses its address: once both
calls were made for every node nothing is left of them, and whenever every node is registered, the map has the
number of live nodes for every address. -/
theorem bookkeeping_balanced (settings : Settings) (events : List Event) {h : NodeHub}
    (hrun : runSystem (step settings) {} events = some h)
    (hok : Throughout (step settings) (fun h e => announced h e = true) {} events) :
    ((∀ n ∈ h.nodes, n.connected = true ∧ n.disconnected = true) →
        (∀ address, h.connectedAddresses address = none) ∧ h.currentActiveConnections = 0 ∧
          h.currentActiveInboundConnections = 0 ∧ h.currentActiveOutboundConnections = 0) ∧
      ((∀ n ∈ h.nodes, n.connected = true) →
        ∀ address, h.connectionsTo address = liveNodes h.nodes (Connection.isAt address)) := by
  have hi := runSystem_invariant registered_step (Registered.init settings) hok hrun
  constructor
  · intro hdone
    have hsame : ∀ p, connectedCalls h.nodes p = disconnectedCalls h.nodes p := by
      intro p
      rw [connectedCalls_of_all p fun n hn => (hdone n hn).1, disconnectedCalls_of_all p fun n hn => (hdone n hn).2]
    have hopen : ∀ p, openCalls h.nodes p = 0 := fun p => Nat.sub_eq_zero_of_le (hsame p).le
    have hzero : ∀ {counter p}, Tracks counter (connectedCalls h.nodes p) (disconnectedCalls h.nodes p) →
        counter = 0 := by
      intro counter p htracks
      have hcounter := htracks.eq_sub (hsame p).ge (by rw [hsame, Nat.sub_self]; decide)
      rwa [hsame, Nat.sub_self] at hcounter
    refine ⟨fun address => ?_, ?_, hzero hi.inbound, hzero hi.outbound⟩
    · rw [hi.addresses, hopen]
      rfl
    · rw [hi.active, hopen]
  · intro hconnected address
    have hlive := liveNodes_add_disconnectedCalls (Connection.isAt address) h.nodes
    rw [hi.connectionsTo_eq, openCalls, connectedCalls_of_all _ hconnected, ← hlive, Nat.add_sub_cancel]

def twoConnections : Settings := .ofUInt32 2 1 1

def remotePeer : IPEndpoint := { address := .ofV4 1 2 3 4, port := 9033 }

theorem bookkeeping_balanced_oneNode :
    ∃ h, runSystem (step twoConnections) {} [.accept remotePeer, .factoryTake true, .factoryRegister, .disconnect 0] =
        some h ∧ h.nodes.length = 1 ∧ (∀ address, h.connectedAddresses address = none) ∧
      h.currentActiveConnections = 0 := by
  have hsome : ((runSystem (step twoConnections) {}
      [.accept remotePeer, .factoryTake true, .factoryRegister, .disconnect 0]).any fun h =>
        h.nodes.length = 1 ∧ ∀ n ∈ h.nodes, n.connected = true ∧ n.disconnected = true) = true := rfl
  rw [Option.any_eq_true] at hsome
  obtain ⟨h, hrun, hnodes⟩ := hsome
  obtain ⟨hone, hdone⟩ := of_decide_eq_true hnodes
  obtain ⟨haddresses, hactive, -⟩ := (bookkeeping_balanced twoConnections _ hrun (by decide)).1 hdone
  exact ⟨h, hrun, hone, haddresses, hactive⟩

/-- A node that disconnects before it is registered leaves its address in `connected_addresses_` for good. -/
theorem bookkeeping_unbalanced :
    ∃ h, runSystem (step twoConnections) {} [.accept remotePeer, .factoryTake true, .disconnect 0, .factoryRegister] =
        some h ∧ (∀ n ∈ h.nodes, n.connected = true ∧ n.disconnected = true) ∧
      h.connectedAddresses remotePeer.address = some 1 ∧ liveNodes h.nodes (Connection.isAt remotePeer.address) = 0 :=
  ⟨_, rfl, by decide, rfl, rfl⟩

end Znode.Hub
