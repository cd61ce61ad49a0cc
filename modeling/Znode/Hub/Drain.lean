import Mathlib
import Znode.Hub.Shutdown

/-!
# How long the end of a hub takes

`NodeHub::stop` waits until the service timer has removed the last node. A tick removes the nodes that have ended and
stops at most 32 of the others; when it has stopped so many it looks at no more of them.

* `started`, `ticks` : the nodes nobody has stopped, and the ticks that know of the end of the hub;
* `started_sweep_stopping` : where all other nodes have ended, a tick takes 32 of them away;
* `Responsive` : a node that was stopped has ended by the next tick;
* `drain_bounded` : then the nodes are gone after one tick for every 32 of them, and one more.
-/

namespace Znode.Hub
open Znode.Lib

namespace ListedNode

variable {n : ListedNode}

theorem status_of_erasable (h : n.erasable = true) : n.status = .kNotStarted := (of_decide_eq_true h).1

theorem stop_status_ne (n : ListedNode) : n.stop.status ≠ .kStarted := by
  unfold stop
  split_ifs with h
  · exact fun hstatus => by cases hstatus
  · exact h

end ListedNode

/-- The nodes nobody has stopped. -/
def started (nodes : List ListedNode) : Nat := nodes.countP fun n => n.status = .kStarted

theorem started_cons_of_started {n : ListedNode} (h : n.status = .kStarted) (nodes : List ListedNode) :
    started (n :: nodes) = started nodes + 1 := List.countP_cons_of_pos (by simpa using h)

theorem started_cons_of_ne {n : ListedNode} (h : n.status ≠ .kStarted) (nodes : List ListedNode) :
    started (n :: nodes) = started nodes := List.countP_cons_of_neg (by simpa using h)

theorem started_le_cons (n : ListedNode) (nodes : List ListedNode) : started nodes ≤ started (n :: nodes) := by
  by_cases h : n.status = .kStarted
  · rw [started_cons_of_started h]
    omega
  · rw [started_cons_of_ne h]

theorem started_eq_zero {nodes : List ListedNode} : started nodes = 0 ↔ ∀ n ∈ nodes, n.status ≠ .kStarted := by
  simp [started, List.countP_eq_zero]

theorem started_sweep_le (running : Bool) (disconnects : Nat → Bool) (shutdownCount index : Nat)
    (nodes : List ListedNode) : started (sweep running disconnects shutdownCount index nodes) ≤ started nodes := by
  induction nodes generalizing shutdownCount index with
  | nil => exact le_refl _
  | cons n nodes ih =>
      rw [sweep]
      split_ifs with herase hstop hlast
      · exact (ih _ _).trans (started_le_cons n nodes)
      · rw [started_cons_of_ne n.stop_status_ne]
        exact started_le_cons n nodes
      · rw [started_cons_of_ne n.stop_status_ne]
        exact (ih _ _).trans (started_le_cons n nodes)
      · by_cases h : n.status = .kStarted
        · rw [started_cons_of_started h, started_cons_of_started h]
          exact Nat.succ_le_succ (ih _ _)
        · rw [started_cons_of_ne h, started_cons_of_ne h]
          exact ih _ _

/-- Where all other nodes have ended, a tick of a hub that stops spends its count on nodes nobody has stopped. -/
theorem started_sweep_stopping (disconnects : Nat → Bool) {shutdownCount : Nat} (hcount : 0 < shutdownCount)
    (index : Nat) {nodes : List ListedNode} (hended : ∀ n ∈ nodes, n.status ≠ .kStarted → n.erasable = true) :
    started (sweep false disconnects shutdownCount index nodes) = started nodes - shutdownCount := by
  induction nodes generalizing shutdownCount index with
  | nil => exact (Nat.zero_sub _).symm
  | cons n nodes ih =>
      obtain ⟨hn, hended⟩ := List.forall_mem_cons.mp hended
      by_cases hstarted : n.status = .kStarted
      · have herase : ¬ n.erasable = true := fun h => by simp [ListedNode.status_of_erasable h] at hstarted
        rw [sweep, if_neg herase, if_pos (by rfl), started_cons_of_started hstarted]
        split_ifs with hlast
        · -- the count is spent on this node
          rw [started_cons_of_ne n.stop_status_ne]
          omega
        · rw [started_cons_of_ne n.stop_status_ne, ih (by omega) _ hended]
          omega
      · rw [sweep, if_pos (hn hstarted), started_cons_of_ne hstarted]
        exact ih hcount _ hended

theorem started_set_le {nodes : List ListedNode} {index : Nat} {node : ListedNode}
    (h : node.status = .kStarted → ∀ n ∈ nodes[index]?, n.status = .kStarted) :
    started (nodes.set index node) ≤ started nodes := by
  induction nodes generalizing index with
  | nil => exact le_refl _
  | cons n nodes ih =>
      cases index with
      | zero =>
          rw [List.set_cons_zero]
          by_cases hnode : node.status = .kStarted
          · rw [started_cons_of_started hnode, started_cons_of_started (h hnode n rfl)]
          · rw [started_cons_of_ne hnode]
            exact started_le_cons n nodes
      | succ index =>
          rw [List.set_cons_succ]
          have ih := ih (fun hnode => by simpa using h hnode)
          by_cases hn : n.status = .kStarted
          · rw [started_cons_of_started hn, started_cons_of_started hn]
            exact Nat.succ_le_succ ih
          · rwa [started_cons_of_ne hn, started_cons_of_ne hn]

namespace Shutdown

variable {h h' : Shutdown}

/-- A tick that knows of the end of the hub. -/
def endTick : ShutdownEvent → Bool
  | .tick running _ => !running
  | _ => false

def ticks (events : List ShutdownEvent) : Nat := events.countP endTick

theorem ticks_cons_of_endTick {e : ShutdownEvent} (h : endTick e = true) (events : List ShutdownEvent) :
    ticks (e :: events) = ticks events + 1 := List.countP_cons_of_pos h

theorem ticks_cons_of_not {e : ShutdownEvent} (h : ¬ endTick e = true) (events : List ShutdownEvent) :
    ticks (e :: events) = ticks events := List.countP_cons_of_neg h

/-- A node that was stopped has ended by the next tick, and no node is started again. -/
def Responsive (h : Shutdown) : ShutdownEvent → Prop
  | .tick _ _ => ∀ n ∈ h.nodes, n.status ≠ .kStarted → n.erasable = true
  | .nodeChanges index node => node.status = .kStarted → ∀ n ∈ h.nodes[index]?, n.status = .kStarted
  | _ => True

instance (h : Shutdown) : ∀ e, Decidable (h.Responsive e)
  | .tick _ _ => inferInstanceAs (Decidable (∀ n ∈ h.nodes, n.status ≠ .kStarted → n.erasable = true))
  | .nodeChanges index node =>
    inferInstanceAs (Decidable (node.status = .kStarted → ∀ n ∈ h.nodes[index]?, n.status = .kStarted))
  | .stop | .enterLoop | .wait | .timeOut | .wakeUp => inferInstanceAs (Decidable True)

theorem nodes_onServiceTimerExpired (running : Bool) (disconnects : Nat → Bool) (h : Shutdown) :
    (h.onServiceTimerExpired running disconnects).nodes = sweep running disconnects 32 0 h.nodes := by
  unfold onServiceTimerExpired
  dsimp only
  split_ifs <;> rfl

def ownChange (nodes : List ListedNode) : ShutdownEvent → List ListedNode
  | .nodeChanges index node => nodes.set index node
  | _ => nodes

/-- What a step other than a tick does to the nodes and the timer. -/
theorem step_between {e : ShutdownEvent} (htick : ∀ running disconnects, e ≠ .tick running disconnects)
    (hstep : h.step e = some h') : h'.ticking = h.ticking ∧ h'.nodes = ownChange h.nodes e := by
  cases e with
  | tick running disconnects => exact absurd rfl (htick running disconnects)
  | nodeChanges index node =>
      cases hstep
      exact ⟨rfl, rfl⟩
  | stop | enterLoop | wait | timeOut | wakeUp =>
      simp only [Shutdown.step] at hstep
      split_ifs at hstep
      cases hstep
      exact ⟨rfl, rfl⟩

theorem step_tick {running : Bool} {disconnects : Nat → Bool} (hstep : h.step (.tick running disconnects) = some h') :
    h.ticking = true ∧ h' = h.onServiceTimerExpired running disconnects := by
  simp only [Shutdown.step] at hstep
  obtain ⟨hguard, hstep⟩ := Option.ite_none_right_eq_some.mp hstep
  exact ⟨hguard.1, (Option.some.inj hstep).symm⟩

theorem started_step_le {e : ShutdownEvent} (hok : h.Responsive e) (hstep : h.step e = some h') :
    started h'.nodes ≤ started h.nodes := by
  cases e with
  | tick running disconnects =>
      rw [(step_tick hstep).2, nodes_onServiceTimerExpired]
      exact started_sweep_le _ _ _ _ _
  | nodeChanges index node =>
      rw [(step_between (fun _ _ => by simp) hstep).2]
      exact started_set_le hok
  | stop | enterLoop | wait | timeOut | wakeUp =>
      exact (congrArg started (step_between (fun _ _ => by simp) hstep).2).le

def Drained (h : Shutdown) : Prop := h.nodes = [] ∧ h.ticking = false

/-- After the last tick there is no other one, and there are no nodes. -/
theorem Drained.run {events : List ShutdownEvent} (hdrained : h.Drained) (hrun : runSystem step h events = some h') :
    ticks events = 0 ∧ h'.Drained := by
  induction events generalizing h with
  | nil =>
      cases hrun
      exact ⟨rfl, hdrained⟩
  | cons e events ih =>
      obtain ⟨h₁, hfirst, hrest⟩ := Option.bind_eq_some_iff.mp hrun
      obtain ⟨hnodes, hended⟩ := hdrained
      have htick : ∀ running disconnects, e ≠ .tick running disconnects := by
        rintro running disconnects rfl
        rw [(step_tick hfirst).1] at hended
        cases hended
      obtain ⟨hticking, hown⟩ := step_between htick hfirst
      have hempty : ownChange h.nodes e = [] := by
        rw [hnodes]
        cases e <;> rfl
      obtain ⟨hzero, hlast⟩ := ih ⟨hown.trans hempty, hticking.trans hended⟩ hrest
      have hnot : ¬ endTick e = true := by
        cases e with
        | tick running disconnects => exact absurd rfl (htick running disconnects)
        | _ => simp [endTick]
      exact ⟨(ticks_cons_of_not hnot events).trans hzero, hlast⟩

/-- A tick at which every node has been stopped is the last one. -/
theorem drained_tick {disconnects : Nat → Bool} (hok : h.Responsive (.tick false disconnects))
    (hall : started h.nodes = 0) : (h.onServiceTimerExpired false disconnects).Drained := by
  have hempty : sweep false disconnects 32 0 h.nodes = [] :=
    (sweep_eq_nil_iff _ _ _ _ _).mpr fun n hn => hok n hn (started_eq_zero.mp hall n hn)
  unfold onServiceTimerExpired
  dsimp only
  rw [if_pos ⟨rfl, hempty⟩]
  exact ⟨hempty, rfl⟩

/-- **The nodes are gone in time.** In every run in which a node that was stopped has ended by the next tick, a hub that
stops ticks at most once for every 32 nodes that were not stopped and once more, and then the nodes are gone. -/
theorem drain_bounded {events : List ShutdownEvent} (hrun : runSystem step h events = some h')
    (hok : Throughout step Responsive h events) :
    ticks events ≤ (started h.nodes + 31) / 32 + 1 ∧
      (ticks events = (started h.nodes + 31) / 32 + 1 → h'.Drained) := by
  -- by induction on the run; only a tick of a hub that stops lowers the number of nodes to be stopped
  induction events generalizing h with
  | nil => exact ⟨Nat.zero_le _, fun hzero => absurd hzero (by simp [ticks])⟩
  | cons e events ih =>
      obtain ⟨h₁, hfirst, hrest⟩ := Option.bind_eq_some_iff.mp hrun
      obtain ⟨hresponsive, hlater⟩ := hok
      obtain ⟨hle, hlast⟩ := ih hrest (hlater h₁ hfirst)
      by_cases hend : endTick e = true
      · rw [ticks_cons_of_endTick hend]
        cases e with
        | tick running disconnects =>
            obtain rfl : running = false := by simpa [endTick] using hend
            obtain ⟨-, rfl⟩ := step_tick hfirst
            by_cases hall : started h.nodes = 0
            · -- all nodes have been stopped before, and have ended
              obtain ⟨hzero, hdrained⟩ := (drained_tick hresponsive hall).run hrest
              exact ⟨by omega, fun _ => hdrained⟩
            · -- the tick stops the next 32 nodes
              have hnext : started (h.onServiceTimerExpired false disconnects).nodes = started h.nodes - 32 := by
                rw [nodes_onServiceTimerExpired]
                exact started_sweep_stopping disconnects (by decide) 0 hresponsive
              rw [hnext] at hle hlast
              exact ⟨by omega, fun heq => hlast (by omega)⟩
        | _ => cases hend
      · rw [ticks_cons_of_not hend]
        have hmono := started_step_le hresponsive hfirst
        exact ⟨by omega, fun heq => hlast (by omega)⟩

/-- A hub with 33 nodes: two ticks stop them, and the third one finds nobody any more. -/
def thirtyThree : List ShutdownEvent :=
  let ended := fun index => ShutdownEvent.nodeChanges index ⟨.kNotStarted, 1⟩
  [.stop, .tick false fun _ => false] ++ (List.range 32).map ended ++
    [.tick false fun _ => false, ended 0, .tick false fun _ => false]

theorem drain_bounded_thirtyThree :
    ∃ h', runSystem step (start (List.replicate 33 ⟨.kStarted, 2⟩)) thirtyThree = some h' ∧
    ticks thirtyThree = 3 ∧ h'.Drained := by
  have hrun : runSystem step (start (List.replicate 33 ⟨.kStarted, 2⟩)) thirtyThree =
      some { running := false, nodes := [], ticking := false, phase := .closing } := by decide +kernel
  exact ⟨_, hrun, by decide +kernel, (drain_bounded hrun (by decide +kernel)).2 (by decide +kernel)⟩

end Shutdown

end Znode.Hub
