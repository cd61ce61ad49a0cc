import Mathlib
import Znode.Lib.System

/-!
# The end of a hub

`NodeHub::stop` waits for the last node to be gone. It is the service timer that stops the nodes and removes them; when
none is left it notifies the condition variable once and ticks no more.

* `ListedNode`, `sweep` : an element of `nodes_`, and the loop of `on_service_timer_expired`;
* `Shutdown`, `Shutdown.step` : the hub, its service timer, and where `stop` is. The wait may time out and may wake up
  for no reason; a notification reaches only a thread that waits;
* `Shutdown.Met` : `stop` leaves its loop when there are no nodes, and is not left alone in it;
* `Shutdown.orderly` : the last tick finds `stop` waiting, and nothing wakes it up while there are nodes;
* `stop_meets_timer` : then they meet.

Nodes are added before `stop` closes the feeds.
-/

namespace Znode.Hub
open Znode.Lib

inductive ComponentStatus where
  | kNotStarted
  | kStarted
  | kStopping
deriving DecidableEq, Repr

/-- A node in `nodes_`, and how many pointers to it there are. -/
structure ListedNode where
  status : ComponentStatus
  useCount : Nat
deriving DecidableEq, Repr

namespace ListedNode

def stop (n : ListedNode) : ListedNode := if n.status = .kStarted then { n with status := .kStopping } else n

def erasable (n : ListedNode) : Bool := n.status = .kNotStarted ∧ n.useCount = 1

end ListedNode

/-- The loop of `on_service_timer_expired`; `index` is `it_index`, and `disconnects` says which nodes are idle or were
chosen at random. -/
def sweep (running : Bool) (disconnects : Nat → Bool) : Nat → Nat → List ListedNode → List ListedNode
  | _, _, [] => []
  | shutdownCount, index, n :: nodes =>
    if n.erasable then sweep running disconnects shutdownCount index nodes
    else if !running || disconnects index then
      if shutdownCount - 1 = 0 then n.stop :: nodes
      else n.stop :: sweep running disconnects (shutdownCount - 1) (index + 1) nodes
    else n :: sweep running disconnects shutdownCount (index + 1) nodes

/-- Where `NodeHub::stop` is: in its loop it is `looping` outside of `wait_for`, and `waiting` in it. -/
inductive StopPhase where
  | notCalled
  | closing
  | looping
  | waiting
  | left
deriving DecidableEq, Repr

def StopPhase.inLoop : StopPhase → Bool
  | looping | waiting => true
  | _ => false

/-- A hub, its service timer and its `stop`. -/
structure Shutdown where
  running : Bool := true
  nodes : List ListedNode
  /-- The service timer goes on. -/
  ticking : Bool := true
  phase : StopPhase := .notCalled
deriving DecidableEq, Repr

/-- A step of the timer, of a node or of the thread that stops the hub. -/
inductive ShutdownEvent where
  | tick (running : Bool) (disconnects : Nat → Bool)
  | nodeChanges (index : Nat) (node : ListedNode)
  | stop
  | enterLoop
  | wait
  | timeOut
  | wakeUp

namespace Shutdown

/-- `on_service_timer_expired`, after it has read whether the hub runs, and the end of `Timer::work`. -/
def onServiceTimerExpired (running : Bool) (disconnects : Nat → Bool) (h : Shutdown) : Shutdown :=
  let nodes := sweep running disconnects 32 0 h.nodes
  if !running ∧ nodes = [] then
    { h with nodes := nodes, ticking := false, phase := if h.phase = .waiting then .left else h.phase }
  else { h with nodes := nodes }

def step (h : Shutdown) : ShutdownEvent → Option Shutdown
  -- a tick may have read the status before `stop` changed it
  | .tick running disconnects =>
    if h.ticking ∧ (running ∨ !h.running) then some (h.onServiceTimerExpired running disconnects) else none
  | .nodeChanges index node => some { h with nodes := h.nodes.set index node }
  | .stop => if h.phase = .notCalled then some { h with running := false, phase := .closing } else none
  | .enterLoop => if h.phase = .closing then some { h with phase := .looping } else none
  | .wait => if h.phase = .looping then some { h with phase := .waiting } else none
  | .timeOut => if h.phase = .waiting then some { h with phase := .looping } else none
  | .wakeUp => if h.phase = .waiting then some { h with phase := .left } else none

/-- `stop` has left its loop only if there are no nodes, and is not in it when nobody can notify it. -/
def Met (h : Shutdown) : Prop :=
  (h.phase = .left → h.nodes = []) ∧ ¬ (h.phase.inLoop = true ∧ h.nodes = [] ∧ h.ticking = false)

instance (h : Shutdown) : Decidable h.Met :=
  inferInstanceAs (Decidable ((h.phase = .left → h.nodes = []) ∧
    ¬ (h.phase.inLoop = true ∧ h.nodes = [] ∧ h.ticking = false)))

/-- A tick that finds all nodes terminated finds `stop` waiting, and `stop` is not woken up while there are nodes. -/
def orderly (h : Shutdown) : ShutdownEvent → Bool
  | .tick running _ => running || h.phase = .waiting || h.phase = .left || h.nodes.any fun n => !n.erasable
  | .wakeUp => h.nodes = []
  | _ => true

end Shutdown

/-! ## The rendezvous -/

/-- Nothing is left exactly of nodes that have terminated. -/
theorem sweep_eq_nil_iff (running : Bool) (disconnects : Nat → Bool) (shutdownCount index : Nat)
    (nodes : List ListedNode) :
    sweep running disconnects shutdownCount index nodes = [] ↔ ∀ n ∈ nodes, n.erasable := by
  induction nodes generalizing shutdownCount index with
  | nil => simp [sweep]
  | cons n nodes ih =>
      rw [sweep, List.forall_mem_cons]
      by_cases hn : n.erasable
      · rw [if_pos hn, ih]
        simp [hn]
      · rw [if_neg hn]
        refine iff_of_false ?_ (fun hall => hn hall.1)
        split_ifs <;> simp

namespace Shutdown

variable {h h' : Shutdown}

/-- The timer ends with `stop`. -/
structure Paired (h : Shutdown) : Prop where
  left : h.phase = .left → h.nodes = []
  ended : h.ticking = false → h.phase = .left

theorem Paired.met (hp : h.Paired) : h.Met := by
  refine ⟨hp.left, fun hstuck => ?_⟩
  obtain ⟨hin, -, hended⟩ := hstuck
  rw [hp.ended hended] at hin
  cases hin

theorem Paired.tick (hp : h.Paired) {running : Bool} {disconnects : Nat → Bool}
    (hok : h.orderly (.tick running disconnects) = true) :
    (h.onServiceTimerExpired running disconnects).Paired := by
  unfold onServiceTimerExpired
  dsimp only
  by_cases hlast : !running ∧ sweep running disconnects 32 0 h.nodes = []
  · -- the last tick: `stop` waits for it or has left
    rw [if_pos hlast]
    obtain ⟨hstopping, hempty⟩ := hlast
    have hstopping : running = false := by simpa using hstopping
    have hnone : (h.nodes.any fun n => !n.erasable) = false := by
      simpa using (sweep_eq_nil_iff _ _ _ _ _).mp hempty
    have hphase : h.phase = .waiting ∨ h.phase = .left := by
      simpa [orderly, hnone, hstopping] using hok
    refine ⟨fun _ => hempty, fun _ => ?_⟩
    rcases hphase with hphase | hphase <;> simp [hphase]
  · rw [if_neg hlast]
    refine ⟨fun hleft => ?_, hp.ended⟩
    change sweep running disconnects 32 0 h.nodes = []
    rw [hp.left hleft, sweep]

/-- What an orderly step keeps. -/
theorem Paired.step {e : ShutdownEvent} (hp : h.Paired) (hok : h.orderly e = true) (hstep : h.step e = some h') :
    h'.Paired := by
  cases e with
  | tick running disconnects =>
      simp only [Shutdown.step] at hstep
      split_ifs at hstep
      cases hstep
      exact hp.tick hok
  | nodeChanges index node =>
      cases hstep
      refine ⟨fun hleft => ?_, hp.ended⟩
      change h.nodes.set index node = []
      rw [hp.left hleft, List.set_nil]
  | wakeUp =>
      simp only [Shutdown.step] at hstep
      split_ifs at hstep
      cases hstep
      exact ⟨fun _ => of_decide_eq_true hok, fun _ => rfl⟩
  | stop | enterLoop | wait | timeOut =>
      simp only [Shutdown.step] at hstep
      split_ifs at hstep with hphase
      cases hstep
      refine ⟨fun hleft => (nomatch hleft), fun hended => ?_⟩
      exact absurd (hphase.symm.trans (hp.ended hended)) (by decide)

def start (nodes : List ListedNode) : Shutdown := { nodes := nodes }

/-- **`NodeHub::stop` leaves its loop when all nodes are gone, and is never left alone in it**, in every run in which
the last tick finds it waiting and nothing wakes it up before. -/
theorem stop_meets_timer (nodes : List ListedNode) (events : List ShutdownEvent) {h : Shutdown}
    (hrun : runSystem step (start nodes) events = some h)
    (hok : Throughout step (fun h e => h.orderly e = true) (start nodes) events) : h.Met := by
  have hinit : (start nodes).Paired := ⟨fun hleft => (nomatch hleft), fun hended => (nomatch hended)⟩
  exact (runSystem_invariant (fun _ _ _ hp hok hstep => hp.step hok hstep) hinit hok hrun).met

/-- A hub with one node is stopped: the first tick asks the node to stop, the second one removes it. -/
def oneNode : List ShutdownEvent :=
  [.stop, .enterLoop, .wait, .tick false fun _ => false, .timeOut, .nodeChanges 0 ⟨.kNotStarted, 1⟩, .wait,
    .tick false fun _ => false]

theorem stop_meets_timer_oneNode : ∃ h, runSystem step (start [⟨.kStarted, 2⟩]) oneNode = some h ∧ h.phase = .left ∧
    h.Met := by
  have hrun : runSystem step (start [⟨.kStarted, 2⟩]) oneNode =
      some { running := false, nodes := [], ticking := false, phase := .left } := by decide +kernel
  exact ⟨_, hrun, rfl, stop_meets_timer _ oneNode hrun (by decide +kernel)⟩

/-- The wait wakes up for no reason, and `stop` goes on although there is a node. Or the last tick comes before the
wait; then nobody notifies `stop` any more. -/
theorem stop_misses_timer :
    (∃ h, runSystem step (start [⟨.kStarted, 2⟩]) [.stop, .enterLoop, .wait, .wakeUp] = some h ∧ h.phase = .left ∧
      h.nodes ≠ [] ∧ ¬ h.Met) ∧
    ∃ h, runSystem step (start []) [.stop, .tick false fun _ => false, .enterLoop, .wait] = some h ∧
      h.phase = .waiting ∧ h.ticking = false ∧ ¬ h.Met :=
  ⟨⟨{ running := false, nodes := [⟨.kStarted, 2⟩], phase := .left }, by decide +kernel⟩,
    ⟨{ running := false, nodes := [], ticking := false, phase := .waiting }, by decide +kernel⟩⟩

end Shutdown

end Znode.Hub
